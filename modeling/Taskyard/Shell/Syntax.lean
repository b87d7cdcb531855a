import Taskyard.Shell.Pattern

/-!
# Shell — programs

The form of programs of a small command language. A program is a row of phrases. The simplest phrase
is a command with its words; others join phrases by pipes, by their success, or by choice and
repetition.

Main definitions:

* `Part`, `Word` — words with what is put in for variables and programs inside them.
* `Phrase` — programs.
-/

namespace Taskyard.Shell

/-- One of the three streams of a command. -/
inductive Channel where
  /-- What it reads. -/
  | input
  /-- What it writes. -/
  | output
  /-- Where it writes what goes wrong. -/
  | errors
  deriving DecidableEq, Repr

mutual

/-- A part of a word. Parts that are not quoted may fall apart at blanks. -/
inductive Part where
  /-- Characters that stand for themselves. -/
  | text (quoted : Bool) (s : String)
  /-- The value of a variable, or other parts where it has none or an empty one. -/
  | value (quoted : Bool) (name : String) (otherwise : List Part)
  /-- Other parts where a variable has a value that is not empty. -/
  | given (name : String) (instead : List Part)
  /-- The number of characters of the value of a variable. -/
  | size (quoted : Bool) (name : String)
  /-- The value of a variable without what a pattern fits at one end of it. -/
  | trimmed (quoted : Bool) (name : String) (trim : Pattern.Trim) (pattern : List Part)
  /-- The value of an expression over whole numbers. -/
  | sum (quoted : Bool) (expression : List Part)
  /-- What a program writes, without line feeds at its end. -/
  | output (quoted : Bool) (program : Phrase)

/-- Where a stream goes to or comes from. -/
inductive Redirection where
  /-- A file, to whose end something may be added. -/
  | file (channel : Channel) (append : Bool) (name : List Part)
  /-- The place of another stream. -/
  | same (channel other : Channel)

/-- A phrase. -/
inductive Phrase where
  /-- Settings of variables, and a command with its arguments. -/
  | plain (settings : List (String × List Part)) (words : List (List Part))
  /-- Phrases one after another. -/
  | row (phrases : List Phrase)
  /-- Phrases that read what the one before them writes. -/
  | pipe (stages : List Phrase)
  /-- A phrase with the opposite status. -/
  | negated (phrase : Phrase)
  /-- A phrase, and a second one if the first succeeds. -/
  | andThen (first second : Phrase)
  /-- A phrase, and a second one if the first fails. -/
  | orElse (first second : Phrase)
  /-- One phrase or another, as a condition succeeds or fails. -/
  | branch (condition yes no : Phrase)
  /-- A phrase over and over, as long as a condition succeeds, or fails. -/
  | whilst (succeeds : Bool) (condition body : Phrase)
  /-- A phrase for each of several words. -/
  | each (name : String) (words : List (List Part)) (body : Phrase)
  /-- The first phrase with a pattern that fits a word. -/
  | choose (word : List Part) (arms : List (List (List Part) × Phrase))
  /-- A phrase whose changes of variables are forgotten. -/
  | apart (phrase : Phrase)
  /-- A phrase with its streams elsewhere. -/
  | redirected (phrase : Phrase) (redirections : List Redirection)

end

/-- A word. -/
abbrev Word := List Part

/-- The phrase that does nothing. -/
def Phrase.nothing : Phrase := .row []

end Taskyard.Shell
