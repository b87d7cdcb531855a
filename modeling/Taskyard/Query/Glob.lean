/-!
# Query — glob patterns

A pattern matches exactly, except that stars at its start and at its end stand for any text. Stars
inside stand for themselves.

Main definitions:

* `Glob.matches` — whether a text matches a pattern.
-/

namespace Taskyard.Glob

/-- Whether `part` occurs in a list of characters. -/
def occursIn (part : List Char) : List Char → Bool
  | [] => part.isEmpty
  | c :: rest => part.isPrefixOf (c :: rest) || occursIn part rest

/-- A pattern without the stars at its start and at its end. -/
def core (pattern : List Char) : List Char :=
  ((pattern.dropWhile (· = '*')).reverse.dropWhile (· = '*')).reverse

/-- Whether a list of characters matches a pattern. -/
def matchesChars (pattern value : List Char) : Bool :=
  if pattern = ['*'] then true
  else match pattern.head? == some '*', pattern.getLast? == some '*' with
    | true, true => occursIn (core pattern) value
    | true, false => (core pattern).isSuffixOf value
    | false, true => (core pattern).isPrefixOf value
    | false, false => value == pattern

/-- Whether a text matches a pattern: `glob_match`. -/
def «matches» (pattern value : String) : Bool := matchesChars pattern.toList value.toList

end Taskyard.Glob
