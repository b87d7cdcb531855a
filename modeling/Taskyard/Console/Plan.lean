import Taskyard.Catalog.Basic
import Taskyard.Console.Report

/-!
# Console — plans

What a command does is told as a plan: it reads files and opens the catalog, going on with what it
finds, keeps the catalog as it has become, and ends with an outcome. A plan does nothing itself; it
can be carried out on a real disk or on one that is only imagined.

Main definitions:

* `Outcome` — what is printed, and the exit code.
* `ReadFault` — why a file cannot be read.
* `Plan` — the course of a command.
-/

namespace Taskyard.Console

/-- What is printed, and the exit code. -/
structure Outcome where
  /-- The exit code. -/
  code : Nat := 0
  /-- What is printed. -/
  output : String := ""
  /-- What is printed about errors. -/
  errors : String := ""

/-- An outcome of success. -/
def Outcome.saying (s : String) : Outcome := { output := s }

/-- The outcome of a failure, after something was printed. -/
def Outcome.failing (c : Complaint) (printed : String) : Outcome :=
  { code := 1, output := printed, errors := c.text }

/-- Why a file cannot be read. -/
inductive ReadFault where
  /-- There is none. -/
  | missing
  /-- It is a folder. -/
  | folder
  /-- A part of its path is not a folder. -/
  | blocked
  /-- Its bytes are not a text. -/
  | garbled
  deriving DecidableEq, Repr

/-- The text of a failure to read. -/
def ReadFault.text : ReadFault → String
  | .missing => "No such file or directory (os error 2)"
  | .folder => "Is a directory (os error 21)"
  | .blocked => "Not a directory (os error 20)"
  | .garbled => "stream did not contain valid UTF-8"

/-- Whether there is something at the path of a file that could not be read. -/
def ReadFault.exists : ReadFault → Bool
  | .folder | .garbled => true
  | .missing | .blocked => false

/-- The course of a command. -/
inductive Plan where
  /-- It ends. -/
  | finish (o : Outcome)
  /-- It reads a file and goes on with its text. -/
  | readText (path : String) (next : Except ReadFault String → Plan)
  /-- It opens the catalog at a path, which is created if it is not there, and goes on with it. -/
  | openCatalog (path : String) (next : Except Fault Catalog → Plan)
  /-- It keeps the catalog at a path as it has become. -/
  | keep (path : String) (c : Catalog) (next : Plan)

/-- The plan of a failure. -/
def Plan.fail (c : Complaint) : Plan := .finish (.failing c "")

/-- The plan of a success. -/
def Plan.say (s : String) : Plan := .finish (.saying s)

end Taskyard.Console
