import Taskyard.Job.Basic
import Taskyard.Fault
import Taskyard.Text.Columns
import Taskyard.Text.Split

/-!
# Console — what is printed

Main definitions:

* `jobLine`, `taskLine` — a job or a task in a list.
* `Complaint` — why something could not be done.
-/

namespace Taskyard.Console

/-- A job in a list. -/
def jobLine (j : Job) : String :=
  Text.padRight 20 j.id ++ " " ++ Text.padRight 30 j.label ++ " " ++
    Text.padRight 12 j.owner ++ " " ++ Text.joinWith "," j.eventNames ++
    (if j.inactive then " (inactive)" else "") ++ "\n"

/-- A task in a list. -/
def taskLine (t : Task) : String :=
  Text.padRight 38 t.id ++ " " ++ Text.padRight 20 t.jobId ++ " " ++
    Text.padRight 12 t.status.name ++ " " ++ Text.padLeft 3 (Text.numeral t.logs.length) ++
    " action(s)  " ++ t.statusMessage ++ "\n"

/-- How many there are. -/
def countLine (n : Nat) (noun : String) : String := Text.numeral n ++ " " ++ noun ++ "(s)\n"

/-- Why something could not be done: in short, and the causes of it. -/
structure Complaint where
  /-- In short. -/
  summary : String
  /-- The causes, each of them caused by the next. -/
  causes : List String := []

/-- A single cause alone, and several with their numbers. -/
def causeLines (causes : List String) : String :=
  match causes with
  | [cause] => "    " ++ cause ++ "\n"
  | causes =>
    String.join (causes.zipIdx.map fun (cause, n) =>
      "    " ++ Text.numeral n ++ ": " ++ cause ++ "\n")

/-- The text of a complaint. -/
def Complaint.text (c : Complaint) : String :=
  "Error: " ++ c.summary ++ "\n" ++
    if c.causes.isEmpty then "" else "\nCaused by:\n" ++ causeLines c.causes

/-- The words of a fault of something below the service. -/
def innerCause : Fault → List String
  | .database why | .serialization why | .io why => [why]
  | _ => []

/-- The complaint about a fault. -/
def Complaint.ofFault (f : Fault) : Complaint := ⟨f.message, innerCause f⟩

/-- The complaint about a fault in the course of something else. -/
def Complaint.during (what : String) (f : Fault) : Complaint := ⟨what, f.message :: innerCause f⟩

end Taskyard.Console
