import Taskyard.Decimal.Binary
import Taskyard.Job.Action
import Taskyard.Text.Letters

/-!
# Jobs — tasks

A task is one execution of a job, started by one event. Its record tells how far it has come and
holds a log for every action that was executed.

Main definitions:

* `TaskStatus` — the states of a task, with the wildcard that queries use.
* `ActionLog`, `Task` — the record.
-/

namespace Taskyard

/-- The state of a task. -/
inductive TaskStatus where
  /-- Not known; as a query, no task at all. -/
  | unknown
  /-- Created. -/
  | idle
  /-- Being executed. -/
  | running
  /-- Halted for a while. -/
  | paused
  /-- Ended in the regular way. -/
  | finished
  /-- Ended from outside. -/
  | interrupted
  /-- Ended with a failure. -/
  | error
  /-- As a query, any state; never the state of a task. -/
  | any
  deriving DecidableEq, Repr

namespace TaskStatus

/-- The number of a state. -/
def code : TaskStatus → Nat
  | .unknown => 0
  | .idle => 1
  | .running => 2
  | .paused => 3
  | .finished => 4
  | .interrupted => 5
  | .error => 6
  | .any => 7

/-- The state with a number. -/
def ofCode? : Int → Option TaskStatus
  | 0 => some .unknown
  | 1 => some .idle
  | 2 => some .running
  | 3 => some .paused
  | 4 => some .finished
  | 5 => some .interrupted
  | 6 => some .error
  | 7 => some .any
  | _ => none

/-- What is said of a number that no state has. -/
def unknownCode (n : Int) : String := "unknown task status " ++ Text.integer n

/-- Reading a number gives back the state that has it. -/
theorem ofCode?_code (s : TaskStatus) : ofCode? s.code = some s := by cases s <;> rfl

/-- The name of a state. -/
def name : TaskStatus → String
  | .unknown => "unknown"
  | .idle => "idle"
  | .running => "running"
  | .paused => "paused"
  | .finished => "finished"
  | .interrupted => "interrupted"
  | .error => "error"
  | .any => "any"

/-- Every state. -/
def all : List TaskStatus :=
  [.unknown, .idle, .running, .paused, .finished, .interrupted, .error, .any]

/-- The state with a name, whatever the case of its letters: `parse`. -/
def ofName? (s : String) : Option TaskStatus :=
  all.find? fun t => t.name == Text.lowerAscii s

/-- Whether the state is asked for by a query: `matches`. -/
def meets (s query : TaskStatus) : Bool := query = .any || s = query

/-- Whether a task in this state has ended. -/
def isTerminal : TaskStatus → Bool
  | .finished | .interrupted | .error => true
  | _ => false

end TaskStatus

/-- The record of one executed action. -/
structure ActionLog where
  /-- The action, without its chained actions. -/
  action : Action
  /-- What it was given. -/
  input : Message
  /-- What it returned. -/
  output : Message

/-- One execution of a job. -/
structure Task where
  /-- The identifier of the task. -/
  id : String
  /-- The identifier of the job. -/
  jobId : String
  /-- The state. -/
  status : TaskStatus
  /-- A remark on the state. -/
  statusMessage : String := ""
  /-- How far the task has come, from zero to one. -/
  progress : Decimal.Single := Decimal.Binary.zero .single
  /-- When the task started, in seconds; zero before. -/
  startTime : Int64 := 0
  /-- When the task ended, in seconds; zero before. -/
  endTime : Int64 := 0
  /-- Whether the task can be stopped. -/
  canStop : Bool := false
  /-- Whether the task can be paused. -/
  canPause : Bool := false
  /-- Whether the task reports how far it has come. -/
  hasProgress : Bool := false
  /-- The executed actions, the oldest first. -/
  logs : List ActionLog := []
  /-- The number of actions that are queued or being executed. -/
  pending : Int := 0

end Taskyard
