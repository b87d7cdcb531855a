import Taskyard.Console.Plan
import Taskyard.Handler.Builtin
import Taskyard.Scheduler.Clockwork
import Taskyard.Settings.Basic

/-!
# Console — starting a job

A job is started by a scheduler of its own, and the first snapshot of a task of the job that has
ended is what is waited for. The scheduler is shut down when it has come, or when the time is over.

Main definitions:

* `Surroundings` — what the console finds around it.
* `await` — a run until a task of a job has ended.
* `triggerPlan` — the command.
-/

namespace Taskyard.Console

/-- What the console finds around it. -/
structure Surroundings where
  /-- The home directory. -/
  home : String
  /-- The time in seconds. -/
  now : Int64
  /-- What actions can look at. -/
  site : Site
  /-- The identifier of the task that is started as the n-th. -/
  taskId : Nat → String

/-- The first snapshot of a task of a job that has ended, among what was told, the newest first. -/
def firstEnd (jobId : String) (news : List TaskChange) : Option Task :=
  news.reverse.findSome? fun c =>
    c.updated.filter fun t => t.jobId = jobId && t.status.isTerminal

/-- A run until a task of a job has ended or the clock shows a time, with at most so many stops. -/
def await (jobId : String) (limit : Nat) : Nat → Clockwork → Clockwork × Option Task
  | 0, k => (k, none)
  | stops + 1, k =>
    let k := k.settle
    match firstEnd jobId k.machine.news, k.nextDue limit with
    | some t, _ => (k, some t)
    | none, some due => await jobId limit stops (k.wake due)
    | none, none => (k, none)

/-- The scheduler of a catalog. -/
def scheduler (e : Surroundings) (s : Settings) (c : Catalog) : Except Fault Clockwork :=
  let setup := s.scheduler.setup ({} : Registry).withBuiltins e.site e.taskId
  (Machine.start setup e.now c s.bus.capacity.toNat).map fun machine => { setup, machine }

/-- What is printed when the wait is over, and the outcome. -/
def triggerOutcome (j : Job) (seconds : Nat) (ended : Option Task) : Outcome :=
  let started := "▶️ Triggered '" ++ j.label ++ "' (" ++ j.id ++ ")\n"
  match ended with
  | none =>
    .failing ⟨"no task of " ++ j.id ++ " ended within " ++ Text.numeral seconds ++ "s", []⟩ started
  | some t =>
    let printed := started ++ taskLine t
    if t.status = .finished then .saying printed
    else .failing ⟨"task ended as " ++ t.status.name, []⟩ printed

/-- The command that starts a job and waits for so many seconds. Without any time it sees no end. -/
def triggerPlan (e : Surroundings) (s : Settings) (path : String) (c : Catalog) (jobId : String)
    (seconds : Nat) : Plan :=
  match c.getJob jobId .unknown, scheduler e s c with
  | .error f, _ => .fail (.ofFault f)
  | .ok _, .error f => .fail (.ofFault f)
  | .ok j, .ok k =>
    let k := (k.publish (.trigger (.immediate j.id))).1
    let (k, ended) := await j.id (seconds * 1000) Clockwork.patience k
    let ended := if seconds = 0 then none else ended
    .keep path k.machine.floor.catalog (.finish (triggerOutcome j seconds ended))

end Taskyard.Console
