import Taskyard.Scheduler.Floor

/-!
# Scheduler — the execution of a runnable

An execution prepares the handler of its action, runs it, and does what follows from the result. It
goes on in steps that others can come between.

Main definitions:

* `Phase` — how far an execution is.
* `Execution` — a runnable being executed.
* `Execution.step` — one step.
-/

namespace Taskyard

/-- How far an execution is: where `run` of a runnable stands, or the worker that caught its
panic. -/
inductive Phase where
  /-- Nothing has been done. -/
  | fresh
  /-- The handler runs. -/
  | running (script : Script)
  /-- The handler waits until the clock shows a time. -/
  | asleep (due : Nat) (next : Script)
  /-- The preparation crashed, which the worker has to notice. -/
  | crashed (reason : String)
  /-- The run is over; these deeds remain. -/
  | doing (deeds : List Deed)

/-- A runnable being executed: a call of `run`. -/
structure Execution where
  /-- The runnable. -/
  runnable : Runnable
  /-- How far it is. -/
  phase : Phase := .fresh

/-- A floor together with the execution as it goes on, if it does. -/
abbrev Progress := Floor × Option Execution

namespace Execution

/-- The execution at another phase. -/
def turn (e : Execution) (p : Phase) : Option Execution := some { e with phase := p }

/-- The context of a run: its `RunContext`. -/
def context (u : Setup) (t : LiveTask) : Context where
  job := t.job
  taskId := t.record.id
  site := u.site
  allowance := u.allowance

/-- The first step of `execute`: the handler is created and initialized, and `set_running` is called
unless that failed. A panic in `init` goes past `execute` to the worker. -/
def begin (u : Setup) (f : Floor) (t : LiveTask) (e : Execution) : Progress :=
  let r := e.runnable
  match u.registry.create r.action.id with
  | .error fault => (f, e.turn (.doing (r.afterFault f.now fault.message)))
  | .ok handler =>
    match handler.prepare t.job r.action with
    | .refused fault =>
      (f, e.turn (.doing (r.afterFault f.now ("init " ++ r.action.id ++ ": " ++ fault.message))))
    | .crashed reason => (f, e.turn (.crashed reason))
    | .ready run => (f.mark r.task .setRunning, e.turn (.running (run (context u t) r.input)))

/-- A step of the action's own `run`. What it returns, an error or a panic is followed by what
`execute` does with it. -/
def proceed (u : Setup) (f : Floor) (e : Execution) : Script → Progress
  | .finish result =>
    (f, e.turn (.doing (e.runnable.afterOutput u.site.backend u.selectionBuffer (result f.now))))
  | .refuse fault => (f, e.turn (.doing (e.runnable.afterFault f.now fault.message)))
  | .crash reason =>
    (f, e.turn (.doing (e.runnable.afterFault f.now
      ("action " ++ e.runnable.action.id ++ " panicked: " ++ reason))))
  | .report progress next =>
    (f.mark e.runnable.task (.setProgress progress), e.turn (.running next))
  | .wait millis next =>
    (f, e.turn (if millis = 0 then .running next else .asleep (f.clock + millis) next))
  | .prune deletion next =>
    match f.catalog.removeTasks deletion with
    | .ok (catalog, ids, told) =>
      ({ f with catalog }.telling told, e.turn (.running (next (.ok ids))))
    | .error fault => (f, e.turn (.running (next (.error fault))))

/-- One step, if the execution is not asleep. Each step is what `execute` does up to its next access
to something shared. -/
def step (u : Setup) (f : Floor) (e : Execution) : Option Progress :=
  match e.phase with
  | .fresh => (f.tasks[e.runnable.task]?).map fun t => begin u f t e
  | .running script => some (proceed u f e script)
  | .asleep due next => if due ≤ f.clock then some (f, e.turn (.running next)) else none
  | .crashed reason => some (f, e.turn (.doing (e.runnable.afterCrash reason)))
  | .doing [] => some (f, none)
  | .doing (d :: rest) =>
    let (f, more) := f.perform e.runnable.task d
    some (f, e.turn (.doing (more ++ rest)))

/-- Whether the next step changes the catalog. -/
def touchesCatalog (e : Execution) : Bool :=
  match e.phase with
  | .running (.prune _ _) => true
  | _ => false

/-- The time at which an execution wakes, if it is asleep. -/
def due? (e : Execution) : Option Nat :=
  match e.phase with
  | .asleep due _ => some due
  | _ => none

end Execution

end Taskyard
