import Taskyard.Scheduler.Execution
import Taskyard.Text.Quoted

/-!
# Scheduler — one runnable on its own

The execution of a runnable, or of nothing but its handler, from its beginning to its end with
nothing else between. While it waits, the clock goes on.

Main definitions:

* `Runnable.description` — a runnable in words.
* `Floor.runNext` — the oldest runnable of the main queue is executed.
* `Trial`, `Floor.attempt` — the handler of an action is run on a message, and nothing follows.
-/

namespace Taskyard

/-- A runnable in words: its action, its task and the number of its nodes. -/
def Runnable.description (r : Runnable) (taskId : String) : String :=
  "Runnable \x7b action: " ++ Text.quoted r.action.id ++ ", task: " ++ Text.quoted taskId ++
    ", nodes: " ++ Text.numeral r.input.nodes.length ++ " \x7d"

namespace Execution

/-- The floor after an execution has gone on to its end in at most so many steps, or the reason of a
crash that it leaves to its worker. -/
def toEnd (u : Setup) : Nat → Floor → Execution → Except String Floor
  | 0, f, _ => .ok f
  | steps + 1, f, e =>
    match e.phase with
    | .crashed reason => .error reason
    | _ =>
      let f := match e.due? with
        | some due => { f with clock := max f.clock due }
        | none => f
      match e.step u f with
      | some (f, some e) => toEnd u steps f e
      | some (f, none) => .ok f
      | none => .ok f

end Execution

/-- The greatest number of steps of one execution. -/
def executionSteps : Nat := 10000000

/-- The oldest runnable of the main queue, and the floor after its execution. -/
def Floor.runNext (u : Setup) (f : Floor) : Option (Runnable × Except String Floor) :=
  match f.main with
  | [] => none
  | r :: rest =>
    some (r, Execution.toEnd u executionSteps { f with main := rest } { runnable := r })

/-! ## Handlers on their own -/

/-- How a run of a handler ended. -/
inductive RunEnd where
  /-- With a message. -/
  | message (m : Message)
  /-- With a fault. -/
  | fault (f : Fault)
  /-- With a crash. -/
  | crash (reason : String)

/-- The floor after a whole run for a task, and how the run ended. -/
def Script.runOn (task : Nat) : Floor → Script → Floor × RunEnd
  | f, .finish result => (f, .message (result f.now))
  | f, .refuse fault => (f, .fault fault)
  | f, .crash reason => (f, .crash reason)
  | f, .report progress next => next.runOn task (f.mark task (.setProgress progress))
  | f, .wait millis next => next.runOn task { f with clock := f.clock + millis }
  | f, .prune deletion next =>
    match f.catalog.removeTasks deletion with
    | .ok (catalog, ids, told) => (next (.ok ids)).runOn task ({ f with catalog }.telling told)
    | .error fault => (next (.error fault)).runOn task f

/-- What comes of an action that is tried. -/
inductive Trial where
  /-- It has no handler. -/
  | unknown (fault : Fault)
  /-- Its handler finds fault with it. -/
  | refused (handler : String) (fault : Fault)
  /-- Its handler crashed before the run. -/
  | crashed (handler reason : String)
  /-- It was run. -/
  | ran (handler : String) (floor : Floor) (how : RunEnd)

/-- An action is tried on a message for a task. -/
def Floor.attempt (u : Setup) (f : Floor) (task : Nat) (t : LiveTask) (a : Action)
    (input : Message) : Trial :=
  match u.registry.create a.id with
  | .error fault => .unknown fault
  | .ok handler =>
    match handler.prepare t.job a with
    | .refused fault => .refused handler.name fault
    | .crashed reason => .crashed handler.name reason
    | .ready run =>
      let (f, how) := (run (Execution.context u t) input).runOn task f
      .ran handler.name f how

end Taskyard
