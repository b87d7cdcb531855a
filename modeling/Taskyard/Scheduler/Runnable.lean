import Taskyard.Handler.Script
import Taskyard.Job.Transition

/-!
# Scheduler — runnables

A runnable is one action to be executed on one message for one task. What its `execute` does to the
task and to the main queue, and what `launch` does when a task starts, is a list of deeds, each of
them one step that others can come between.

Main definitions:

* `Runnable` — the action, the task and the message.
* `Deed` — one step for a task.
* `Runnable.afterFault`, `Runnable.afterOutput` — what is done when a run has ended.
* `rootDeeds` — what is done when a task starts.
-/

namespace Taskyard

/-- One action to be executed on one message for one task. -/
structure Runnable where
  /-- The action. -/
  action : Action
  /-- The number of the task. -/
  task : Nat
  /-- The message. -/
  input : Message

/-- One step for a task: a call of a method of its `TaskHandle`, or a `main_queue.send`. -/
inductive Deed where
  /-- The record of the task changes. -/
  | mark (step : TaskStep)
  /-- A runnable of the task is put into the main queue. -/
  | queue (action : Action) (input : Message)

/-- What is done in place of queueing when the main queue is closed. -/
def Deed.refused : List Deed := [.mark (.interrupt "scheduler stopped"), .mark .release]

namespace Runnable

/-- The log of an execution: the `ActionLog` that `execute` appends. -/
def logOf (r : Runnable) (output : Message) : ActionLog where
  action := r.action.withoutChain
  input := r.input.logInput
  output := output

/-- What is done when an execution has failed before there was an output, as `record_failure` has
it: a log that tells why, and the failure of the task. -/
def recordFailure (r : Runnable) (now : Int64) (reason : String) : List Deed :=
  [.mark (.appendLog (r.logOf (r.input.logInput.withError now reason))), .mark (.fail reason)]

/-- What is done when an execution has failed: `record_failure`, and the `release` of `run`. -/
def afterFault (r : Runnable) (now : Int64) (reason : String) : List Deed :=
  r.recordFailure now reason ++ [.mark .release]

/-- What is done for one chained action, given the messages that it is run on: `add_ref` and a send
for each of them, or the failure of the task when `expand` failed. -/
def childDeeds (chained : Action) : Except Fault (List Message) → List Deed
  | .error e => [.mark (.fail ("select for " ++ chained.id ++ ": " ++ e.message))]
  | .ok inputs => inputs.flatMap fun input => [.mark .retain, .queue chained input]

/-- What is done for all chained actions on an output: the loop of `execute` over them. -/
def descend (r : Runnable) (b : Backend) (buffer : Nat) (output : Message) : List Deed :=
  r.action.chained.flatMap fun chained => childDeeds chained (chained.expand b buffer output)

/-- The reason of a failure that an output tells of: that of a `last_output` without success. -/
def failureOf (output : Message) : Option String :=
  (output.lastOutput.filter fun o => !o.success).map (·.errorText)

/-- What `execute` does with an output, and the `release` of `run`: the log; the failure of the task
if the output is one, and otherwise the chained actions. -/
def afterOutput (r : Runnable) (b : Backend) (buffer : Nat) (output : Message) : List Deed :=
  .mark (.appendLog (r.logOf output.logOutput)) ::
    match failureOf output with
    | some reason => [.mark (.fail reason), .mark .release]
    | none => r.descend b buffer output ++ [.mark .flush, .mark .release]

/-- What the loop of a `worker` does when it has caught a panic that `execute` let pass: the failure
and the release of the task, and no log. -/
def afterCrash (r : Runnable) (reason : String) : List Deed :=
  [.mark (.fail ("action " ++ r.action.id ++ " panicked: " ++ reason)), .mark .release]

end Runnable

/-! ## The start of a task -/

/-- The failures among the root actions of a job on a message: those that `launch` meets when it
expands them. -/
def rootFailures (b : Backend) (buffer : Nat) (root : Message) (actions : List Action) :
    List String :=
  actions.filterMap fun a =>
    match a.expand b buffer root with
    | .ok _ => none
    | .error e => some ("select for " ++ a.id ++ ": " ++ e.message)

/-- The root actions with the messages that they are run on, as `launch` collects them. -/
def rootInputs (b : Backend) (buffer : Nat) (root : Message) (actions : List Action) :
    List (Action × Message) :=
  actions.flatMap fun a =>
    match a.expand b buffer root with
    | .ok inputs => inputs.map (a, ·)
    | .error _ => []

/-- What `launch` does with a new task: the failures of its root actions; then all the references,
one snapshot, and all the runnables; or else, when there is nothing to run and nothing has failed,
the end of the task. -/
def rootDeeds (b : Backend) (buffer : Nat) (root : Message) (actions : List Action) : List Deed :=
  let failures := rootFailures b buffer root actions
  let inputs := rootInputs b buffer root actions
  failures.map (fun reason => .mark (.fail reason)) ++
    if inputs.isEmpty then
      (if failures.isEmpty then [.mark (.setStatus .finished "nothing to run")] else [])
    else
      inputs.map (fun _ => .mark .retain) ++ .mark .flush ::
        inputs.map fun (a, input) => .queue a input

end Taskyard
