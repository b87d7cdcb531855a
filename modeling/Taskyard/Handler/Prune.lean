import Taskyard.Handler.Script
import Taskyard.Wire.Event

/-!
# Handlers — pruning of tasks

Main definitions:

* `Handler.prune` — deletes ended tasks of a job, its own if it names none, except the newest.
-/

namespace Taskyard.Handler

/-- The identifier of the action. -/
def pruneId : String := "actions.scheduler.prune-tasks"

/-- How many tasks are kept by an action that does not say so. -/
def defaultKeep : Nat := 20

/-- The states of the tasks that are deleted by an action that does not say so. -/
def defaultStates : List TaskStatus := [.finished, .error, .interrupted]

/-- The state with a name. -/
def stateNamed (name : String) : Except Fault TaskStatus :=
  match TaskStatus.ofName? name with
  | some s => .ok s
  | none => .error (.badRequest (pruneId ++ ": unknown status '" ++ name ++ "'"))

/-- The states of a list with commas; blanks and empty entries do not count. -/
def statesIn (raw : String) : Except Fault (List TaskStatus) :=
  (((Text.splitChar ',' raw).map Text.trim).filter (· ≠ "")).mapM stateNamed

/-- The states of an action. There has to be one. -/
def pruneStates (a : Action) : Except Fault (List TaskStatus) := do
  let states ← match a.param "statuses" with
    | some raw => statesIn raw
    | none => .ok defaultStates
  if states.isEmpty then .error (.badRequest (pruneId ++ ": no statuses to prune"))
  else return states

/-- A list of texts as a document. -/
def Document.ofTexts (l : List String) : Document where
  json := .array (l.map .string)
  canonical := by
    suffices h : ∀ l : List String, Json.canonicalAll (l.map Json.string) = true by
      simpa [Json.canonical] using h l
    intro l
    induction l with
    | nil => rfl
    | cons s rest ih => simpa [Json.canonicalAll, Json.canonical] using ih

/-- The output after so many tasks are gone. -/
def pruned (now : Int64) (ids : List String) : Output :=
  let text := "pruned " ++ Text.numeral ids.length ++ " task(s)"
  { Output.succeeded now with text }.withDocument (Document.ofTexts ids)

/-- The run of a `PruneTasksAction`: the deletion, and its count and identifiers as the output. -/
def runPrune (scope : Option String) (keep : Nat) (statuses : List TaskStatus) (c : Context)
    (m : Message) : Script :=
  .prune { scope := scope.getD c.job.id, statuses, keep } fun deleted =>
    .ofExcept (deleted.map fun ids now => m.withOutput (pruned now ids))

/-- Pruning of tasks: `PruneTasksAction`. -/
def prune : Handler where
  name := pruneId
  prepare _ a := .ofExcept do
    let keep ← a.numberParam "max_tasks" defaultKeep
    let statuses ← pruneStates a
    return runPrune ((a.param "job_id").filter (· ≠ "")) keep statuses

end Taskyard.Handler
