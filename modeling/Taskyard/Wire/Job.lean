import Taskyard.Job.Basic
import Taskyard.Wire.Query

/-!
# Wire — jobs and tasks

The JSON forms of actions, tasks and jobs, and of the events that tell of their changes.

Main definitions:

* `Action.toJson`, `Action.ofJson` — actions; likewise for logs, tasks and jobs.
* `JobChange`, `TaskChange` — what is told of a change, with their forms.
-/

namespace Taskyard

open Wire Decoder

/-! ## Actions -/

namespace Action

mutual

/-- The form of an action. -/
def toJson : Action → Json
  | ⟨id, label, parameters, nodesSelector, usersSelector, nodesFilter, usersFilter, sourceFilter,
      chained⟩ => .object <|
    member "id" (.string id) ++ textMember "label" label ++ dictMember "parameters" parameters ++
    memberOf "nodes_selector" nodesSelectorToJson nodesSelector ++
    memberOf "users_selector" usersSelectorToJson usersSelector ++
    memberOf "nodes_filter" (filterToJson NodeTest.toJson) nodesFilter ++
    memberOf "users_filter" (filterToJson UserTest.toJson) usersFilter ++
    memberOf "source_filter" (filterToJson SourceTest.toJson) sourceFilter ++
    memberWhen (!chained.isEmpty) "chained_actions" (.array (allToJson chained))

/-- The forms of a list of actions. -/
def allToJson : List Action → List Json
  | [] => []
  | a :: rest => toJson a :: allToJson rest

end

/-- The forms of a list are those of its members. -/
theorem allToJson_eq_map : ∀ as : List Action, allToJson as = as.map toJson
  | [] => rfl
  | a :: rest => by rw [allToJson, List.map_cons, allToJson_eq_map rest]

/-- The action of a form, with chained actions of so many levels. -/
def ofJsonWithin : Nat → Decoder Action
  | 0 => fun _ _ => none
  | levels + 1 => fun depth j => do
    let r ← Record.open? ["id", "label", "parameters", "nodes_selector", "users_selector",
      "nodes_filter", "users_filter", "source_filter", "chained_actions"] depth j
    let id ← r.required "id" text
    let label ← r.field "label" text ""
    let parameters ← r.field "parameters" (dict text) Dict.empty
    let nodesSelector ← r.field "nodes_selector" (optional nodesSelectorOfJson) none
    let usersSelector ← r.field "users_selector" (optional usersSelectorOfJson) none
    let nodesFilter ← r.field "nodes_filter" (optional (filterOfJson NodeTest.ofJson)) none
    let usersFilter ← r.field "users_filter" (optional (filterOfJson UserTest.ofJson)) none
    let sourceFilter ← r.field "source_filter" (optional (filterOfJson SourceTest.ofJson)) none
    let chained ← r.field "chained_actions" (list (ofJsonWithin levels)) []
    return { id, label, parameters, nodesSelector, usersSelector, nodesFilter, usersFilter,
             sourceFilter, chained }

/-- The action of a form. Chained actions stand at a lower depth, so there are no more levels of
them than the depth allows. -/
def ofJson : Decoder Action := fun depth j => ofJsonWithin depth depth j

end Action

/-! ## Tasks -/

/-- The state of a form: its number. -/
def TaskStatus.ofJson : Decoder TaskStatus := int32.mapOption ofCode?

/-- The form of a state. -/
def TaskStatus.toJson (s : TaskStatus) : Json := .ofNat s.code

/-- The form of a log. -/
def ActionLog.toJson (l : ActionLog) : Json := .object <|
  member "action" l.action.toJson ++ member "input" l.input.toJson ++
  member "output" l.output.toJson

/-- The log of a form. -/
def ActionLog.ofJson : Decoder ActionLog := fun depth j => do
  let r ← Record.open? ["action", "input", "output"] depth j
  let action ← r.required "action" Action.ofJson
  let input ← r.required "input" Message.ofJson
  let output ← r.required "output" Message.ofJson
  return { action, input, output }

/-- The form of a task. -/
def Task.toJson (t : Task) : Json := .object <|
  member "id" (.string t.id) ++ member "job_id" (.string t.jobId) ++
  member "status" t.status.toJson ++ member "status_message" (.string t.statusMessage) ++
  member "progress" (.ofSingle t.progress) ++ member "start_time" (.ofInt64 t.startTime) ++
  member "end_time" (.ofInt64 t.endTime) ++ member "can_stop" (.bool t.canStop) ++
  member "can_pause" (.bool t.canPause) ++ member "has_progress" (.bool t.hasProgress) ++
  member "action_logs" (.array (t.logs.map ActionLog.toJson)) ++ member "rc" (.ofInt t.pending)

/-- The task of a form. -/
def Task.ofJson : Decoder Task := fun depth j => do
  let r ← Record.open? ["id", "job_id", "status", "status_message", "progress", "start_time",
    "end_time", "can_stop", "can_pause", "has_progress", "action_logs", "rc"] depth j
  let id ← r.required "id" text
  let jobId ← r.required "job_id" text
  let status ← r.required "status" TaskStatus.ofJson
  let statusMessage ← r.field "status_message" text ""
  let progress ← r.field "progress" single (Decimal.Binary.zero .single)
  let startTime ← r.field "start_time" int64 0
  let endTime ← r.field "end_time" int64 0
  let canStop ← r.field "can_stop" truth false
  let canPause ← r.field "can_pause" truth false
  let hasProgress ← r.field "has_progress" truth false
  let logs ← r.field "action_logs" (list ActionLog.ofJson) []
  let pending ← r.field "rc" int32 0
  return { id, jobId, status, statusMessage, progress, startTime, endTime, canStop, canPause,
           hasProgress, logs, pending }

/-! ## Jobs -/

/-- The form of a job. -/
def Job.toJson (job : Job) : Json := .object <|
  member "id" (.string job.id) ++ member "label" (.string job.label) ++
  member "owner" (.string job.owner) ++ member "inactive" (.bool job.inactive) ++
  member "auto_start" (.bool job.autoStart) ++ member "stoppable" (.bool job.stoppable) ++
  member "has_progress" (.bool job.hasProgress) ++
  member "max_concurrency" (.ofNat job.maxConcurrency.toNat) ++
  member "event_names" (texts job.eventNames) ++ memberOf "schedule" Document.json job.schedule ++
  member "actions" (.array (Action.allToJson job.actions)) ++
  memberWhen (!job.tasks.isEmpty) "tasks" (.array (job.tasks.map Task.toJson))

/-- The job of a form. -/
def Job.ofJson : Decoder Job := fun depth j => do
  let r ← Record.open? ["id", "label", "owner", "inactive", "auto_start", "stoppable",
    "has_progress", "max_concurrency", "event_names", "schedule", "actions", "tasks"] depth j
  let id ← r.required "id" text
  let label ← r.field "label" text ""
  let owner ← r.field "owner" text ""
  let inactive ← r.field "inactive" truth false
  let autoStart ← r.field "auto_start" truth false
  let stoppable ← r.field "stoppable" truth false
  let hasProgress ← r.field "has_progress" truth false
  let maxConcurrency ← r.field "max_concurrency" uint32 defaultConcurrency
  let eventNames ← r.field "event_names" (list text) []
  let schedule ← r.field "schedule" (optional document) none
  let actions ← r.field "actions" (list Action.ofJson) []
  let tasks ← r.field "tasks" (list Task.ofJson) []
  return { id, label, owner, inactive, autoStart, stoppable, hasProgress, maxConcurrency,
           eventNames, schedule, actions, tasks }

/-! ## Changes -/

/-- What is told of a change of a job, a `JobChangeEvent`: its new definition, or that it was
removed. -/
structure JobChange where
  /-- The new definition. -/
  updated : Option Job := none
  /-- The identifier of the removed job. -/
  removed : Option String := none

/-- What is told of a change of a task, a `TaskChangeEvent`: its new record, or that it was
removed. -/
structure TaskChange where
  /-- The new record. -/
  updated : Option Task := none
  /-- The identifier of the removed task. -/
  removed : Option String := none

/-- The form of a change of a job. -/
def JobChange.toJson (c : JobChange) : Json := .object <|
  memberOf "job_updated" Job.toJson c.updated ++ memberOf "job_removed" Json.string c.removed

/-- The change of a job of a form. -/
def JobChange.ofJson : Decoder JobChange := fun depth j => do
  let r ← Record.open? ["job_updated", "job_removed"] depth j
  let updated ← r.field "job_updated" (optional Job.ofJson) none
  let removed ← r.field "job_removed" (optional text) none
  return { updated, removed }

/-- The form of a change of a task. -/
def TaskChange.toJson (c : TaskChange) : Json := .object <|
  memberOf "task_updated" Task.toJson c.updated ++ memberOf "task_removed" Json.string c.removed

/-- The change of a task of a form. -/
def TaskChange.ofJson : Decoder TaskChange := fun depth j => do
  let r ← Record.open? ["task_updated", "task_removed"] depth j
  let updated ← r.field "task_updated" (optional Task.ofJson) none
  let removed ← r.field "task_removed" (optional text) none
  return { updated, removed }

end Taskyard
