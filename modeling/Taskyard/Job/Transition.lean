import Taskyard.Job.Basic

/-!
# Jobs — what happens to a task

The steps that change the record of a live task. Each is taken under the lock of the task, and those
that are of interest to others hand a snapshot of the record to the writer.

Main definitions:

* `Task.transition` — a change of the state. A failure or an interruption is final, and a task with
  pending actions cannot finish.
* `TaskStep`, `TaskStep.apply` — the steps.
* `TaskStep.persists` — whether a step hands over a snapshot.
-/

namespace Taskyard

/-- Whether a state is kept whatever happens, as `transition` returns at once from it. -/
def TaskStatus.isFinal : TaskStatus → Bool
  | .interrupted | .error => true
  | _ => false

namespace Task

/-- The record with the times that belong to a new state: the start of what runs, the end of what
has ended, and never an end without a start. -/
def stamp (now : Int64) (t : Task) : Task :=
  match t.status with
  | .running => if t.startTime = 0 then { t with startTime := now } else t
  | .finished | .interrupted | .error =>
    { t with endTime := now, startTime := if t.startTime = 0 then now else t.startTime }
  | _ => t

/-- The state that a task takes when it is to take another: one with pending actions goes on running
when it is to finish. -/
def admitted (t : Task) (status : TaskStatus) : TaskStatus :=
  if status = .finished ∧ 0 < t.pending then .running else status

/-- The record after a change of the state, with a remark that replaces the old one unless it is
empty: `transition` of a `TaskHandle`. -/
def transition (now : Int64) (status : TaskStatus) (remark : String) (t : Task) : Task :=
  if t.status.isFinal then t
  else stamp now { t with
    status := t.admitted status
    statusMessage := if remark = "" then t.statusMessage else remark }

/-- New times are all that a stamp changes. -/
theorem exists_stamp (now : Int64) (t : Task) :
    ∃ startTime endTime, t.stamp now = { t with startTime, endTime } := by
  unfold stamp
  split
  · split <;> exact ⟨_, _, rfl⟩
  all_goals exact ⟨_, _, rfl⟩

/-- A change of the state leaves everything but the state itself, its remark and the times, and a
record in a final state it leaves as it is. -/
theorem transition_cases (now : Int64) (status : TaskStatus) (remark : String) (t : Task) :
    (t.status.isFinal = true ∧ t.transition now status remark = t) ∨
      (t.status.isFinal = false ∧ ∃ statusMessage startTime endTime,
        t.transition now status remark =
          { t with status := t.admitted status, statusMessage, startTime, endTime }) := by
  unfold transition
  split
  · next hFinal => exact Or.inl ⟨hFinal, rfl⟩
  · next hOpen =>
    obtain ⟨startTime, endTime, hStamp⟩ := exists_stamp now { t with
      status := t.admitted status
      statusMessage := if remark = "" then t.statusMessage else remark }
    exact Or.inr ⟨by simpa using hOpen, _, startTime, endTime, hStamp⟩

/-- The record when `release` has found the last of its pending actions done. -/
def conclude (now : Int64) (t : Task) : Task :=
  transition now .finished ""
    (if t.hasProgress ∧ t.status ≠ .error then { t with progress := .one .single } else t)

/-- The record with one action less: `release` of a `TaskHandle`. -/
def release (now : Int64) (t : Task) : Task :=
  let t := { t with pending := max (t.pending - 1) 0 }
  if t.pending = 0 then t.conclude now else t

end Task

/-- A step that changes a live task: a call of one of the methods of its `TaskHandle`. -/
inductive TaskStep where
  /-- One more action is pending. -/
  | retain
  /-- One action is done. -/
  | release
  /-- The state changes. -/
  | setStatus (status : TaskStatus) (remark : String)
  /-- An action was executed. -/
  | appendLog (log : ActionLog)
  /-- The task has come so far. -/
  | setProgress (progress : Decimal.Single)
  /-- Nothing changes. -/
  | flush

namespace TaskStep

/-- An action starts: `set_running`. -/
def setRunning : TaskStep := .setStatus .running ""

/-- The task fails. -/
def fail (reason : String) : TaskStep := .setStatus .error reason

/-- The task is ended from outside. -/
def interrupt (reason : String) : TaskStep := .setStatus .interrupted reason

/-- The record after a step. -/
def apply (now : Int64) : TaskStep → Task → Task
  | .retain, t => { t with pending := t.pending + 1 }
  | .release, t => t.release now
  | .setStatus status remark, t => t.transition now status remark
  | .appendLog log, t => { t with logs := t.logs ++ [log] }
  | .setProgress progress, t => { t with progress := progress.clampUnit }
  | .flush, t => t

/-- Whether a step hands a snapshot of the changed record to the writer: whether its method calls
`persist`. -/
def persists : TaskStep → Task → Bool
  | .retain, _ | .appendLog _, _ => false
  | .setProgress _, t => t.hasProgress
  | .release, _ | .setStatus _ _, _ | .flush, _ => true

end TaskStep

end Taskyard
