import Taskyard.Catalog.Service
import Taskyard.Scheduler.Runnable
import Taskyard.Scheduler.Writer

/-!
# Scheduler — what executions share

The clocks, the catalog, the records of the live tasks, the main queue and the writer: everything
that an execution can change.

Main definitions:

* `Arrangement` — an order in which something is gone through that has none of its own.
* `Setup` — what stays the same while a scheduler runs.
* `LiveTask` — a live task with the job that it executes.
* `Floor` — what executions share.
* `Floor.mark`, `Floor.enqueue` — the changes.
* `Floor.perform` — the change that a deed makes.
-/

namespace Taskyard

/-- An order in which the members of a collection come that has none of its own, as the values of a
hash map. -/
structure Arrangement (α : Type) where
  /-- The members in this order. -/
  arrange : List α → List α
  /-- They are the same members. -/
  perm : ∀ l, (arrange l).Perm l

namespace Arrangement

variable {α : Type}

/-- The order in which the members are given. -/
def asGiven : Arrangement α := ⟨id, .refl⟩

/-- Whatever the order in which the members of a list come, an arrangement has them so. -/
theorem exists_arrange {l l' : List α} (h : l'.Perm l) :
    ∃ a : Arrangement α, a.arrange l = l' := by
  classical
  refine ⟨⟨fun x => if x = l then l' else x, fun x => ?_⟩, if_pos rfl⟩
  split
  · next hSame => exact hSame ▸ h
  · exact .refl x

end Arrangement

/-- What stays the same while a scheduler runs: the `Runtime` that runnables are given, and the
settings of `SchedulerConfig`. -/
structure Setup where
  /-- The handlers of the actions. -/
  registry : Registry
  /-- What actions can look at. -/
  site : Site
  /-- The capacity of the channels between selectors and their consumers. -/
  selectionBuffer : Nat := 64
  /-- The milliseconds that a run is given, if it is limited. -/
  allowance : Option Nat := none
  /-- The number of workers of a job that leaves it to the configuration. -/
  defaultWorkers : UInt32 := defaultConcurrency
  /-- The capacity of the writer's stream. -/
  updateBuffer : Nat := 256
  /-- The identifier of the task that is started as the n-th. -/
  taskId : Nat → String
  /-- The order in which the loaded jobs come when the n-th change of a topic of nodes is heard, of
  that of attributes or of the other one. Each time it may be another. -/
  order : (onAttributes : Bool) → (n : Nat) → Arrangement Job := fun _ _ => .asGiven

/-- Where the snapshots of a task go: the `updates` that its `TaskHandle` sends to. -/
inductive Outlet where
  /-- To the writer. -/
  | writer
  /-- Aside, where they are kept in order. -/
  | aside (snapshots : List Task)

/-- A live task, as a `TaskHandle` holds it. -/
structure LiveTask where
  /-- The job as it was when the task started. -/
  job : Job
  /-- The record. -/
  record : Task
  /-- Where snapshots go. -/
  outlet : Outlet := .writer

/-- What executions share: the clocks, the `JobService` and its store, the task handles,
`main_queue` and the writer. -/
structure Floor where
  /-- The time in seconds. -/
  now : Int64
  /-- The milliseconds that have passed, for waiting. -/
  clock : Nat := 0
  /-- The catalog. -/
  catalog : Catalog := {}
  /-- The tasks by number. -/
  tasks : List LiveTask := []
  /-- The runnables in the main queue. -/
  main : List Runnable := []
  /-- Whether the main queue accepts runnables. -/
  accepting : Bool := true
  /-- The writer of snapshots. -/
  writer : Writer
  /-- For each change of the catalog, what is still to be told of it. -/
  calls : List (List Announcement) := []

namespace Floor

/-- The floor with something to be told: a call of the service that has changed the store and has
yet to publish. -/
def telling (f : Floor) (told : List Announcement) : Floor :=
  if told.isEmpty then f else { f with calls := f.calls ++ [told] }

/-- The floor with a new task of a job, from `TaskHandle.new`; its number is the number of tasks
before. -/
def addTask (f : Floor) (u : Setup) (job : Job) (outlet : Outlet) : Floor :=
  let record := job.freshTask (u.taskId f.tasks.length)
  { f with tasks := f.tasks ++ [{ job, record, outlet }] }

/-- The task with a new record, and the snapshot of it where it belongs, as `persist` sends it. -/
def deliver (f : Floor) (task : Nat) (t : LiveTask) (persist : Bool) : Floor :=
  match t.outlet with
  | .writer =>
    { f with
      tasks := f.tasks.set task t
      writer := if persist then f.writer.send t.record else f.writer }
  | .aside snapshots =>
    let snapshots := if persist then snapshots ++ [t.record] else snapshots
    { f with tasks := f.tasks.set task { t with outlet := .aside snapshots } }

/-- The floor after a step of a task: one call of a method of its `TaskHandle`. -/
def mark (f : Floor) (task : Nat) (s : TaskStep) : Floor :=
  match f.tasks[task]? with
  | none => f
  | some t => f.deliver task { t with record := s.apply f.now t.record } (s.persists t.record)

/-- The floor with one more runnable in the main queue, as `main_queue.send` leaves it. -/
def enqueue (f : Floor) (r : Runnable) : Floor := { f with main := f.main ++ [r] }

/-- The floor after a deed for a task, and what is to be done first thing after it. A queue that is
closed hands the runnable back, which is then interrupted and released. -/
def perform (f : Floor) (task : Nat) : Deed → Floor × List Deed
  | .mark s => (f.mark task s, [])
  | .queue action input =>
    if f.accepting then (f.enqueue { action, task, input }, []) else (f, Deed.refused)

end Floor

end Taskyard
