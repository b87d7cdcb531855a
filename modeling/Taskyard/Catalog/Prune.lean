import Taskyard.Catalog.Basic

/-!
# Catalog — deletion of tasks

Tasks are deleted either by name, or by their states with the newest of each job kept.

Main definitions:

* `Deletion` — what is to be deleted.
* `Deletion.doomed` — the tasks that a deletion takes out of one bucket.
* `Catalog.deleteTasks` — the deletion, with the tasks that are gone.
-/

namespace Taskyard

/-- A request to delete tasks: a `DeleteTasksRequest`. -/
structure Deletion where
  /-- The job whose tasks are deleted; empty for all jobs. -/
  scope : String := ""
  /-- The identifiers of the tasks. If there are any, nothing else counts. -/
  ids : List String := []
  /-- The states of the tasks. -/
  statuses : List TaskStatus := []
  /-- How many of the newest tasks of each job in these states are kept. -/
  keep : Nat := 0

/-- Whether a task is listed before another: the later start first, and of equal starts the smaller
identifier. -/
def Task.newerThan (a b : Task) : Bool :=
  b.startTime < a.startTime || (a.startTime = b.startTime && a.id ≤ b.id)

namespace Deletion

/-- Whether the request names neither tasks nor states. -/
def isVoid (d : Deletion) : Bool := d.ids.isEmpty && d.statuses.isEmpty

/-- Whether the state of a task is one of the request's. -/
def covers (d : Deletion) (t : Task) : Bool := d.statuses.any t.status.meets

/-- The tasks that are deleted from a bucket: the named ones in the order of the bucket, or those in
the given states, newest first, after the ones that are kept. -/
def doomed (d : Deletion) (bucket : List Task) : List Task :=
  if d.ids.isEmpty then ((bucket.filter d.covers).mergeSort Task.newerThan).drop d.keep
  else bucket.filter fun t => d.ids.contains t.id

end Deletion

namespace Catalog

/-- The tasks that a deletion would take: the first part of `delete_tasks`, which reads. -/
def chooseTasks (c : Catalog) (d : Deletion) : Except Fault (List Task) :=
  if d.isVoid then .error (.badRequest "delete tasks needs task ids or statuses")
  else (c.readBuckets d.scope .any).map fun buckets => buckets.flatMap d.doomed

/-- The catalog without the given tasks: the second part of `delete_tasks`, which writes. -/
def eraseTasks (c : Catalog) (ts : List Task) : Catalog :=
  ts.foldl (fun c t => c.eraseTask t.jobId t.id) c

/-- Deleting tasks leaves the rows of jobs. -/
theorem jobs_eraseTasks (c : Catalog) (ts : List Task) : (c.eraseTasks ts).jobs = c.jobs := by
  induction ts generalizing c with
  | nil => rfl
  | cons t ts ih => exact ih (c.eraseTask t.jobId t.id)

/-- The catalog after a deletion, and the deleted tasks in the order of their deletion:
`delete_tasks` of the store with nothing between its two parts. -/
def deleteTasks (c : Catalog) (d : Deletion) : Except Fault (Catalog × List Task) :=
  (c.chooseTasks d).map fun ts => (c.eraseTasks ts, ts)

end Catalog

end Taskyard
