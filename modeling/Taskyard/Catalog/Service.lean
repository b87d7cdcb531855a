import Taskyard.Catalog.Prune

/-!
# Catalog — changes that are told

Every change of the catalog that succeeds is told to whoever listens: changes of jobs, triggers for
jobs that start when they are saved, and changes of tasks.

Main definitions:

* `Announcement` — what is told.
* `Catalog.saveJob`, `Catalog.removeJob`, `Catalog.saveTask`, `Catalog.saveTasks`,
  `Catalog.removeTasks` — changes with their announcements, in the order in which they are told.
-/

namespace Taskyard

/-- What is told of a change: a message for `job_config`, `timer_events` or `task_events` of the
broker. -/
inductive Announcement where
  /-- A job changed. -/
  | job (change : JobChange)
  /-- A job is to be started. -/
  | trigger (trigger : JobTrigger)
  /-- A task changed. -/
  | task (change : TaskChange)

namespace JobChange

/-- A job was saved. -/
def saved (j : Job) : JobChange := { updated := some j }

/-- A job was removed. -/
def gone (id : String) : JobChange := { removed := some id }

end JobChange

namespace TaskChange

/-- A task was saved. -/
def saved (t : Task) : TaskChange := { updated := some t }

/-- A task was removed. -/
def gone (id : String) : TaskChange := { removed := some id }

end TaskChange

/-- What `put_job` tells when a job was saved: the change, and a trigger if the job starts when it
is saved. -/
def Job.announcements (j : Job) : List Announcement :=
  .job (.saved j) :: if j.autoStart then [.trigger (.immediate j.id)] else []

namespace Catalog

/-- Saving of a job without its tasks: `put_job` of the `JobService`. -/
def saveJob (c : Catalog) (j : Job) : Catalog × Job × List Announcement :=
  (c.putJob j.withoutTasks, j.withoutTasks, j.withoutTasks.announcements)

/-- Removal of a job, whether it exists or not: `delete_job` of the `JobService`. -/
def removeJob (c : Catalog) (id : String) : Catalog × List Announcement :=
  (c.deleteJob id, [.job (.gone id)])

/-- Saving of a task: `put_task` of the `JobService`. -/
def saveTask (c : Catalog) (t : Task) : Catalog × List Announcement :=
  (c.putTask t, [.task (.saved t)])

/-- Saving of several tasks one after another: `put_task_stream` of the `JobService`. -/
def saveTasks (c : Catalog) : List Task → Catalog × List Announcement
  | [] => (c, [])
  | t :: rest =>
    let (c, told) := c.saveTask t
    let (c, later) := c.saveTasks rest
    (c, told ++ later)

/-- Deletion of tasks, with the identifiers of those that are gone: `delete_tasks` of the
`JobService`. -/
def removeTasks (c : Catalog) (d : Deletion) :
    Except Fault (Catalog × List String × List Announcement) :=
  (c.deleteTasks d).map fun (c, ts) =>
    (c, ts.map (·.id), ts.map fun t => .task (.gone t.id))

end Catalog

end Taskyard
