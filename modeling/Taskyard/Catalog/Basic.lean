import Taskyard.Wire.Job

/-!
# Catalog — jobs and tasks at rest

The catalog keeps every job and every task as a row that holds its JSON text, beside the few values
that rows are chosen by. A job's row never holds tasks; the tasks of a job form its bucket, which
goes when the job goes. A row is decoded each time it is read, and one that cannot be decoded makes
the whole reading fail.

Main definitions:

* `Catalog` — the rows.
* `Catalog.putJob`, `Catalog.deleteJob`, `Catalog.putTask` — changes.
* `Catalog.getJob`, `Catalog.listJobs`, `Catalog.listTasks` — readings, in key order.
-/

namespace Taskyard

/-- The row of a job in the table `jobs`. -/
structure JobRow where
  /-- The owner. -/
  owner : String
  /-- The JSON text. -/
  text : String

/-- The row of a task in the table `tasks`. -/
structure TaskRow where
  /-- The state. -/
  status : TaskStatus
  /-- The JSON text. -/
  text : String

/-- The jobs and tasks at rest: the tables of a `JobStore`. -/
structure Catalog where
  /-- The jobs by identifier. -/
  jobs : Dict JobRow := Dict.empty
  /-- The tasks by identifier, in one bucket per job. -/
  buckets : Dict (Dict TaskRow) := Dict.empty

/-- The value of a row's text. -/
def readRow {α : Type} (d : Decoder α) (text : String) : Except Fault α :=
  match (Json.parse? text).bind (d Json.maxDepth) with
  | some a => .ok a
  | none => .error (.serialization "a stored value cannot be read")

/-- The row of a job. -/
def Job.row (j : Job) : JobRow := ⟨j.owner, j.withoutTasks.toJson.compact⟩

/-- The row of a task. -/
def Task.row (t : Task) : TaskRow := ⟨t.status, t.toJson.compact⟩

/-- The job of a row. -/
def JobRow.read (r : JobRow) : Except Fault Job := readRow Job.ofJson r.text

/-- The task of a row. -/
def TaskRow.read (r : TaskRow) : Except Fault Task := readRow Task.ofJson r.text

/-- Which jobs are listed, and with which of their tasks: a `ListJobsRequest`. -/
structure JobListing where
  /-- The owner; empty for any. -/
  owner : String := ""
  /-- Whether a job has to name an event. -/
  eventsOnly : Bool := false
  /-- Whether a job has to have a schedule. -/
  timersOnly : Bool := false
  /-- The state of the tasks that are attached; `unknown` attaches none. -/
  load : TaskStatus := .unknown

/-- Whether a listing asks for a job, whatever tasks it has. -/
def JobListing.admits (l : JobListing) (j : Job) : Bool :=
  (!l.eventsOnly || !j.eventNames.isEmpty) && (!l.timersOnly || j.schedule.isSome)

/-- Whether a listing leaves out jobs that have no tasks attached. -/
def JobListing.skipsEmpty (l : JobListing) : Bool :=
  !(l.load = .unknown || l.load = .any)

namespace Catalog

/-- The catalog without rows. -/
def empty : Catalog := {}

instance : Inhabited Catalog := ⟨empty⟩

/-! ## Rows -/

/-- The catalog with a job in place of one with the same identifier: `put_job` of the store. -/
def putJob (c : Catalog) (j : Job) : Catalog := { c with jobs := c.jobs.insert j.id j.row }

/-- The catalog without a job and without its bucket: `delete_job` of the store. -/
def deleteJob (c : Catalog) (id : String) : Catalog :=
  { jobs := c.jobs.erase id, buckets := c.buckets.erase id }

/-- The bucket of a job. -/
def bucket (c : Catalog) (jobId : String) : Dict TaskRow := (c.buckets.get? jobId).getD Dict.empty

/-- The catalog with a task in the bucket of its job, in place of one with the same identifier, as
`put_task` of the store leaves it. The job need not exist. -/
def putTask (c : Catalog) (t : Task) : Catalog :=
  { c with buckets := c.buckets.insert t.jobId ((c.bucket t.jobId).insert t.id t.row) }

/-- The catalog without a task. -/
def eraseTask (c : Catalog) (jobId id : String) : Catalog :=
  { c with buckets := c.buckets.insert jobId ((c.bucket jobId).erase id) }

/-- The buckets of a scope: that of one job, or every one when the scope is empty. -/
def bucketsIn (c : Catalog) (scope : String) : List (Dict TaskRow) :=
  if scope = "" then c.buckets.values else [c.bucket scope]

/-! ## Readings -/

/-- The tasks of a bucket in a state, ordered by identifier. -/
def readBucket (status : TaskStatus) (bucket : Dict TaskRow) : Except Fault (List Task) :=
  (bucket.values.filter (·.status.meets status)).mapM TaskRow.read

/-- The tasks of a scope in a state, one list per bucket. -/
def readBuckets (c : Catalog) (scope : String) (status : TaskStatus) :
    Except Fault (List (List Task)) :=
  (c.bucketsIn scope).mapM (readBucket status)

/-- The tasks of a scope in a state, ordered by job and identifier: `list_tasks` of the store. -/
def listTasks (c : Catalog) (scope : String) (status : TaskStatus) : Except Fault (List Task) :=
  (c.readBuckets scope status).map List.flatten

/-- The job with an identifier, without tasks. -/
def findJob (c : Catalog) (id : String) : Except Fault Job :=
  match c.jobs.get? id with
  | none => .error (.notFound ("job " ++ id))
  | some row => row.read

/-- A job with its tasks in a state; `unknown` attaches none. Both `get_job` and `list_jobs` do
this. -/
def attach (c : Catalog) (load : TaskStatus) (j : Job) : Except Fault Job :=
  if load = .unknown then .ok j
  else (c.listTasks j.id load).map fun tasks => { j with tasks }

/-- The job with an identifier, with its tasks in a state: `get_job` of the store. -/
def getJob (c : Catalog) (id : String) (load : TaskStatus) : Except Fault Job :=
  (c.findJob id).bind (c.attach load)

/-- The rows of the jobs of an owner, ordered by identifier. -/
def jobRows (c : Catalog) (owner : String) : List JobRow :=
  c.jobs.values.filter fun r => owner = "" || r.owner = owner

/-- The job of a row as a listing shows it, if it shows it. -/
def listed (c : Catalog) (l : JobListing) (r : JobRow) : Except Fault (Option Job) := do
  let j ← r.read
  if !l.admits j then return none
  let j ← c.attach l.load j
  if l.skipsEmpty && j.tasks.isEmpty then return none
  return some j

/-- The jobs that a listing asks for, ordered by identifier: `list_jobs` of the store. -/
def listJobs (c : Catalog) (l : JobListing) : Except Fault (List Job) :=
  ((c.jobRows l.owner).mapM (c.listed l)).map fun js => js.filterMap id

end Catalog

end Taskyard
