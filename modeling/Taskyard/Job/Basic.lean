import Taskyard.Job.Task

/-!
# Jobs

A job is a tree of actions together with the events that start it.

Main definitions:

* `Job` — the definition.
* `Job.workers` — how many of its actions may be executed at the same time.
* `Job.freshTask` — a new task of the job.
-/

namespace Taskyard

/-- The number of workers of a job that does not say otherwise: `DEFAULT_MAX_CONCURRENCY`. -/
def defaultConcurrency : UInt32 := 20

/-- The definition of a job. -/
structure Job where
  /-- The identifier. -/
  id : String
  /-- A label. -/
  label : String := ""
  /-- The login of the owner. -/
  owner : String := ""
  /-- Whether the job ignores events and schedules. -/
  inactive : Bool := false
  /-- Whether the job is started when it is saved. -/
  autoStart : Bool := false
  /-- Whether its tasks can be stopped. -/
  stoppable : Bool := false
  /-- Whether its tasks report how far they have come. -/
  hasProgress : Bool := false
  /-- The number of workers; zero stands for the configured default. -/
  maxConcurrency : UInt32 := defaultConcurrency
  /-- The names of the events that start the job. -/
  eventNames : List String := []
  /-- When the job is started, for the timer service. -/
  schedule : Option Document := none
  /-- The actions that a task starts with. -/
  actions : List Action := []
  /-- Tasks of the job, attached when it is read. -/
  tasks : List Task := []

namespace Job

/-- The job without attached tasks. -/
def withoutTasks (j : Job) : Job := { j with tasks := [] }

/-- Whether the job is started by events of a name. -/
def subscribesTo (j : Job) (eventName : String) : Bool := j.eventNames.contains eventName

/-- The number of workers of the job, `concurrency`: its own setting, or the default when that is
zero, and at least one. -/
def workers (j : Job) (default : UInt32) : Nat :=
  max (if j.maxConcurrency = 0 then default else j.maxConcurrency).toNat 1

/-- A new task of the job: `for_job`. -/
def freshTask (j : Job) (id : String) : Task where
  id := id
  jobId := j.id
  status := .idle
  canStop := j.stoppable
  hasProgress := j.hasProgress

end Job

end Taskyard
