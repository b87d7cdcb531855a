import Taskyard.Bus.Topic
import Taskyard.Scheduler.Dispatcher
import Taskyard.Scheduler.Execution

/-!
# Scheduler — the machine

The whole scheduler as a machine that takes one step at a time: the `Multiplexer` with the loops
that `start` spawns. These are listeners on the topics of the bus (`handle_node_change`,
`handle_timer`, `handle_job_change`), which start tasks (`launch`), a router that moves runnables
from the main queue to the dispatchers of their jobs (`route`), the workers and the writer; and
there are callers from outside. Any step that can be taken may be taken next, so a run of the
machine is one of the ways in which all of these can come between one another.

Main definitions:

* `Machine` — the state.
* `MachineStep`, `Machine.step` — the steps.
* `Machine.start` — the state after the catalog was loaded.
-/

namespace Taskyard

/-! ## Parts -/

/-- The topics that the scheduler listens to: `tree_changes`, `meta_changes`, `timer_events` and
`job_config` of the broker. -/
inductive Channel where
  /-- Changes of nodes. -/
  | tree
  /-- Changes of attributes of nodes. -/
  | attributes
  /-- Triggers. -/
  | timers
  /-- Changes of jobs. -/
  | jobs
  deriving DecidableEq, Repr

/-- Something that is done for one task after another: what is left of the present call of `launch`
(or of a turning away), and the launches still to come. -/
structure Errand where
  /-- The present task. -/
  task : Nat := 0
  /-- What is left to be done for it. -/
  deeds : List Deed := []
  /-- The tasks to be started after it: their jobs and events. -/
  launches : List (Job × Event) := []

/-- What a listener is doing: where one of the loops spawned by `start` stands, inside
`handle_node_change`, `handle_timer` or `handle_job_change`. -/
inductive Ear where
  /-- It waits for a message. -/
  | listening
  /-- It looks for the job of a trigger among the loaded ones. -/
  | seeking (trigger : JobTrigger)
  /-- It reads the job of a trigger from the catalog. -/
  | fetching (trigger : JobTrigger)
  /-- It loads a job that was read. -/
  | loading (trigger : JobTrigger) (job : Job)
  /-- It starts tasks. -/
  | busy (errand : Errand)
  /-- It has ended. -/
  | deaf

/-- Whether a listener can be ended now: `abort` takes effect where it is suspended, so between two
tasks or while it waits. -/
def Ear.canEnd : Ear → Bool
  | .listening | .fetching _ => true
  | .busy e => e.deeds.isEmpty
  | .seeking _ | .loading _ _ | .deaf => false

/-- The listeners of the topics: the four listening loops of `start`. -/
structure Ears where
  /-- The listener on changes of nodes. -/
  tree : Ear := .listening
  /-- The listener on changes of attributes. -/
  attributes : Ear := .listening
  /-- The listener on triggers. -/
  timers : Ear := .listening
  /-- The listener on changes of jobs. -/
  jobs : Ear := .listening

namespace Ears

/-- The listener of a topic. -/
def get (e : Ears) : Channel → Ear
  | .tree => e.tree
  | .attributes => e.attributes
  | .timers => e.timers
  | .jobs => e.jobs

/-- The listeners with that of a topic doing something else. -/
def set (e : Ears) (ear : Ear) : Channel → Ears
  | .tree => { e with tree := ear }
  | .attributes => { e with attributes := ear }
  | .timers => { e with timers := ear }
  | .jobs => { e with jobs := ear }

/-- What a listener does after its own part was set is what was set. -/
theorem get_set (e : Ears) (ear : Ear) (c : Channel) : (e.set ear c).get c = ear := by
  cases c <;> rfl

end Ears

/-- What the router is doing: where the loop of `start` over `main_rx` stands, inside `route`. -/
inductive Router where
  /-- It waits for a runnable. -/
  | waiting
  /-- It sees to a runnable that it could not route. -/
  | busy (errand : Errand)
  /-- It has ended. -/
  | ended

/-- A dispatcher of the scheduler: the `Dispatcher` of one definition of a job, for its
runnables. -/
abbrev Bench := Dispatcher Runnable Execution

/-- The scheduler: a `Multiplexer` with its `State`, its loops, the `Broker` and the writer. -/
structure Machine where
  /-- What executions share. -/
  floor : Floor
  /-- The loaded jobs. -/
  jobs : Dict Job := Dict.empty
  /-- The dispatchers in service, by job. -/
  service : Dict Nat := Dict.empty
  /-- Every dispatcher that was ever started, by number. -/
  benches : List Bench := []
  /-- The topic of changes of nodes. -/
  tree : Topic NodeChange
  /-- The topic of changes of attributes. -/
  attributes : Topic NodeChange
  /-- The topic of triggers. -/
  timers : Topic JobTrigger
  /-- The topic of changes of jobs. -/
  changes : Topic JobChange
  /-- What was told of tasks, the newest first. -/
  news : List TaskChange := []
  /-- The listener of each topic. -/
  ears : Ears := {}
  /-- The router. -/
  router : Router := .waiting
  /-- Callers who start or route something themselves. -/
  callers : List Errand := []

namespace Machine

/-- The number of the listener among the subscribers of its topic. -/
def listener : Nat := 0

/-- The machine with a listener doing something else. -/
def setEar (m : Machine) (c : Channel) (e : Ear) : Machine :=
  { m with ears := m.ears.set e c }

/-- The machine with another floor. -/
def onFloor (m : Machine) (f : Floor) : Machine := { m with floor := f }

/-! ## Messages -/

/-- A message for one of the topics of the broker. -/
inductive Post where
  /-- A change of a node, on the topic of nodes or of attributes. -/
  | node (onAttributes : Bool) (change : NodeChange)
  /-- A trigger. -/
  | trigger (trigger : JobTrigger)
  /-- A change of a job. -/
  | job (change : JobChange)

/-- The machine after `publish` on one of the topics, and how many subscribers receive the
message. -/
def publish (m : Machine) : Post → Machine × Nat
  | .node false c => let (t, n) := m.tree.publish c; ({ m with tree := t }, n)
  | .node true c => let (t, n) := m.attributes.publish c; ({ m with attributes := t }, n)
  | .trigger t => let (t, n) := m.timers.publish t; ({ m with timers := t }, n)
  | .job c => let (t, n) := m.changes.publish c; ({ m with changes := t }, n)

/-- The machine after the service has told of a change of the catalog. -/
def tell (m : Machine) : Announcement → Machine
  | .job c => (m.publish (.job c)).1
  | .trigger t => (m.publish (.trigger t)).1
  | .task c => { m with news := c :: m.news }

/-- The machine after a call of the service has gone on to tell the next thing. -/
def announce (m : Machine) (call : Nat) : Option Machine :=
  match m.floor.calls[call]? with
  | some (a :: rest) =>
    let calls := if rest.isEmpty then m.floor.calls.eraseIdx call else m.floor.calls.set call rest
    some ((m.onFloor { m.floor with calls }).tell a)
  | _ => none

/-! ## Loaded jobs and dispatchers -/

/-- The machine with a dispatcher taken out of the map and stopped, if there is one for the job. -/
def retire (m : Machine) (jobId : String) : Machine :=
  match m.service.get? jobId with
  | none => m
  | some n => { m with
      service := m.service.erase jobId
      benches := m.benches.modify n Dispatcher.stop }

/-- The machine with a new dispatcher in the map: `Dispatcher.start`. -/
def engage (m : Machine) (jobId : String) (workers : Nat) : Machine :=
  { m with
    service := m.service.insert jobId m.benches.length
    benches := m.benches ++ [Dispatcher.start workers] }

/-- The machine with a job loaded, as `handle_job_change` does for `job_updated`. A dispatcher of an
earlier definition is replaced. -/
def load (u : Setup) (m : Machine) (j : Job) : Machine :=
  let replaced := m.service.contains j.id
  let m := m.retire j.id
  let m := if replaced then m.engage j.id (j.workers u.defaultWorkers) else m
  { m with jobs := m.jobs.insert j.id j }

/-- The machine with a job unloaded, as `handle_job_change` does for `job_removed`. -/
def unload (m : Machine) (jobId : String) : Machine :=
  { m.retire jobId with jobs := m.jobs.erase jobId }

/-- The machine after a change of a job was heard of: `handle_job_change`, which holds the lock
throughout. -/
def handleChange (u : Setup) (m : Machine) (c : JobChange) : Machine :=
  match c.removed, c.updated with
  | some id, _ => m.unload id
  | none, some j => m.load u j.withoutTasks
  | none, none => m

/-! ## Tasks to be started -/

/-- The tasks that `handle_node_change` starts for a change of a node: one for each loaded job that
is active and subscribes to the name of the change, in the order in which the jobs come. -/
def launchesOf (m : Machine) (order : Arrangement Job) (c : NodeChange) : List (Job × Event) :=
  ((order.arrange m.jobs.values).filter fun j =>
    !j.inactive && j.subscribesTo c.eventName).map (·, .nodeChange c)

/-- What `handle_timer` starts, once the job of the trigger is known. -/
def triggered (t : JobTrigger) (j : Job) : Ear :=
  if j.inactive && !t.runNow then .listening else .busy { launches := [(j, .timer t)] }

/-- The floor with a new task of a job for an event, and what is to be done for it: the beginning of
`launch`. -/
def begin (u : Setup) (f : Floor) (j : Job) (e : Event) : Floor × Nat × List Deed :=
  (f.addTask u j .writer, f.tasks.length,
    rootDeeds u.site.backend u.selectionBuffer (.ofEvent e) j.actions)

/-- A step of an errand, if there is something left of it: the next access of `launch` to something
shared. -/
def runErrand (u : Setup) (f : Floor) (e : Errand) : Option (Floor × Errand) :=
  match e.deeds, e.launches with
  | d :: rest, _ =>
    let (f, more) := f.perform e.task d
    some (f, { e with deeds := more ++ rest })
  | [], (j, ev) :: launches =>
    let (f, task, deeds) := begin u f j ev
    some (f, { task, deeds, launches })
  | [], [] => none

/-! ## Listeners -/

/-- How many messages of a topic lie behind the listener. -/
def behind {α : Type} (t : Topic α) : Nat := (t.place? listener).getD 0

/-- A message of a topic of node changes is heard, and `handle_node_change` takes the matching
jobs. -/
def hearNode (m : Machine) (c : Channel) (t : Topic NodeChange)
    (put : Machine → Topic NodeChange → Machine) (order : Nat → Arrangement Job) :
    Option Machine :=
  match t.receive listener with
  | (t, .message change) =>
    let m := put m t
    some (m.setEar c (.busy { launches := m.launchesOf (order (behind t)) change }))
  | _ => none

/-- A listener that waits hears the next message of its topic. -/
def hear (u : Setup) (m : Machine) : Channel → Option Machine
  | .tree => m.hearNode .tree m.tree (fun m t => { m with tree := t }) (u.order false)
  | .attributes =>
    m.hearNode .attributes m.attributes (fun m t => { m with attributes := t }) (u.order true)
  | .timers =>
    match m.timers.receive listener with
    | (t, .message trigger) => some ({ m with timers := t }.setEar .timers (.seeking trigger))
    | _ => none
  | .jobs =>
    match m.changes.receive listener with
    | (t, .message change) => some ({ m with changes := t }.handleChange u change)
    | _ => none

/-- A step of a listener. That of triggers goes through `handle_timer` in three steps: the loaded
jobs are looked at, the job is read by `get_job`, and what was read is loaded. -/
def listen (u : Setup) (m : Machine) (c : Channel) : Option Machine :=
  match m.ears.get c with
  | .listening => m.hear u c
  | .seeking t =>
    some (m.setEar c (match m.jobs.get? t.jobId with
      | some j => triggered t j
      | none => .fetching t))
  | .fetching t =>
    some (m.setEar c (match m.floor.catalog.getJob t.jobId .unknown with
      | .ok j => .loading t j
      | .error _ => .listening))
  | .loading t j => some ({ m with jobs := m.jobs.insert j.id j }.setEar c (triggered t j))
  | .busy e =>
    match runErrand u m.floor e with
    | some (f, e) => some ((m.onFloor f).setEar c (.busy e))
    | none => some (m.setEar c .listening)
  | .deaf => none

/-! ## Routing -/

/-- What `route` does for a runnable that goes nowhere. -/
def turnAway (reason : String) : List Deed := [.mark (.interrupt reason), .mark .release]

/-- The number of the dispatcher of a loaded job; `route` starts one on first use. -/
def benchFor (u : Setup) (m : Machine) (j : Job) : Machine × Nat :=
  match m.service.get? j.id with
  | some n => (m, n)
  | none => (m.engage j.id (j.workers u.defaultWorkers), m.benches.length)

/-- The machine after `route` has handed a runnable to the dispatcher of its job, or what is to be
done for the runnable instead. -/
def route (u : Setup) (m : Machine) (r : Runnable) : Machine × List Deed :=
  match (m.floor.tasks[r.task]?).bind fun t => m.jobs.get? t.job.id with
  | none => (m, turnAway "job removed")
  | some j =>
    let (m, n) := m.benchFor u j
    match (m.benches[n]?).bind (·.dispatch r) with
    | some b => ({ m with benches := m.benches.set n b }, [])
    | none => (m, turnAway "dispatcher stopped")

/-- A step of the router: it takes the next runnable from `main_rx`, or goes on with one that it
turns away. -/
def stepRouter (u : Setup) (m : Machine) : Option Machine :=
  match m.router, m.floor.main with
  | .waiting, r :: rest =>
    let (m, deeds) := (m.onFloor { m.floor with main := rest }).route u r
    some (if deeds.isEmpty then m else { m with router := .busy { task := r.task, deeds } })
  | .busy e, _ =>
    match runErrand u m.floor e with
    | some (f, e) => some { m.onFloor f with router := .busy e }
    | none => some { m with router := .waiting }
  | _, _ => none

/-! ## Workers -/

/-- A step of a dispatcher between executions. A runnable that it could not hand over is turned away
by a caller of its own. -/
def stepBench (m : Machine) (n : Nat) (s : DispatcherStep) : Option Machine :=
  match (m.benches[n]?).bind fun b => b.step ({ runnable := · }) s with
  | none => none
  | some (b, returned) =>
    let callers := match returned with
      | none => m.callers
      | some (r, reason) => m.callers ++ [{ task := r.task, deeds := turnAway reason }]
    some { m with benches := m.benches.set n b, callers }

/-- A step of the execution of a worker. -/
def work (u : Setup) (m : Machine) (n w : Nat) : Option Machine :=
  match m.benches[n]? with
  | none => none
  | some b =>
    match (b.execution? w).bind (·.step u m.floor) with
    | none => none
    | some (f, e) => some { m.onFloor f with benches := m.benches.set n (b.carry w e) }

/-! ## The writer -/

/-- A step of the writer. A snapshot that is put goes into the catalog by `put_task`, and is told
of. -/
def write (m : Machine) (s : WriterStep) : Option Machine :=
  match m.floor.writer.step s with
  | none => none
  | some (writer, put) =>
    let f := { m.floor with writer }
    match put, s with
    | some t, .put true =>
      let (catalog, told) := f.catalog.saveTask t
      some (m.onFloor ({ f with catalog }.telling told))
    | _, _ => some (m.onFloor f)

/-! ## The outside -/

/-- The machine after a change of the catalog of which there is something to tell. -/
def change (m : Machine) (c : Catalog × List Announcement) : Machine :=
  m.onFloor ({ m.floor with catalog := c.1 }.telling c.2)

/-- The machine with a caller from outside who is inside `launch`. -/
def launch (u : Setup) (m : Machine) (j : Job) (e : Event) : Machine :=
  let (f, task, deeds) := begin u m.floor j e
  { m.onFloor f with callers := m.callers ++ [{ task, deeds }] }

/-- The machine with a caller from outside who calls `route` with a runnable of a task of its own,
whose snapshots are kept aside. -/
def submit (u : Setup) (m : Machine) (j : Job) (action : Action) (input : Message) : Machine :=
  let task := m.floor.tasks.length
  let m := m.onFloor ((m.floor.addTask u j (.aside [])).mark task .retain)
  let (m, deeds) := m.route u { action, task, input }
  if deeds.isEmpty then m else { m with callers := m.callers ++ [{ task, deeds }] }

/-- A step of a caller. -/
def call (u : Setup) (m : Machine) (n : Nat) : Option Machine :=
  match m.callers[n]? with
  | none => none
  | some e =>
    match runErrand u m.floor e with
    | some (f, e) => some { m.onFloor f with callers := m.callers.set n e }
    | none => some { m with callers := m.callers.eraseIdx n }

/-- The machine without the subscription of a listener. -/
def unsubscribe (m : Machine) : Channel → Machine
  | .tree => { m with tree := m.tree.unsubscribe listener }
  | .attributes => { m with attributes := m.attributes.unsubscribe listener }
  | .timers => { m with timers := m.timers.unsubscribe listener }
  | .jobs => { m with changes := m.changes.unsubscribe listener }

/-- A listener ends, together with what it still had to start: `abort` on one of the listening
loops. -/
def silence (m : Machine) (c : Channel) : Option Machine :=
  if (m.ears.get c).canEnd then some ((m.setEar c .deaf).unsubscribe c) else none

/-- The router ends while it waits, and with it the main queue and what is in it: `abort` drops
`main_rx`. -/
def endRouter (m : Machine) : Option Machine :=
  match m.router with
  | .waiting =>
    some { m.onFloor { m.floor with main := [], accepting := false } with router := .ended }
  | _ => none

/-- Every dispatcher in service is stopped: `stop_dispatchers`, the end of `shutdown`. -/
def stopDispatchers (m : Machine) : Machine := m.service.keys.foldl retire m

end Machine

/-! ## Steps -/

/-- A step of the machine. -/
inductive MachineStep where
  /-- The clocks show other times. -/
  | time (now : Int64) (clock : Nat)
  /-- Someone publishes a message. -/
  | publish (post : Machine.Post)
  /-- Someone changes the catalog without telling. -/
  | store (job : Job)
  /-- Someone saves a job. -/
  | saveJob (job : Job)
  /-- Someone removes a job. -/
  | removeJob (jobId : String)
  /-- Someone saves a task. -/
  | saveTask (task : Task)
  /-- The next thing is told of a change. -/
  | announce (call : Nat)
  /-- Someone starts a task. -/
  | launch (job : Job) (event : Event)
  /-- Someone routes a runnable of a task of its own. -/
  | submit (job : Job) (action : Action) (input : Message)
  /-- A caller goes on. -/
  | call (caller : Nat)
  /-- A listener goes on. -/
  | listen (channel : Channel)
  /-- The router goes on. -/
  | route
  /-- A dispatcher goes on. -/
  | dispatch (bench : Nat) (step : DispatcherStep)
  /-- An execution goes on. -/
  | work (bench worker : Nat)
  /-- The writer goes on. -/
  | write (step : WriterStep)
  /-- A listener is ended. -/
  | silence (channel : Channel)
  /-- The router is ended. -/
  | endRouter
  /-- The dispatchers in service are stopped. -/
  | stopDispatchers

namespace Machine

/-- The machine after a step, if it can be taken. -/
def step (u : Setup) (m : Machine) : MachineStep → Option Machine
  | .time now clock => some (m.onFloor { m.floor with now, clock })
  | .publish post => some (m.publish post).1
  | .store j => some (m.onFloor { m.floor with catalog := m.floor.catalog.putJob j })
  | .saveJob j =>
    let (catalog, _, told) := m.floor.catalog.saveJob j
    some (m.change (catalog, told))
  | .removeJob id => some (m.change (m.floor.catalog.removeJob id))
  | .saveTask t => some (m.change (m.floor.catalog.saveTask t))
  | .announce c => m.announce c
  | .launch j e => some (m.launch u j e)
  | .submit j a input => some (m.submit u j a input)
  | .call n => m.call u n
  | .listen c => m.listen u c
  | .route => m.stepRouter u
  | .dispatch n s => m.stepBench n s
  | .work n w => m.work u n w
  | .write s => m.write s
  | .silence c => m.silence c
  | .endRouter => m.endRouter
  | .stopDispatchers => some m.stopDispatchers

/-- The machine that `start` sets up: the jobs of a catalog loaded, and a listener on each topic. -/
def start (u : Setup) (now : Int64) (catalog : Catalog) (capacity : Nat) : Except Fault Machine :=
  (catalog.listJobs {}).map fun jobs =>
    { floor := { now, catalog, writer := .ofBuffer u.updateBuffer }
      jobs := jobs.foldl (fun d j => d.insert j.id j) Dict.empty
      tree := (Topic.create capacity).subscribe.1
      attributes := (Topic.create capacity).subscribe.1
      timers := (Topic.create capacity).subscribe.1
      changes := (Topic.create capacity).subscribe.1 }

/-- The dispatcher in service for a job. -/
def bench? (m : Machine) (jobId : String) : Option Bench :=
  (m.service.get? jobId).bind fun n => m.benches[n]?

end Machine

end Taskyard
