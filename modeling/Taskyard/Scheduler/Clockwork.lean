import Taskyard.Scheduler.Machine

/-!
# Scheduler — a run by the clock

A run of the machine in a fixed order on a clock that only moves when nothing else can be done. What
was begun first is finished first; steps that touch the catalog from inside an execution, a listener
or the writer come when nothing else can be done, in the order in which they were asked for.
Executions that wait are woken at their time, in the order in which they began to wait.

Main definitions:

* `Clockwork` — the machine with the order of what is to come.
* `Clockwork.settle` — a run until nothing can be done without moving the clock.
* `Clockwork.advance` — a run until the clock shows a time.
-/

namespace Taskyard

/-- The machine with the order of what is to come. -/
structure Clockwork where
  /-- What stays the same. -/
  setup : Setup
  /-- The machine. -/
  machine : Machine
  /-- The topics with something to hear, the first published first. -/
  pending : List Channel := []
  /-- The workers whose executions can go on, by dispatcher and number. -/
  active : List (Nat × Nat) := []
  /-- The workers whose executions wait, the first to wait first. -/
  asleep : List (Nat × Nat) := []
  /-- The steps that touch the catalog, the first asked for first. -/
  deferred : List MachineStep := []

namespace Clockwork

/-! ## Steps with what they lead to -/

/-- The clockwork with a step taken, if it can be. -/
def take (k : Clockwork) (s : MachineStep) : Option Clockwork :=
  (k.machine.step k.setup s).map fun machine => { k with machine }

/-- The clockwork with a topic that has something to hear. -/
def expect (k : Clockwork) (c : Channel) : Clockwork :=
  if k.pending.contains c then k else { k with pending := k.pending ++ [c] }

/-- The clockwork with a step that touches the catalog put off. -/
def defer (k : Clockwork) (s : MachineStep) : Clockwork :=
  { k with deferred := k.deferred ++ [s] }

/-- The topic on which something is told of a change, if it is one that the scheduler listens to. -/
def channelOf : Announcement → Option Channel
  | .job _ => some .jobs
  | .trigger _ => some .timers
  | .task _ => none

/-- The next thing is told of the oldest change. -/
def announce (k : Clockwork) : Option Clockwork :=
  match k.machine.floor.calls with
  | (a :: _) :: _ => (k.take (.announce 0)).map fun k =>
    match channelOf a with
    | some c => k.expect c
    | none => k
  | _ => none

/-- The oldest caller goes on. -/
def callers (k : Clockwork) : Option Clockwork :=
  if k.machine.callers.isEmpty then none else k.take (.call 0)

/-- The execution of a worker. -/
def execution? (k : Clockwork) (n w : Nat) : Option Execution :=
  (k.machine.benches[n]?).bind (·.execution? w)

/-- The first execution that can go on goes on, begins to wait, or is put off. -/
def workers (k : Clockwork) : Option Clockwork :=
  match k.active with
  | [] => none
  | (n, w) :: rest =>
    match k.execution? n w with
    | none => some { k with active := rest }
    | some e =>
      if (e.due?.any (k.machine.floor.clock < ·)) then
        some { k with active := rest, asleep := k.asleep ++ [(n, w)] }
      else if e.touchesCatalog then some ({ k with active := rest }.defer (.work n w))
      else k.take (.work n w)

/-- Whether a step is one of the listener of a topic. -/
def isListenOn (c : Channel) : MachineStep → Bool
  | .listen c' => c = c'
  | _ => false

/-- Whether a step is a put of the writer. -/
def isPut : MachineStep → Bool
  | .write (.put _) => true
  | _ => false

/-- The listener of the first topic that has something to hear goes on. A listener that reads the
catalog is put off, and one that has nothing more to hear is forgotten. -/
def listeners (k : Clockwork) : Option Clockwork :=
  match k.pending with
  | [] => none
  | c :: rest =>
    match k.machine.ears.get c with
    | .fetching _ =>
      let k := { k with pending := rest }
      some (if k.deferred.any (isListenOn c) then k else k.defer (.listen c))
    | _ =>
      match k.take (.listen c) with
      | some k => some k
      | none => some { k with pending := rest }

/-- A loop of the writer goes on, or its next put is put off. -/
def writer (k : Clockwork) : Option Clockwork :=
  let put : MachineStep := .write (.put true)
  match [WriterStep.answer, .drain, .forward, .take].findSome? fun s => k.take (.write s) with
  | some k => some k
  | none =>
    if k.machine.floor.writer.stream.isEmpty || k.deferred.any isPut then none
    else some (k.defer put)

/-- The step of a worker between executions that comes next, if there is one. -/
def crewStep (loop : DispatchLoop Runnable) :
    List (Worker Runnable Execution) → Nat → Option DispatcherStep
  | [], _ => none
  | .offering :: _, w => some (.offer w)
  | .handed _ :: _, w => some (.pick w)
  | .waiting :: rest, w =>
    match loop with
    | .ended => some (.leave w)
    | _ => crewStep loop rest (w + 1)
  | _ :: rest, w => crewStep loop rest (w + 1)

/-- A dispatcher goes on: first a worker between executions, then the loop. -/
def bench (k : Clockwork) (n : Nat) (b : Bench) : Option Clockwork :=
  match crewStep b.loop b.crew 0 with
  | some (.pick w) =>
    (k.take (.dispatch n (.pick w))).map fun k => { k with active := k.active ++ [(n, w)] }
  | some s => k.take (.dispatch n s)
  | none => [DispatcherStep.hand, .take].findSome? fun s => k.take (.dispatch n s)

/-- The first dispatcher that can go on goes on. -/
def benchesFrom (k : Clockwork) : List Bench → Nat → Option Clockwork
  | [], _ => none
  | b :: rest, n =>
    match k.bench n b with
    | some k => some k
    | none => benchesFrom k rest (n + 1)

/-- A dispatcher goes on. -/
def benches (k : Clockwork) : Option Clockwork := k.benchesFrom k.machine.benches 0

/-- The clockwork after a step that was put off. -/
def resume (k : Clockwork) : MachineStep → Clockwork
  | .work n w => { k with active := (n, w) :: k.active }
  | .listen c => { k with pending := c :: k.pending }
  | _ => k

/-- The oldest step that was put off is taken. -/
def catalogStep (k : Clockwork) : Option Clockwork :=
  match k.deferred with
  | [] => none
  | s :: rest =>
    let k := { k with deferred := rest }
    some (((k.take s).getD k).resume s)

/-! ## Runs -/

/-- What comes next, if anything can be done without moving the clock. -/
def next (k : Clockwork) : Option Clockwork :=
  k.announce <|> k.callers <|> k.workers <|> k.listeners <|> k.writer <|> k.take .route <|>
    k.benches <|> k.catalogStep

/-- A run of at most so many steps. -/
def run : Nat → Clockwork → Clockwork
  | 0, k => k
  | steps + 1, k =>
    match k.next with
    | some k => run steps k
    | none => k

/-- The greatest number of steps of a run. -/
def patience : Nat := 10000000

/-- A run until nothing can be done without moving the clock. -/
def settle (k : Clockwork) : Clockwork := run patience k

/-- The time at which a waiting execution wakes. -/
def dueOf (k : Clockwork) (worker : Nat × Nat) : Nat :=
  ((k.execution? worker.1 worker.2).bind Execution.due?).getD 0

/-- The clockwork with the clock at a time and everyone woken who waits for it. -/
def wake (k : Clockwork) (clock : Nat) : Clockwork :=
  let machine := k.machine.onFloor { k.machine.floor with clock }
  let (woken, asleep) := k.asleep.partition fun w => k.dueOf w ≤ clock
  { k with machine, active := k.active ++ woken, asleep }

/-- The earliest time before a given one at which someone wakes. -/
def nextDue (k : Clockwork) (before : Nat) : Option Nat :=
  ((k.asleep.map k.dueOf).filter (· < before)).min?

/-- A run until the clock is about to show a time, with at most so many stops on the way. -/
def runTo (target : Nat) : Nat → Clockwork → Clockwork
  | 0, k => k
  | stops + 1, k =>
    match k.nextDue target with
    | some due => runTo target stops (k.wake due).settle
    | none => k

/-- A run of so many milliseconds. Whoever wakes at the very end has only been woken. -/
def advance (k : Clockwork) (millis : Nat) : Clockwork :=
  let target := k.machine.floor.clock + millis
  (runTo target patience k.settle).wake target

/-! ## The outside -/

/-- The clockwork with a step taken that always can be. -/
def act (k : Clockwork) (s : MachineStep) : Clockwork := (k.take s).getD k

/-- The topic of a message. -/
def channelOfPost : Machine.Post → Channel
  | .node false _ => .tree
  | .node true _ => .attributes
  | .trigger _ => .timers
  | .job _ => .jobs

/-- A message is published. The number is that of the subscribers who receive it. -/
def publish (k : Clockwork) (p : Machine.Post) : Clockwork × Nat :=
  ((k.act (.publish p)).expect (channelOfPost p), (k.machine.publish p).2)

/-- The callers go on until none is left, with at most so many steps. -/
def finishCallers : Nat → Clockwork → Clockwork
  | 0, k => k
  | steps + 1, k =>
    match k.callers with
    | some k => finishCallers steps k
    | none => k

/-- A task is started. -/
def launch (k : Clockwork) (j : Job) (e : Event) : Clockwork :=
  finishCallers patience (k.act (.launch j e))

/-- A runnable of a task of its own is routed. -/
def submit (k : Clockwork) (j : Job) (a : Action) (input : Message) : Clockwork :=
  finishCallers patience (k.act (.submit j a input))

/-- Whoever was woken goes on until it waits or ends, with at most so many steps. -/
def finishWorkers : Nat → Clockwork → Clockwork
  | 0, k => k
  | steps + 1, k =>
    match k.workers with
    | some k => finishWorkers steps k
    | none => k

/-- The scheduler is shut down: the dispatchers are stopped, and the listeners and the router end
when it is their turn, which is after everyone who was woken before. -/
def shutDown (k : Clockwork) : Clockwork :=
  [.silence .tree, .silence .attributes, .silence .timers, .silence .jobs, .endRouter].foldl act
    (finishWorkers patience (k.act .stopDispatchers))

end Clockwork

end Taskyard
