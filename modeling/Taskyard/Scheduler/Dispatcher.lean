/-!
# Scheduler — dispatchers

A dispatcher hands the runnables of one job to a crew of workers. Workers that have nothing to do
put themselves into a pool (the channel of idle senders that `worker` registers with), from which
the dispatch loop of `start` takes one for each runnable in the order in which the runnables were
queued. When a dispatcher is stopped, it accepts nothing more, and what is queued is still executed.

The type of runnables and the type of executions are parameters.

Main definitions:

* `Dispatcher` — the queue, the loop, the pool, the crew and the counters.
* `DispatcherStep`, `Dispatcher.step` — the steps of the loop and of the workers between executions.
* `Dispatcher.finish` — the end of an execution.
* `Dispatcher.stop` — the end of acceptance.
-/

namespace Taskyard

/-- What a worker is doing: where the loop of `worker` stands. -/
inductive Worker (ρ ε : Type) where
  /-- It is about to put itself into the pool. -/
  | offering
  /-- It waits for a runnable. -/
  | waiting
  /-- It was handed a runnable. -/
  | handed (r : ρ)
  /-- It executes. -/
  | busy (e : ε)
  /-- It has ended. -/
  | gone

/-- What a dispatch loop is doing: where the loop spawned by `Dispatcher.start` stands. -/
inductive DispatchLoop (ρ : Type) where
  /-- It waits for a runnable in the queue. -/
  | receiving
  /-- It waits for a worker in the pool. -/
  | matching (r : ρ)
  /-- It has ended. -/
  | ended

/-- A dispatcher: the queue, the pool and the counters of a `Dispatcher`, with its loop and its
workers. -/
structure Dispatcher (ρ ε : Type) where
  /-- The runnables in the queue. -/
  queue : List ρ := []
  /-- Whether the queue accepts runnables. -/
  accepting : Bool := true
  /-- The dispatch loop. -/
  loop : DispatchLoop ρ := .receiving
  /-- The workers in the pool, by number. -/
  pool : List Nat := []
  /-- The workers. -/
  crew : List (Worker ρ ε)
  /-- The number of executions under way. -/
  busy : Nat := 0
  /-- The greatest number of executions that were ever under way at once. -/
  peak : Nat := 0
  /-- The number of runnables handed over. -/
  dispatched : Nat := 0

/-- A step of the loop, or of a worker by number: each goes from one point where it may be suspended
to the next. -/
inductive DispatcherStep where
  /-- The loop takes a runnable from the queue, or ends when nothing can come any more. -/
  | take
  /-- The loop hands its runnable to the first worker of the pool. -/
  | hand
  /-- A worker puts itself into the pool, or ends when there is no loop any more. -/
  | offer (worker : Nat)
  /-- A worker starts with what it was handed. -/
  | pick (worker : Nat)
  /-- A waiting worker ends when there is no loop any more. -/
  | leave (worker : Nat)
  deriving DecidableEq, Repr

namespace Dispatcher

variable {ρ ε : Type}

/-- A dispatcher with so many workers, at least one. -/
def start (workers : Nat) : Dispatcher ρ ε :=
  { crew := List.replicate (max workers 1) .offering }

/-- The number of workers. -/
def workers (d : Dispatcher ρ ε) : Nat := d.crew.length

/-- The dispatcher with one more runnable in its queue, unless the loop has ended: `dispatch`. -/
def dispatch (d : Dispatcher ρ ε) (r : ρ) : Option (Dispatcher ρ ε) :=
  match d.loop with
  | .ended => none
  | _ => some { d with queue := d.queue ++ [r] }

/-- The dispatcher after it was stopped: `stop` drops the only sender of its queue. -/
def stop (d : Dispatcher ρ ε) : Dispatcher ρ ε := { d with accepting := false }

/-- The dispatcher with a worker doing something else. -/
def assign (d : Dispatcher ρ ε) (worker : Nat) (w : Worker ρ ε) : Dispatcher ρ ε :=
  { d with crew := d.crew.set worker w }

/-- The dispatcher after its loop has ended: the pool is empty from now on. -/
def closeLoop (d : Dispatcher ρ ε) : Dispatcher ρ ε := { d with loop := .ended, pool := [] }

/-- Whether a worker has ended. -/
def isGone : Worker ρ ε → Bool
  | .gone => true
  | _ => false

/-- A runnable that could not be handed over, and why. -/
abbrev Returned (ρ : Type) := Option (ρ × String)

/-- The step of the loop that hands a runnable over, with the runnable where that fails: it sends
through the first `oneshot` of the pool. -/
def handOver (d : Dispatcher ρ ε) (r : ρ) : Option (Dispatcher ρ ε × Returned ρ) :=
  match d.pool with
  | w :: rest =>
    match d.crew[w]? with
    | some .waiting =>
      some ({ d.assign w (.handed r) with
        pool := rest, loop := .receiving, dispatched := d.dispatched + 1 }, none)
    | _ => some ({ d with pool := rest, loop := .receiving }, some (r, "worker gone"))
  | [] => if d.crew.all isGone then some (d.closeLoop, some (r, "no worker left")) else none

/-- The dispatcher after a step that can be taken, with the runnable that could not be handed over.
The execution of a runnable starts as `begin` says. -/
def step (begin : ρ → ε) (d : Dispatcher ρ ε) :
    DispatcherStep → Option (Dispatcher ρ ε × Returned ρ)
  | .take =>
    match d.loop, d.queue with
    | .receiving, r :: rest => some ({ d with queue := rest, loop := .matching r }, none)
    | .receiving, [] => if d.accepting then none else some (d.closeLoop, none)
    | _, _ => none
  | .hand =>
    match d.loop with
    | .matching r => d.handOver r
    | _ => none
  | .offer w =>
    match d.crew[w]?, d.loop with
    | some .offering, .ended => some (d.assign w .gone, none)
    | some .offering, _ =>
      if d.pool.length < d.workers then
        some ({ d.assign w .waiting with pool := d.pool ++ [w] }, none)
      else none
    | _, _ => none
  | .pick w =>
    match d.crew[w]? with
    | some (.handed r) =>
      some ({ d.assign w (.busy (begin r)) with
        busy := d.busy + 1, peak := max d.peak (d.busy + 1) }, none)
    | _ => none
  | .leave w =>
    match d.crew[w]?, d.loop with
    | some .waiting, .ended => some (d.assign w .gone, none)
    | _, _ => none

/-- The execution of a worker, if it has one. -/
def execution? (d : Dispatcher ρ ε) (w : Nat) : Option ε :=
  match d.crew[w]? with
  | some (.busy e) => some e
  | _ => none

/-- The dispatcher after the execution of a worker has ended and `busy` is one less. -/
def finish (d : Dispatcher ρ ε) (w : Nat) : Dispatcher ρ ε :=
  { d.assign w .offering with busy := d.busy - 1 }

/-- The dispatcher after the execution of a worker has gone on, or ended. -/
def carry (d : Dispatcher ρ ε) (w : Nat) : Option ε → Dispatcher ρ ε
  | some e => d.assign w (.busy e)
  | none => d.finish w

end Dispatcher

end Taskyard
