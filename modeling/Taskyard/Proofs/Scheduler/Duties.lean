import Mathlib.Algebra.BigOperators.Group.Multiset.Basic
import Taskyard.Proofs.Scheduler.Staffing

/-!
# Scheduler — what is still to be done for tasks

Runnables wait in the main queue, in the queues of dispatchers and in the hands of workers;
executions are under way; listeners, the router and callers have deeds left. All of these are
duties. However many loops share them, a step of the machine touches at most one: it takes one duty
out of the heap, changes the record of its task, and puts back what is left of it.

Main definitions and results:

* `Duty`, `Machine.duties` — what is to be done, and the heap of it that a machine holds.
* `exists_sum_rest` — one part of a sum set apart, which is how a step sees its duty.
* `Dispatcher.Stepped.duties_eq` — what a step of a dispatcher does to its duties.
-/

namespace Taskyard

/-! ## Duties -/

/-- Something that is still to be done for a task: a runnable on its way, a `run` under way, or the
rest of a `launch`, of a `route` that turns a runnable away, or of a dispatch loop that does. -/
inductive Duty where
  /-- A runnable that nobody executes yet. -/
  | waiting (r : Runnable)
  /-- An execution. -/
  | running (e : Execution)
  /-- Deeds that a listener, the router or a caller has left. -/
  | errand (task : Nat) (deeds : List Deed)

namespace Duty

/-- The task that a duty is for. -/
def task : Duty → Nat
  | .waiting r => r.task
  | .running e => e.runnable.task
  | .errand i _ => i

/-- The deeds that are left, once nothing but deeds is left. -/
def deeds : Duty → Option (List Deed)
  | .waiting _ => none
  | .running e =>
    match e.phase with
    | .doing ds => some ds
    | _ => none
  | .errand _ ds => some ds

/-- The duty of deeds outside of an execution: none when there are no deeds. -/
def ofDeeds (task : Nat) : List Deed → Multiset Duty
  | [] => 0
  | d :: ds => {.errand task (d :: ds)}

/-- What is left of a duty when these deeds are left of it. -/
def resume : Duty → List Deed → Multiset Duty
  | .waiting _, _ => 0
  | .running e, ds => {.running { e with phase := .doing ds }}
  | .errand i _, ds => ofDeeds i ds

/-- Deeds make one duty, unless there are none. -/
theorem mem_ofDeeds {d : Duty} {i : Nat} {ds : List Deed} :
    d ∈ ofDeeds i ds ↔ ds ≠ [] ∧ d = .errand i ds := by
  cases ds with
  | nil => exact ⟨fun h => absurd h (Multiset.notMem_zero d), fun h => absurd rfl h.1⟩
  | cons => simp [ofDeeds]

theorem task_of_mem_ofDeeds {d : Duty} {i : Nat} {ds : List Deed} (h : d ∈ ofDeeds i ds) :
    d.task = i := by
  rw [(mem_ofDeeds.mp h).2, task]

/-- What is left of a duty is for the same task. -/
theorem task_of_mem_resume {d d' : Duty} {ds : List Deed} (h : d' ∈ d.resume ds) :
    d'.task = d.task := by
  cases d with
  | waiting r => exact absurd h (Multiset.notMem_zero d')
  | running e => rw [Multiset.mem_singleton.mp h, task, task]
  | errand i _ => exact task_of_mem_ofDeeds h

end Duty

/-! ## Heaps of duties -/

def Errand.duties (e : Errand) : Multiset Duty := Duty.ofDeeds e.task e.deeds

def Ear.duties : Ear → Multiset Duty
  | .busy e => e.duties
  | _ => 0

/-- The duties of all listeners. -/
def Ears.duties (e : Ears) : Multiset Duty :=
  e.tree.duties + e.attributes.duties + e.timers.duties + e.jobs.duties

def Router.duties : Router → Multiset Duty
  | .busy e => e.duties
  | _ => 0

def Worker.duties : Worker Runnable Execution → Multiset Duty
  | .handed r => {.waiting r}
  | .busy e => {.running e}
  | _ => 0

def DispatchLoop.duties : DispatchLoop Runnable → Multiset Duty
  | .matching r => {.waiting r}
  | _ => 0

def queueDuties (queue : List Runnable) : Multiset Duty := (queue.map Duty.waiting : List Duty)

/-- The duties of a dispatcher. -/
def Dispatcher.duties (b : Bench) : Multiset Duty :=
  queueDuties b.queue + b.loop.duties + (b.crew.map Worker.duties).sum

/-- All duties. -/
def Machine.duties (m : Machine) : Multiset Duty :=
  queueDuties m.floor.main + (m.benches.map Dispatcher.duties).sum + m.ears.duties +
    m.router.duties + (m.callers.map Errand.duties).sum

/-- The snapshots that were handed over and are not yet in the catalog, and those kept aside. -/
def Floor.snapshots (f : Floor) : List Task :=
  f.writer.backlog ++ f.tasks.flatMap fun t =>
    match t.outlet with
    | .writer => []
    | .aside snapshots => snapshots

/-- One more runnable in a queue is one more duty. -/
@[simp]
theorem queueDuties_concat (queue : List Runnable) (r : Runnable) :
    queueDuties (queue ++ [r]) = .waiting r ::ₘ queueDuties queue := by
  simp only [queueDuties, List.map_append, List.map_cons, List.map_nil, ← Multiset.coe_add]
  rw [Multiset.coe_singleton, add_comm, Multiset.singleton_add]

@[simp]
theorem queueDuties_cons (r : Runnable) (queue : List Runnable) :
    queueDuties (r :: queue) = .waiting r ::ₘ queueDuties queue := rfl

@[simp]
theorem queueDuties_nil : queueDuties [] = 0 := rfl

/-- The duties of a queue are its runnables, waiting. -/
theorem mem_queueDuties {d : Duty} {queue : List Runnable} :
    d ∈ queueDuties queue ↔ ∃ r ∈ queue, .waiting r = d :=
  Multiset.mem_coe.trans List.mem_map

section Sums

variable {α β : Type} (f : α → Multiset β)

/-- A sum over a list, with one member of the list set apart. -/
theorem exists_sum_rest {l : List α} {n : Nat} {a : α} (h : l[n]? = some a) :
    ∃ rest, (l.map f).sum = f a + rest ∧
      (∀ a', ((l.set n a').map f).sum = f a' + rest) ∧ ((l.eraseIdx n).map f).sum = rest := by
  induction l generalizing n with
  | nil => exact absurd h (by simp)
  | cons x xs ih =>
    cases n with
    | zero =>
      obtain rfl : x = a := Option.some.inj h
      exact ⟨(xs.map f).sum, by simp, by simp, by simp⟩
    | succ n =>
      -- the head stays, and the rest is what is left of the tail
      obtain ⟨rest, hSum, hSet, hErase⟩ := ih h
      refine ⟨f x + rest, ?_, fun a' => ?_, ?_⟩
      · rw [List.map_cons, List.sum_cons, hSum, add_left_comm]
      · rw [List.set_cons_succ, List.map_cons, List.sum_cons, hSet, add_left_comm]
      · rw [List.eraseIdx_cons_succ, List.map_cons, List.sum_cons, hErase]

theorem sum_map_concat (l : List α) (a : α) :
    ((l ++ [a]).map f).sum = f a + (l.map f).sum := by
  rw [List.map_append, List.sum_append, add_comm]
  simp

/-- Replacing a member by one with the same share does not change a sum. -/
theorem sum_map_set {l : List α} {n : Nat} {a a' : α} (h : l[n]? = some a) (hf : f a' = f a) :
    ((l.set n a').map f).sum = (l.map f).sum := by
  obtain ⟨rest, hSum, hSet, -⟩ := exists_sum_rest f h
  rw [hSum, hSet, hf]

/-- What is in a sum over a list is in the share of one of its members. -/
theorem mem_sum_map {f : α → Multiset β} {l : List α} {x : β} (h : x ∈ (l.map f).sum) :
    ∃ a ∈ l, x ∈ f a := by
  induction l with
  | nil => exact absurd h (Multiset.notMem_zero x)
  | cons a rest ih =>
    rw [List.map_cons, List.sum_cons] at h
    rcases Multiset.mem_add.mp h with h | h
    · exact ⟨a, by simp, h⟩
    · obtain ⟨b, hb, hx⟩ := ih h
      exact ⟨b, by simp [hb], hx⟩

/-- What one place has to do is among what all have to do. -/
theorem mem_sum_map_of_mem {f : α → Multiset β} {l : List α} {a : α} {x : β} (ha : a ∈ l)
    (hx : x ∈ f a) : x ∈ (l.map f).sum := by
  obtain ⟨n, hn⟩ := List.mem_iff_getElem?.mp ha
  obtain ⟨rest, hSum, -, -⟩ := exists_sum_rest f hn
  rw [hSum]
  exact Multiset.mem_add.mpr (Or.inl hx)

end Sums

namespace Dispatcher

@[simp]
theorem duties_start (workers : Nat) : (start workers : Bench).duties = 0 := by
  simp [duties, start, DispatchLoop.duties, Worker.duties]

@[simp]
theorem duties_stop (b : Bench) : b.stop.duties = b.duties := rfl

/-- A runnable that is queued is one more duty. -/
theorem duties_queue (b : Bench) (r : Runnable) :
    Dispatcher.duties { b with queue := b.queue ++ [r] } = .waiting r ::ₘ b.duties := by
  simp [duties, Multiset.cons_add]

/-- A worker sets its duty apart from the others. -/
theorem exists_duties_rest {b : Bench} {n : Nat} {w : Worker Runnable Execution}
    (h : b.crew[n]? = some w) :
    ∃ rest, b.duties = w.duties + rest ∧ ∀ w', (b.assign n w').duties = w'.duties + rest := by
  obtain ⟨rest, hSum, hSet, -⟩ := exists_sum_rest Worker.duties h
  refine ⟨queueDuties b.queue + b.loop.duties + rest, ?_, fun w' => ?_⟩
  · rw [duties, hSum, add_left_comm]
  · simp only [duties, assign, hSet, add_left_comm]

/-- The runnable that a worker begins with, if the step is one at which a worker begins. -/
def begins (b : Bench) : DispatcherStep → Option Runnable
  | .pick w =>
    match b.crew[w]? with
    | some (.handed r) => some r
    | _ => none
  | _ => none

/-- A step of a dispatcher moves a runnable on, unless it begins with one. -/
theorem Stepped.duties_eq {b b' : Bench} {s : DispatcherStep}
    (hStep : Stepped ({ runnable := · }) b s b') :
    (b.begins s = none ∧ b'.duties = b.duties) ∨
      ∃ r rest, b.begins s = some r ∧ b.duties = .waiting r ::ₘ rest ∧
        b'.duties = .running { runnable := r } ::ₘ rest := by
  cases hStep with
  | took hLoop hQueue =>
    refine Or.inl ⟨rfl, ?_⟩
    simp only [duties, hLoop, hQueue, DispatchLoop.duties, queueDuties_cons, add_zero]
    rw [← Multiset.singleton_add, add_comm {Duty.waiting _}]
  | closed hLoop =>
    refine Or.inl ⟨rfl, ?_⟩
    simp only [duties, closeLoop, hLoop, DispatchLoop.duties]
  -- the runnable goes from the loop to the first worker of the pool
  | handed hLoop _ hWaiting =>
    refine Or.inl ⟨rfl, ?_⟩
    obtain ⟨rest, hSum, hSet, -⟩ := exists_sum_rest Worker.duties hWaiting
    simp only [duties, assign, hLoop, hSum, hSet, DispatchLoop.duties, Worker.duties, zero_add,
      add_zero, add_assoc]
  -- a worker that offers itself, or leaves, has nothing in hand
  | offered hOffering =>
    obtain ⟨rest, hOld, hNew⟩ := exists_duties_rest hOffering
    exact Or.inl ⟨rfl, (hNew .waiting).trans hOld.symm⟩
  | retired hWorker | left hWorker =>
    obtain ⟨rest, hOld, hNew⟩ := exists_duties_rest hWorker
    exact Or.inl ⟨rfl, (hNew .gone).trans hOld.symm⟩
  -- only here a runnable becomes an execution
  | @picked n r hHanded =>
    obtain ⟨rest, hOld, hNew⟩ := exists_duties_rest hHanded
    refine Or.inr ⟨r, rest, ?_, ?_, ?_⟩
    · simp only [begins, hHanded]
    · rw [hOld, Worker.duties, Multiset.singleton_add]
    · exact (hNew (.busy { runnable := r })).trans (Multiset.singleton_add _ _)

/-- An execution that goes on, or ends, takes the place of what it was. -/
theorem exists_carry_rest {b : Bench} {n : Nat} {e : Execution} (h : b.execution? n = some e) :
    ∃ rest, b.duties = .running e ::ₘ rest ∧
      (b.carry n none).duties = rest ∧
      ∀ e', (b.carry n (some e')).duties = .running e' ::ₘ rest := by
  obtain ⟨rest, hOld, hNew⟩ := exists_duties_rest (crew_of_execution? h)
  refine ⟨rest, ?_, ?_, fun e' => ?_⟩
  · rw [hOld, Worker.duties, Multiset.singleton_add]
  · exact (hNew .offering).trans (zero_add rest)
  · exact (hNew (.busy e')).trans (Multiset.singleton_add _ _)

end Dispatcher

end Taskyard
