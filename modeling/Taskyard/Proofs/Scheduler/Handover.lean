import Mathlib.Algebra.BigOperators.Group.Multiset.Basic
import Mathlib.Tactic.Abel
import Taskyard.Proofs.Scheduler.Staffing

/-!
# Scheduler — one dispatcher loses nothing

A dispatcher hands over what was dispatched to it in the order of dispatch, to workers who have
nothing else to do. Its pool is made of tokens: a worker is in the pool exactly while it waits, so a
runnable always finds a worker in the end, and no more runnables are executed at once than there are
workers. How an execution ends, with an output, a fault or a crash, makes no difference: its worker
offers itself again.

Main definitions and results:

* `BenchEvent`, `BenchLog`, `Dispatcher.Observed` — everything that happens to a dispatcher from its
  start on, and what becomes of its runnables.
* `Dispatcher.Observed.served` — the limit, the order, and that nothing is lost or done twice.
-/

namespace Taskyard

/-! ## What happens to a dispatcher -/

/-- Something that happens to a dispatcher. -/
inductive BenchEvent where
  /-- A runnable is dispatched to it. -/
  | dispatch (r : Runnable)
  /-- It is stopped. -/
  | stop
  /-- Its loop goes on, or a worker between executions. -/
  | step (s : DispatcherStep)
  /-- The execution of a worker goes on, on the floor as it is by then. -/
  | work (worker : Nat) (f : Floor)

/-- What has become of the runnables of a dispatcher, each list in the order of time. -/
structure BenchLog where
  /-- The runnables that were dispatched to it and accepted. -/
  accepted : List Runnable := []
  /-- The runnables that were handed to workers. -/
  handed : List Runnable := []
  /-- The runnables whose executions have ended. -/
  executed : List Runnable := []
  /-- The runnables that could not be handed over, and why. -/
  returned : List (Runnable × String) := []
  /-- The steps that the loop and the workers between executions have taken. -/
  steps : Nat := 0

/-- The runnable that a loop has taken and not yet handed over. -/
def DispatchLoop.held : DispatchLoop Runnable → List Runnable
  | .matching r => [r]
  | _ => []

/-- The runnable that a worker has in hand. -/
def Worker.inHand : Worker Runnable Execution → Multiset Runnable
  | .handed r => {r}
  | .busy e => {e.runnable}
  | _ => 0

/-- Whether a worker executes. -/
def Worker.isBusy : Worker Runnable Execution → Bool
  | .busy _ => true
  | _ => false

namespace Dispatcher

/-- The runnables that workers have in hand. -/
def inHand (b : Bench) : Multiset Runnable := (b.crew.map Worker.inHand).sum

/-- The number of runnables that are being executed. -/
def executing (b : Bench) : Nat := b.crew.countP Worker.isBusy

/-- A dispatcher and its log after a step: a runnable that the loop held was handed over, unless it
was given back. -/
def logStep (b : Bench) (l : BenchLog) (s : DispatcherStep) (returned : Returned Runnable) :
    BenchLog :=
  { l with
    handed := if s = .hand ∧ returned = none then l.handed ++ b.loop.held else l.handed
    returned := l.returned ++ returned.toList
    steps := l.steps + 1 }

/-- A dispatcher and its log after something that can happen. -/
def follow (u : Setup) (b : Bench) (l : BenchLog) : BenchEvent → Option (Bench × BenchLog)
  | .dispatch r => (b.dispatch r).map (·, { l with accepted := l.accepted ++ [r] })
  | .stop => some (b.stop, l)
  | .step s => (b.step ({ runnable := · }) s).map fun (b', returned) =>
      (b', b.logStep l s returned)
  | .work w f =>
    (b.execution? w).bind fun e => (e.step u f).map fun (_, next) =>
      (b.carry w next,
        if next.isNone then { l with executed := l.executed ++ [e.runnable] } else l)

/-- A dispatcher that was started with so many workers, and its log, after any events. -/
inductive Observed (u : Setup) (n : Nat) : Bench → BenchLog → Prop
  | start : Observed u n (start n) {}
  | next {b b' : Bench} {l l' : BenchLog} {ev : BenchEvent} (h : Observed u n b l)
      (hEvent : b.follow u l ev = some (b', l')) : Observed u n b' l'

/-- Nothing is executed, and neither the loop nor a worker can go on. -/
def AtRest (b : Bench) : Prop :=
  (∀ w, b.execution? w = none) ∧
    ∀ s, b.step (fun r => ({ runnable := r } : Execution)) s = none

/-! ## What every event keeps -/

/-- A list with one of its members set apart. -/
theorem exists_parts {α : Type} {l : List α} {n : Nat} {a : α} (h : l[n]? = some a) :
    ∃ before after, l = before ++ a :: after ∧ ∀ a', l.set n a' = before ++ a' :: after := by
  induction l generalizing n with
  | nil => exact absurd h (by simp)
  | cons x xs ih =>
    cases n with
    | zero => exact ⟨[], xs, by rw [Option.some.inj h]; rfl, fun _ => rfl⟩
    | succ n =>
      obtain ⟨before, after, hList, hSet⟩ := ih h
      exact ⟨x :: before, after, by rw [hList]; rfl, fun a' => by rw [List.set_cons_succ, hSet]; rfl⟩

/-- How far a worker is from its end, in steps of its own. -/
def ahead : Worker Runnable Execution → Nat
  | .gone => 0
  | .waiting => 1
  | .offering => 2
  | .busy _ => 3
  | .handed _ => 4

/-- How far a loop is from its end, with the steps that a runnable still gives to its worker. -/
def loopAhead : DispatchLoop Runnable → Nat
  | .ended => 0
  | .receiving => 1
  | .matching _ => 5

/-- A bound on the steps that a dispatcher can take by itself. -/
def stepsAhead (b : Bench) : Nat :=
  5 * b.queue.length + loopAhead b.loop + (b.crew.map ahead).sum

/-- What is always true of a dispatcher that was started with so many workers, besides that it is
staffed: nobody is added or lost, everyone who waits is in the pool, and the loop does not end
before the queue is empty. -/
structure Crewed (n : Nat) (b : Bench) : Prop where
  staffed : b.Staffed
  size    : b.crew.length = max n 1
  tokens  : b.loop ≠ .ended → ∀ k, b.crew[k]? = some .waiting → k ∈ b.pool
  emptied : b.loop = .ended → b.queue = []

/-- What is always true of a dispatcher together with its log. -/
structure Tallied (n : Nat) (b : Bench) (l : BenchLog) : Prop where
  order    : l.accepted = l.handed ++ b.loop.held ++ b.queue
  once     : (l.handed : Multiset Runnable) = l.executed + b.inHand
  counted  : b.dispatched = l.handed.length
  busy     : b.busy = b.executing
  peak     : b.peak ≤ max n 1
  returned : l.returned = []
  bounded  : l.steps + b.stepsAhead ≤ 5 * l.accepted.length + 2 * max n 1 + 1

@[simp]
theorem assign_queue (b : Bench) (k : Nat) (w : Worker Runnable Execution) :
    (b.assign k w).queue = b.queue := rfl

@[simp]
theorem assign_loop (b : Bench) (k : Nat) (w : Worker Runnable Execution) :
    (b.assign k w).loop = b.loop := rfl

/-- What a worker has a share of: the runnables in hand, the executions under way and the steps to
the end. -/
structure Shares (b : Bench) (w : Worker Runnable Execution) (hands : Multiset Runnable)
    (running steps : Nat) : Prop where
  inHand    : b.inHand = w.inHand + hands
  executing : b.executing = (if w.isBusy then 1 else 0) + running
  ahead     : (b.crew.map ahead).sum = ahead w + steps

/-- A worker has its share, and when it does something else nothing but its share changes. -/
theorem exists_shares {b : Bench} {k : Nat} {w : Worker Runnable Execution}
    (hw : b.crew[k]? = some w) :
    ∃ hands running steps, Shares b w hands running steps ∧
      ∀ w', Shares (b.assign k w') w' hands running steps := by
  obtain ⟨before, after, hCrew, hSet⟩ := exists_parts hw
  -- whoever the worker is, the shares are those of the others and its own
  have hAny : ∀ (b' : Bench) w', b'.crew = before ++ w' :: after →
      Shares b' w' ((before ++ after).map Worker.inHand).sum
        ((before ++ after).countP Worker.isBusy) ((before ++ after).map ahead).sum := by
    intro b' w' hCrew'
    refine ⟨?_, ?_, ?_⟩
    · simp only [inHand, hCrew', List.map_append, List.map_cons, List.sum_append, List.sum_cons]
      exact add_left_comm _ _ _
    · simp only [executing, hCrew', List.countP_append, List.countP_cons]
      omega
    · simp only [hCrew', List.map_append, List.map_cons, List.sum_append, List.sum_cons]
      omega
  exact ⟨_, _, _, hAny b w hCrew, fun w' => hAny _ w' (hSet w')⟩

/-- Whoever waits while another worker does anything but wait has been waiting before. -/
theorem waiting_of_assign {b : Bench} {n k : Nat} {w : Worker Runnable Execution}
    (hw : w ≠ .waiting) (h : (b.assign n w).crew[k]? = some .waiting) :
    k ≠ n ∧ b.crew[k]? = some .waiting := by
  rw [assign, List.getElem?_set] at h
  split at h
  · split at h
    · exact absurd (Option.some.inj h) hw
    · exact absurd h (by simp)
  · next hNe => exact ⟨fun hEq => hNe hEq.symm, h⟩

/-- A step of a dispatcher keeps its crew, one case for each way it can go. -/
theorem Crewed.step {n : Nat} {b b' : Bench} {s : DispatcherStep} (h : Crewed n b)
    (hStep : Stepped ({ runnable := · }) b s b') (hStaffed : b'.Staffed) : Crewed n b' := by
  cases hStep with
  | took hLoop hQueue =>
    have hGoes : b.loop ≠ .ended := by simp [hLoop]
    exact ⟨hStaffed, h.size, fun _ => h.tokens hGoes, fun hEnded => absurd hEnded (by simp)⟩
  | closed _ hQueue => exact ⟨hStaffed, h.size, fun hGoes => absurd rfl hGoes, fun _ => hQueue⟩
  -- the worker that leaves the pool does not wait any more
  | @handed r k rest hLoop hPool hWorker =>
    have hGoes : b.loop ≠ .ended := by simp [hLoop]
    refine ⟨hStaffed, (List.length_set).trans h.size, fun _ j hj => ?_,
      fun hEnded => absurd hEnded (by simp)⟩
    obtain ⟨hNe, hWaits⟩ := waiting_of_assign (by simp) hj
    have hIn := h.tokens hGoes j hWaits
    rw [hPool] at hIn
    exact (List.mem_cons.mp hIn).resolve_left hNe
  -- and one that begins to wait joins it
  | @offered k hWorker hLoop =>
    refine ⟨hStaffed, (List.length_set).trans h.size, fun _ j hj => ?_,
      fun hEnded => absurd hEnded hLoop⟩
    by_cases hEq : j = k
    · exact List.mem_append_right _ (by simp [hEq])
    · have hWaits : b.crew[j]? = some .waiting := by
        have hSet : (b.crew.set k .waiting)[j]? = some .waiting := hj
        rwa [List.getElem?_set_ne (Ne.symm hEq)] at hSet
      exact List.mem_append_left _ (h.tokens hLoop j hWaits)
  | retired _ hLoop | left _ hLoop =>
    exact ⟨hStaffed, (List.length_set).trans h.size, fun hGoes => absurd hLoop hGoes, h.emptied⟩
  | picked hWorker =>
    refine ⟨hStaffed, (List.length_set).trans h.size, fun hGoes j hj => ?_, h.emptied⟩
    exact h.tokens hGoes j (waiting_of_assign (by simp) hj).2

theorem executing_le (b : Bench) : b.executing ≤ b.crew.length := List.countP_le_length

/-- Only handing over says anything of a runnable. -/
theorem logStep_eq {b : Bench} {l : BenchLog} {s : DispatcherStep} (h : s ≠ .hand) :
    b.logStep l s none = { l with steps := l.steps + 1 } := by
  simp [logStep, h]

/-- **A step** of the loop or of a worker keeps the log in order. -/
theorem Tallied.step {n : Nat} {b b' : Bench} {l : BenchLog} {s : DispatcherStep}
    (h : Tallied n b l) (hSize : b.crew.length = max n 1)
    (hStep : Stepped ({ runnable := · }) b s b') : Tallied n b' (b.logStep l s none) := by
  have hOrder := h.order
  have hOnce := h.once
  have hBusy := h.busy
  have hBound := h.bounded
  simp only [stepsAhead] at hBound
  -- the bound pays one for each step: a runnable costs five from the queue to its end
  cases hStep with
  | @took r rest hLoop hQueue =>
    rw [logStep_eq (by simp)]
    refine ⟨?_, hOnce, h.counted, hBusy, h.peak, h.returned, ?_⟩
    · simpa [hLoop, hQueue, DispatchLoop.held] using hOrder
    · simp only [stepsAhead, hLoop, hQueue, loopAhead, List.length_cons] at hBound ⊢
      omega
  | closed hLoop hQueue =>
    rw [logStep_eq (by simp)]
    refine ⟨?_, hOnce, h.counted, hBusy, h.peak, h.returned, ?_⟩
    · simpa [closeLoop, hLoop, hQueue, DispatchLoop.held] using hOrder
    · simp only [stepsAhead, closeLoop, hLoop, loopAhead] at hBound ⊢
      omega
  -- the runnable goes from the loop to the worker, which begins its four steps to the pool
  | @handed r k rest hLoop hPool hWorker =>
    obtain ⟨hands, running, steps, hOld, hNew⟩ := exists_shares hWorker
    have hThen := hNew (.handed r)
    have hLog : b.logStep l .hand none =
        { l with handed := l.handed ++ [r], steps := l.steps + 1 } := by
      simp [logStep, hLoop, DispatchLoop.held]
    rw [hLog]
    refine ⟨?_, ?_, ?_, hBusy.trans (hOld.executing.trans hThen.executing.symm), h.peak, h.returned,
      ?_⟩
    · simpa [hLoop, DispatchLoop.held] using hOrder
    · show ((l.handed ++ [r] : List Runnable) : Multiset Runnable) =
        l.executed + (b.assign k (.handed r)).inHand
      rw [hThen.inHand, ← Multiset.coe_add, hOnce, hOld.inHand]
      simp only [Worker.inHand, zero_add, Multiset.coe_singleton]
      abel
    · simp [h.counted]
    · simp only [stepsAhead, assign_queue, hLoop, loopAhead, hOld.ahead, hThen.ahead, ahead]
        at hBound ⊢
      omega
  | offered hWorker hLoop =>
    obtain ⟨hands, running, steps, hOld, hNew⟩ := exists_shares hWorker
    have hThen := hNew .waiting
    rw [logStep_eq (by simp)]
    refine ⟨hOrder, hOnce.trans ?_, h.counted,
      hBusy.trans (hOld.executing.trans hThen.executing.symm), h.peak, h.returned, ?_⟩
    · exact congrArg _ (hOld.inHand.trans hThen.inHand.symm)
    · simp only [stepsAhead, assign_queue, assign_loop, hOld.ahead, hThen.ahead, ahead] at hBound ⊢
      omega
  | retired hWorker hLoop | left hWorker hLoop =>
    obtain ⟨hands, running, steps, hOld, hNew⟩ := exists_shares hWorker
    have hThen := hNew .gone
    rw [logStep_eq (by simp)]
    refine ⟨hOrder, hOnce.trans ?_, h.counted,
      hBusy.trans (hOld.executing.trans hThen.executing.symm), h.peak, h.returned, ?_⟩
    · exact congrArg _ (hOld.inHand.trans hThen.inHand.symm)
    · simp only [stepsAhead, assign_queue, assign_loop, hOld.ahead, hThen.ahead, ahead] at hBound ⊢
      omega
  -- one more is executed, and there is a worker for it
  | @picked k r hWorker =>
    obtain ⟨hands, running, steps, hOld, hNew⟩ := exists_shares hWorker
    have hThen := hNew (.busy { runnable := r })
    have hRoom := executing_le (b.assign k (.busy { runnable := r }))
    have hMore : (b.assign k (.busy { runnable := r })).executing = b.busy + 1 := by
      rw [hBusy, hThen.executing, hOld.executing]
      simp only [Worker.isBusy, if_true, Bool.false_eq_true, if_false]
      omega
    rw [logStep_eq (by simp)]
    refine ⟨hOrder, hOnce.trans ?_, h.counted, hMore.symm, ?_, h.returned, ?_⟩
    · exact congrArg _ (hOld.inHand.trans hThen.inHand.symm)
    · have hCrew : (b.assign k (.busy { runnable := r })).crew.length = b.crew.length :=
        List.length_set
      exact max_le h.peak (by omega)
    · simp only [stepsAhead, assign_queue, assign_loop, hOld.ahead, hThen.ahead, ahead] at hBound ⊢
      omega

/-- **An execution that goes on or ends**, in whatever way, keeps the log in order. -/
theorem Tallied.work {n k : Nat} {b : Bench} {l : BenchLog} {u : Setup} {f f' : Floor}
    {e : Execution} {next : Option Execution} (h : Tallied n b l) (he : b.execution? k = some e)
    (hStep : e.step u f = some (f', next)) :
    Tallied n (b.carry k next)
      (if next.isNone then { l with executed := l.executed ++ [e.runnable] } else l) := by
  obtain ⟨hands, running, steps, hOld, hNew⟩ := exists_shares (crew_of_execution? he)
  have hBound := h.bounded
  cases next with
  | some e' =>
    have hThen := hNew (.busy e')
    have hSame : Worker.inHand (.busy e') = Worker.inHand (.busy e) := by
      obtain ⟨p, hPhase⟩ := (Execution.exists_phase hStep).resolve_left (by simp)
      rw [Option.some.inj hPhase]
      rfl
    refine ⟨h.order, h.once.trans ?_, h.counted,
      h.busy.trans (hOld.executing.trans hThen.executing.symm), h.peak, h.returned, ?_⟩
    · refine congrArg _ ?_
      rw [carry, hOld.inHand, hThen.inHand, hSame]
    · simp only [stepsAhead, carry, Option.isNone_some, assign_queue, assign_loop, hOld.ahead,
        hThen.ahead, ahead] at hBound ⊢
      exact hBound
  -- the worker gives up its runnable, which is executed now
  | none =>
    have hThen := hNew .offering
    refine ⟨h.order, ?_, h.counted, ?_, h.peak, h.returned, ?_⟩
    · show (l.handed : Multiset Runnable) =
        ((l.executed ++ [e.runnable] : List Runnable) : Multiset Runnable) +
          (b.assign k .offering).inHand
      rw [h.once, hOld.inHand, hThen.inHand, ← Multiset.coe_add]
      simp only [Worker.inHand, zero_add, Multiset.coe_singleton]
      abel
    · show b.busy - 1 = (b.assign k .offering).executing
      rw [h.busy, hOld.executing, hThen.executing]
      simp [Worker.isBusy]
    · simp only [stepsAhead, carry, finish, Option.isNone_none, if_true, assign_queue, assign_loop,
        hOld.ahead, hThen.ahead, ahead] at hBound ⊢
      omega

/-- A worker that goes on or comes free is still one of the crew. -/
theorem Crewed.carry {n k : Nat} {b : Bench} {e : Execution} (h : Crewed n b)
    (he : b.execution? k = some e) (next : Option Execution) : Crewed n (b.carry k next) := by
  -- whatever the worker does then, it does not wait
  obtain ⟨w, hWait, hCrew, hRest⟩ : ∃ w, w ≠ .waiting ∧ (b.carry k next).crew = (b.assign k w).crew ∧
      (b.carry k next).loop = b.loop ∧ (b.carry k next).pool = b.pool ∧
      (b.carry k next).queue = b.queue := by
    cases next with
    | some e' => exact ⟨.busy e', by simp, rfl, rfl, rfl, rfl⟩
    | none => exact ⟨.offering, by simp, rfl, rfl, rfl, rfl⟩
  obtain ⟨hLoop, hPool, hQueue⟩ := hRest
  refine ⟨h.staffed.carry he next, ?_, fun hGoes j hj => ?_, fun hEnded => ?_⟩
  · rw [hCrew]
    exact (List.length_set).trans h.size
  · rw [hCrew] at hj
    rw [hPool]
    exact h.tokens (hLoop ▸ hGoes) j (waiting_of_assign hWait hj).2
  · rw [hQueue]
    exact h.emptied (hLoop ▸ hEnded)

/-- A dispatcher that takes in a runnable goes on, and has one more in its queue. -/
theorem dispatch_cases {b b' : Bench} {r : Runnable} (h : b.dispatch r = some b') :
    b.loop ≠ .ended ∧ b' = { b with queue := b.queue ++ [r] } := by
  have hGoes : b.loop ≠ .ended := by
    intro hEnded
    rw [dispatch, hEnded] at h
    exact absurd h (by simp)
  rw [dispatch_eq_some hGoes r] at h
  exact ⟨hGoes, (Option.some.inj h).symm⟩

/-- Taking a runnable in leaves the crew. -/
theorem Crewed.dispatch {n : Nat} {b b' : Bench} {r : Runnable} (h : Crewed n b)
    (hDispatch : b.dispatch r = some b') : Crewed n b' := by
  obtain ⟨hGoes, rfl⟩ := dispatch_cases hDispatch
  exact ⟨h.staffed.queue _, h.size, h.tokens, fun hEnded => absurd hEnded hGoes⟩

/-- A runnable that is accepted waits behind those before it. -/
theorem Tallied.dispatch {n : Nat} {b b' : Bench} {l : BenchLog} {r : Runnable}
    (h : Tallied n b l) (hDispatch : b.dispatch r = some b') :
    Tallied n b' { l with accepted := l.accepted ++ [r] } := by
  obtain ⟨-, rfl⟩ := dispatch_cases hDispatch
  have hBound := h.bounded
  refine ⟨?_, h.once, h.counted, h.busy, h.peak, h.returned, ?_⟩
  · simp [h.order]
  · simp only [stepsAhead, List.length_append, List.length_singleton] at hBound ⊢
    omega

theorem Tallied.stop {n : Nat} {b : Bench} {l : BenchLog} (h : Tallied n b l) :
    Tallied n b.stop l :=
  ⟨h.order, h.once, h.counted, h.busy, h.peak, h.returned, h.bounded⟩

theorem crewed_start (n : Nat) : Crewed n (start n) where
  staffed := start_staffed n
  size := List.length_replicate
  tokens _ k hk := by
    have hMem := List.mem_of_getElem? hk
    exact absurd (List.mem_replicate.mp hMem).2 (by simp)
  emptied h := absurd h (by simp [start])

/-- A new dispatcher has accepted nothing. -/
theorem tallied_start (n : Nat) : Tallied n (start n) {} where
  order := rfl
  once := by simp [inHand, start, Worker.inHand]
  counted := rfl
  busy := by simp [executing, start, List.countP_replicate, Worker.isBusy]
  peak := Nat.zero_le _
  returned := rfl
  bounded := by
    simp only [stepsAhead, start, loopAhead, ahead, List.map_replicate, List.sum_replicate_nat,
      List.length_nil]
    omega

/-- **Every event** keeps a dispatcher crewed and its log in order. -/
theorem Observed.tallied {u : Setup} {n : Nat} {b : Bench} {l : BenchLog}
    (h : Observed u n b l) : Crewed n b ∧ Tallied n b l := by
  -- by induction on the events; the tally needs the number of workers, and nothing needs the tally
  induction h with
  | start => exact ⟨crewed_start n, tallied_start n⟩
  | @next b b' l l' ev _ hEvent ih =>
    obtain ⟨hCrewed, hTallied⟩ := ih
    cases ev with
    | dispatch r =>
      obtain ⟨b₁, hDispatch, hSame⟩ := Option.map_eq_some_iff.mp hEvent
      obtain ⟨rfl, rfl⟩ := Prod.mk.inj hSame
      exact ⟨hCrewed.dispatch hDispatch, hTallied.dispatch hDispatch⟩
    | stop =>
      obtain ⟨rfl, rfl⟩ := Prod.mk.inj (Option.some.inj hEvent)
      exact ⟨⟨hCrewed.staffed.stop, hCrewed.size, hCrewed.tokens, hCrewed.emptied⟩, hTallied.stop⟩
    | step s =>
      obtain ⟨⟨b₁, returned⟩, hStep, hSame⟩ := Option.map_eq_some_iff.mp hEvent
      obtain ⟨rfl, rfl⟩ := Prod.mk.inj hSame
      obtain ⟨hStaffed, rfl⟩ := step_staffed hCrewed.staffed hStep
      have hStepped := (hCrewed.staffed.stepped hStep).1
      exact ⟨hCrewed.step hStepped hStaffed, hTallied.step hCrewed.size hStepped⟩
    | work w f =>
      obtain ⟨e, he, hRest⟩ := Option.bind_eq_some_iff.mp hEvent
      obtain ⟨⟨f', next⟩, hStep, hSame⟩ := Option.map_eq_some_iff.mp hRest
      obtain ⟨rfl, rfl⟩ := Prod.mk.inj hSame
      exact ⟨hCrewed.carry he next, hTallied.work he hStep⟩

/-! ## Rest -/

/-- **A dispatcher at rest has nothing left**: not in its queue, not with its loop, and not in the
hands of its workers. -/
theorem Crewed.nothing_left {n : Nat} {b : Bench} (h : Crewed n b) (hRest : b.AtRest) :
    b.queue = [] ∧ b.loop.held = [] ∧ b.inHand = 0 := by
  obtain ⟨hIdle, hStuck⟩ := hRest
  -- a worker with a runnable could go on
  have hFree : ∀ w ∈ b.crew, w = .offering ∨ w = .waiting ∨ w = .gone := by
    intro w hw
    obtain ⟨k, hk⟩ := List.mem_iff_getElem?.mp hw
    cases w with
    | handed r => exact absurd (hStuck (.pick k)) (by simp [Dispatcher.step, hk])
    | busy e => exact absurd (hIdle k) (by simp [execution?, hk])
    | offering => exact Or.inl rfl
    | waiting => exact Or.inr (Or.inl rfl)
    | gone => exact Or.inr (Or.inr rfl)
  have hHands : b.inHand = 0 := by
    refine List.sum_eq_zero fun x hx => ?_
    obtain ⟨w, hw, rfl⟩ := List.mem_map.mp hx
    rcases hFree w hw with rfl | rfl | rfl <;> rfl
  cases hLoop : b.loop with
  | ended => exact ⟨h.emptied hLoop, rfl, hHands⟩
  | receiving =>
    refine ⟨?_, rfl, hHands⟩
    cases hQueue : b.queue with
    | nil => rfl
    | cons r rest => exact absurd (hStuck .take) (by simp [Dispatcher.step, hLoop, hQueue])
  -- a loop with a runnable finds a worker: the first one offers itself, or waits and is in the pool
  | matching r =>
    exfalso
    have hGoes : b.loop ≠ .ended := by simp [hLoop]
    obtain ⟨w, rest, hCrew⟩ := List.exists_cons_of_ne_nil h.staffed.manned
    have hFirst : b.crew[0]? = some w := by simp [hCrew]
    cases hPool : b.pool with
    | cons k others =>
      have hWaits := h.staffed.ready k (by simp [hPool])
      exact absurd (hStuck .hand) (by simp [Dispatcher.step, hLoop, handOver, hPool, hWaits])
    | nil =>
      rcases hFree w (by simp [hCrew]) with rfl | rfl | rfl
      · have hRoom : b.pool.length < b.workers := by simp [hPool, workers, hCrew]
        exact absurd (hStuck (.offer 0)) (by simp [Dispatcher.step, hFirst, hLoop, hRoom])
      · exact absurd (h.tokens hGoes 0 hFirst) (by simp [hPool])
      · exact absurd (h.staffed.present hGoes .gone (by simp [hCrew])) (by simp [isGone])

/-! ## One dispatcher -/

/-- What a dispatcher that was started with so many workers guarantees. -/
structure Served (n : Nat) (b : Bench) (l : BenchLog) : Prop where
  /-- No more runnables are executed at once than there are workers, and no counter tells of
  more. -/
  capped  : b.executing ≤ max n 1 ∧ b.busy = b.executing ∧ b.peak ≤ max n 1
  /-- Runnables are handed over in the order in which they were dispatched, and none of them
  twice. -/
  ordered : l.handed <+: l.accepted
  /-- What was handed over is in the hands of a worker or was executed, each runnable once. -/
  once    : (l.handed : Multiset Runnable) = l.executed + b.inHand
  /-- What was handed over is counted. -/
  counted : b.dispatched = l.handed.length
  /-- However executions end, no worker is lost while the loop goes on. -/
  manned  : b.crew.length = max n 1 ∧ (b.loop ≠ .ended → ∀ w ∈ b.crew, isGone w = false)
  /-- No runnable was ever given back for want of a worker. -/
  kept    : l.returned = []
  /-- At rest, everything that was accepted was handed over and executed, each runnable once. -/
  rested  : b.AtRest → l.handed = l.accepted ∧ l.executed.Perm l.accepted
  /-- Rest is not put off: between them, so many runnables and workers give so many steps. -/
  bounded : l.steps ≤ 5 * l.accepted.length + 2 * max n 1 + 1

/-- **A dispatcher caps how many runnables are executed at once, and loses nothing**: whatever
`dispatch` gives it, whenever it is stopped, however executions go on and end, and in whatever order
its loop and its workers take their steps. -/
theorem Observed.served {u : Setup} {n : Nat} {b : Bench} {l : BenchLog} (h : Observed u n b l) :
    Served n b l := by
  obtain ⟨hCrewed, hTallied⟩ := h.tallied
  refine ⟨⟨hCrewed.size ▸ executing_le b, hTallied.busy, hTallied.peak⟩, ?_, hTallied.once,
    hTallied.counted, ⟨hCrewed.size, hCrewed.staffed.present⟩, hTallied.returned, fun hRest => ?_, ?_⟩
  · exact ⟨b.loop.held ++ b.queue, by rw [hTallied.order, List.append_assoc]⟩
  · obtain ⟨hQueue, hHeld, hHands⟩ := hCrewed.nothing_left hRest
    have hAll : l.handed = l.accepted := by
      rw [hTallied.order, hQueue, hHeld, List.append_nil, List.append_nil]
    have hOnce := hTallied.once
    rw [hHands, add_zero] at hOnce
    exact ⟨hAll, hAll ▸ (Multiset.coe_eq_coe.mp hOnce).symm⟩
  · exact Nat.le_trans (Nat.le_add_right _ _) hTallied.bounded

/-! ## One run -/

/-- A dispatcher and its log after events that can happen one after another. -/
def followAll (u : Setup) (b : Bench) (l : BenchLog) : List BenchEvent → Option (Bench × BenchLog)
  | [] => some (b, l)
  | ev :: evs => (b.follow u l ev).bind fun (b, l) => followAll u b l evs

/-- The run lemma of dispatchers: by induction on the events. -/
theorem Observed.of_followAll {u : Setup} {n : Nat} {b b' : Bench} {l l' : BenchLog}
    {evs : List BenchEvent} (h : Observed u n b l) (hAll : followAll u b l evs = some (b', l')) :
    Observed u n b' l' := by
  induction evs generalizing b l with
  | nil =>
    obtain ⟨rfl, rfl⟩ := Prod.mk.inj (Option.some.inj hAll)
    exact h
  | cons ev evs ih =>
    obtain ⟨⟨b₁, l₁⟩, hEvent, hRest⟩ := Option.bind_eq_some_iff.mp hAll
    exact ih (h.next hEvent) hRest

/-- A scheduler whose only handler crashes before it runs. -/
def fragileSetup : Setup where
  registry := Registry.register {} "a" { name := "fragile", prepare := fun _ _ => .crashed "boom" }
  site := ⟨Backend.empty, ⟨fun _ => .unstarted "", fun _ _ => .unsent ""⟩⟩
  taskId _ := "t"

/-- A floor with one task. -/
def smallFloor : Floor where
  now := 0
  tasks := [{ job := { id := "j" }, record := { id := "t", jobId := "j", status := .idle } }]
  writer := .ofBuffer 1

/-- A runnable whose action has a handler that crashes. -/
def crashing : Runnable := { action := { id := "a" }, task := 0, input := {} }

/-- A runnable whose action has no handler. -/
def unhandled : Runnable := { action := { id := "b" }, task := 0, input := {} }

/-- From the offer of a worker to the end of its execution. -/
def oneExecution : List BenchEvent :=
  [.step (.offer 0), .step .take, .step .hand, .step (.pick 0)] ++
    List.replicate 5 (.work 0 smallFloor)

/-- Two runnables are dispatched, then the dispatcher is stopped, and everything is done that is
left to be done. -/
def stoppedEvents : List BenchEvent :=
  [.dispatch crashing, .dispatch unhandled, .stop] ++ oneExecution ++ oneExecution ++
    [.step .take, .step (.offer 0)]

/-- At the end of that run the one worker has outlived a crash and executed both runnables. -/
theorem served_stoppedEvents :
    ∃ b l, Observed fragileSetup 0 b l ∧ b.AtRest ∧ l.accepted = [crashing, unhandled] ∧
      l.executed = [crashing, unhandled] ∧ b.peak = 1 ∧ Served 0 b l := by
  obtain ⟨b, l, hRun, hCrew, hLoop, hAccepted, hExecuted, hPeak⟩ : ∃ b l,
      followAll fragileSetup (start 0) {} stoppedEvents = some (b, l) ∧ b.crew = [.gone] ∧
      b.loop = .ended ∧ l.accepted = [crashing, unhandled] ∧ l.executed = [crashing, unhandled] ∧
      b.peak = 1 := ⟨_, _, rfl, rfl, rfl, rfl, rfl, rfl⟩
  have hObserved := Observed.start.of_followAll hRun
  -- the only worker is gone, and so is the loop
  have hWorker : ∀ (k : Nat) (w : Worker Runnable Execution), b.crew[k]? = some w → w = .gone := by
    intro k w hw
    have hMem := List.mem_of_getElem? hw
    rw [hCrew] at hMem
    exact List.mem_singleton.mp hMem
  have hRest : b.AtRest := by
    refine ⟨fun k => ?_, fun s => ?_⟩
    · cases hw : b.crew[k]? with
      | none => simp [execution?, hw]
      | some w => simp [execution?, hw, hWorker k w hw]
    · cases s with
      | take | hand => simp [step, hLoop]
      | offer k | pick k | leave k =>
        cases hw : b.crew[k]? with
        | none => simp [step, hw]
        | some w => simp [step, hw, hWorker k w hw]
  exact ⟨b, l, hObserved, hRest, hAccepted, hExecuted, hPeak, hObserved.served⟩

end Dispatcher

end Taskyard
