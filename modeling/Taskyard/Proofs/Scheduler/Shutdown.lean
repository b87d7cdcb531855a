import Taskyard.Proofs.Scheduler.Evaluation
import Taskyard.Proofs.Scheduler.Handover
import Taskyard.Proofs.Scheduler.Reports

/-!
# Scheduler — tasks after a shutdown

A shutdown ends the listeners and the router, and then stops the dispatchers, which go on with what
they have taken in. A runnable that is being executed finds the main queue closed for its chained
actions, interrupts its task and lets go of the references that it took for them. A runnable that is
in the main queue when the router ends has nobody to do so. Once all is drained, a task has ended if
and only if there was no such runnable of it.

Main definitions and results:

* `Machine.Drained` — the router has ended, and the dispatchers and their workers have nothing left.
* `Machine.ended_iff_kept` — what the last snapshot of a task says then.
* `Machine.stranded` — a run after which a task is running for ever.
-/

namespace Taskyard

/-- Whether a worker has nothing to do. -/
def Worker.isIdle : Worker Runnable Execution → Bool
  | .offering | .waiting | .gone => true
  | .handed _ | .busy _ => false

namespace Machine

/-- The router has ended, and with it the main queue, and every dispatcher has handed over what it
had taken in, to workers that are idle again. -/
structure Drained (m : Machine) : Prop where
  closed : m.floor.accepting = false
  queues : ∀ b ∈ m.benches, b.queue = [] ∧ b.loop.held = []
  crews  : ∀ b ∈ m.benches, ∀ w ∈ b.crew, w.isIdle = true

section Closing

variable {u : Setup} {m m' : Machine} {s : MachineStep}

/-- The main queue is empty once it is closed. -/
def EmptyWhenClosed (m : Machine) : Prop := m.floor.accepting = false → m.floor.main = []

/-- A main queue that is closed stays empty. -/
theorem EmptyWhenClosed.step (h : m.EmptyWhenClosed) (hSound : m.Sound)
    (hStep : m.step u s = some m') : m'.EmptyWhenClosed := by
  intro hClosed
  rcases step_cases hSound hStep with ⟨hMove, -⟩ | ⟨-, hEnds⟩
  · by_cases hEnd : s = .endRouter
    · subst hEnd
      rw [(routerEnds hStep).floor]
    · have hBefore : m.floor.accepting = false := (hMove.accepting_eq hEnd).symm.trans hClosed
      exact (step_act hSound hStep).main_eq_nil hBefore (h hBefore)
  · rw [hEnds.floor]

/-- In every reachable state a main queue that is closed is empty. -/
theorem main_eq_nil_of_course {now : Int64} {catalog : Catalog} {capacity : Nat} {m₀ : Machine}
    {allowed : Machine → MachineStep → Prop} {ss : List MachineStep}
    (hStart : start u now catalog capacity = .ok m₀) (hRun : Course u allowed m₀ ss m)
    (hClosed : m.floor.accepting = false) : m.floor.main = [] := by
  -- a scheduler starts with an open queue
  have hFirst : m₀.EmptyWhenClosed := by
    intro hShut
    rw [(duties_of_start hStart).2.2.2] at hShut
    exact absurd hShut (by simp)
  exact hRun.keeps hStart (fun _ _ _ hSound h hStep => h.step hSound hStep) hFirst hClosed

end Closing

theorem runnablesOf_of_isIdle {w : Worker Runnable Execution} (h : w.isIdle = true) (i : Nat) :
    w.runnablesOf i = 0 := by
  cases w with
  | offering | waiting | gone => rfl
  | handed | busy => exact absurd h (by simp [Worker.isIdle])

/-- Nothing is left of a task that is not being started, once all is drained. -/
theorem Drained.idle {m : Machine} (h : m.Drained) (hMain : m.floor.main = []) {i : Nat}
    (hStarted : ∀ e ∈ m.errands, e.task = i → e.deeds = []) : m.Idle i where
  queued := by
    rw [queuedOf, hMain]
    rfl
  dispatched := by
    refine List.sum_eq_zero fun x hx => ?_
    obtain ⟨b, hb, rfl⟩ := List.mem_map.mp hx
    obtain ⟨hQueue, hHeld⟩ := h.queues b hb
    rw [hQueue]
    -- a loop that holds nothing has no runnable of any task
    cases hLoop : b.loop with
    | matching r =>
      rw [hLoop] at hHeld
      exact absurd hHeld (by simp [DispatchLoop.held])
    | receiving | ended => rfl
  hands := by
    refine List.sum_eq_zero fun x hx => ?_
    obtain ⟨b, hb, rfl⟩ := List.mem_map.mp hx
    refine List.sum_eq_zero fun y hy => ?_
    obtain ⟨w, hw, rfl⟩ := List.mem_map.mp hy
    exact runnablesOf_of_isIdle (h.crews b hb w hw) i
  errands := hStarted

/-- **What becomes of a task in a `shutdown`**: when all is drained, the last snapshot of a task
whose start is over counts the runnables of it that were in the main queue when the router ended,
and it tells of an end with nothing pending if and only if there were none. -/
theorem ended_iff_kept {u : Setup} {now : Int64} {catalog : Catalog} {capacity : Nat}
    {m₀ m : Machine} {allowed : Machine → MachineStep → Prop} {ss : List MachineStep}
    (hStart : start u now catalog capacity = .ok m₀) (hRun : Course u allowed m₀ ss m)
    (hDrained : m.Drained) {i : Nat} {t : LiveTask} (ht : m.floor.tasks[i]? = some t)
    (hStarted : ∀ e ∈ m.errands, e.task = i → e.deeds = []) :
    ∃ x, (m₀.trace u (reports u i) ss).getLast? = some x ∧
      x.pending = runnablesOf i (m₀.trace u discards ss) ∧
      (x.pending = 0 ∧ x.status.isTerminal = true ↔ runnablesOf i (m₀.trace u discards ss) = 0) := by
  have hMain := main_eq_nil_of_course hStart hRun hDrained.closed
  have hIdle := hDrained.idle hMain hStarted
  obtain ⟨hPending, hEnded⟩ := (ledger_of_course hStart hRun).ended ht hIdle
  refine ⟨t.record, (told_of_course hStart hRun i).last ht hIdle, hPending, ?_, fun hNone => ?_⟩
  · rintro ⟨hZero, -⟩
    rw [hZero] at hPending
    exact (Int.natCast_eq_zero.mp hPending.symm)
  · exact ⟨by rw [hPending, hNone]; rfl, hEnded hNone⟩

/-! ## One run -/

/-- A dispatcher with one worker hands over a runnable. -/
def handOverSteps : List MachineStep :=
  [.dispatch 0 (.offer 0), .dispatch 0 .take, .dispatch 0 .hand, .dispatch 0 (.pick 0)]

/-- The steps of a shutdown. -/
def shutdownSteps : List MachineStep :=
  [.silence .tree, .silence .attributes, .silence .timers, .silence .jobs, .endRouter,
   .stopDispatchers]

/-- Two tasks of a job with a chained action are started. The chained action of the first one is in
the main queue when the router ends, and that of the second one comes later. -/
def interruptedSteps : List MachineStep :=
  [.publish (.job { updated := some chainJob }), .listen .jobs,
   .launch chainJob (.timer { jobId := "j" }), .call 0, .call 0, .call 0, .call 0,
   .launch chainJob (.timer { jobId := "j" }), .call 0, .call 0, .call 0, .call 0,
   .route, .route] ++ handOverSteps ++ List.replicate 8 (.work 0 0) ++ shutdownSteps ++
    handOverSteps ++ List.replicate 10 (.work 0 0) ++
  [.dispatch 0 .take, .dispatch 0 (.offer 0)]

/-- Whether all is drained, and all errands are over. -/
def isDrained (m : Machine) : Bool :=
  !m.floor.accepting && m.errands.isEmpty && m.benches.all fun b =>
    b.queue.isEmpty && b.loop.held.isEmpty && b.crew.all Worker.isIdle

/-- The test for a drained machine is sound. -/
theorem drained_of_isDrained {m : Machine} (h : m.isDrained = true) :
    m.Drained ∧ m.errands = [] := by
  simp only [isDrained, Bool.and_eq_true, Bool.not_eq_true', List.isEmpty_iff, List.all_eq_true] at h
  obtain ⟨⟨hClosed, hErrands⟩, hBenches⟩ := h
  exact ⟨⟨hClosed, fun b hb => (hBenches b hb).1, fun b hb => (hBenches b hb).2⟩, hErrands⟩

/-- **A task that is running for ever**: its start is over and all is drained, and its last snapshot
tells of a pending action. Nobody has called `interrupt` or `release` for the runnable in the main
queue. -/
theorem stranded :
    ∃ m₀ m, start echoSetup 0 {} 8 = .ok m₀ ∧
      Course echoSetup (fun _ _ => True) m₀ interruptedSteps m ∧ m.Drained ∧ m.errands = [] ∧
      ((m₀.trace echoSetup (reports echoSetup 0) interruptedSteps).getLast?).map
        (fun x => (x.status, x.pending)) = some (.running, 1) := by
  obtain ⟨m₀, hStart, hEnd, hLast⟩ : ∃ m₀, start echoSetup 0 {} 8 = .ok m₀ ∧
      (m₀.run echoSetup (fun _ _ => true) interruptedSteps).map isDrained = some true ∧
      ((m₀.trace echoSetup (reports echoSetup 0) interruptedSteps).getLast?).map
        (fun x => (x.status, x.pending)) = some (.running, 1) := ⟨_, rfl, rfl, rfl⟩
  obtain ⟨m, hRun, hAll⟩ := Option.map_eq_some_iff.mp hEnd
  obtain ⟨hDrained, hErrands⟩ := drained_of_isDrained hAll
  exact ⟨m₀, m, hStart, .of_run (fun _ _ _ => trivial) hRun, hDrained, hErrands, hLast⟩

/-- Of the other task of that run no runnable was thrown away, and it is interrupted. -/
theorem ended_iff_kept_interruptedSteps :
    ∃ m₀ m x, start echoSetup 0 {} 8 = .ok m₀ ∧
      m₀.run echoSetup (fun _ _ => true) interruptedSteps = some m ∧ m.Drained ∧
      runnablesOf 1 (m₀.trace echoSetup discards interruptedSteps) = 0 ∧
      (m₀.trace echoSetup (reports echoSetup 1) interruptedSteps).getLast? = some x ∧
      x.pending = 0 ∧ x.status.isTerminal = true := by
  obtain ⟨m₀, hStart, hEnd, hNone⟩ : ∃ m₀, start echoSetup 0 {} 8 = .ok m₀ ∧
      (m₀.run echoSetup (fun _ _ => true) interruptedSteps).map
        (fun m => (m.isDrained, m.floor.tasks.length)) = some (true, 2) ∧
      runnablesOf 1 (m₀.trace echoSetup discards interruptedSteps) = 0 := ⟨_, rfl, rfl, rfl⟩
  obtain ⟨m, hRun, hBoth⟩ := Option.map_eq_some_iff.mp hEnd
  obtain ⟨hAll, hLength⟩ := Prod.mk.inj hBoth
  obtain ⟨hDrained, hErrands⟩ := drained_of_isDrained hAll
  have ht : m.floor.tasks[1]? = some _ := List.getElem?_eq_getElem (by omega)
  -- no errand is left, so the start of the task is over
  have hStarted : ∀ e ∈ m.errands, e.task = 1 → e.deeds = [] := by
    intro e he
    rw [hErrands] at he
    exact absurd he (by simp)
  have hCourse : Course echoSetup (fun _ _ => True) m₀ interruptedSteps m :=
    .of_run (fun _ _ _ => trivial) hRun
  obtain ⟨x, hLast, -, hIff⟩ := ended_iff_kept hStart hCourse hDrained ht hStarted
  obtain ⟨hPending, hTerminal⟩ := hIff.mpr hNone
  exact ⟨m₀, m, x, hStart, hRun, hDrained, hNone, hLast, hPending, hTerminal⟩

end Machine

end Taskyard
