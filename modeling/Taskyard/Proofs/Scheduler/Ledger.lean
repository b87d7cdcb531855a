import Taskyard.Proofs.Scheduler.References

/-!
# Scheduler — books across the end of the router

The router may end whenever it waits, and the main queue ends with it. The runnables that are in it
then are thrown away, and nobody lets go of their references. So the books are kept over what is
left to be done together with what was thrown away, and that is kept by every step, the end of the
router included.

Main definitions and results:

* `Machine.step_cases` — a step is a move, or the end of the router.
* `Machine.discards` — the runnables that a step throws away.
* `Machine.Ledger`, `Ledger.step` — the books of all tasks, and that every step keeps them.
* `Machine.Ledger.ended` — what they say of a task of which nothing is left.
-/

namespace Taskyard.Machine

variable {u : Setup} {m m' : Machine} {s : MachineStep}

/-! ## Every step -/

/-- The runnables that a step throws away: those in the main queue when the router ends. -/
def discards (m : Machine) : MachineStep → List Runnable
  | .endRouter => m.floor.main
  | _ => []

/-- The end of the router: the main queue is closed, and the duties lack what was in it. -/
structure RouterEnds (m m' : Machine) : Prop where
  floor  : m'.floor = { m.floor with main := [], accepting := false }
  duties : m.duties = queueDuties m.floor.main + m'.duties

theorem routerEnds (hStep : m.endRouter = some m') : RouterEnds m m' := by
  obtain ⟨hWaiting, rfl⟩ := endRouter_cases hStep
  refine ⟨rfl, ?_⟩
  simp only [duties, onFloor, hWaiting, Router.duties, queueDuties_nil, zero_add, add_zero,
    add_assoc]

/-- **Every step** is a move that throws nothing away, or the end of the router. -/
theorem step_cases (hSound : m.Sound) (hStep : m.step u s = some m') :
    (Move u m s m' ∧ m.discards s = []) ∨ (s = .endRouter ∧ RouterEnds m m') := by
  by_cases hEnd : s = .endRouter
  · subst hEnd
    exact Or.inr ⟨rfl, routerEnds hStep⟩
  · refine Or.inl ⟨step_move hSound (fun h => absurd h hEnd) hStep, ?_⟩
    cases s with
    | endRouter => exact absurd rfl hEnd
    | _ => rfl

/-- Every step keeps the state sound. -/
theorem Sound.step (h : m.Sound) (hStep : m.step u s = some m') : m'.Sound := by
  rcases step_cases h hStep with ⟨hMove, -⟩ | ⟨-, hEnds⟩
  · exact hMove.sound h hStep
  · refine ⟨step_staffed h.staffed hStep, fun d hd => ?_⟩
    rw [hEnds.floor]
    exact h.valid d (hEnds.duties ▸ Multiset.mem_add.mpr (Or.inr hd))

/-- What every step of a sound machine keeps, a run from the start keeps. -/
theorem Course.keeps {now : Int64} {catalog : Catalog} {capacity : Nat} {m₀ : Machine}
    {allowed : Machine → MachineStep → Prop} {ss : List MachineStep} {P : Machine → Prop}
    (hRun : Course u allowed m₀ ss m) (hStart : start u now catalog capacity = .ok m₀)
    (hKeep : ∀ m m' s, m.Sound → P m → m.step u s = some m' → P m') (hFirst : P m₀) : P m := by
  have hBoth : m.Sound ∧ P m := by
    refine hRun.invariant (P := fun m => m.Sound ∧ P m) ?_ ⟨sound_of_start hStart, hFirst⟩
    intro m m' s h _ hStep
    exact ⟨h.1.step hStep, hKeep m m' s h.1 h.2 hStep⟩
  exact hBoth.2

/-- Every step keeps the tasks there are, each with its job. -/
theorem exists_task_of_step (hSound : m.Sound) (hStep : m.step u s = some m') {i : Nat}
    {t : LiveTask} (ht : m.floor.tasks[i]? = some t) :
    ∃ t', m'.floor.tasks[i]? = some t' ∧ t'.job = t.job := by
  rcases step_cases hSound hStep with ⟨hMove, -⟩ | ⟨-, hEnds⟩
  · cases hMove with
    | pass _ _ _ hTasks _ _ => exact ⟨t, by rw [hTasks, ht], rfl⟩
    | @turn d t₀ record _ _ _ _ ht₀ _ hTasks _ _ _ =>
      -- a turn writes to its own task, and leaves it the job
      obtain ⟨outlet, hTasks⟩ := hTasks
      rw [hTasks, List.getElem?_set]
      by_cases hTask : d.task = i
      · subst hTask
        obtain rfl : t₀ = t := Option.some.inj (ht₀.symm.trans ht)
        have hLt : d.task < m.floor.tasks.length := (List.getElem?_eq_some_iff.mp ht).1
        exact ⟨{ t₀ with record, outlet }, by simp [hLt], rfl⟩
      · exact ⟨t, by simp [hTask, ht], rfl⟩
    | birth _ _ _ hTasks _ _ =>
      have hLt : i < m.floor.tasks.length := (List.getElem?_eq_some_iff.mp ht).1
      exact ⟨t, by rw [hTasks, List.getElem?_append_left hLt, ht], rfl⟩
  · exact ⟨t, by rw [hEnds.floor, ht], rfl⟩

/-! ## The books -/

/-- The duties for a task, and those of its runnables that were thrown away. -/
def accountOf (m : Machine) (lost : List Runnable) (i : Nat) : Multiset Duty :=
  (m.duties + queueDuties lost).filter fun d => d.task = i

/-- The account of a task is what the machine owes it, with what was lost of it. -/
theorem accountOf_eq (m : Machine) (lost : List Runnable) (i : Nat) :
    m.accountOf lost i = m.dutiesOf i + (queueDuties lost).filter fun d => d.task = i :=
  Multiset.filter_add _ _ _

/-- The books of all tasks, where these runnables were thrown away. -/
structure Ledger (lost : List Runnable) (m : Machine) : Prop where
  sound  : m.Sound
  stages : ∀ i t, m.floor.tasks[i]? = some t → Stage t.record (m.accountOf lost i)
  known  : ∀ r ∈ lost, r.task < m.floor.tasks.length

theorem queueDuties_append (queue queue' : List Runnable) :
    queueDuties (queue ++ queue') = queueDuties queue + queueDuties queue' := by
  simp only [queueDuties, List.map_append, Multiset.coe_add]

/-- No runnable of a task is in a queue that holds runnables of other tasks only. -/
theorem filter_queueDuties_eq_zero {queue : List Runnable} {i : Nat}
    (h : ∀ r ∈ queue, r.task ≠ i) : (queueDuties queue).filter (fun d => d.task = i) = 0 := by
  refine Multiset.filter_eq_nil.mpr fun d hd hTask => ?_
  obtain ⟨r, hr, rfl⟩ := mem_queueDuties.mp hd
  exact h r hr hTask

/-- **Every step keeps the books**: what it throws away goes from one side to the other. -/
theorem Ledger.step {lost : List Runnable} (h : Ledger lost m) (hStep : m.step u s = some m') :
    Ledger (lost ++ m.discards s) m' := by
  rcases step_cases h.sound hStep with ⟨hMove, hNone⟩ | ⟨rfl, hEnds⟩
  · rw [hNone, List.append_nil]
    refine ⟨h.sound.step hStep, fun i t ht => ?_, fun r hr => ?_⟩
    · cases hMove.atTask h.sound ht with
      | idle ht₀ _ hRecord hDuties _ =>
        rw [accountOf_eq, hRecord, hDuties, ← accountOf_eq]
        exact h.stages i _ ht₀
      | @turn t₀ d old new ht₀ _ _ hDuties hTurn hDuties' =>
        have hHere := h.stages i _ ht₀
        rw [accountOf_eq, hDuties, Multiset.cons_add] at hHere
        rw [accountOf_eq, hDuties', add_assoc]
        exact hHere.turn hTurn
      -- nothing of a new task was thrown away before
      | birth hNew hBirth =>
        have hOthers : ∀ r ∈ lost, r.task ≠ i := by
          intro r hr hTask
          have := h.known r hr
          omega
        rw [accountOf_eq, filter_queueDuties_eq_zero hOthers, add_zero]
        exact Stage.birth hBirth
    · obtain ⟨t', ht', -⟩ :=
        exists_task_of_step h.sound hStep (List.getElem?_eq_getElem (h.known r hr))
      exact (List.getElem?_eq_some_iff.mp ht').1
  · have hTasks : m'.floor.tasks = m.floor.tasks := by rw [hEnds.floor]
    refine ⟨h.sound.step hStep, fun i t ht => ?_, fun r hr => ?_⟩
    · have hSame : m'.duties + queueDuties (lost ++ m.floor.main) =
          m.duties + queueDuties lost := by
        rw [hEnds.duties, queueDuties_append, add_comm (queueDuties lost), ← add_assoc,
          add_comm m'.duties]
      rw [accountOf, discards, hSame]
      exact h.stages i t (hTasks ▸ ht)
    · rw [hTasks]
      rcases List.mem_append.mp hr with hr | hr
      · exact h.known r hr
      · refine h.sound.valid (.waiting r) ?_
        rw [hEnds.duties]
        exact Multiset.mem_add.mpr (Or.inl (mem_queueDuties.mpr ⟨r, hr, rfl⟩))

/-- At the start the ledger is empty. -/
theorem ledger_of_start {now : Int64} {catalog : Catalog} {capacity : Nat}
    (hStart : start u now catalog capacity = .ok m) : Ledger [] m where
  sound := sound_of_start hStart
  stages i t ht := by
    rw [(duties_of_start hStart).2.1] at ht
    exact absurd ht (by simp)
  known r hr := absurd hr (by simp)

/-- The run lemma: in every reachable state the ledger balances, with what was discarded. -/
theorem ledger_of_course {now : Int64} {catalog : Catalog} {capacity : Nat} {m₀ : Machine}
    {allowed : Machine → MachineStep → Prop} {ss : List MachineStep}
    (hStart : start u now catalog capacity = .ok m₀) (hRun : Course u allowed m₀ ss m) :
    Ledger (m₀.trace u discards ss) m := by
  have hKept : Ledger ([] ++ m₀.trace u discards ss) m :=
    hRun.trace_invariant (P := Ledger) (fun _ _ _ _ h _ hStep => h.step hStep)
      (ledger_of_start hStart)
  rwa [List.nil_append] at hKept

/-- **A task of which nothing is left** has as many pending actions as runnables of it were thrown
away, and has ended if there were none. -/
theorem Ledger.ended {lost : List Runnable} (h : Ledger lost m) {i : Nat} {t : LiveTask}
    (ht : m.floor.tasks[i]? = some t) (hIdle : m.Idle i) :
    t.record.pending = runnablesOf i lost ∧
      (runnablesOf i lost = 0 → t.record.status.isTerminal = true) := by
  have hStage := h.stages i t ht
  have hOver : ∀ d ∈ m.dutiesOf i, ∃ e, d = .running e ∧ e.phase = .doing [] := by
    intro d hd
    obtain ⟨hMem, hTask⟩ := Multiset.mem_filter.mp hd
    exact hIdle.ended hMem hTask
  -- executions that are over hold nothing, so all that is accounted for was lost
  have hNothing : Duty.allHeld (m.dutiesOf i) = 0 := by
    refine Multiset.sum_eq_zero fun x hx => ?_
    obtain ⟨d, hd, rfl⟩ := Multiset.mem_map.mp hx
    obtain ⟨e, rfl, hPhase⟩ := hOver d hd
    simp only [Duty.held, hPhase, Deed.owed_nil]
  refine ⟨?_, fun hNone => ?_⟩
  · have hLost : Duty.allHeld ((queueDuties lost).filter fun d => d.task = i) =
        runnablesOf i lost := Duty.heldOf_queueDuties lost
    rw [hStage.pending_eq, accountOf_eq, Duty.allHeld_add, hNothing, hLost, zero_add]
  · rw [accountOf_eq, filter_queueDuties_eq_zero fun r hr => ne_of_runnablesOf hNone hr,
      add_zero] at hStage
    exact (hStage.isTerminal_of_over hOver).2

end Taskyard.Machine
