import Taskyard.Proofs.Scheduler.Evaluation
import Taskyard.Proofs.Scheduler.Reports

/-!
# Scheduler — snapshots that tell of an end

A snapshot that tells of an end with nothing pending is what others wait for: they take the task to
be over. It is, but for one case. A task whose start fails for one of its first actions is told of
as failed before a reference is taken for the others, and these are queued and executed afterwards.

Main definitions and results:

* `Machine.Over`, `Over.step` — only spent duties are left for a task, and that is kept by every
  step, with the logs of the task.
* `Machine.exists_queued` — whoever has a runnable to queue can go on until it is queued.
* `Machine.final_iff` — what a snapshot that tells of an end says of all that follows.
* `Machine.not_final` — a run in which an action is executed after such a snapshot.
-/

namespace Taskyard

open Deed

/-! ## What is left when nothing is held -/

/-- A deed that queues a runnable. -/
def Deed.isQueue : Deed → Bool
  | .queue _ _ => true
  | .mark _ => false

namespace Duty

/-- Whether it is left to executions to write logs: an errand writes none. -/
def Plain : Duty → Prop
  | .errand _ ds => ds.countP isLog = 0
  | _ => True

/-- A duty that comes to nothing any more, but for changes of a state. What an errand still has to
queue comes to nothing when the main queue is closed. -/
def Spent (accepting : Bool) : Duty → Prop
  | .waiting _ => False
  | .running e => e.phase = .doing []
  | .errand _ ds => accepting = true → ds.any isQueue = false

/-- Deeds without a log make plain duties. -/
theorem plain_ofDeeds {d : Duty} {i : Nat} {ds : List Deed} (h : ds.countP isLog = 0)
    (hd : d ∈ ofDeeds i ds) : d.Plain := by
  obtain ⟨-, rfl⟩ := mem_ofDeeds.mp hd
  exact h

/-- Going on with a plain duty leaves a plain one. -/
theorem Plain.resume {d : Duty} {x : Deed} {rest : List Deed} (h : d.Plain) (more : List Deed)
    (hDeeds : d.deeds = some (x :: rest)) (hMore : more.countP isLog = 0) :
    ∀ d' ∈ d.resume (more ++ rest), d'.Plain := by
  intro d' hd'
  cases d with
  | waiting r => exact absurd hd' (Multiset.notMem_zero d')
  | running e =>
    rw [Multiset.mem_singleton.mp hd']
    trivial
  | errand i ds =>
    -- an errand holds no log, and what it goes on with adds none
    obtain rfl : ds = x :: rest := Option.some.inj hDeeds
    have hNone : (x :: rest).countP isLog = 0 := h
    rw [List.countP_cons] at hNone
    refine plain_ofDeeds ?_ hd'
    rw [List.countP_append, hMore]
    omega

/-- An orderly duty that holds no reference has no deeds left. -/
theorem Orderly.deeds_eq_nil {d : Duty} (h : d.Orderly) (hNone : d.held = 0) :
    d.deeds = some [] := by
  cases hDeeds : d.deeds with
  | none =>
    rw [held_of_deeds_eq_none hDeeds] at hNone
    exact absurd hNone (by decide)
  | some ds =>
    obtain ⟨hClosing, hHeld⟩ := h.closing hDeeds
    cases ds with
    | nil => rfl
    | cons x rest =>
      have hSome := hClosing.1
      omega

/-- A duty with nothing left to do is spent. -/
theorem spent_of_deeds_eq_nil {d : Duty} (h : d.deeds = some []) (accepting : Bool) :
    d.Spent accepting := by
  cases d with
  | waiting r => exact absurd h (by simp [deeds])
  | running e =>
    obtain ⟨r, phase⟩ := e
    cases phase with
    | doing ds => exact congrArg Phase.doing (Option.some.inj h)
    | _ => exact absurd h (by simp [deeds])
  | errand i ds =>
    obtain rfl : ds = [] := Option.some.inj h
    exact fun _ => rfl

theorem Spent.mono {d : Duty} {accepting accepting' : Bool} (h : d.Spent accepting)
    (hOpen : accepting' = true → accepting = true) : d.Spent accepting' := by
  cases d with
  | waiting | running => exact h
  | errand => exact fun hStill => h (hOpen hStill)

/-- Orderly duties that hold no reference together hold none each. -/
theorem held_eq_zero {ds : Multiset Duty} (hOrderly : ∀ d ∈ ds, d.Orderly) (hNone : allHeld ds = 0)
    {d : Duty} (hd : d ∈ ds) : d.held = 0 := by
  obtain ⟨others, rfl⟩ := Multiset.exists_cons_of_mem hd
  have hHere := (hOrderly d hd).held_nonneg
  have hRest := allHeld_nonneg fun d' hd' => hOrderly d' (Multiset.mem_cons_of_mem hd')
  rw [allHeld_cons] at hNone
  omega

end Duty

/-- **A task that has ended with nothing pending** has only spent duties left, unless it has failed
while it is being started. -/
theorem Stage.spent_or_starting {t : Task} {ds : Multiset Duty} (h : Stage t ds)
    (hPending : t.pending = 0) (hEnded : t.status.isTerminal = true) :
    (∀ d ∈ ds, ∀ accepting, d.Spent accepting) ∨
      (t.status = .error ∧ ∀ d ∈ ds, ∃ i deeds, d = .errand i deeds) := by
  cases h with
  -- what is done for a task that is worked on holds a reference until it is over
  | working hOrderly hHeld =>
    rw [hPending] at hHeld
    refine Or.inl fun d hd => Duty.spent_of_deeds_eq_nil ?_
    exact (hOrderly d hd).deeds_eq_nil (Duty.held_eq_zero hOrderly hHeld.symm hd)
  -- a task that is being started has the one errand, and is idle until it fails
  | @opening i deeds hDuties _ hStatus =>
    refine Or.inr ⟨hStatus.resolve_left fun hIdle => ?_, fun d hd => ?_⟩
    · rw [hIdle] at hEnded
      exact absurd hEnded (by decide)
    · rw [hDuties] at hd
      exact ⟨i, deeds, (Duty.mem_ofDeeds.mp hd).2⟩

namespace Machine

variable {u : Setup} {m m' : Machine} {s : MachineStep} {i : Nat} {logs : List ActionLog}

/-! ## Errands write no logs -/

/-- A turn of a plain duty leaves plain duties. -/
theorem Turn.plain {t : LiveTask} {d : Duty} {begun : Option Runnable} {record : Task}
    {new : Multiset Duty} (h : Turn u m t d begun record new) (hPlain : d.Plain) :
    ∀ d' ∈ new, d'.Plain := by
  intro d' hd'
  cases h with
  | pick | advance =>
    rw [Multiset.mem_singleton.mp hd']
    trivial
  | away r => exact Duty.plain_ofDeeds rfl hd'
  | ended => exact absurd hd' (Multiset.notMem_zero d')
  -- what is left of a duty is plain as the duty was, whatever was done
  | mark d now hDeeds => exact hPlain.resume [] hDeeds rfl d' hd'
  | queue d hDeeds =>
    rcases Multiset.mem_cons.mp hd' with rfl | hd'
    · trivial
    · exact hPlain.resume [] hDeeds rfl d' hd'
  | refuse d hDeeds => exact hPlain.resume refused hDeeds rfl d' hd'

/-- The duties of a new task are plain. -/
theorem Birth.plain {n : Nat} {started : Option (Job × Event)} {t : LiveTask}
    {new : Multiset Duty} (h : Birth u n started t new) : ∀ d ∈ new, d.Plain := by
  intro d hd
  cases h with
  | launched j e => exact Duty.plain_ofDeeds (foreseen_rootDeeds _ _ _ _).2 hd
  | submitted =>
    rw [Multiset.mem_singleton.mp hd]
    trivial
  | declined => exact Duty.plain_ofDeeds rfl hd

/-- Every step leaves plain duties: by the move that it is. -/
theorem plain_step (hSound : m.Sound) (hStep : m.step u s = some m')
    (h : ∀ d ∈ m.duties, d.Plain) : ∀ d ∈ m'.duties, d.Plain := by
  intro d hd
  rcases step_cases hSound hStep with ⟨hMove, -⟩ | ⟨-, hEnds⟩
  · cases hMove with
    | pass _ _ _ _ hDuties _ => exact h d (hDuties ▸ hd)
    | @turn d₀ _ _ _ _ _ _ _ hTurn _ hDuties hDuties' _ =>
      rw [hDuties] at h
      rw [hDuties'] at hd
      rcases Multiset.mem_add.mp hd with hd | hd
      · exact hTurn.plain (h d₀ (Multiset.mem_cons_self _ _)) d hd
      · exact h d (Multiset.mem_cons_of_mem hd)
    | birth _ _ hBirth _ hDuties _ =>
      rw [hDuties] at hd
      rcases Multiset.mem_add.mp hd with hd | hd
      · exact hBirth.plain d hd
      · exact h d hd
  -- at the end of the router the other duties are left
  · refine h d ?_
    rw [hEnds.duties]
    exact Multiset.mem_add.mpr (Or.inr hd)

/-- In every reachable state the duties are plain. -/
theorem plain_of_course {now : Int64} {catalog : Catalog} {capacity : Nat} {m₀ : Machine}
    {allowed : Machine → MachineStep → Prop} {ss : List MachineStep}
    (hStart : start u now catalog capacity = .ok m₀) (hRun : Course u allowed m₀ ss m) :
    ∀ d ∈ m.duties, d.Plain := by
  have hFirst : ∀ d ∈ m₀.duties, d.Plain := by
    intro d hd
    rw [(duties_of_start hStart).1] at hd
    exact absurd hd (Multiset.notMem_zero d)
  exact hRun.keeps (P := fun m => ∀ d ∈ m.duties, d.Plain) hStart
    (fun _ _ _ hSound h hStep => plain_step hSound hStep h) hFirst

/-! ## Tasks that are over -/

/-- A turn at a spent duty leaves nothing but spent duties, and the logs as they are. -/
theorem Turn.of_spent {t : LiveTask} {d : Duty} {begun : Option Runnable} {record : Task}
    {new : Multiset Duty} (h : Turn u m t d begun record new) (hPlain : d.Plain)
    (hSpent : d.Spent m.floor.accepting) :
    (∀ d' ∈ new, d'.Spent m.floor.accepting) ∧ record.logs = t.record.logs := by
  -- only an errand has deeds left, and while the main queue is open none of them queues
  have hErrand : ∀ {x rest}, d.deeds = some (x :: rest) → ∃ j, d = .errand j (x :: rest) := by
    intro x rest hDeeds
    cases d with
    | waiting r => exact hSpent.elim
    | running e =>
      have hOver : e.phase = .doing [] := hSpent
      simp only [Duty.deeds, hOver] at hDeeds
      exact absurd hDeeds (by simp)
    | errand j ds => exact ⟨j, congrArg (Duty.errand j) (Option.some.inj hDeeds)⟩
  have hBack : ∀ {j : Nat} {ds : List Deed}, (m.floor.accepting = true → ds.any isQueue = false) →
      ∀ d' ∈ Duty.ofDeeds j ds, d'.Spent m.floor.accepting := by
    intro j ds hQueue d' hd'
    obtain ⟨-, rfl⟩ := Duty.mem_ofDeeds.mp hd'
    exact hQueue
  cases h with
  | pick | away => exact hSpent.elim
  | advance e now hNext =>
    rw [show e.phase = .doing [] from hSpent] at hNext
    cases hNext
  | ended => exact ⟨fun d' hd' => absurd hd' (Multiset.notMem_zero d'), rfl⟩
  | @mark _ now x rest hDeeds =>
    obtain ⟨j, rfl⟩ := hErrand hDeeds
    refine ⟨hBack fun hOpen => ?_, ?_⟩
    · have hNone := hSpent hOpen
      rw [List.any_cons, Bool.or_eq_false_iff] at hNone
      exact hNone.2
    · rw [(logs_apply now x t.record).1]
      cases x with
      | appendLog l =>
        have hNone : (.mark (.appendLog l) :: rest : List Deed).countP isLog = 0 := hPlain
        exact absurd hNone (by simp [isLog])
      | _ => exact List.append_nil _
  | queue d hDeeds hOpen =>
    obtain ⟨j, rfl⟩ := hErrand hDeeds
    exact absurd (hSpent hOpen) (by simp [isQueue])
  | @refuse _ action input rest hDeeds hClosed =>
    obtain ⟨j, rfl⟩ := hErrand hDeeds
    have hNew : ∀ d' ∈ Duty.ofDeeds j (refused ++ rest), d'.Spent m.floor.accepting :=
      hBack fun hOpen => by
        rw [hClosed] at hOpen
        exact absurd hOpen (by simp)
    exact ⟨hNew, rfl⟩

/-- A main queue that is open was open before. -/
theorem accepting_of_step (hSound : m.Sound) (hStep : m.step u s = some m')
    (hOpen : m'.floor.accepting = true) : m.floor.accepting = true := by
  rcases step_cases hSound hStep with ⟨hMove, -⟩ | ⟨-, hEnds⟩
  · by_cases hEnd : s = .endRouter
    · subst hEnd
      rw [(routerEnds hStep).floor] at hOpen
      exact absurd hOpen (by simp)
    · exact (hMove.accepting_eq hEnd).symm.trans hOpen
  · rw [hEnds.floor] at hOpen
    exact absurd hOpen (by simp)

/-- A task that is over: nothing but spent duties is left for it, and these are its logs. -/
structure Over (i : Nat) (logs : List ActionLog) (m : Machine) : Prop where
  sound  : m.Sound
  plain  : ∀ d ∈ m.duties, d.Plain
  spent  : ∀ d ∈ m.dutiesOf i, d.Spent m.floor.accepting
  logged : ∃ t, m.floor.tasks[i]? = some t ∧ t.record.logs = logs

/-- **A task that is over** stays so in every step. -/
theorem Over.step (h : Over i logs m) (hStep : m.step u s = some m') : Over i logs m' := by
  obtain ⟨t, ht, hLogs⟩ := h.logged
  have hSound := h.sound.step hStep
  have hPlain := plain_step h.sound hStep h.plain
  have hShut : ∀ d : Duty, d.Spent m.floor.accepting → d.Spent m'.floor.accepting :=
    fun _ hSpent => hSpent.mono (accepting_of_step h.sound hStep)
  rcases step_cases h.sound hStep with ⟨hMove, -⟩ | ⟨-, hEnds⟩
  · obtain ⟨t', ht', -⟩ := exists_task_of_step h.sound hStep ht
    cases hMove.atTask h.sound ht' with
    | idle ht₀ _ hRecord hDuties _ =>
      obtain rfl := Option.some.inj (ht.symm.trans ht₀)
      exact ⟨hSound, hPlain, fun d hd => hShut d (h.spent d (hDuties ▸ hd)), t', ht',
        by rw [hRecord, hLogs]⟩
    | @turn t₀ d old new ht₀ _ _ hDuties hTurn hDuties' =>
      obtain rfl := Option.some.inj (ht.symm.trans ht₀)
      have hd : d ∈ m.dutiesOf i := hDuties ▸ Multiset.mem_cons_self d old
      obtain ⟨hNew, hSame⟩ :=
        hTurn.of_spent (h.plain d (Multiset.mem_of_mem_filter hd)) (h.spent d hd)
      refine ⟨hSound, hPlain, fun d' hd' => hShut d' ?_, t', ht', hSame.trans hLogs⟩
      rw [hDuties'] at hd'
      rcases Multiset.mem_add.mp hd' with hd' | hd'
      · exact hNew d' hd'
      · exact h.spent d' (hDuties ▸ Multiset.mem_cons_of_mem hd')
    -- the number of the task is taken
    | birth hNew _ =>
      have hLt : i < m.floor.tasks.length := (List.getElem?_eq_some_iff.mp ht).1
      omega
  · refine ⟨hSound, hPlain, fun d hd => hShut d ?_, t, by rw [hEnds.floor, ht], hLogs⟩
    obtain ⟨hMem, hTask⟩ := Multiset.mem_filter.mp hd
    refine h.spent d (Multiset.mem_filter.mpr ⟨?_, hTask⟩)
    rw [hEnds.duties]
    exact Multiset.mem_add.mpr (Or.inr hMem)

/-- What is reported of a task that is over has the logs it ended with. -/
theorem Over.logs_eq (h : Over i logs m) (hStep : m.step u s = some m') {x : Task}
    (hx : x ∈ m.reports u i s) : x.logs = logs := by
  obtain ⟨t, ht, rfl⟩ := record_of_report h.sound hStep hx
  obtain ⟨t', ht', hLogs⟩ := (h.step hStep).logged
  obtain rfl := Option.some.inj (ht.symm.trans ht')
  exact hLogs

/-- A task that is over stays so in every run, and all that is told of it has its logs. -/
theorem Over.course {allowed : Machine → MachineStep → Prop} {ss : List MachineStep}
    (h : Over i logs m) (hRun : Course u allowed m ss m') :
    Over i logs m' ∧ ∀ x ∈ m.trace u (reports u i) ss, x.logs = logs := by
  have hKept : Over i logs m' ∧ ∀ x ∈ [] ++ m.trace u (reports u i) ss, x.logs = logs := by
    refine hRun.trace_invariant
      (P := fun (past : List Task) m => Over i logs m ∧ ∀ x ∈ past, x.logs = logs) ?_
      ⟨h, fun x hx => absurd hx (by simp)⟩
    intro past m₁ m₂ s hBoth _ hStep
    refine ⟨hBoth.1.step hStep, fun x hx => ?_⟩
    rcases List.mem_append.mp hx with hx | hx
    · exact hBoth.2 x hx
    · exact hBoth.1.logs_eq hStep hx
  rwa [List.nil_append] at hKept

/-- No runnable is anywhere of a task that is over. -/
theorem Over.counts (h : Over i logs m) :
    m.queuedOf i = 0 ∧ m.dispatchedOf i = 0 ∧ m.handsOf i = 0 := by
  have hSpent : ∀ {d}, Place m d → d.task = i → d.Spent m.floor.accepting := by
    intro d hPlace hTask
    exact h.spent d (Multiset.mem_filter.mpr ⟨mem_duties_of_place hPlace, hTask⟩)
  -- a runnable that waits somewhere is not spent
  have hNone : ∀ {queue : List Runnable}, (∀ r ∈ queue, Place m (.waiting r)) →
      runnablesOf i queue = 0 := by
    intro queue hQueue
    refine List.countP_eq_zero.mpr fun r hr hTask => ?_
    exact hSpent (hQueue r hr) (of_decide_eq_true hTask)
  refine ⟨hNone fun r hr => .main hr, List.sum_eq_zero fun x hx => ?_,
    List.sum_eq_zero fun x hx => ?_⟩
  · obtain ⟨b, hb, rfl⟩ := List.mem_map.mp hx
    rw [hNone fun r hr => .queue hb hr, Nat.zero_add]
    cases hLoop : b.loop with
    | matching r => exact if_neg fun hTask => hSpent (.loop hb hLoop) hTask
    | receiving | ended => rfl
  · obtain ⟨b, hb, rfl⟩ := List.mem_map.mp hx
    refine List.sum_eq_zero fun y hy => ?_
    obtain ⟨w, hw, rfl⟩ := List.mem_map.mp hy
    cases w with
    | handed r => exact if_neg fun hTask => hSpent (.handed hb hw) hTask
    | busy e =>
      refine if_neg ?_
      rintro ⟨hTask, hGoesOn⟩
      have hOver : e.phase = .doing [] := hSpent (.busy hb hw) hTask
      rw [Execution.isOver, hOver] at hGoesOn
      exact absurd hGoesOn (by simp)
    | offering | waiting | gone => rfl

/-! ## Errands go on -/

/-- Whoever has an errand can do the first of its deeds. -/
theorem exists_step_of_errand (u : Setup) {e : Errand} {x : Deed} {rest : List Deed}
    (he : e ∈ m.errands) (hDeeds : e.deeds = x :: rest) :
    ∃ s m', m.step u s = some m' ∧ m'.floor = (m.floor.perform e.task x).1 ∧
      { e with deeds := (m.floor.perform e.task x).2 ++ rest } ∈ m'.errands := by
  generalize hDone : m.floor.perform e.task x = done
  obtain ⟨f, more⟩ := done
  have hRun : runErrand u m.floor e = some (f, { e with deeds := more ++ rest }) := by
    simp only [runErrand, hDeeds, hDone]
  -- whoever has it, a listener, the router or a caller, takes the step
  rcases mem_errands.mp he with ⟨c, hBusy⟩ | hBusy | hCaller
  · refine ⟨.listen c, (m.onFloor f).setEar c (.busy { e with deeds := more ++ rest }), ?_, rfl,
      mem_errands.mpr (Or.inl ⟨c, ?_⟩)⟩
    · simp only [step, listen, hBusy, hRun]
    · cases c <;> rfl
  · refine ⟨.route, { m.onFloor f with router := .busy { e with deeds := more ++ rest } }, ?_, rfl,
      mem_errands.mpr (Or.inr (Or.inl rfl))⟩
    simp only [step, stepRouter, hBusy, hRun]
  · obtain ⟨n, hn⟩ := List.mem_iff_getElem?.mp hCaller
    have hLt : n < m.callers.length := (List.getElem?_eq_some_iff.mp hn).1
    refine ⟨.call n, { m.onFloor f with
      callers := m.callers.set n { e with deeds := more ++ rest } }, ?_, rfl,
      mem_errands.mpr (Or.inr (Or.inr (List.mem_set hLt _)))⟩
    simp only [step, call, hn, hRun]

theorem accepting_mark (f : Floor) (i : Nat) (s : TaskStep) :
    (f.mark i s).accepting = f.accepting := by
  obtain ⟨tasks, writer, hMark⟩ := f.exists_mark i s
  rw [hMark]

/-- **Whoever has a runnable to queue** for a task can go on until it is in the main queue, as long
as that is open. -/
theorem exists_queued (u : Setup) {deeds : List Deed} (hQueue : deeds.any isQueue = true)
    {m : Machine} (hOpen : m.floor.accepting = true) {e : Errand} (he : e ∈ m.errands)
    (hDeeds : e.deeds = deeds) :
    ∃ ss m', Course u (fun _ _ => True) m ss m' ∧ 0 < m'.queuedOf e.task := by
  induction deeds generalizing m e with
  | nil => exact absurd hQueue (by simp)
  | cons x rest ih =>
    obtain ⟨s, m₁, hStep, hFloor, he₁⟩ := exists_step_of_errand u he hDeeds
    cases x with
    | mark change =>
      have hOpen₁ : m₁.floor.accepting = true := by
        rw [hFloor, Floor.perform, accepting_mark]
        exact hOpen
      obtain ⟨ss, m', hRun, hQueued⟩ := ih (by simpa [isQueue] using hQueue) hOpen₁ he₁ rfl
      exact ⟨s :: ss, m', .step trivial hStep hRun, hQueued⟩
    -- this is the runnable
    | queue action input =>
      refine ⟨[s], m₁, .step trivial hStep (.rest m₁), ?_⟩
      rw [queuedOf, hFloor, Floor.perform, if_pos hOpen]
      simp [Floor.enqueue, runnablesOf, List.countP_append]

/-! ## What a snapshot says -/

/-- A task is over for good: whatever steps follow, no runnable of it is queued, dispatched or in
the hands of a worker, and everything that is told of it has these logs. -/
def Final (u : Setup) (i : Nat) (logs : List ActionLog) (m : Machine) : Prop :=
  ∀ ss m', Course u (fun _ _ => True) m ss m' →
    m'.queuedOf i = 0 ∧ m'.dispatchedOf i = 0 ∧ m'.handsOf i = 0 ∧
      ∀ x ∈ m.trace u (reports u i) ss, x.logs = logs

theorem Over.final (h : Over i logs m) (u : Setup) : m.Final u i logs := by
  intro ss m' hRun
  obtain ⟨hOver, hLogs⟩ := h.course hRun
  obtain ⟨hQueued, hDispatched, hHands⟩ := hOver.counts
  exact ⟨hQueued, hDispatched, hHands, hLogs⟩

/-- Nobody has a runnable to queue for a task, or the main queue is closed. -/
def QueuesNothing (m : Machine) (i : Nat) : Prop :=
  m.floor.accepting = true → ∀ e ∈ m.errands, e.task = i → e.deeds.any isQueue = false

/-- Nothing is queued any more for a task whose snapshot is final. -/
theorem Final.queuesNothing (h : m.Final u i logs) : m.QueuesNothing i := by
  rintro hOpen e he rfl
  by_contra hSome
  obtain ⟨ss, m', hRun, hQueued⟩ :=
    exists_queued u (Bool.eq_true_of_not_eq_false hSome) hOpen he rfl
  obtain ⟨hNone, -⟩ := h ss m' hRun
  omega

/-- **What a snapshot says that tells of an end with nothing pending**: it is final if and only if
`launch` has nothing still to queue for the task, and if it is not, it tells of a failure. -/
theorem final_iff {now : Int64} {catalog : Catalog} {capacity : Nat} {m₀ : Machine}
    {allowed : Machine → MachineStep → Prop} {ss : List MachineStep}
    (hStart : start u now catalog capacity = .ok m₀) (hRun : Course u allowed m₀ ss m)
    (hStep : m.step u s = some m') {x : Task} (hReport : x ∈ m.reports u i s)
    (hEnded : x.status.isTerminal = true) (hPending : x.pending = 0) :
    (m'.Final u i x.logs ↔ m'.QueuesNothing i) ∧ (m'.Final u i x.logs ∨ x.status = .error) := by
  have hBefore := ledger_of_course hStart hRun
  have hLedger := hBefore.step hStep
  have hPlain := plain_step hBefore.sound hStep (plain_of_course hStart hRun)
  obtain ⟨t, ht, rfl⟩ := record_of_report hBefore.sound hStep hReport
  have hOver : (∀ d ∈ m'.dutiesOf i, d.Spent m'.floor.accepting) →
      m'.Final u i t.record.logs := fun hSpent =>
    Over.final ⟨hLedger.sound, hPlain, hSpent, t, ht, rfl⟩ u
  have hAccount : ∀ lost, ∀ d ∈ m'.dutiesOf i, d ∈ m'.accountOf lost i := by
    intro lost d hd
    rw [accountOf_eq]
    exact Multiset.mem_add.mpr (Or.inl hd)
  rcases (hLedger.stages i t ht).spent_or_starting hPending hEnded with hSpent | ⟨hError, hErrands⟩
  · have hFinal := hOver fun d hd => hSpent d (hAccount _ d hd) _
    exact ⟨⟨Final.queuesNothing, fun _ => hFinal⟩, Or.inl hFinal⟩
  -- the task is being started, and its errand is spent if it has nothing to queue
  · refine ⟨⟨Final.queuesNothing, fun hNothing => hOver fun d hd => ?_⟩, Or.inr hError⟩
    obtain ⟨hMem, hTask⟩ := Multiset.mem_filter.mp hd
    obtain ⟨j, deeds, rfl⟩ := hErrands d (hAccount _ d hd)
    cases place_of_mem hMem with
    | errand he hSame hDeeds _ =>
      intro hOpen
      rw [← hDeeds]
      exact hNothing hOpen _ he (hSame.trans hTask)

/-! ## Two runs -/

/-- The task of a run of one action is told of as failed with nothing pending when its reference is
let go, and that is final. -/
theorem final_iff_plainSteps :
    ∃ m₀ m m' x, start bareSetup 0 {} 8 = .ok m₀ ∧
      m₀.run bareSetup (fun _ _ => true) (plainSteps.take 15) = some m ∧
      m.step bareSetup (.work 0 0) = some m' ∧ x ∈ m.reports bareSetup 0 (.work 0 0) ∧
      x.status.isTerminal = true ∧ x.pending = 0 ∧ m'.Final bareSetup 0 x.logs := by
  obtain ⟨m₀, m, m', x, hStart, hRun, hStep, hReports, hEnded, hPending, hErrands⟩ :
      ∃ m₀ m m' x, start bareSetup 0 {} 8 = .ok m₀ ∧
        m₀.run bareSetup (fun _ _ => true) (plainSteps.take 15) = some m ∧
        m.step bareSetup (.work 0 0) = some m' ∧ m.reports bareSetup 0 (.work 0 0) = [x] ∧
        x.status.isTerminal = true ∧ x.pending = 0 ∧ m'.errands = [] :=
    ⟨_, _, _, _, rfl, rfl, rfl, rfl, rfl, rfl, rfl⟩
  have hReport : x ∈ m.reports bareSetup 0 (.work 0 0) := by rw [hReports, List.mem_singleton]
  have hCourse : Course bareSetup (fun _ _ => True) m₀ (plainSteps.take 15) m :=
    .of_run (fun _ _ _ => trivial) hRun
  -- no errand is left, so nobody is about to queue
  have hNothing : m'.QueuesNothing 0 := by
    intro _ e he _
    rw [hErrands] at he
    exact absurd he (by simp)
  exact ⟨m₀, m, m', x, hStart, hRun, hStep, hReport, hEnded, hPending,
    (final_iff hStart hCourse hStep hReport hEnded hPending).1.mpr hNothing⟩

/-- A job with two actions, where the selector of the first one is refused. -/
def halfStartedJob : Job where
  id := "j"
  maxConcurrency := 1
  actions := [{ id := "a", nodesSelector := some {} }, { id := "b" }]

/-- The start of a task of that job, up to the failure of its first action. -/
def failedStartSteps : List MachineStep :=
  [.publish (.job { updated := some halfStartedJob }), .listen .jobs,
   .launch halfStartedJob (.timer { jobId := "j" })]

/-- The rest of the start, in which the second action is queued. -/
def startedAnywaySteps : List MachineStep := [.call 0, .call 0, .call 0]

/-- The execution of the second action. -/
def executedAnywaySteps : List MachineStep :=
  [.route, .dispatch 0 (.offer 0), .dispatch 0 .take, .dispatch 0 .hand, .dispatch 0 (.pick 0),
   .work 0 0, .work 0 0, .work 0 0]

/-- **An end that is not the end**: `launch` tells of a task as failed with nothing pending and no
logs. Then its second action is queued and executed, and the task is told of with a log. -/
theorem not_final :
    ∃ m₀ m m' x, start bareSetup 0 {} 8 = .ok m₀ ∧
      Course bareSetup (fun _ _ => True) m₀ failedStartSteps m ∧
      m.step bareSetup (.call 0) = some m' ∧ x ∈ m.reports bareSetup 0 (.call 0) ∧
      x.status.isTerminal = true ∧ x.pending = 0 ∧
      ∃ m₁ m₂, Course bareSetup (fun _ _ => True) m' startedAnywaySteps m₁ ∧ m₁.queuedOf 0 = 1 ∧
        Course bareSetup (fun _ _ => True) m₁ executedAnywaySteps m₂ ∧
        ∃ x' ∈ m₁.trace bareSetup (reports bareSetup 0) executedAnywaySteps,
          x'.logs.length ≠ x.logs.length := by
  obtain ⟨m₀, m, m', x, hStart, hRun, hStep, hReports, hEnded, hPending, hLogs, m₁, m₂, hMore,
      hQueued, hExecuted, hTrace⟩ :
      ∃ m₀ m m' x, start bareSetup 0 {} 8 = .ok m₀ ∧
        m₀.run bareSetup (fun _ _ => true) failedStartSteps = some m ∧
        m.step bareSetup (.call 0) = some m' ∧ m.reports bareSetup 0 (.call 0) = [x] ∧
        x.status.isTerminal = true ∧ x.pending = 0 ∧ x.logs.length = 0 ∧
        ∃ m₁ m₂, m'.run bareSetup (fun _ _ => true) startedAnywaySteps = some m₁ ∧
          m₁.queuedOf 0 = 1 ∧
          m₁.run bareSetup (fun _ _ => true) executedAnywaySteps = some m₂ ∧
          (m₁.trace bareSetup (reports bareSetup 0) executedAnywaySteps).map
            (fun x => x.logs.length) = [1] :=
    ⟨_, _, _, _, rfl, rfl, rfl, rfl, rfl, rfl, rfl, _, _, rfl, rfl, rfl, rfl⟩
  have hReport : x ∈ m.reports bareSetup 0 (.call 0) := by rw [hReports, List.mem_singleton]
  refine ⟨m₀, m, m', x, hStart, .of_run (fun _ _ _ => trivial) hRun, hStep, hReport, hEnded,
    hPending, m₁, m₂, .of_run (fun _ _ _ => trivial) hMore, hQueued,
    .of_run (fun _ _ _ => trivial) hExecuted, ?_⟩
  -- the later snapshot has the log that this one has not
  obtain ⟨x', rest, hAll, hLength, -⟩ := List.map_eq_cons_iff.mp hTrace
  refine ⟨x', by simp [hAll], ?_⟩
  rw [hLength, hLogs]
  decide

end Machine

end Taskyard
