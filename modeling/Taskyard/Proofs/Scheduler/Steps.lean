import Mathlib.Tactic.Abel
import Taskyard.Proofs.Scheduler.Moves
import Taskyard.Proofs.Scheduler.Pipeline

/-!
# Scheduler — every step is a move

Each part of the machine has its own kind of step. A listener, the router and the callers go through
errands, a worker goes through an execution, and the rest of the steps leave what is to be done for
tasks, or move it from one place to another.

Main results:

* `Machine.step_move` — what a step of the machine does.
* `Machine.sound_of_start` — what the steps keep holds at the start.
-/

namespace Taskyard

namespace Machine

/-! ## Deeds and errands -/

section Errands

variable {u : Setup} {m m' : Machine} {s : MachineStep} {f : Floor}

/-- The step that performs a deed is a turn. -/
theorem move_of_perform {d : Duty} {x : Deed} {rest more : List Deed} (others : Multiset Duty)
    (hSound : m.Sound) (hStarts : m.starts s = none) (hBegins : m.begins s = none)
    (hDeeds : d.deeds = some (x :: rest))
    (hDuties : m.duties = queueDuties m.floor.main + ({d} + others))
    (hPerform : m.floor.perform d.task x = (f, more)) (hFloor : m'.floor = f)
    (hDuties' : m'.duties = queueDuties f.main + (d.resume (more ++ rest) + others)) :
    Move u m s m' := by
  have hHead : m.duties = d ::ₘ (queueDuties m.floor.main + others) := by
    rw [hDuties, add_left_comm, Multiset.singleton_add]
  obtain ⟨t, ht⟩ := hSound.exists_task hHead
  subst hFloor
  have hSame : m.floor.Marks d.task t t.record m.floor := Floor.marks_refl ht
  -- a mark changes the record, and a runnable is queued unless the main queue is closed
  cases x with
  | mark step =>
    obtain ⟨hMarked, rfl⟩ := Prod.mk.inj hPerform
    have hMarks := Floor.marks_mark ht step
    rw [hMarked] at hMarks
    have hTurn : Turn u m t d (m.begins s) (step.apply m.floor.now t.record) (d.resume rest) := by
      rw [hBegins]
      exact .mark d m.floor.now hDeeds
    refine .turn hStarts hMarks.accepting ht hTurn hMarks.tasks hHead ?_ hMarks.snapshots
    rw [hDuties', hMarks.main, List.nil_append, add_left_comm]
  | queue action input =>
    cases hOpen : m.floor.accepting with
    | true =>
      simp only [Floor.perform, hOpen, if_true] at hPerform
      obtain ⟨hFloor, rfl⟩ := Prod.mk.inj hPerform
      have hTurn : Turn u m t d (m.begins s) t.record
          (.waiting { action, task := d.task, input } ::ₘ d.resume rest) := by
        rw [hBegins]
        exact .queue d hDeeds hOpen
      rw [← hFloor] at hDuties'
      refine .turn hStarts (by rw [← hFloor]; rfl) ht hTurn (by rw [← hFloor]; exact hSame.tasks)
        hHead ?_ (by rw [← hFloor]; exact hSame.snapshots)
      rw [hDuties', Floor.enqueue, queueDuties_concat, List.nil_append, Multiset.cons_add,
        Multiset.cons_add, add_left_comm]
    | false =>
      simp only [Floor.perform, hOpen, Bool.false_eq_true, if_false] at hPerform
      obtain ⟨hFloor, rfl⟩ := Prod.mk.inj hPerform
      have hTurn : Turn u m t d (m.begins s) t.record (d.resume (Deed.refused ++ rest)) := by
        rw [hBegins]
        exact .refuse d hDeeds hOpen
      rw [← hFloor] at hDuties'
      refine .turn hStarts (by rw [← hFloor]) ht hTurn (by rw [← hFloor]; exact hSame.tasks)
        hHead ?_ (by rw [← hFloor]; exact hSame.snapshots)
      rw [hDuties', add_left_comm]

/-- The floor with a new task keeps what it has. -/
theorem snapshots_addTask (j : Job) :
    ∀ x ∈ (m.floor.addTask u j .writer).snapshots, x ∈ m.floor.snapshots := by
  intro x hx
  simp only [Floor.mem_snapshots, Floor.addTask, List.mem_append, List.mem_singleton] at hx ⊢
  rcases hx with hx | ⟨t, ht | rfl, kept, hAside, hx⟩
  · exact Or.inl hx
  · exact Or.inr ⟨t, ht, kept, hAside, hx⟩
  · exact absurd hAside (by simp)

/-- The step that starts a task for an event is a birth. -/
theorem move_of_begin {j : Job} {e : Event} (hStarts : m.starts s = some (j, e))
    (hBegins : m.begins s = none) (hFloor : m'.floor = m.floor.addTask u j .writer)
    (hDuties' : m'.duties = Duty.ofDeeds m.floor.tasks.length
      (rootDeeds u.site.backend u.selectionBuffer (.ofEvent e) j.actions) + m.duties) :
    Move u m s m' := by
  have hBirth : Birth u m.floor.tasks.length (m.starts s)
      { job := j, record := j.freshTask (u.taskId m.floor.tasks.length) }
      (Duty.ofDeeds m.floor.tasks.length
        (rootDeeds u.site.backend u.selectionBuffer (.ofEvent e) j.actions)) := by
    rw [hStarts]
    exact .launched j e rfl rfl
  exact .birth hBegins (by rw [hFloor]; rfl) hBirth (by rw [hFloor]; rfl) hDuties'
    (by rw [hFloor]; exact snapshots_addTask j)

/-- An errand that does not go on has nothing to do. -/
theorem runErrand_eq_none {e : Errand} (h : runErrand u f e = none) :
    e.duties = 0 ∧ e.starts = none := by
  obtain ⟨i, deeds, launches⟩ := e
  cases deeds with
  | cons => exact absurd h (by simp [runErrand])
  | nil =>
    cases launches with
    | cons => exact absurd h (by simp [runErrand])
    | nil => exact ⟨rfl, rfl⟩

/-- A step of an errand is a turn or a birth. -/
theorem move_of_runErrand {e e' : Errand} (others : Multiset Duty) (hSound : m.Sound)
    (hStarts : m.starts s = e.starts) (hBegins : m.begins s = none)
    (hDuties : m.duties = queueDuties m.floor.main + (e.duties + others))
    (hRun : runErrand u m.floor e = some (f, e')) (hFloor : m'.floor = f)
    (hDuties' : m'.duties = queueDuties f.main + (e'.duties + others)) : Move u m s m' := by
  obtain ⟨i, deeds, launches⟩ := e
  -- with deeds left the next one is performed, otherwise the next task is started
  cases deeds with
  | cons x rest =>
    rcases hPerform : m.floor.perform i x with ⟨f₁, more⟩
    simp only [runErrand, hPerform] at hRun
    obtain ⟨rfl, rfl⟩ := Prod.mk.inj (Option.some.inj hRun)
    exact move_of_perform (d := .errand i (x :: rest)) others hSound hStarts hBegins rfl hDuties
      hPerform hFloor hDuties'
  | nil =>
    cases launches with
    | nil => exact absurd hRun (by simp [runErrand])
    | cons l launches =>
      obtain ⟨j, ev⟩ := l
      simp only [runErrand, Machine.begin] at hRun
      obtain ⟨rfl, rfl⟩ := Prod.mk.inj (Option.some.inj hRun)
      refine move_of_begin hStarts hBegins hFloor ?_
      rw [hDuties', hDuties]
      simp only [Errand.duties, Duty.ofDeeds, Floor.addTask, zero_add]
      rw [add_left_comm]

end Errands

/-! ## Parts of the machine -/

/-- A listener sets its duty apart from the others. -/
theorem exists_ears_rest (e : Ears) (c : Channel) :
    ∃ rest, e.duties = (e.get c).duties + rest ∧
      ∀ ear, (e.set ear c).duties = ear.duties + rest := by
  cases c with
  | tree =>
    exact ⟨e.attributes.duties + e.timers.duties + e.jobs.duties,
      by simp only [Ears.duties, Ears.get, add_assoc],
      fun ear => by simp only [Ears.duties, Ears.set, add_assoc]⟩
  | attributes =>
    exact ⟨e.tree.duties + e.timers.duties + e.jobs.duties,
      by simp only [Ears.duties, Ears.get, add_left_comm, add_assoc],
      fun ear => by simp only [Ears.duties, Ears.set, add_left_comm, add_assoc]⟩
  | timers =>
    exact ⟨e.tree.duties + e.attributes.duties + e.jobs.duties,
      by simp only [Ears.duties, Ears.get, add_left_comm, add_assoc],
      fun ear => by simp only [Ears.duties, Ears.set, add_left_comm, add_assoc]⟩
  | jobs =>
    exact ⟨e.tree.duties + e.attributes.duties + e.timers.duties,
      by simp only [Ears.duties, Ears.get, add_comm],
      fun ear => by simp only [Ears.duties, Ears.set, add_comm]⟩

/-- A listener that does something else with the same duty changes nothing. -/
theorem duties_setEar {m : Machine} {c : Channel} {ear : Ear}
    (h : ear.duties = (m.ears.get c).duties) : (m.setEar c ear).duties = m.duties := by
  obtain ⟨rest, hOld, hNew⟩ := exists_ears_rest m.ears c
  simp only [duties, setEar, hOld, hNew, h]

/-- A listener can end where it has nothing to do for a task. -/
theorem duties_of_canEnd {ear : Ear} (h : ear.canEnd = true) : ear.duties = 0 := by
  cases ear with
  | listening | fetching => rfl
  | busy e =>
    rw [Ear.duties, Errand.duties, List.isEmpty_iff.mp h]
    rfl
  | seeking | loading | deaf => exact absurd h (by simp [Ear.canEnd])

/-- Stopping a dispatcher leaves everything but dispatchers and service. -/
theorem retire_floor (m : Machine) (jobId : String) : (m.retire jobId).floor = m.floor := by
  unfold retire
  split <;> rfl

/-- Stopping a dispatcher drops nothing of what it has to do. -/
theorem duties_retire (m : Machine) (jobId : String) : (m.retire jobId).duties = m.duties := by
  unfold retire
  split
  · rfl
  · next n hn =>
    -- a stopped dispatcher keeps what it has taken in
    have hSum : ((m.benches.modify n Dispatcher.stop).map Dispatcher.duties).sum =
        (m.benches.map Dispatcher.duties).sum := by
      cases hb : m.benches[n]? with
      | none => rw [List.modify_eq_set_getElem?, hb]; rfl
      | some b =>
        rw [List.modify_eq_set_getElem?, hb]
        exact sum_map_set _ hb (Dispatcher.duties_stop b)
    simp only [duties, hSum]

/-- A new dispatcher has nothing to do. -/
theorem duties_engage (m : Machine) (jobId : String) (workers : Nat) :
    (m.engage jobId workers).duties = m.duties := by
  simp only [duties, engage, sum_map_concat, Dispatcher.duties_start, zero_add]

/-- A change of a job leaves the duties and what executions share. -/
theorem handleChange_keeps (u : Setup) (m : Machine) (c : JobChange) :
    (m.handleChange u c).duties = m.duties ∧ (m.handleChange u c).floor = m.floor := by
  refine handleChange_induction (P := fun x => x.duties = m.duties ∧ x.floor = m.floor)
    (fun x jobId h => ?_) (fun x jobId workers h => ?_) (fun _ _ h => h) u c ⟨rfl, rfl⟩
  · exact ⟨(duties_retire x jobId).trans h.1, (retire_floor x jobId).trans h.2⟩
  · exact ⟨(duties_engage x jobId workers).trans h.1, h.2⟩

/-- Stopping all dispatchers leaves the duties and what executions share. -/
theorem stopDispatchers_keeps (m : Machine) :
    m.stopDispatchers.duties = m.duties ∧ m.stopDispatchers.floor = m.floor := by
  refine stopDispatchers_induction (P := fun x => x.duties = m.duties ∧ x.floor = m.floor)
    (fun x jobId h => ?_) ⟨rfl, rfl⟩
  exact ⟨(duties_retire x jobId).trans h.1, (retire_floor x jobId).trans h.2⟩

/-- Putting a dispatcher in service leaves the duties and everything else. -/
theorem benchFor_keeps (u : Setup) (m : Machine) (j : Job) :
    (m.benchFor u j).1.duties = m.duties ∧ (m.benchFor u j).1.floor = m.floor ∧
      (m.benchFor u j).1.router = m.router := by
  unfold benchFor
  split
  · exact ⟨rfl, rfl, rfl⟩
  · exact ⟨duties_engage _ _ _, rfl, rfl⟩

/-- Routing a runnable makes it a duty of a dispatcher, or leaves the machine and gives the deeds
for a runnable whose job is not loaded. -/
theorem Staffed.route_duties {m m' : Machine} {deeds : List Deed} (h : m.Staffed) (u : Setup)
    (r : Runnable) (hRoute : m.route u r = (m', deeds)) :
    (deeds = turnAway "job removed" ∧ m' = m ∧
      (m.floor.tasks[r.task]?).bind (fun t => m.jobs.get? t.job.id) = none) ∨
    (deeds = [] ∧ m'.duties = .waiting r ::ₘ m.duties ∧ m'.floor = m.floor ∧
      m'.router = m.router) := by
  rcases h.route_cases u r with ⟨hJob, hAway⟩ | ⟨j, b, -, hb, hRouted⟩
  · rw [hAway] at hRoute
    obtain ⟨rfl, rfl⟩ := Prod.mk.inj hRoute
    exact Or.inl ⟨rfl, rfl, hJob⟩
  · rw [hRouted] at hRoute
    obtain ⟨rfl, rfl⟩ := Prod.mk.inj hRoute
    obtain ⟨hDuties, hFloor, hRouter⟩ := benchFor_keeps u m j
    refine Or.inr ⟨rfl, ?_, hFloor, hRouter⟩
    obtain ⟨rest, hSum, hSet, -⟩ := exists_sum_rest Dispatcher.duties hb
    rw [← hDuties]
    simp only [duties, hSum, hSet, Dispatcher.duties_queue, Multiset.cons_add, Multiset.add_cons]

/-! ## Every step -/

section Steps

variable {u : Setup} {m m' : Machine}

/-- A step that leaves the tasks, the duties and the writer passes. -/
theorem move_of_keeps {s : MachineStep} (hStarts : m.starts s = none) (hBegins : m.begins s = none)
    (hFloor : m'.floor = m.floor) (hDuties : m'.duties = m.duties) : Move u m s m' :=
  .pass hStarts hBegins (.inr (by rw [hFloor])) (by rw [hFloor]) hDuties fun x hx => hFloor ▸ hx

/-- What a trigger starts is not a duty yet. -/
theorem duties_triggered (t : JobTrigger) (j : Job) : (triggered t j).duties = 0 := by
  unfold triggered
  split <;> rfl

/-- A listener goes on with its errand, or leaves the duties and what executions share. -/
theorem listen_cases {c : Channel} (hStep : m.listen u c = some m') :
    (∃ e f e', m.ears.get c = .busy e ∧ runErrand u m.floor e = some (f, e') ∧
      m' = (m.onFloor f).setEar c (.busy e')) ∨
    (∀ e, m.ears.get c = .busy e → runErrand u m.floor e = none) ∧
      m'.floor = m.floor ∧ m'.duties = m.duties := by
  obtain ⟨_, hHeeds⟩ := exists_heeds hStep
  -- what goes to a listener comes from a topic, the catalog or the loaded jobs, which have no duties
  have hQuiet : ∀ {m₁ : Machine} {ear : Ear}, m₁.ears = m.ears → m₁.duties = m.duties →
      ear.duties = (m.ears.get c).duties → (m₁.setEar c ear).duties = m.duties :=
    fun hEars hDuties hEar => (duties_setEar (by rw [hEar, hEars])).trans hDuties
  have hIdle : ∀ {ear : Ear}, m.ears.get c = ear → (∀ e, ear ≠ .busy e) →
      ∀ e, m.ears.get c = .busy e → runErrand u m.floor e = none :=
    fun hEar hNot e hBusy => absurd (hEar.symm.trans hBusy) (hNot e)
  cases hHeeds with
  | @change t x _ hEar =>
    obtain ⟨hDuties, hFloor⟩ := handleChange_keeps u { m with changes := t } x
    exact .inr ⟨hIdle hEar nofun, hFloor, hDuties⟩
  | tree _ hEar | attributes _ hEar | trigger _ hEar | unknown hEar | found hEar | missing hEar =>
    refine .inr ⟨hIdle hEar nofun, rfl, hQuiet rfl rfl ?_⟩
    rw [hEar]
    rfl
  | @known t j hEar | @load t j hEar =>
    refine .inr ⟨hIdle hEar nofun, rfl, hQuiet rfl rfl ?_⟩
    rw [hEar]
    exact duties_triggered t j
  | errand hEar hRun => exact .inl ⟨_, _, _, hEar, hRun, rfl⟩
  | @done e hEar hRun =>
    refine .inr ⟨fun e' hBusy => ?_, rfl, hQuiet rfl rfl ?_⟩
    · obtain rfl := Ear.busy.inj (hEar.symm.trans hBusy)
      exact hRun
    · rw [hEar, Ear.duties, (runErrand_eq_none hRun).1]
      rfl

/-- A step of a listener is a move. -/
theorem move_listen {c : Channel} (hSound : m.Sound) (hStep : m.listen u c = some m') :
    Move u m (.listen c) m' := by
  rcases listen_cases hStep with ⟨e, f, e', hEar, hRun, rfl⟩ | ⟨hDone, hFloor, hDuties⟩
  · -- the errand of a listener is one of the duties, and the rest is left
    obtain ⟨rest, hOld, hNew⟩ := exists_ears_rest m.ears c
    refine move_of_runErrand ((m.benches.map Dispatcher.duties).sum + rest + m.router.duties +
      (m.callers.map Errand.duties).sum) hSound (by simp only [starts, hEar]) rfl ?_ hRun rfl ?_
    · simp only [duties, hOld, hEar, Ear.duties]
      abel
    · simp only [duties, setEar, onFloor, hNew, Ear.duties]
      abel
  · have hStarts : m.starts (.listen c) = none := by
      simp only [starts]
      split
      · next e hBusy => exact (runErrand_eq_none (hDone e hBusy)).2
      · rfl
    exact move_of_keeps hStarts rfl hFloor hDuties

/-- A step of the router is a move. -/
theorem move_stepRouter (hSound : m.Sound) (hStep : m.stepRouter u = some m') :
    Move u m .route m' := by
  rcases stepRouter_cases hStep with ⟨r, rest, m₁, deeds, hWaiting, hMain, hRoute, rfl⟩ |
    ⟨e, hBusy, hErrand⟩
  · have hStarts : m.starts .route = none := by simp only [starts, hWaiting]
    -- the runnable leaves the main queue
    have hTaken : (m.onFloor { m.floor with main := rest }).Staffed := hSound.staffed.of_eq rfl rfl
    have hSplit : m.duties =
        .waiting r ::ₘ (m.onFloor { m.floor with main := rest }).duties := by
      simp only [duties, onFloor, hMain, queueDuties_cons, Multiset.cons_add]
    rcases hTaken.route_duties u r hRoute with ⟨rfl, rfl, hJob⟩ | ⟨rfl, hDuties, hFloor, -⟩
    -- it is turned away if its job is not loaded
    · obtain ⟨t, ht⟩ : ∃ t, m.floor.tasks[r.task]? = some t := hSound.exists_task hSplit
      have hUnloaded : m.jobs.get? t.job.id = none := by
        have hBound : (m.floor.tasks[r.task]?).bind (fun t => m.jobs.get? t.job.id) = none := hJob
        rw [ht] at hBound
        exact hBound
      have hSame : m.floor.Marks r.task t t.record m.floor := Floor.marks_refl ht
      refine .turn (d := .waiting r) hStarts rfl ht (.away r hUnloaded) hSame.tasks hSplit ?_
        hSame.snapshots
      simp only [duties, onFloor, turnAway, List.isEmpty_cons, Bool.false_eq_true, if_false,
        Router.duties, Errand.duties, hWaiting]
      abel
    -- and otherwise a dispatcher takes it in
    · rw [List.isEmpty_nil, if_pos rfl]
      refine .pass hStarts rfl (.inr ?_) ?_ (hDuties.trans hSplit.symm) fun x hx => ?_
      · rw [hFloor]
        rfl
      · rw [hFloor]
        rfl
      · rw [hFloor] at hx
        exact hx
  · rcases hErrand with ⟨f, e', hRun, rfl⟩ | ⟨hDone, rfl⟩
    · refine move_of_runErrand ((m.benches.map Dispatcher.duties).sum + m.ears.duties +
        (m.callers.map Errand.duties).sum) hSound (by simp only [starts, hBusy]) rfl ?_ hRun rfl ?_
      · simp only [duties, hBusy, Router.duties]
        abel
      · simp only [duties, onFloor, Router.duties]
        abel
    · obtain ⟨hNothing, hStarts⟩ := runErrand_eq_none hDone
      refine move_of_keeps (by simp only [starts, hBusy, hStarts]) rfl rfl ?_
      simp only [duties, hBusy, Router.duties, hNothing]

/-- The live task of a runnable that is submitted: one action is pending, and snapshots are kept
aside. -/
def submittedTask (u : Setup) (n : Nat) (j : Job) : LiveTask where
  job := j
  record := { j.freshTask (u.taskId n) with pending := 1 }
  outlet := .aside []

theorem mark_addTask (f : Floor) (j : Job) :
    (f.addTask u j (.aside [])).mark f.tasks.length .retain =
      { f with tasks := f.tasks ++ [submittedTask u f.tasks.length j] } := by
  simp [Floor.mark, Floor.addTask, Floor.deliver, TaskStep.persists, TaskStep.apply, Job.freshTask,
    submittedTask]

/-- A runnable that is submitted comes with a task of its own. -/
theorem move_submit {j : Job} {a : Action} {input : Message} (hSound : m.Sound) :
    Move u m (.submit j a input) (m.submit u j a input) := by
  let t := submittedTask u m.floor.tasks.length j
  let m₀ : Machine := m.onFloor { m.floor with tasks := m.floor.tasks ++ [t] }
  let r : Runnable := { action := a, task := m.floor.tasks.length, input }
  have hAdded : m.onFloor ((m.floor.addTask u j (.aside [])).mark m.floor.tasks.length .retain) =
      m₀ := congrArg m.onFloor (mark_addTask m.floor j)
  have hSnapshots : ∀ x ∈ m₀.floor.snapshots, x ∈ m.floor.snapshots := by
    intro x hx
    simp only [Floor.mem_snapshots, m₀, onFloor, List.mem_append, List.mem_singleton] at hx ⊢
    rcases hx with hx | ⟨t', ht' | rfl, kept, hAside, hx⟩
    · exact Or.inl hx
    · exact Or.inr ⟨t', ht', kept, hAside, hx⟩
    · obtain rfl := Outlet.aside.inj hAside
      exact absurd hx (by simp)
  have hStaffed : m₀.Staffed := hSound.staffed.of_eq rfl rfl
  rcases hRoute : m₀.route u r with ⟨m₁, deeds⟩
  rw [← hAdded] at hRoute
  rw [submit_eq hRoute]
  rw [hAdded] at hRoute
  -- the runnable is routed at once, so it is with a dispatcher or is turned away from the start
  rcases hStaffed.route_duties u r hRoute with ⟨rfl, rfl, -⟩ | ⟨rfl, hDuties, hFloor, -⟩
  · refine .birth (t := t) rfl rfl (.declined j rfl) rfl ?_ hSnapshots
    simp only [turnAway, List.isEmpty_cons, Bool.false_eq_true, if_false, duties, sum_map_concat]
    simp only [m₀, onFloor, Errand.duties]
    abel
  · rw [List.isEmpty_nil, if_pos rfl]
    refine .birth (t := t) rfl ?_ (.submitted j r rfl rfl) ?_ ?_ ?_
    · rw [hFloor]
      rfl
    · rw [hFloor]
      rfl
    · rw [hDuties, Multiset.singleton_add]
      rfl
    · rw [hFloor]
      exact hSnapshots

/-- A step of a caller is a move. -/
theorem move_call {n : Nat} (hSound : m.Sound) (hStep : m.call u n = some m') :
    Move u m (.call n) m' := by
  obtain ⟨e, hCaller, hCases⟩ := call_cases hStep
  obtain ⟨rest, hOld, hSet, hErase⟩ := exists_sum_rest Errand.duties hCaller
  have hStarts : m.starts (.call n) = e.starts := by simp only [starts, hCaller, Option.bind_some]
  -- the caller has something left to do, or it is gone
  rcases hCases with ⟨f, e', hRun, rfl⟩ | ⟨hDone, rfl⟩
  · refine move_of_runErrand ((m.benches.map Dispatcher.duties).sum + m.ears.duties +
      m.router.duties + rest) hSound hStarts rfl ?_ hRun rfl ?_
    · simp only [duties, hOld]
      abel
    · simp only [duties, onFloor, hSet]
      abel
  · obtain ⟨hNothing, hNone⟩ := runErrand_eq_none hDone
    refine move_of_keeps (hStarts.trans hNone) rfl rfl ?_
    simp only [duties, hErase, hOld, hNothing, zero_add]

/-- A step of a dispatcher is a move. -/
theorem move_stepBench {n : Nat} {s : DispatcherStep} (hSound : m.Sound)
    (hStep : m.stepBench n s = some m') : Move u m (.dispatch n s) m' := by
  obtain ⟨b, b', hb, hStepped, rfl, -⟩ := hSound.staffed.stepBench hStep
  have hBegins : m.begins (.dispatch n s) = b.begins s := by
    simp only [begins, hb, Option.bind_some]
  obtain ⟨rest, hOld, hSet, -⟩ := exists_sum_rest Dispatcher.duties hb
  -- only a worker that picks a runnable makes another duty of it
  rcases hStepped.duties_eq with ⟨hNone, hSame⟩ | ⟨r, others, hSome, hb₁, hb₂⟩
  · refine move_of_keeps rfl (hBegins.trans hNone) rfl ?_
    simp only [duties, hSet, hSame, hOld]
  · have hDuties : m.duties = .waiting r ::ₘ (queueDuties m.floor.main + (others + rest) +
        m.ears.duties + m.router.duties + (m.callers.map Errand.duties).sum) := by
      simp only [duties, hOld, hb₁, Multiset.cons_add, Multiset.add_cons]
    obtain ⟨t, ht⟩ : ∃ t, m.floor.tasks[r.task]? = some t := hSound.exists_task hDuties
    have hTurn : Turn u m t (.waiting r) (m.begins (.dispatch n s)) t.record
        {.running { runnable := r }} := by
      rw [hBegins, hSome]
      exact .pick r
    have hSame : m.floor.Marks r.task t t.record m.floor := Floor.marks_refl ht
    refine .turn (d := .waiting r) rfl rfl ht hTurn hSame.tasks hDuties ?_ hSame.snapshots
    simp only [duties, hSet, hb₂, Multiset.cons_add, Multiset.add_cons, Multiset.singleton_add]

/-- A step of a worker is a move. -/
theorem move_work {n w : Nat} (hSound : m.Sound) (hStep : m.work u n w = some m') :
    Move u m (.work n w) m' := by
  obtain ⟨b, e, f, next, hb, he, hMoved, rfl⟩ := work_cases hStep
  obtain ⟨rest, hOld, hSet, -⟩ := exists_sum_rest Dispatcher.duties hb
  obtain ⟨others, hb₁, hOver, hOn⟩ := Dispatcher.exists_carry_rest he
  have hDuties : m.duties = .running e ::ₘ (queueDuties m.floor.main + (others + rest) +
      m.ears.duties + m.router.duties + (m.callers.map Errand.duties).sum) := by
    simp only [duties, hOld, hb₁, Multiset.cons_add, Multiset.add_cons]
  obtain ⟨t, ht⟩ : ∃ t, m.floor.tasks[e.runnable.task]? = some t := hSound.exists_task hDuties
  -- the execution ends, performs its next deed, or goes on by itself
  rcases Execution.step_cases ht hMoved with ⟨hDone, rfl, rfl⟩ |
    ⟨x, ds, more, hDoing, hPerform, rfl⟩ | ⟨now, s, p, hNext, rfl, hMarks⟩
  · have hSame : m.floor.Marks e.runnable.task t t.record m.floor := Floor.marks_refl ht
    refine .turn (d := .running e) rfl rfl ht (.ended e hDone) hSame.tasks hDuties ?_
      hSame.snapshots
    simp only [duties, onFloor, hSet, hOver, zero_add]
  · have hDeeds : (Duty.running e).deeds = some (x :: ds) := by simp only [Duty.deeds, hDoing]
    refine move_of_perform (others + rest + m.ears.duties + m.router.duties +
      (m.callers.map Errand.duties).sum) hSound rfl rfl hDeeds ?_ hPerform rfl ?_
    · rw [hDuties, ← Multiset.singleton_add]
      abel
    · simp only [duties, onFloor, hSet, hOn, Duty.resume, ← Multiset.singleton_add]
      abel
  · refine .turn (d := .running e) rfl hMarks.accepting ht (.advance e now hNext)
      hMarks.tasks hDuties ?_ hMarks.snapshots
    simp only [duties, onFloor, hSet, hOn, hMarks.main, Multiset.cons_add, Multiset.add_cons,
      Multiset.singleton_add]

/-- The pipeline of the writer takes in nothing by itself. -/
theorem mem_backlog_of_step {w w' : Writer} {s : WriterStep} {put : Option Task} {x : Task}
    (hStep : w.step s = some (w', put)) (hx : x ∈ w'.backlog) : x ∈ w.backlog := by
  rw [Writer.backlog_of_step hStep]
  exact List.mem_append_right _ hx

/-- A floor of which only the writer, the catalog and what is to be told differ, where the writer
took in nothing. -/
theorem move_of_floor {s : MachineStep} {f : Floor} {w : Writer} (hStarts : m.starts s = none)
    (hBegins : m.begins s = none) (hTasks : f.tasks = m.floor.tasks) (hMain : f.main = m.floor.main)
    (hOpen : f.accepting = m.floor.accepting) (hWriter : f.writer = w)
    (hBacklog : ∀ x ∈ w.backlog, x ∈ m.floor.writer.backlog) : Move u m s (m.onFloor f) := by
  refine .pass hStarts hBegins (.inr hOpen) hTasks ?_ fun x hx => ?_
  · simp only [duties, onFloor, hMain]
  · simp only [onFloor, Floor.mem_snapshots, hTasks, hWriter] at hx ⊢
    exact hx.imp_left (hBacklog x)

/-- A step of the writer is a move. -/
theorem move_write {s : WriterStep} (hStep : m.write s = some m') : Move u m (.write s) m' := by
  obtain ⟨w, put, hWrite, ⟨t, -, -, rfl⟩ | ⟨-, rfl⟩⟩ := write_cases hStep
  · obtain ⟨hTasks, hMain, hOpen, hWriter⟩ := Execution.telling_eq
      { m.floor with writer := w, catalog := (m.floor.catalog.saveTask t).1 }
      (m.floor.catalog.saveTask t).2
    exact move_of_floor rfl rfl hTasks hMain hOpen hWriter fun x hx =>
      mem_backlog_of_step hWrite hx
  · exact move_of_floor rfl rfl rfl rfl rfl rfl fun x hx => mem_backlog_of_step hWrite hx

/-- A change of the catalog that is told of. -/
theorem move_change {s : MachineStep} (c : Catalog × List Announcement)
    (hStarts : m.starts s = none) (hBegins : m.begins s = none) : Move u m s (m.change c) := by
  obtain ⟨hTasks, hMain, hOpen, hWriter⟩ :=
    Execution.telling_eq { m.floor with catalog := c.1 } c.2
  exact move_of_floor hStarts hBegins hTasks hMain hOpen hWriter fun x hx => hx

theorem tell_keeps (m : Machine) (a : Announcement) :
    (m.tell a).duties = m.duties ∧ (m.tell a).floor = m.floor := by
  cases a <;> exact ⟨rfl, rfl⟩

/-- **Every step** passes, takes a turn at one duty, or starts one task. The router must not end
while there are runnables in the main queue: they would be lost. -/
theorem step_move {s : MachineStep} (hSound : m.Sound)
    (hRouter : s = .endRouter → m.floor.main = []) (hStep : m.step u s = some m') :
    Move u m s m' := by
  cases s with
  | time | store =>
    rw [← Option.some.inj hStep]
    exact move_of_floor rfl rfl rfl rfl rfl rfl fun x hx => hx
  | saveJob | removeJob | saveTask =>
    rw [← Option.some.inj hStep]
    exact move_change _ rfl rfl
  | publish post =>
    rw [← Option.some.inj hStep]
    cases post with
    | node onAttributes _ => cases onAttributes <;> exact move_of_keeps rfl rfl rfl rfl
    | trigger | job => exact move_of_keeps rfl rfl rfl rfl
  | announce n =>
    obtain ⟨a, _, calls, -, -, rfl⟩ := announce_cases hStep
    obtain ⟨hDuties, hFloor⟩ := tell_keeps (m.onFloor { m.floor with calls }) a
    refine .pass rfl rfl (.inr ?_) ?_ hDuties fun x hx => ?_
    · rw [hFloor]
      rfl
    · rw [hFloor]
      rfl
    · rw [hFloor] at hx
      exact hx
  | launch j e =>
    rw [← Option.some.inj hStep]
    refine move_of_begin rfl rfl rfl ?_
    simp only [launch, Machine.begin, onFloor, duties, sum_map_concat, Floor.addTask, Errand.duties]
    abel
  | submit j a input =>
    rw [← Option.some.inj hStep]
    exact move_submit hSound
  | call n => exact move_call hSound hStep
  | listen c => exact move_listen hSound hStep
  | route => exact move_stepRouter hSound hStep
  | dispatch n s => exact move_stepBench hSound hStep
  | work n w => exact move_work hSound hStep
  | write s => exact move_write hStep
  | silence c =>
    obtain ⟨hCanEnd, rfl⟩ := silence_cases hStep
    have hDuties : (m.setEar c .deaf).duties = m.duties :=
      duties_setEar (by rw [duties_of_canEnd hCanEnd]; rfl)
    cases c <;> exact move_of_keeps rfl rfl rfl hDuties
  -- the main queue goes with the router, so it has to be empty
  | endRouter =>
    obtain ⟨hWaiting, rfl⟩ := endRouter_cases hStep
    refine .pass rfl rfl (.inl rfl) rfl ?_ fun x hx => hx
    simp only [duties, onFloor, hWaiting, hRouter rfl, Router.duties]
  | stopDispatchers =>
    rw [← Option.some.inj hStep]
    obtain ⟨hDuties, hFloor⟩ := stopDispatchers_keeps m
    exact move_of_keeps rfl rfl hFloor hDuties

end Steps

/-! ## The start -/

/-- What the start of a scheduler leaves empty. -/
theorem duties_of_start {u : Setup} {now : Int64} {catalog : Catalog} {capacity : Nat}
    {m : Machine} (hStart : start u now catalog capacity = .ok m) :
    m.duties = 0 ∧ m.floor.tasks = [] ∧ m.floor.snapshots = [] ∧ m.floor.accepting = true := by
  obtain ⟨js, -, rfl⟩ := exists_of_start hStart
  exact ⟨rfl, rfl, rfl, rfl⟩

/-- The start is sound. -/
theorem sound_of_start {u : Setup} {now : Int64} {catalog : Catalog} {capacity : Nat}
    {m : Machine} (hStart : start u now catalog capacity = .ok m) : m.Sound := by
  obtain ⟨hDuties, -, -, -⟩ := duties_of_start hStart
  refine ⟨staffed_of_start hStart, fun d hd => ?_⟩
  rw [hDuties] at hd
  exact absurd hd (Multiset.notMem_zero d)

end Machine

end Taskyard
