import Taskyard.Proofs.Scheduler.Ledger

/-!
# Scheduler — what is told of tasks

A task is told of by snapshots, and not every change of its record is followed by one at once: a
reference that is taken and a log that is appended are told of with the next change. Whoever makes
such a change still has a change to make that is told of, so the last snapshot of a task is behind
its record only while something is being done for it.

Main definitions and results:

* `Machine.mark?`, `Machine.reports` — the change of a task that a step makes, and the snapshot of
  the task that it hands over.
* `Machine.Act`, `Machine.step_act` — what a step does to records, and to the duties outside of the
  main queue.
* `Machine.Told`, `Told.step` — the last snapshot is the record, or will be followed by another one.
-/

namespace Taskyard

/-! ## Changes of a task -/

/-- The change that a deed makes, if it makes one. -/
def Deed.mark? : Deed → Option TaskStep
  | .mark s => some s
  | .queue _ _ => none

/-- The change of its task that the next step of an execution makes, if it makes one. -/
def Execution.mark? (u : Setup) (f : Floor) (e : Execution) : Option TaskStep :=
  match e.phase with
  | .fresh => (f.tasks[e.runnable.task]?).bind fun t =>
    match u.registry.create e.runnable.action.id with
    | .ok h =>
      match h.prepare t.job e.runnable.action with
      | .ready _ => some .setRunning
      | _ => none
    | .error _ => none
  | .running (.report progress _) => some (.setProgress progress)
  | .doing (d :: _) => d.mark?
  | _ => none

/-- The change that an errand is about to make, with the number of the task. -/
def Errand.mark? (e : Errand) : Option (Nat × TaskStep) :=
  (e.deeds.head?.bind Deed.mark?).map (e.task, ·)

/-- The floor after a change of a task, if there is one. -/
def Floor.marked (f : Floor) (i : Nat) (x : Option TaskStep) : Floor := x.elim f (f.mark i)

namespace Machine

/-- The change of a task that a step makes, if it makes one, with the number of the task. A new task
starts as it is. -/
def mark? (u : Setup) (m : Machine) : MachineStep → Option (Nat × TaskStep)
  | .listen c => (m.ears.get c).errand?.bind Errand.mark?
  | .route => m.router.errand?.bind Errand.mark?
  | .call n => (m.callers[n]?).bind Errand.mark?
  | .work n w => ((m.benches[n]?).bind (·.execution? w)).bind fun e =>
    (e.mark? u m.floor).map (e.runnable.task, ·)
  | _ => none

/-- The snapshot of a task that a step hands over, if it hands over one. -/
def reports (u : Setup) (i : Nat) (m : Machine) (s : MachineStep) : List Task :=
  match m.mark? u s, m.floor.tasks[i]? with
  | some (k, x), some t =>
    if k = i ∧ x.persists t.record = true then [x.apply m.floor.now t.record] else []
  | _, _ => []

/-- The duties that are not in the main queue. -/
def outside (m : Machine) : Multiset Duty :=
  (m.benches.map Dispatcher.duties).sum + m.ears.duties + m.router.duties +
    (m.callers.map Errand.duties).sum

/-- What is to be done is what is queued and what is outside the queue. -/
theorem duties_eq (m : Machine) : m.duties = queueDuties m.floor.main + m.outside := by
  simp only [duties, outside, add_assoc]

end Machine

/-! ## Candid deeds -/

/-- Whether a change is told of, whatever the task. -/
def TaskStep.isLoud : TaskStep → Bool
  | .release | .setStatus _ _ | .flush => true
  | .retain | .appendLog _ | .setProgress _ => false

theorem TaskStep.persists_of_isLoud {s : TaskStep} (h : s.isLoud = true) (t : Task) :
    s.persists t = true := by
  cases s with
  | release | setStatus | flush => rfl
  | retain | appendLog | setProgress => exact absurd h (by simp [TaskStep.isLoud])

namespace Deed

/-- A deed that is told of. -/
def isLoud : Deed → Bool
  | .mark s => s.isLoud
  | .queue _ _ => false

/-- A change of a task that need not be told of. -/
def isQuiet : Deed → Bool
  | .mark s => !s.isLoud
  | .queue _ _ => false

/-- Deeds that leave nothing untold: a quiet one is followed by one that is told of. -/
def Candid : List Deed → Prop
  | [] => True
  | d :: ds => (d.isQuiet = true → ds.any isLoud = true) ∧ Candid ds

section Candid

variable {ds ds' : List Deed}

/-- Without a quiet mark there is nothing to be told. -/
theorem candid_of_none (h : ds.any isQuiet = false) : Candid ds := by
  induction ds with
  | nil => trivial
  | cons d ds ih =>
    rw [List.any_cons, Bool.or_eq_false_iff] at h
    refine ⟨fun hQuiet => ?_, ih h.2⟩
    rw [h.1] at hQuiet
    exact absurd hQuiet (by simp)

/-- Deeds that are told of at the end are enough for everything before them. -/
theorem candid_append_of_any (hLast : ds'.any isLoud = true) (h : Candid ds') :
    Candid (ds ++ ds') := by
  induction ds with
  | nil => exact h
  | cons d ds ih =>
    rw [List.cons_append]
    exact ⟨fun _ => by rw [List.any_append, hLast, Bool.or_true], ih⟩

/-- Deeds in front that keep nothing quiet change nothing. -/
theorem candid_append (hNone : ds.any isQuiet = false) (h : Candid ds') : Candid (ds ++ ds') := by
  induction ds with
  | nil => exact h
  | cons d ds ih =>
    rw [List.any_cons, Bool.or_eq_false_iff] at hNone
    refine ⟨fun hQuiet => ?_, ih hNone.2⟩
    rw [hNone.1] at hQuiet
    exact absurd hQuiet (by simp)

end Candid

end Deed

open Deed

namespace Runnable

/-- A fault is told of. -/
theorem candid_afterFault (r : Runnable) (now : Int64) (reason : String) :
    Candid (r.afterFault now reason) := candid_append_of_any rfl (candid_of_none rfl)

theorem candid_afterCrash (r : Runnable) (reason : String) : Candid (r.afterCrash reason) :=
  candid_of_none rfl

theorem candid_afterOutput (r : Runnable) (b : Backend) (buffer : Nat) (output : Message) :
    Candid (r.afterOutput b buffer output) := by
  unfold afterOutput
  split
  · exact ⟨fun _ => rfl, candid_of_none rfl⟩
  -- the last snapshot tells of all that came before
  · rw [← List.cons_append]
    exact candid_append_of_any rfl (candid_of_none rfl)

end Runnable

/-- The roots of a task are followed by a mark that is told. -/
theorem tells_rootDeeds (b : Backend) (buffer : Nat) (root : Message) (actions : List Action) :
    (rootDeeds b buffer root actions).any isLoud = true := by
  unfold rootDeeds
  generalize rootFailures b buffer root actions = failures
  generalize rootInputs b buffer root actions = inputs
  cases inputs with
  | cons input inputs => simp [isLoud, TaskStep.isLoud]
  | nil =>
    cases failures with
    | nil => rfl
    | cons reason rest => simp [isLoud, TaskStep.isLoud, TaskStep.fail]

theorem candid_rootDeeds (b : Backend) (buffer : Nat) (root : Message) (actions : List Action) :
    Candid (rootDeeds b buffer root actions) := by
  unfold rootDeeds
  generalize rootFailures b buffer root actions = failures
  generalize rootInputs b buffer root actions = inputs
  refine candid_append (by simp [isQuiet, TaskStep.isLoud, TaskStep.fail]) ?_
  cases inputs with
  | nil => cases failures <;> exact candid_of_none rfl
  -- all references come before the snapshot, and that before the runnables
  | cons input inputs =>
    refine candid_append_of_any rfl (candid_of_none ?_)
    simp [isQuiet, TaskStep.isLoud]

/-! ## Turns outside of the main queue -/

namespace Duty

/-- A duty that leaves nothing untold. -/
def Candid (d : Duty) : Prop := ∀ ds, d.deeds = some ds → Deed.Candid ds

/-- A duty that will tell of its task: it has not come to deeds, or one of them is told of. -/
def Tells (d : Duty) : Prop := ∀ ds, d.deeds = some ds → ds.any isLoud = true

theorem deeds_of_mem_ofDeeds {d : Duty} {i : Nat} {ds : List Deed} (h : d ∈ ofDeeds i ds) :
    d.deeds = some ds := by
  rw [(mem_ofDeeds.mp h).2, deeds]

theorem deeds_of_mem_resume {d d' : Duty} {ds : List Deed} (h : d' ∈ d.resume ds) :
    d'.deeds = some ds := by
  cases d with
  | waiting r => exact absurd h (Multiset.notMem_zero d')
  | running e => rw [Multiset.mem_singleton.mp h, deeds]
  | errand i _ => exact deeds_of_mem_ofDeeds h

theorem exists_mem_ofDeeds (i : Nat) {ds : List Deed} (h : ds.any isLoud = true) :
    ∃ d ∈ ofDeeds i ds, d.task = i ∧ d.Tells := by
  have hSome : ds ≠ [] := by
    rintro rfl
    exact absurd h (by simp)
  refine ⟨.errand i ds, mem_ofDeeds.mpr ⟨hSome, rfl⟩, rfl, fun ds' hDeeds => ?_⟩
  rw [← Option.some.inj hDeeds]
  exact h

/-- Deeds that tell keep the duty that they are left of. -/
theorem exists_mem_resume {d : Duty} {ds ds₀ : List Deed} (hDeeds : d.deeds = some ds₀)
    (h : ds.any isLoud = true) : ∃ d' ∈ d.resume ds, d'.task = d.task ∧ d'.Tells := by
  cases d with
  | waiting r => exact absurd hDeeds (by simp [deeds])
  | running e =>
    refine ⟨_, Multiset.mem_singleton_self _, rfl, fun ds' hDeeds' => ?_⟩
    rw [← Option.some.inj hDeeds']
    exact h
  | errand i _ => exact exists_mem_ofDeeds i h

end Duty

/-- A turn at a duty for a live task: the change of the task, and what is put back outside of the
main queue. -/
inductive Deal (u : Setup) (t : LiveTask) : Duty → Option TaskStep → Multiset Duty → Prop
  | pick (r : Runnable) : Deal u t (.waiting r) none {.running { runnable := r }}
  | advance (e : Execution) {x : Option TaskStep} {p : Phase}
      (hNext : Phase.Next u t.job t.record.id e.runnable e.phase x p) :
      Deal u t (.running e) x {.running { e with phase := p }}
  | ended (e : Execution) (hOver : e.phase = .doing []) : Deal u t (.running e) none 0
  | deed (d : Duty) {x : Deed} {rest : List Deed} (hDeeds : d.deeds = some (x :: rest)) :
      Deal u t d x.mark? (d.resume rest)
  | refuse (d : Duty) {action : Action} {input : Message} {rest : List Deed}
      (hDeeds : d.deeds = some (.queue action input :: rest)) :
      Deal u t d none (d.resume (Deed.refused ++ rest))

namespace Deal

variable {u : Setup} {t : LiveTask} {d : Duty} {x : Option TaskStep} {new : Multiset Duty}

/-- An execution that goes on by itself comes to candid deeds, if to any, and tells of them. -/
theorem next_candid {j : Job} {taskId : String} {r : Runnable} {p p' : Phase}
    (h : Phase.Next u j taskId r p x p') :
    (Duty.running ⟨r, p'⟩).Candid ∧ (Duty.running ⟨r, p'⟩).Tells := by
  have hDeeds : ∀ ds, Deed.Candid ds → ds.any isLoud = true →
      (Duty.running ⟨r, .doing ds⟩).Candid ∧ (Duty.running ⟨r, .doing ds⟩).Tells := by
    rintro ds hCandid hLoud
    exact ⟨fun ds' h => Option.some.inj h ▸ hCandid, fun ds' h => Option.some.inj h ▸ hLoud⟩
  have hLast : ∀ {ds}, Runnable.Ends ds → ds.any isLoud = true := by
    rintro ds ⟨-, -, before, rfl⟩
    simp [isLoud, TaskStep.isLoud]
  -- what is done after a run ends with the release of the task
  cases h with
  | unknown now | refused now | refuse _ now | crash _ now =>
    exact hDeeds _ (Runnable.candid_afterFault r now _) (hLast (Runnable.ends_afterFault r now _))
  | finish result now =>
    exact hDeeds _ (Runnable.candid_afterOutput r _ _ _) (hLast (Runnable.ends_afterOutput r _ _ _))
  | notice reason =>
    exact hDeeds _ (Runnable.candid_afterCrash r reason) (hLast (Runnable.ends_afterCrash r reason))
  | ready | report | crashed | wait | sleep | wake | prune =>
    exact ⟨fun ds h => absurd h (by simp [Duty.deeds]), fun ds h => absurd h (by simp [Duty.deeds])⟩

/-- A deal leaves what is candid candid. -/
theorem candid (h : Deal u t d x new) (hd : d.Candid) : ∀ d' ∈ new, d'.Candid := by
  intro d' hd'
  cases h with
  | pick r =>
    rw [Multiset.mem_singleton.mp hd']
    exact fun ds h => absurd h (by simp [Duty.deeds])
  | advance e hNext =>
    rw [Multiset.mem_singleton.mp hd']
    exact (next_candid hNext).1
  | ended => exact absurd hd' (Multiset.notMem_zero d')
  -- the first deed is done; the others were candid behind it
  | deed d hDeeds =>
    intro ds h
    rw [Duty.deeds_of_mem_resume hd'] at h
    exact Option.some.inj h ▸ (hd _ hDeeds).2
  -- a refusal interrupts and releases, which is told
  | refuse d hDeeds =>
    intro ds h
    rw [Duty.deeds_of_mem_resume hd'] at h
    exact Option.some.inj h ▸ candid_append rfl (hd _ hDeeds).2

/-- **A duty that has something to tell** keeps it to tell, unless the turn tells of the task. -/
theorem tells (h : Deal u t d x new) (hd : d.Candid)
    (hQuiet : (x = none ∧ d.Tells) ∨ ∃ s, x = some s ∧ s.isLoud = false) :
    ∃ d' ∈ new, d'.task = d.task ∧ d'.Tells := by
  cases h with
  | pick r =>
    exact ⟨_, Multiset.mem_singleton_self _, rfl, fun ds h => absurd h (by simp [Duty.deeds])⟩
  | advance e hNext => exact ⟨_, Multiset.mem_singleton_self _, rfl, (next_candid hNext).2⟩
  | ended e hOver =>
    rcases hQuiet with ⟨-, hTells⟩ | ⟨s, hNone, -⟩
    · exact absurd (hTells [] (by simp [Duty.deeds, hOver])) (by simp)
    · exact absurd hNone (by simp)
  | @deed d y rest hDeeds =>
    refine Duty.exists_mem_resume hDeeds ?_
    cases y with
    -- a change that is not told of is followed by one that is
    | mark s =>
      rcases hQuiet with ⟨hNone, -⟩ | ⟨s', hSome, hSilent⟩
      · exact absurd hNone (by simp [Deed.mark?])
      · obtain rfl : s = s' := Option.some.inj hSome
        exact (hd _ hDeeds).1 (by simp [isQuiet, hSilent])
    | queue action input =>
      rcases hQuiet with ⟨-, hTells⟩ | ⟨s', hSome, -⟩
      · simpa [isLoud] using hTells _ hDeeds
      · exact absurd hSome (by simp [Deed.mark?])
  | refuse d hDeeds => exact Duty.exists_mem_resume hDeeds rfl

end Deal

/-! ## What a step does -/

/-- What a change of a task does to the floor, as far as tasks, snapshots and a closed main queue
go. -/
structure Floor.Records (f : Floor) (i : Nat) (x : Option TaskStep) (f' : Floor) : Prop where
  tasks  : f'.tasks = (f.marked i x).tasks
  writer : f'.writer = (f.marked i x).writer
  main   : f.accepting = false → f'.main = f.main

namespace Floor

variable {f f' : Floor} {i : Nat}

theorem records_refl (f : Floor) (i : Nat) : f.Records i none f := ⟨rfl, rfl, fun _ => rfl⟩

/-- A mark is what it records. -/
theorem records_mark (f : Floor) (i : Nat) (s : TaskStep) : f.Records i (some s) (f.mark i s) := by
  obtain ⟨tasks, writer, hMark⟩ := f.exists_mark i s
  exact ⟨rfl, rfl, fun _ => by rw [hMark]⟩

/-- A deed changes the task, queues a runnable, or is refused. -/
theorem records_perform {d : Duty} {x : Deed} {rest more : List Deed} (u : Setup) (t : LiveTask)
    (hDeeds : d.deeds = some (x :: rest)) (hPerform : f.perform d.task x = (f', more)) :
    f.Records d.task x.mark? f' ∧ Deal u t d x.mark? (d.resume (more ++ rest)) := by
  cases x with
  | mark s =>
    obtain ⟨rfl, rfl⟩ := Prod.mk.inj hPerform
    exact ⟨records_mark f d.task s, .deed d hDeeds⟩
  | queue action input =>
    -- a queue that is closed turns the runnable into deeds, which is another deal
    cases hOpen : f.accepting with
    | true =>
      simp only [perform, hOpen, if_true] at hPerform
      obtain ⟨rfl, rfl⟩ := Prod.mk.inj hPerform
      refine ⟨⟨rfl, rfl, fun hClosed => ?_⟩, .deed d hDeeds⟩
      rw [hOpen] at hClosed
      exact absurd hClosed (by simp)
    | false =>
      simp only [perform, hOpen, Bool.false_eq_true, if_false] at hPerform
      obtain ⟨rfl, rfl⟩ := Prod.mk.inj hPerform
      exact ⟨records_refl f d.task, .refuse d hDeeds⟩

end Floor

namespace Execution

variable {u : Setup} {f f' : Floor} {e : Execution} {next : Option Execution} {t : LiveTask}

/-- The mark of an execution's next step, by the phase it is in. -/
theorem mark?_of_next {r : Runnable} {p p' : Phase} {x : Option TaskStep}
    (ht : f.tasks[r.task]? = some t) (h : Phase.Next u t.job t.record.id r p x p') :
    mark? u f ⟨r, p⟩ = x := by
  cases h with
  | unknown _ hCreate => simp only [mark?, ht, Option.bind_some, hCreate]
  | refused _ hCreate hPrepare | crashed hCreate hPrepare | ready hCreate hPrepare =>
    simp only [mark?, ht, Option.bind_some, hCreate, hPrepare]
  | finish | refuse | crash | report | wait | sleep | wake | prune | notice => rfl

/-- An execution that goes on by itself makes the change that this comes with, and no other. -/
theorem records_of_next {r : Runnable} {p p' : Phase} {x : Option TaskStep}
    (ht : f.tasks[r.task]? = some t) (hNext : Phase.Next u t.job t.record.id r p x p')
    (hStep : step u f ⟨r, p⟩ = some (f', next)) : f.Records r.task x f' := by
  cases hNext with
  | unknown _ hCreate =>
    simp only [step, ht, Option.map_some, begin, hCreate] at hStep
    obtain ⟨rfl, -⟩ := Prod.mk.inj (Option.some.inj hStep)
    exact Floor.records_refl f _
  | refused _ hCreate hPrepare | crashed hCreate hPrepare =>
    simp only [step, ht, Option.map_some, begin, hCreate, hPrepare] at hStep
    obtain ⟨rfl, -⟩ := Prod.mk.inj (Option.some.inj hStep)
    exact Floor.records_refl f _
  | ready hCreate hPrepare =>
    simp only [step, ht, Option.map_some, begin, hCreate, hPrepare] at hStep
    obtain ⟨rfl, -⟩ := Prod.mk.inj (Option.some.inj hStep)
    exact Floor.records_mark f _ _
  | finish | refuse | crash | wait | sleep | notice =>
    obtain ⟨rfl, -⟩ := Prod.mk.inj (Option.some.inj hStep)
    exact Floor.records_refl f _
  | report =>
    obtain ⟨rfl, -⟩ := Prod.mk.inj (Option.some.inj hStep)
    exact Floor.records_mark f _ _
  | wake due script =>
    simp only [step] at hStep
    split at hStep
    · obtain ⟨rfl, -⟩ := Prod.mk.inj (Option.some.inj hStep)
      exact Floor.records_refl f _
    · exact absurd hStep (by simp)
  -- a deletion touches the catalog, and no task that the floor has
  | prune deletion script =>
    simp only [step, proceed] at hStep
    split at hStep
    · next catalog ids told _ =>
      obtain ⟨rfl, -⟩ := Prod.mk.inj (Option.some.inj hStep)
      obtain ⟨hTasks, hMain, -, hWriter⟩ := telling_eq { f with catalog } told
      exact ⟨hTasks, hWriter, fun _ => hMain⟩
    · obtain ⟨rfl, -⟩ := Prod.mk.inj (Option.some.inj hStep)
      exact Floor.records_refl f _

/-- **A step of an execution** makes the change that it is about to make, in a turn at the
execution. -/
theorem records_step (ht : f.tasks[e.runnable.task]? = some t)
    (hStep : e.step u f = some (f', next)) :
    f.Records e.runnable.task (e.mark? u f) f' ∧
      Deal u t (.running e) (e.mark? u f) (next.elim 0 fun e' => {.running e'}) := by
  obtain ⟨r, phase⟩ := e
  have hCases := step_cases ht hStep
  rcases hCases with ⟨rfl, rfl, rfl⟩ | ⟨x, rest, more, rfl, hPerform, rfl⟩ |
    ⟨now, x, p, hNext, rfl, -⟩
  · exact ⟨Floor.records_refl f' _, .ended _ rfl⟩
  · have hDeeds : (Duty.running ⟨r, .doing (x :: rest)⟩).deeds = some (x :: rest) := rfl
    exact Floor.records_perform u t hDeeds hPerform
  · rw [mark?_of_next ht hNext]
    exact ⟨records_of_next ht hNext hStep, .advance ⟨r, phase⟩ hNext⟩

end Execution

namespace Machine

/-- What a step does to records and to the duties outside of the main queue: it leaves them but for
a runnable that the router takes out, it starts a task, or it takes a turn at one of the duties. -/
inductive Act (u : Setup) (m : Machine) (s : MachineStep) (m' : Machine) : Prop
  | pass {gained : Multiset Duty} (hMark : m.mark? u s = none)
      (hTasks : m'.floor.tasks = m.floor.tasks)
      (hWriter : (∃ w, s = .write w) ∨ m'.floor.writer = m.floor.writer)
      (hMain : m'.floor.main <:+ m.floor.main) (hOutside : m'.outside = gained + m.outside)
      (hGained : ∀ d ∈ gained, d.Candid)
  | start {t : LiveTask} {gained : Multiset Duty} (hMark : m.mark? u s = none)
      (hTasks : m'.floor.tasks = m.floor.tasks ++ [t]) (hWriter : m'.floor.writer = m.floor.writer)
      (hMain : m'.floor.main = m.floor.main) (hOutside : m'.outside = gained + m.outside)
      (hGained : Birth u m.floor.tasks.length (m.starts s) t gained)
  | turn {d : Duty} {t : LiveTask} {x : Option TaskStep} {old new : Multiset Duty}
      (ht : m.floor.tasks[d.task]? = some t) (hMark : m.mark? u s = x.map (d.task, ·))
      (hRecords : m.floor.Records d.task x m'.floor) (hDeal : Deal u t d x new)
      (hOutside : m.outside = d ::ₘ old) (hOutside' : m'.outside = new + old)

variable {u : Setup} {m m' : Machine} {s : MachineStep}

/-- What is not in the main queue is what duties there are besides. -/
theorem outside_eq {gained : Multiset Duty} (hDuties : m'.duties = gained + m.duties)
    (hMain : m'.floor.main = m.floor.main) : m'.outside = gained + m.outside := by
  rw [duties_eq, duties_eq, hMain, add_left_comm] at hDuties
  exact add_left_cancel hDuties

/-- A duty outside of the main queue is for a task that there is. -/
theorem Sound.exists_task_outside (h : m.Sound) {d : Duty} {old : Multiset Duty}
    (hOutside : m.outside = d ::ₘ old) : ∃ t, m.floor.tasks[d.task]? = some t := by
  have hDuties : m.duties = d ::ₘ (queueDuties m.floor.main + old) := by
    rw [duties_eq, hOutside, Multiset.add_cons]
  exact h.exists_task hDuties

/-- A step that leaves the tasks and the duties is an act. -/
theorem act_of_keeps (hMark : m.mark? u s = none) (hFloor : m'.floor = m.floor)
    (hDuties : m'.duties = m.duties) : Act u m s m' := by
  have hOutside : m'.outside = 0 + m.outside := by
    refine outside_eq ?_ (by rw [hFloor])
    rw [zero_add, hDuties]
  refine .pass hMark (by rw [hFloor]) (.inr (by rw [hFloor])) ?_ hOutside fun d hd => ?_
  · rw [hFloor]
  · exact absurd hd (Multiset.notMem_zero d)

/-- A floor of which only the catalog, the clocks and the writer may differ. -/
theorem act_of_floor {f : Floor} (hMark : m.mark? u s = none) (hTasks : f.tasks = m.floor.tasks)
    (hMain : f.main = m.floor.main)
    (hWriter : (∃ w, s = .write w) ∨ f.writer = m.floor.writer) : Act u m s (m.onFloor f) :=
  .pass hMark hTasks hWriter (hMain ▸ List.suffix_rfl) (zero_add _).symm
    fun d hd => absurd hd (Multiset.notMem_zero d)

/-- A step of an errand is a turn at its deeds, or starts a task. -/
theorem act_of_runErrand {e e' : Errand} {f : Floor} (others : Multiset Duty) (hSound : m.Sound)
    (hMark : m.mark? u s = e.mark?) (hStarts : m.starts s = e.starts)
    (hOutside : m.outside = e.duties + others) (hRun : runErrand u m.floor e = some (f, e'))
    (hFloor : m'.floor = f) (hOutside' : m'.outside = e'.duties + others) : Act u m s m' := by
  obtain ⟨i, deeds, launches⟩ := e
  subst hFloor
  -- deeds come first, and only without any the next task is started
  cases deeds with
  | cons x rest =>
    rcases hPerform : m.floor.perform i x with ⟨f₁, more⟩
    simp only [runErrand, hPerform] at hRun
    obtain ⟨rfl, rfl⟩ := Prod.mk.inj (Option.some.inj hRun)
    have hDeeds : (Duty.errand i (x :: rest)).deeds = some (x :: rest) := rfl
    have hHead : m.outside = .errand i (x :: rest) ::ₘ others := hOutside
    obtain ⟨t, ht⟩ := hSound.exists_task_outside hHead
    obtain ⟨hRecords, hDeal⟩ := Floor.records_perform u t hDeeds hPerform
    exact .turn ht hMark hRecords hDeal hHead hOutside'
  | nil =>
    cases launches with
    | nil => exact absurd hRun (by simp [runErrand])
    | cons l launches =>
      obtain ⟨j, ev⟩ := l
      simp only [runErrand, Machine.begin] at hRun
      obtain ⟨hAdded, rfl⟩ := Prod.mk.inj (Option.some.inj hRun)
      have hBirth : Birth u m.floor.tasks.length (m.starts s)
          { job := j, record := j.freshTask (u.taskId m.floor.tasks.length) }
          (Duty.ofDeeds m.floor.tasks.length
            (rootDeeds u.site.backend u.selectionBuffer (.ofEvent ev) j.actions)) := by
        rw [hStarts]
        exact .launched j ev rfl rfl
      refine .start hMark ?_ ?_ ?_ ?_ hBirth
      · rw [← hAdded]
        rfl
      · rw [← hAdded]
        rfl
      · rw [← hAdded]
        rfl
      · rw [hOutside', hOutside]
        simp only [Errand.duties, Duty.ofDeeds, zero_add]

theorem mark?_of_runErrand {f : Floor} {e : Errand} (h : runErrand u f e = none) :
    e.mark? = none := by
  obtain ⟨i, deeds, launches⟩ := e
  cases deeds with
  | nil => rfl
  | cons => exact absurd h (by simp [runErrand])

/-- What a listener does is an act: it carries out the first deed of its errand, if any. -/
theorem act_listen {c : Channel} (hSound : m.Sound) (hStep : m.listen u c = some m') :
    Act u m (.listen c) m' := by
  have hMark : m.mark? u (.listen c) = (m.ears.get c).errand?.bind Errand.mark? := rfl
  rcases listen_cases hStep with ⟨e, f, e', hEar, hRun, rfl⟩ | ⟨hDone, hFloor, hDuties⟩
  · obtain ⟨rest, hOld, hNew⟩ := exists_ears_rest m.ears c
    rw [hEar] at hMark
    refine act_of_runErrand ((m.benches.map Dispatcher.duties).sum + rest + m.router.duties +
      (m.callers.map Errand.duties).sum) hSound hMark (by simp only [starts, hEar]) ?_ hRun rfl ?_
    · simp only [outside, hOld, hEar, Ear.duties]
      abel
    · simp only [outside, setEar, onFloor, hNew, Ear.duties]
      abel
  · refine act_of_keeps (hMark.trans ?_) hFloor hDuties
    -- a listener that is not busy has no errand, and one that is done marks nothing
    cases hEar : m.ears.get c with
    | busy e => exact mark?_of_runErrand (hDone e hEar)
    | listening | seeking | fetching | loading | deaf => rfl

theorem act_stepRouter (hSound : m.Sound) (hStep : m.stepRouter u = some m') :
    Act u m .route m' := by
  rcases stepRouter_cases hStep with ⟨r, rest, m₁, deeds, hWaiting, hMain, hRoute, rfl⟩ |
    ⟨e, hBusy, hErrand⟩
  · have hMark : m.mark? u .route = none := by
      simp only [mark?, hWaiting, Router.errand?, Option.bind_none]
    have hTaken : (m.onFloor { m.floor with main := rest }).Staffed := hSound.staffed.of_eq rfl rfl
    have hShorter : rest <:+ m.floor.main := hMain ▸ List.suffix_cons r rest
    -- the runnable comes out of the main queue, to a dispatcher or to be turned away
    rcases hTaken.route_duties u r hRoute with ⟨rfl, rfl, -⟩ | ⟨rfl, hDuties, hFloor, -⟩
    · have hAway : ∀ d ∈ Duty.ofDeeds r.task (turnAway "job removed"), d.Candid := by
        intro d hd ds hDeeds
        rw [Duty.deeds_of_mem_ofDeeds hd] at hDeeds
        exact Option.some.inj hDeeds ▸ candid_of_none rfl
      refine .pass hMark rfl (.inr rfl) hShorter ?_ hAway
      simp only [outside, onFloor, turnAway, List.isEmpty_cons, Bool.false_eq_true, if_false,
        Router.duties, Errand.duties, hWaiting]
      abel
    · rw [List.isEmpty_nil, if_pos rfl]
      have hOutside : m₁.outside =
          {.waiting r} + (m.onFloor { m.floor with main := rest }).outside :=
        outside_eq (by rw [hDuties, Multiset.singleton_add]) (by rw [hFloor])
      refine .pass hMark (by rw [hFloor]; rfl) (.inr (by rw [hFloor]; rfl)) ?_ hOutside
        fun d hd ds hDeeds => ?_
      · rw [hFloor]
        exact hShorter
      · rw [Multiset.mem_singleton.mp hd] at hDeeds
        exact absurd hDeeds (by simp [Duty.deeds])
  · have hMark : m.mark? u .route = e.mark? := by
      simp only [mark?, hBusy, Router.errand?, Option.bind_some]
    rcases hErrand with ⟨f, e', hRun, rfl⟩ | ⟨hDone, rfl⟩
    · refine act_of_runErrand ((m.benches.map Dispatcher.duties).sum + m.ears.duties +
        (m.callers.map Errand.duties).sum) hSound hMark (by simp only [starts, hBusy]) ?_ hRun rfl ?_
      · simp only [outside, hBusy, Router.duties]
        abel
      · simp only [outside, onFloor, Router.duties]
        abel
    · obtain ⟨hNothing, -⟩ := runErrand_eq_none hDone
      refine act_of_keeps (hMark.trans (mark?_of_runErrand hDone)) rfl ?_
      simp only [duties, hBusy, Router.duties, hNothing]

theorem act_submit {j : Job} {a : Action} {input : Message} (hSound : m.Sound) :
    Act u m (.submit j a input) (m.submit u j a input) := by
  let t := submittedTask u m.floor.tasks.length j
  let m₀ : Machine := m.onFloor { m.floor with tasks := m.floor.tasks ++ [t] }
  let r : Runnable := { action := a, task := m.floor.tasks.length, input }
  have hAdded : m.onFloor ((m.floor.addTask u j (.aside [])).mark m.floor.tasks.length .retain) =
      m₀ := congrArg m.onFloor (mark_addTask m.floor j)
  have hStaffed : m₀.Staffed := hSound.staffed.of_eq rfl rfl
  rcases hRoute : m₀.route u r with ⟨m₁, deeds⟩
  rw [← hAdded] at hRoute
  rw [submit_eq hRoute]
  rw [hAdded] at hRoute
  -- the runnable is turned away, or waits at the dispatcher of its job
  rcases hStaffed.route_duties u r hRoute with ⟨rfl, rfl, -⟩ | ⟨rfl, hDuties, hFloor, -⟩
  · refine .start (t := t) rfl rfl rfl rfl ?_ (.declined j rfl)
    simp only [turnAway, List.isEmpty_cons, Bool.false_eq_true, if_false, outside, sum_map_concat]
    simp only [m₀, onFloor, Errand.duties]
    abel
  · rw [List.isEmpty_nil, if_pos rfl]
    have hOutside : m₁.outside = {.waiting r} + m₀.outside :=
      outside_eq (by rw [hDuties, Multiset.singleton_add]) (by rw [hFloor])
    refine .start (t := t) rfl ?_ ?_ ?_ hOutside (.submitted j r rfl rfl)
    · rw [hFloor]
      rfl
    · rw [hFloor]
      rfl
    · rw [hFloor]
      rfl

theorem act_call {n : Nat} (hSound : m.Sound) (hStep : m.call u n = some m') :
    Act u m (.call n) m' := by
  obtain ⟨e, hCaller, hCases⟩ := call_cases hStep
  obtain ⟨rest, hOld, hSet, hErase⟩ := exists_sum_rest Errand.duties hCaller
  have hMark : m.mark? u (.call n) = e.mark? := by simp only [mark?, hCaller, Option.bind_some]
  have hStarts : m.starts (.call n) = e.starts := by simp only [starts, hCaller, Option.bind_some]
  -- the caller has something left to do, or it is gone
  rcases hCases with ⟨f, e', hRun, rfl⟩ | ⟨hDone, rfl⟩
  · refine act_of_runErrand ((m.benches.map Dispatcher.duties).sum + m.ears.duties +
      m.router.duties + rest) hSound hMark hStarts ?_ hRun rfl ?_
    · simp only [outside, hOld]
      abel
    · simp only [outside, onFloor, hSet]
      abel
  · obtain ⟨hNothing, -⟩ := runErrand_eq_none hDone
    refine act_of_keeps (hMark.trans (mark?_of_runErrand hDone)) rfl ?_
    simp only [duties, hErase, hOld, hNothing, zero_add]

theorem act_stepBench {n : Nat} {s : DispatcherStep} (hSound : m.Sound)
    (hStep : m.stepBench n s = some m') : Act u m (.dispatch n s) m' := by
  obtain ⟨b, b', hb, hStepped, rfl, -⟩ := hSound.staffed.stepBench hStep
  obtain ⟨rest, hOld, hSet, -⟩ := exists_sum_rest Dispatcher.duties hb
  rcases hStepped.duties_eq with ⟨-, hSame⟩ | ⟨r, others, -, hb₁, hb₂⟩
  · refine act_of_keeps rfl rfl ?_
    simp only [duties, hSet, hSame, hOld]
  · have hOutside : m.outside = .waiting r ::ₘ (others + rest + m.ears.duties + m.router.duties +
        (m.callers.map Errand.duties).sum) := by
      simp only [outside, hOld, hb₁, Multiset.cons_add]
    obtain ⟨t, ht⟩ := hSound.exists_task_outside hOutside
    refine .turn ht rfl (Floor.records_refl m.floor _) (.pick r) hOutside ?_
    simp only [outside, hSet, hb₂, Multiset.cons_add, Multiset.singleton_add]

theorem act_work {n w : Nat} (hSound : m.Sound) (hStep : m.work u n w = some m') :
    Act u m (.work n w) m' := by
  obtain ⟨b, e, f, after, hb, he, hMoved, rfl⟩ := work_cases hStep
  obtain ⟨rest, hOld, hSet, -⟩ := exists_sum_rest Dispatcher.duties hb
  obtain ⟨others, hb₁, hOver, hOn⟩ := Dispatcher.exists_carry_rest he
  have hMark : m.mark? u (.work n w) = (e.mark? u m.floor).map (e.runnable.task, ·) := by
    simp only [mark?, hb, Option.bind_some, he]
  have hOutside : m.outside = .running e ::ₘ (others + rest + m.ears.duties + m.router.duties +
      (m.callers.map Errand.duties).sum) := by
    simp only [outside, hOld, hb₁, Multiset.cons_add]
  obtain ⟨t, ht⟩ := hSound.exists_task_outside hOutside
  obtain ⟨hRecords, hDeal⟩ := Execution.records_step ht hMoved
  refine .turn ht hMark hRecords hDeal hOutside ?_
  -- the execution is over, or it is put back
  cases after with
  | none => simp only [outside, onFloor, hSet, hOver, Option.elim_none, zero_add]
  | some e' =>
    simp only [outside, onFloor, hSet, hOn, Option.elim_some, Multiset.cons_add,
      Multiset.singleton_add]

/-- **Every step** passes, starts a task, or takes a turn at a duty outside of the main queue, where
it changes the task as it was about to. -/
theorem step_act (hSound : m.Sound) (hStep : m.step u s = some m') : Act u m s m' := by
  cases s with
  | time | store =>
    rw [← Option.some.inj hStep]
    exact act_of_floor rfl rfl rfl (.inr rfl)
  | saveJob | removeJob | saveTask =>
    rw [← Option.some.inj hStep]
    obtain ⟨hTasks, hMain, -, hWriter⟩ := Execution.telling_eq { m.floor with catalog := _ } _
    exact act_of_floor rfl hTasks hMain (.inr hWriter)
  | publish post =>
    rw [← Option.some.inj hStep]
    cases post with
    | node onAttributes _ => cases onAttributes <;> exact act_of_keeps rfl rfl rfl
    | trigger | job => exact act_of_keeps rfl rfl rfl
  | announce n =>
    obtain ⟨a, _, calls, -, -, rfl⟩ := announce_cases hStep
    obtain ⟨hDuties, hFloor⟩ := tell_keeps (m.onFloor { m.floor with calls }) a
    have hOutside := outside_eq (hDuties.trans (zero_add _).symm) (by rw [hFloor])
    refine .pass rfl (by rw [hFloor]; rfl) (.inr (by rw [hFloor]; rfl)) ?_ hOutside
      fun d hd => absurd hd (Multiset.notMem_zero d)
    rw [hFloor]
    exact List.suffix_rfl
  | launch j e =>
    rw [← Option.some.inj hStep]
    refine .start rfl rfl rfl rfl ?_ (.launched j e rfl rfl)
    simp only [launch, Machine.begin, onFloor, outside, sum_map_concat, Errand.duties]
    abel
  | submit j a input =>
    rw [← Option.some.inj hStep]
    exact act_submit hSound
  | call n => exact act_call hSound hStep
  | listen c => exact act_listen hSound hStep
  | route => exact act_stepRouter hSound hStep
  | dispatch n s => exact act_stepBench hSound hStep
  | work n w => exact act_work hSound hStep
  | write s =>
    obtain ⟨w, put, -, ⟨t, -, -, rfl⟩ | ⟨-, rfl⟩⟩ := write_cases hStep
    · obtain ⟨hTasks, hMain, -, -⟩ := Execution.telling_eq { m.floor with writer := _, catalog := _ } _
      exact act_of_floor rfl hTasks hMain (.inl ⟨_, rfl⟩)
    · exact act_of_floor rfl rfl rfl (.inl ⟨_, rfl⟩)
  | silence c =>
    obtain ⟨hCanEnd, rfl⟩ := silence_cases hStep
    have hDuties : (m.setEar c .deaf).duties = m.duties :=
      duties_setEar (by rw [duties_of_canEnd hCanEnd]; rfl)
    cases c <;> exact act_of_keeps rfl rfl hDuties
  -- what is thrown away was in the main queue
  | endRouter =>
    have hEnds := routerEnds hStep
    have hOutside : m'.outside = 0 + m.outside := by
      have hSplit := hEnds.duties
      rw [duties_eq, duties_eq, hEnds.floor, queueDuties_nil, zero_add] at hSplit
      rw [zero_add]
      exact (add_left_cancel hSplit).symm
    refine .pass rfl (by rw [hEnds.floor]) (.inr (by rw [hEnds.floor])) ?_ hOutside
      fun d hd => absurd hd (Multiset.notMem_zero d)
    rw [hEnds.floor]
    exact List.nil_suffix
  | stopDispatchers =>
    rw [← Option.some.inj hStep]
    obtain ⟨hDuties, hFloor⟩ := stopDispatchers_keeps m
    exact act_of_keeps rfl hFloor hDuties

/-! ## Snapshots -/

variable {i : Nat} {t : LiveTask}

/-- A mark reports the record it leaves, if that is to be persisted. -/
theorem reports_of_mark {x : TaskStep} (hMark : m.mark? u s = some (i, x))
    (ht : m.floor.tasks[i]? = some t) :
    m.reports u i s = if x.persists t.record = true then [x.apply m.floor.now t.record] else [] := by
  simp only [reports, hMark, ht, true_and]

/-- A step without a mark on a task reports nothing of it. -/
theorem reports_eq_nil (hMark : ∀ x, m.mark? u s ≠ some (i, x)) : m.reports u i s = [] := by
  unfold reports
  split
  · next k x t hSome _ =>
    rw [if_neg]
    rintro ⟨rfl, -⟩
    exact hMark x hSome
  · rfl

/-- The record of a task after a step: the step changes it as it was about to, or not at all. -/
theorem Act.record (h : Act u m s m') (ht : m.floor.tasks[i]? = some t) :
    ∃ t', m'.floor.tasks[i]? = some t' ∧
      ((∃ x, m.mark? u s = some (i, x) ∧ t'.record = x.apply m.floor.now t.record) ∨
        ((∀ x, m.mark? u s ≠ some (i, x)) ∧ t'.record = t.record)) := by
  have hLt : i < m.floor.tasks.length := (List.getElem?_eq_some_iff.mp ht).1
  have hNone : m.mark? u s = none → ∀ x, m.mark? u s ≠ some (i, x) := by
    intro hMark x hx
    rw [hMark] at hx
    exact absurd hx (by simp)
  -- only a turn changes a record, and that of its own task alone
  cases h with
  | pass hMark hTasks => exact ⟨t, by rw [hTasks, ht], Or.inr ⟨hNone hMark, rfl⟩⟩
  | start hMark hTasks =>
    refine ⟨t, ?_, Or.inr ⟨hNone hMark, rfl⟩⟩
    rw [hTasks, List.getElem?_append_left hLt, ht]
  | @turn d t₀ x old new ht₀ hMark hRecords =>
    cases x with
    | none => exact ⟨t, by rw [hRecords.tasks]; exact ht, Or.inr ⟨hNone hMark, rfl⟩⟩
    | some x =>
      obtain ⟨outlet, hTasks⟩ := (Floor.marks_mark ht₀ x).tasks
      have hAfter : m'.floor.tasks = _ := hRecords.tasks.trans hTasks
      rw [hAfter, List.getElem?_set]
      by_cases hTask : d.task = i
      · subst hTask
        obtain rfl : t₀ = t := Option.some.inj (ht₀.symm.trans ht)
        exact ⟨_, by rw [if_pos rfl, if_pos hLt], Or.inl ⟨x, hMark, rfl⟩⟩
      · refine ⟨t, by rw [if_neg hTask, ht], Or.inr ⟨fun y hy => ?_, rfl⟩⟩
        rw [hMark] at hy
        exact hTask (congrArg Prod.fst (Option.some.inj hy))

/-- **A snapshot is the record** of the task right after the step that hands it over. -/
theorem record_of_report (hSound : m.Sound) (hStep : m.step u s = some m') {x : Task}
    (hx : x ∈ m.reports u i s) :
    ∃ t', m'.floor.tasks[i]? = some t' ∧ t'.record = x := by
  have hx' := hx
  unfold reports at hx'
  split at hx'
  · next k y t hMark ht =>
    split at hx'
    · next hBoth =>
      -- a report is made of a change of the task itself, whose record it is
      obtain ⟨rfl, -⟩ := hBoth
      obtain ⟨t', ht', ⟨y', hMark', hRecord⟩ | ⟨hOther, -⟩⟩ := (step_act hSound hStep).record ht
      · obtain ⟨-, rfl⟩ := Prod.mk.inj (Option.some.inj (hMark.symm.trans hMark'))
        exact ⟨t', ht', hRecord.trans (List.mem_singleton.mp hx').symm⟩
      · exact absurd hMark (hOther y)
    · exact absurd hx' (by simp)
  · exact absurd hx' (by simp)

/-! ## The last snapshot -/

/-- What was told of a task so far: its last snapshot is the record, or something that is being done
for the task will tell of it. -/
structure Told (i : Nat) (said : List Task) (m : Machine) : Prop where
  sound   : m.Sound
  candid  : ∀ d ∈ m.outside, d.Candid
  current : ∀ t, m.floor.tasks[i]? = some t →
    said.getLast? = some t.record ∨ ∃ d ∈ m.outside, d.task = i ∧ d.Tells

/-- A new task comes with a duty that tells of it. -/
theorem Birth.candid {n : Nat} {started : Option (Job × Event)} {new : Multiset Duty}
    (h : Birth u n started t new) :
    (∀ d ∈ new, d.Candid) ∧ ∃ d ∈ new, d.task = n ∧ d.Tells := by
  have hDeeds : ∀ ds, Deed.Candid ds → ds.any isLoud = true →
      (∀ d ∈ Duty.ofDeeds n ds, d.Candid) ∧ ∃ d ∈ Duty.ofDeeds n ds, d.task = n ∧ d.Tells := by
    intro ds hCandid hLoud
    refine ⟨fun d hd ds' h => ?_, Duty.exists_mem_ofDeeds n hLoud⟩
    rw [Duty.deeds_of_mem_ofDeeds hd] at h
    exact Option.some.inj h ▸ hCandid
  -- launched, declined or submitted, the first of its deeds tells of it
  cases h with
  | launched j e => exact hDeeds _ (candid_rootDeeds _ _ _ _) (tells_rootDeeds _ _ _ _)
  | declined => exact hDeeds _ (candid_of_none rfl) rfl
  | submitted j r hTask =>
    refine ⟨fun d hd ds h => ?_, _, Multiset.mem_singleton_self _, hTask, fun ds h => ?_⟩
    · rw [Multiset.mem_singleton.mp hd] at h
      exact absurd h (by simp [Duty.deeds])
    · exact absurd h (by simp [Duty.deeds])

/-- Every act leaves the duties outside the queue candid. -/
theorem Act.candid (h : Act u m s m') (hCandid : ∀ d ∈ m.outside, d.Candid) :
    ∀ d ∈ m'.outside, d.Candid := by
  intro d hd
  -- what was there is candid still, so only what is new has to be looked at
  cases h with
  | pass _ _ _ _ hOutside hGained =>
    rw [hOutside] at hd
    exact (Multiset.mem_add.mp hd).elim (hGained d) (hCandid d)
  | start _ _ _ _ hOutside hGained =>
    rw [hOutside] at hd
    exact (Multiset.mem_add.mp hd).elim (hGained.candid.1 d) (hCandid d)
  | turn _ _ _ hDeal hOutside hOutside' =>
    rw [hOutside'] at hd
    rw [hOutside] at hCandid
    refine (Multiset.mem_add.mp hd).elim (hDeal.candid (hCandid _ (Multiset.mem_cons_self _ _)) d) ?_
    exact fun hOld => hCandid d (Multiset.mem_cons_of_mem hOld)

/-- What is still to be told of a task stays to be told by a step that leaves the task. -/
theorem Act.keeps_telling (h : Act u m s m') (hCandid : ∀ d ∈ m.outside, d.Candid)
    (hMark : ∀ x, m.mark? u s ≠ some (i, x)) {d : Duty} (hd : d ∈ m.outside) (hTask : d.task = i)
    (hTells : d.Tells) : ∃ d' ∈ m'.outside, d'.task = i ∧ d'.Tells := by
  cases h with
  | pass _ _ _ _ hOutside _ | start _ _ _ _ hOutside _ =>
    exact ⟨d, hOutside ▸ Multiset.mem_add.mpr (Or.inr hd), hTask, hTells⟩
  | @turn d₀ t₀ x old new ht₀ hSome hRecords hDeal hOutside hOutside' =>
    have hHere := hCandid d₀ (hOutside ▸ Multiset.mem_cons_self d₀ old)
    rw [hOutside] at hd
    rcases Multiset.mem_cons.mp hd with rfl | hd
    -- a turn at this very duty makes no change of the task, so it tells later
    · cases x with
      | some x => exact absurd (hTask ▸ hSome) (hMark x)
      | none =>
        obtain ⟨d', hd', hSame, hTells'⟩ := hDeal.tells hHere (.inl ⟨rfl, hTells⟩)
        exact ⟨d', hOutside' ▸ Multiset.mem_add.mpr (Or.inl hd'), hSame.trans hTask, hTells'⟩
    · exact ⟨d, hOutside' ▸ Multiset.mem_add.mpr (Or.inr hd), hTask, hTells⟩

/-- Whoever changes a task without telling of it tells of it later. -/
theorem Act.tells_later (h : Act u m s m') (hCandid : ∀ d ∈ m.outside, d.Candid) {x : TaskStep}
    (hMark : m.mark? u s = some (i, x)) (hQuiet : x.isLoud = false) :
    ∃ d ∈ m'.outside, d.task = i ∧ d.Tells := by
  cases h with
  | pass hNone | start hNone =>
    rw [hNone] at hMark
    exact absurd hMark (by simp)
  | @turn d₀ t₀ y old new ht₀ hSome hRecords hDeal hOutside hOutside' =>
    obtain ⟨y', rfl, hPair⟩ := Option.map_eq_some_iff.mp (hSome.symm.trans hMark)
    obtain ⟨rfl, rfl⟩ := Prod.mk.inj hPair
    have hHere := hCandid d₀ (hOutside ▸ Multiset.mem_cons_self d₀ old)
    obtain ⟨d', hd', hSame, hTells⟩ := hDeal.tells hHere (.inr ⟨y', rfl, hQuiet⟩)
    exact ⟨d', hOutside' ▸ Multiset.mem_add.mpr (Or.inl hd'), hSame, hTells⟩

/-- A task that there is after a step was there before, or was started by the step. -/
theorem Act.exists_before (h : Act u m s m') {t' : LiveTask}
    (ht' : m'.floor.tasks[i]? = some t') : (∃ t, m.floor.tasks[i]? = some t) ∨
      ∃ d ∈ m'.outside, d.task = i ∧ d.Tells := by
  cases h with
  | pass _ hTasks => exact Or.inl ⟨t', hTasks ▸ ht'⟩
  | start _ hTasks _ _ hOutside hGained =>
    rw [hTasks, List.getElem?_append] at ht'
    split at ht'
    · exact Or.inl ⟨t', ht'⟩
    · next hGe =>
      rw [List.getElem?_singleton] at ht'
      split at ht'
      · obtain ⟨d, hd, hTask, hTells⟩ := hGained.candid.2
        exact Or.inr ⟨d, hOutside ▸ Multiset.mem_add.mpr (Or.inl hd), by omega, hTells⟩
      · exact absurd ht' (by simp)
  | @turn d t₀ x old new ht₀ _ hRecords =>
    -- a change keeps the number of tasks
    have hSame : m'.floor.tasks.length = m.floor.tasks.length := by
      rw [hRecords.tasks]
      cases x with
      | none => rfl
      | some x =>
        obtain ⟨outlet, hTasks⟩ := (Floor.marks_mark ht₀ x).tasks
        exact (congrArg List.length hTasks).trans List.length_set
    have hLt : i < m.floor.tasks.length := hSame ▸ (List.getElem?_eq_some_iff.mp ht').1
    exact Or.inl ⟨_, List.getElem?_eq_getElem hLt⟩

/-- **Every step** leaves something to be told of a task, or tells of it. -/
theorem Told.step {said : List Task} (h : Told i said m) (hStep : m.step u s = some m') :
    Told i (said ++ m.reports u i s) m' := by
  have hAct := step_act h.sound hStep
  refine ⟨h.sound.step hStep, hAct.candid h.candid, fun t' ht' => ?_⟩
  rcases hAct.exists_before ht' with ⟨t, ht⟩ | hNew
  · obtain ⟨t'', ht'', hRecord⟩ := hAct.record ht
    obtain rfl : t'' = t' := Option.some.inj (ht''.symm.trans ht')
    rcases hRecord with ⟨x, hMark, hApplied⟩ | ⟨hMark, hSame⟩
    · rw [reports_of_mark hMark ht]
      -- a change that is told of makes the last report, any other leaves one to be told
      cases hPersists : x.persists t.record with
      | true =>
        rw [if_pos rfl, List.getLast?_concat, hApplied]
        exact Or.inl rfl
      | false =>
        refine Or.inr (hAct.tells_later h.candid hMark ?_)
        cases hLoud : x.isLoud with
        | false => rfl
        | true => exact absurd (TaskStep.persists_of_isLoud hLoud t.record) (by simp [hPersists])
    · rw [reports_eq_nil hMark, List.append_nil, hSame]
      rcases h.current t ht with hLast | ⟨d, hd, hTask, hTells⟩
      · exact Or.inl hLast
      · exact Or.inr (hAct.keeps_telling h.candid hMark hd hTask hTells)
  · exact Or.inr hNew

/-- At the start nothing was reported. -/
theorem told_of_start {now : Int64} {catalog : Catalog} {capacity : Nat}
    (hStart : start u now catalog capacity = .ok m) (i : Nat) : Told i [] m := by
  obtain ⟨hDuties, hTasks, -, -⟩ := duties_of_start hStart
  refine ⟨sound_of_start hStart, fun d hd => ?_, fun t ht => ?_⟩
  · have hMem : d ∈ m.duties := duties_eq m ▸ Multiset.mem_add.mpr (Or.inr hd)
    rw [hDuties] at hMem
    exact absurd hMem (Multiset.notMem_zero d)
  · rw [hTasks] at ht
    exact absurd ht (by simp)

/-- The run lemma: what was reported of a task is what its marks persist. -/
theorem told_of_course {now : Int64} {catalog : Catalog} {capacity : Nat} {m₀ : Machine}
    {allowed : Machine → MachineStep → Prop} {ss : List MachineStep}
    (hStart : start u now catalog capacity = .ok m₀) (hRun : Course u allowed m₀ ss m) (i : Nat) :
    Told i (m₀.trace u (reports u i) ss) m := by
  have hKept : Told i ([] ++ m₀.trace u (reports u i) ss) m :=
    hRun.trace_invariant (P := Told i) (fun _ _ _ _ h _ hStep => h.step hStep)
      (told_of_start hStart i)
  rwa [List.nil_append] at hKept

/-- **The last snapshot of a task** of which nothing is left is its record. -/
theorem Told.last {said : List Task} (h : Told i said m) (ht : m.floor.tasks[i]? = some t)
    (hIdle : m.Idle i) : said.getLast? = some t.record := by
  refine (h.current t ht).resolve_right ?_
  rintro ⟨d, hd, hTask, hTells⟩
  have hMem : d ∈ m.duties := duties_eq m ▸ Multiset.mem_add.mpr (Or.inr hd)
  obtain ⟨e, rfl, hPhase⟩ := hIdle.ended hMem hTask
  -- an execution that is over has nothing to tell
  exact absurd (hTells [] (by simp [Duty.deeds, hPhase])) (by simp)

/-- A closed main queue takes in nothing. -/
theorem Act.main_eq_nil (h : Act u m s m') (hClosed : m.floor.accepting = false)
    (hMain : m.floor.main = []) : m'.floor.main = [] := by
  cases h with
  | pass _ _ _ hShorter => exact List.suffix_nil.mp (hMain ▸ hShorter)
  | start _ _ _ hSame => exact hSame.trans hMain
  | turn _ _ hRecords => exact (hRecords.main hClosed).trans hMain

end Machine

end Taskyard
