import Taskyard.Proofs.Scheduler.Convergence
import Taskyard.Proofs.Scheduler.Handover
import Taskyard.Proofs.Scheduler.Ledger

/-!
# Scheduler — how many runnables of a job are executed at once

Every dispatcher works for one job, and has as many workers as the definition allowed that was
loaded when it was started. When a job changes, a new dispatcher takes the place of the old one,
which goes on with what it has taken in. So the limit of a job holds for each of its dispatchers,
and it holds for all of them together once the replaced ones have come to their end.

Main definitions and results:

* `Machine.executingFor`, `Machine.drainingFor` — the runnables of a job that are executed, and the
  stopped dispatchers that still execute some.
* `Machine.Owned` — every dispatcher works for one job; `Owned.step` keeps it.
* `Machine.concurrency_limited` — the limit, in every state that can be reached.
* `Machine.limit_exceeded` — a job that is saved again while a task of it runs.
-/

namespace Taskyard

/-! ## Counting -/

/-- Whether a runnable is of a task of a job. -/
def Floor.isFor (f : Floor) (jobId : String) (r : Runnable) : Bool :=
  (f.tasks[r.task]?).any fun t => t.job.id == jobId

/-- Whether a worker executes a runnable of a job. -/
def Worker.executesFor (f : Floor) (jobId : String) : Worker Runnable Execution → Bool
  | .busy e => f.isFor jobId e.runnable
  | _ => false

/-- The runnables of a job that a dispatcher executes. -/
def Dispatcher.executingFor (f : Floor) (jobId : String) (b : Bench) : Nat :=
  b.crew.countP (Worker.executesFor f jobId)

namespace Machine

/-- The runnables of a job that are executed, by whatever dispatcher. -/
def executingFor (m : Machine) (jobId : String) : Nat :=
  (m.benches.map (Dispatcher.executingFor m.floor jobId)).sum

/-- The dispatchers that were stopped and still execute runnables of a job. -/
def drainingFor (m : Machine) (jobId : String) : Nat :=
  m.benches.countP fun b => !b.accepting && decide (0 < b.executingFor m.floor jobId)

end Machine

section Sums

variable {α : Type}

/-- A sum of numbers up to `n` is no more than `n` times the number of those that count. -/
theorem sum_map_le {f : α → Nat} {n : Nat} {l : List α} (h : ∀ a ∈ l, f a ≤ n) :
    (l.map f).sum ≤ n * l.countP fun a => decide (0 < f a) := by
  induction l with
  | nil => simp
  | cons a rest ih =>
    have hHead := h a (by simp)
    have hTail := ih fun b hb => h b (by simp [hb])
    rw [List.map_cons, List.sum_cons, List.countP_cons]
    by_cases hPos : 0 < f a
    · simp only [hPos, decide_true, if_true, Nat.mul_add, Nat.mul_one]
      omega
    · simp only [hPos, decide_false, Bool.false_eq_true, if_false, Nat.add_zero]
      omega

/-- Members that are all in one place are at most one. -/
theorem countP_le_one {p : α → Bool} {k : Nat} {l : List α}
    (h : ∀ j a, l[j]? = some a → p a = true → j = k) : l.countP p ≤ 1 := by
  induction l generalizing k with
  | nil => simp
  | cons a rest ih =>
    rw [List.countP_cons]
    cases hHead : p a with
    | false =>
      have hRest : ∀ j b, rest[j]? = some b → p b = true → j = k - 1 := by
        intro j b hb hp
        have := h (j + 1) b hb hp
        omega
      simpa using ih hRest
    | true =>
      -- the place is taken by the head, so no other member counts
      have hPlace := h 0 a rfl hHead
      have hNone : rest.countP p = 0 := by
        refine List.countP_eq_zero.mpr fun b hb hp => ?_
        obtain ⟨j, hj⟩ := List.mem_iff_getElem?.mp hb
        have := h (j + 1) b hj hp
        omega
      simp [hNone]

end Sums

namespace Dispatcher

/-- A dispatcher executes no more for a job than it has workers. -/
theorem executingFor_le (f : Floor) (jobId : String) (b : Bench) :
    b.executingFor f jobId ≤ b.crew.length := List.countP_le_length

theorem carry_size (b : Bench) (w : Nat) (next : Option Execution) :
    (b.carry w next).crew.length = b.crew.length := by
  cases next <;> exact List.length_set

theorem running_mem_duties {b : Bench} {e : Execution} (h : .busy e ∈ b.crew) :
    .running e ∈ b.duties := by
  obtain ⟨k, hk⟩ := List.mem_iff_getElem?.mp h
  obtain ⟨rest, hDuties, -⟩ := exists_duties_rest hk
  rw [hDuties]
  exact Multiset.mem_add.mpr (Or.inl (Multiset.mem_singleton_self _))

end Dispatcher

/-! ## Jobs and their dispatchers -/

namespace Machine

/-- A dispatcher, by number, that works for a job: its runnables are of tasks of the job, it is in
service for the job while it accepts more, and if this is the job with the limit, it has as many
workers as that. -/
structure WorksFor (m : Machine) (jobId : String) (limit k : Nat) (b : Bench) (owner : String) :
    Prop where
  duties  : ∀ d ∈ b.duties, ∃ t, m.floor.tasks[d.task]? = some t ∧ t.job.id = owner
  service : b.accepting = true → m.service.get? owner = some k
  size    : owner = jobId → b.crew.length = limit

/-- Every dispatcher works for one job. -/
def Owned (jobId : String) (limit : Nat) (m : Machine) : Prop :=
  ∀ k b, m.benches[k]? = some b → ∃ owner, m.WorksFor jobId limit k b owner

/-- The loaded definition of a job, if there is one, allows so many workers. -/
def Allows (m : Machine) (jobId : String) (n : UInt32) : Prop :=
  ∀ j, m.jobs.get? jobId = some j → j.maxConcurrency = n

/-- Jobs are loaded under their own identifiers. -/
def Named (m : Machine) : Prop := ∀ jobId j, m.jobs.get? jobId = some j → j.id = jobId

/-- Tasks that there are stay, each with its job. -/
def TasksStay (m m' : Machine) : Prop :=
  ∀ (i : Nat) (t : LiveTask), m.floor.tasks[i]? = some t →
    ∃ t' : LiveTask, m'.floor.tasks[i]? = some t' ∧ t'.job = t.job

theorem TasksStay.of_eq {m m' : Machine} (h : m'.floor.tasks = m.floor.tasks) : m.TasksStay m' := by
  intro i t ht
  exact ⟨t, h ▸ ht, rfl⟩

/-- Only the service and the jobs of tasks count. -/
theorem WorksFor.of_eq {m m' : Machine} {jobId owner : String} {limit k : Nat} {b : Bench}
    (h : m.WorksFor jobId limit k b owner) (hTasks : m.TasksStay m')
    (hService : m'.service = m.service) : m'.WorksFor jobId limit k b owner where
  duties d hd := by
    obtain ⟨t, ht, hOwner⟩ := h.duties d hd
    obtain ⟨t', ht', hJob⟩ := hTasks d.task t ht
    exact ⟨t', ht', hJob ▸ hOwner⟩
  service := hService ▸ h.service
  size := h.size

namespace Owned

variable {u : Setup} {m m' : Machine} {jobId : String} {limit : Nat}

/-- Only the dispatchers, the service and the jobs of tasks count. -/
theorem of_eq (h : Owned jobId limit m) (hTasks : m.TasksStay m')
    (hBenches : m'.benches = m.benches) (hService : m'.service = m.service) :
    Owned jobId limit m' := by
  intro k b hb
  rw [hBenches] at hb
  obtain ⟨owner, hOwner⟩ := h k b hb
  exact ⟨owner, hOwner.of_eq hTasks hService⟩

/-- A step of a dispatcher leaves whose it is. -/
theorem set (h : Owned jobId limit m) {k : Nat} {b : Bench} {owner : String}
    (hb : m.WorksFor jobId limit k b owner) :
    Owned jobId limit { m with benches := m.benches.set k b } := by
  intro k' x hx
  rw [List.getElem?_set] at hx
  split at hx
  · next hSame =>
    subst hSame
    split at hx
    · obtain rfl := Option.some.inj hx
      exact ⟨owner, hb.of_eq (.of_eq rfl) rfl⟩
    · exact absurd hx (by simp)
  · obtain ⟨other, hOther⟩ := h k' x hx
    exact ⟨other, hOther.of_eq (.of_eq rfl) rfl⟩

/-- A dispatcher that goes on works for the job that it worked for. -/
theorem goOn (h : Owned jobId limit m) {k : Nat} {b b' : Bench} (hb : m.benches[k]? = some b)
    (hDuties : ∀ d' ∈ b'.duties, ∃ d ∈ b.duties, d'.task = d.task)
    (hOpen : b'.accepting = b.accepting) (hSize : b'.crew.length = b.crew.length) :
    Owned jobId limit { m with benches := m.benches.set k b' } := by
  -- its duties are for the tasks that they were for, hence for the same job
  obtain ⟨owner, hOld, hServes, hCrew⟩ := h k b hb
  have hNew : ∀ d' ∈ b'.duties, ∃ t, m.floor.tasks[d'.task]? = some t ∧ t.job.id = owner := by
    intro d' hd'
    obtain ⟨d, hd, hTask⟩ := hDuties d' hd'
    rw [hTask]
    exact hOld d hd
  exact h.set ⟨hNew, hOpen ▸ hServes, fun hOwner => hSize.trans (hCrew hOwner)⟩

/-- The dispatcher that is in service for a job works for it. -/
theorem worksFor (h : Owned jobId limit m) (hStaffed : m.Staffed) {owner : String} {k : Nat}
    {b : Bench} (hk : m.service.get? owner = some k) (hb : m.benches[k]? = some b) :
    m.WorksFor jobId limit k b owner := by
  obtain ⟨b', hb', hAccepts⟩ := hStaffed.service owner k hk
  obtain rfl : b' = b := Option.some.inj (hb'.symm.trans hb)
  obtain ⟨other, hOther⟩ := h k b' hb
  -- no two jobs share a dispatcher
  rwa [hStaffed.apart owner other k hk (hOther.service hAccepts)]

/-- A dispatcher that is stopped counts as replaced from then on. -/
theorem retire (h : Owned jobId limit m) (stopped : String) :
    Owned jobId limit (m.retire stopped) := by
  unfold Machine.retire
  split
  · exact h
  · next n hn =>
    intro k b hb
    simp only [List.getElem?_modify] at hb
    obtain ⟨x, hx, rfl⟩ := Option.map_eq_some_iff.mp hb
    obtain ⟨owner, hDuties, hServes, hSize⟩ := h k x hx
    by_cases hSame : n = k
    · rw [if_pos hSame]
      exact ⟨owner, hDuties, fun hOpen => absurd hOpen (by simp [Dispatcher.stop]), hSize⟩
    -- another dispatcher is in service for another job
    · rw [if_neg hSame]
      refine ⟨owner, hDuties, fun hOpen => ?_, hSize⟩
      have hHere := hServes hOpen
      have hOther : stopped ≠ owner := by
        rintro rfl
        exact hSame (Option.some.inj (hn.symm.trans hHere))
      simp only [Dict.get?_erase, if_neg hOther]
      exact hHere

/-- A new dispatcher has as many workers as its job allows. -/
theorem engage (h : Owned jobId limit m) {owner : String} {workers : Nat}
    (hNone : m.service.get? owner = none) (hSize : owner = jobId → max workers 1 = limit) :
    Owned jobId limit (m.engage owner workers) := by
  intro k b hb
  simp only [Machine.engage, List.getElem?_append] at hb
  split at hb
  -- a dispatcher in service is of another owner, since this one had none
  · obtain ⟨other, hDuties, hServes, hCrew⟩ := h k b hb
    refine ⟨other, hDuties, fun hOpen => ?_, hCrew⟩
    have hHere := hServes hOpen
    have hOther : owner ≠ other := by
      rintro rfl
      rw [hNone] at hHere
      exact absurd hHere (by simp)
    simp only [Machine.engage, Dict.get?_insert, if_neg hOther]
    exact hHere
  · rw [List.getElem?_singleton] at hb
    -- the new one has its workers, and nothing to do
    split at hb
    · next hZero =>
      obtain rfl := Option.some.inj hb
      obtain rfl : k = m.benches.length := by omega
      refine ⟨owner, fun d hd => ?_, fun _ => ?_, fun hOwner => ?_⟩
      · rw [Dispatcher.duties_start] at hd
        exact absurd hd (Multiset.notMem_zero d)
      · simp only [Machine.engage, Dict.get?_insert, if_true]
      · rw [← hSize hOwner]
        exact List.length_replicate
    · exact absurd hb (by simp)

/-! ## Routing and changes -/

/-- A job with a limit has that many workers. -/
theorem workers_eq {n : UInt32} (hPos : 0 < n) {j : Job} (hLimit : j.maxConcurrency = n)
    (default : UInt32) : max (j.workers default) 1 = n.toNat := by
  have hSome : 0 < n.toNat := UInt32.lt_iff_toNat_lt.mp hPos
  have hNe : n ≠ 0 := by
    rintro rfl
    exact absurd hPos (by decide)
  rw [Job.workers, hLimit, if_neg hNe]
  omega

variable {n : UInt32}

/-- A runnable goes to the dispatcher of the job of its task. -/
theorem route (h : Owned jobId n.toNat m) (hPos : 0 < n) (hStaffed : m.Staffed) (hNamed : m.Named)
    (hAllows : m.Allows jobId n) (r : Runnable) : Owned jobId n.toNat (m.route u r).1 := by
  rcases hStaffed.route_cases u r with ⟨-, hAway⟩ | ⟨j, b, hJob, hb, hRouted⟩
  · rw [hAway]
    exact h
  · rw [hRouted]
    obtain ⟨t, ht, hLoaded⟩ := Option.bind_eq_some_iff.mp hJob
    have hId : j.id = t.job.id := hNamed _ _ hLoaded
    -- whichever dispatcher it is, it works for the job
    have hBench : Owned jobId n.toNat (m.benchFor u j).1 := by
      unfold Machine.benchFor
      split
      · exact h
      · next hNone =>
        refine h.engage hNone fun hOwner => workers_eq hPos (hAllows j ?_) _
        rwa [← hOwner, hId]
    obtain ⟨hStaffed', hService⟩ := hStaffed.benchFor u j
    have hHere := hBench.worksFor hStaffed' hService hb
    have hFloor : (m.benchFor u j).1.floor = m.floor := (benchFor_keeps u m j).2.1
    have hMore : ∀ d ∈ Dispatcher.duties { b with queue := b.queue ++ [r] },
        ∃ t, (m.benchFor u j).1.floor.tasks[d.task]? = some t ∧ t.job.id = j.id := by
      intro d hd
      rw [Dispatcher.duties_queue] at hd
      rcases Multiset.mem_cons.mp hd with rfl | hd
      · exact ⟨t, by rw [hFloor]; exact ht, hId.symm⟩
      · exact hHere.duties d hd
    exact hBench.set ⟨hMore, hHere.service, hHere.size⟩

/-- A change of a job keeps the dispatchers owned, as long as it keeps the limit. -/
theorem handleChange (h : Owned jobId n.toNat m) (hPos : 0 < n) (c : JobChange)
    (hAllows : (m.handleChange u c).Allows jobId n) :
    Owned jobId n.toNat (m.handleChange u c) := by
  unfold Machine.handleChange at hAllows ⊢
  split
  · exact (h.retire _).of_eq (.of_eq rfl) rfl rfl
  · next j _ hUpdated =>
    have hRetired := h.retire j.withoutTasks.id
    cases hReplaced : m.service.contains j.withoutTasks.id with
    | true =>
      simp only [load, hReplaced, if_true]
      -- the old dispatcher is out of service when the new one is started
      have hNone : (m.retire j.withoutTasks.id).service.get? j.withoutTasks.id = none := by
        unfold Machine.retire
        split
        · assumption
        · rw [Dict.get?_erase, if_pos rfl]
      have hSize : j.withoutTasks.id = jobId →
          max (j.withoutTasks.workers u.defaultWorkers) 1 = n.toNat := by
        rintro rfl
        refine workers_eq hPos (hAllows _ ?_) _
        simp_all only [load, Dict.get?_insert, if_true]
      exact (hRetired.engage hNone hSize).of_eq (.of_eq rfl) rfl rfl
    | false =>
      simp only [load, hReplaced, Bool.false_eq_true, if_false]
      exact hRetired.of_eq (.of_eq rfl) rfl rfl
  · exact h

theorem stopDispatchers (h : Owned jobId limit m) : Owned jobId limit m.stopDispatchers :=
  stopDispatchers_induction (fun _ stopped h => h.retire stopped) h

end Owned

/-! ## Every step -/

/-- What every step keeps: jobs are loaded under their identifiers, and every dispatcher works for
one of them. -/
structure Housed (jobId : String) (limit : Nat) (m : Machine) : Prop where
  sound : m.Sound
  named : m.Named
  owned : Owned jobId limit m

/-- Loading a job keeps the jobs named. -/
theorem Named.insert {m : Machine} (h : m.Named) {jobId : String} {j j' : Job} (hId : j.id = jobId)
    {k : String} (hj' : (m.jobs.insert jobId j).get? k = some j') : j'.id = k := by
  rw [Dict.get?_insert] at hj'
  split at hj'
  · next hSame => rw [← Option.some.inj hj', hId, hSame]
  · exact h k j' hj'

/-- Hearing of a change keeps the jobs named. -/
theorem Named.applied {m : Machine} (h : m.Named) (c : JobChange) {k : String} {j' : Job}
    (hj' : (c.applied m.jobs).get? k = some j') : j'.id = k := by
  unfold JobChange.applied at hj'
  split at hj'
  · rw [Dict.get?_erase] at hj'
    split at hj'
    · exact absurd hj' (by simp)
    · exact h k j' hj'
  · refine h.insert ?_ hj'
    rfl
  · exact h k j' hj'

namespace Housed

variable {u : Setup} {m m' : Machine} {jobId : String} {n : UInt32}

theorem of_eq {limit : Nat} (h : Housed jobId limit m) (hSound : m'.Sound) (hTasks : m.TasksStay m')
    (hBenches : m'.benches = m.benches) (hService : m'.service = m.service)
    (hJobs : m'.jobs = m.jobs) : Housed jobId limit m' := by
  refine ⟨hSound, ?_, h.owned.of_eq hTasks hBenches hService⟩
  rw [Named, hJobs]
  exact h.named

/-- A listener keeps what is executed housed. -/
theorem listen (h : Housed jobId n.toNat m) (hPos : 0 < n) {c : Channel} (hSound : m'.Sound)
    (hTasks : m.TasksStay m') (hAllows : m'.Allows jobId n) (hStep : m.listen u c = some m') :
    Housed jobId n.toNat m' := by
  obtain ⟨_, hHeeds⟩ := exists_heeds hStep
  cases hHeeds with
  -- only a change of a job touches the dispatchers
  | @change t x =>
    have hTaken : Owned jobId n.toNat { m with changes := t } := h.owned.of_eq (.of_eq rfl) rfl rfl
    obtain ⟨service, benches, hChanged⟩ := exists_handleChange u { m with changes := t } x
    refine ⟨hSound, fun k j hj => ?_, hTaken.handleChange hPos x hAllows⟩
    rw [hChanged] at hj
    exact h.named.applied x hj
  -- a job that was read for a trigger is loaded, without a word to its dispatcher
  | load => exact ⟨hSound, fun _ _ hj => h.named.insert rfl hj, h.owned.of_eq hTasks rfl rfl⟩
  | tree | attributes | trigger | known | unknown | found | missing | errand | done =>
    exact h.of_eq hSound hTasks rfl rfl rfl

/-- What routing a runnable leaves, whatever is done for the runnable if it goes nowhere. -/
theorem of_route (hPos : 0 < n) (hOwned : Owned jobId n.toNat m) (hStaffed : m.Staffed)
    (hNamed : m.Named) (hAllows : m.Allows jobId n) {r : Runnable} {m₁ : Machine}
    {deeds : List Deed} (hRoute : m.route u r = (m₁, deeds)) (hSound : m'.Sound)
    (hFloor : m'.floor = m₁.floor) (hBenches : m'.benches = m₁.benches)
    (hService : m'.service = m₁.service) (hJobs : m'.jobs = m₁.jobs) :
    Housed jobId n.toNat m' := by
  have hRouted := hOwned.route (u := u) hPos hStaffed hNamed hAllows r
  obtain ⟨service, benches, hKeeps⟩ := exists_route u m r
  rw [hRoute] at hRouted hKeeps
  have hSame : m₁.jobs = m.jobs := by rw [show m₁ = _ from hKeeps]
  refine ⟨hSound, ?_, hRouted.of_eq (.of_eq (by rw [hFloor])) hBenches hService⟩
  rw [Named, hJobs, hSame]
  exact hNamed

/-- The router keeps what is executed housed, though it may engage a dispatcher. -/
theorem stepRouter (h : Housed jobId n.toNat m) (hPos : 0 < n) (hSound : m'.Sound)
    (hTasks : m.TasksStay m') (hAllows : m.Allows jobId n) (hStep : m.stepRouter u = some m') :
    Housed jobId n.toNat m' := by
  rcases stepRouter_cases hStep with ⟨r, rest, m₁, deeds, -, -, hRoute, rfl⟩ |
    ⟨_, -, ⟨_, _, -, rfl⟩ | ⟨-, rfl⟩⟩
  · have hTaken : Owned jobId n.toNat (m.onFloor { m.floor with main := rest }) :=
      h.owned.of_eq (.of_eq rfl) rfl rfl
    have hStaffed : (m.onFloor { m.floor with main := rest }).Staffed :=
      h.sound.staffed.of_eq rfl rfl
    -- with deeds for the runnable the router is busy, and that is all that differs
    cases deeds <;>
      exact of_route hPos hTaken hStaffed h.named hAllows hRoute hSound rfl rfl rfl rfl
  · exact h.of_eq hSound hTasks rfl rfl rfl
  · exact h.of_eq hSound hTasks rfl rfl rfl

theorem submit (h : Housed jobId n.toNat m) (hPos : 0 < n) {j : Job} {a : Action} {input : Message}
    (hSound : (m.submit u j a input).Sound) (hAllows : m.Allows jobId n) :
    Housed jobId n.toNat (m.submit u j a input) := by
  rcases hRoute : (m.onFloor ((m.floor.addTask u j (.aside [])).mark m.floor.tasks.length
    .retain)).route u { action := a, task := m.floor.tasks.length, input } with ⟨m₁, deeds⟩
  have hAdded : Owned jobId n.toNat (m.onFloor ((m.floor.addTask u j (.aside [])).mark
      m.floor.tasks.length .retain)) := by
    refine h.owned.of_eq (fun i t ht => ⟨t, ?_, rfl⟩) rfl rfl
    have hLt : i < m.floor.tasks.length := (List.getElem?_eq_some_iff.mp ht).1
    simp only [onFloor, mark_addTask, List.getElem?_append_left hLt, ht]
  have hStaffed : (m.onFloor ((m.floor.addTask u j (.aside [])).mark m.floor.tasks.length
      .retain)).Staffed := h.sound.staffed.of_eq rfl rfl
  rw [submit_eq hRoute] at hSound ⊢
  cases deeds <;>
    exact of_route hPos hAdded hStaffed h.named hAllows hRoute hSound rfl rfl rfl rfl

/-- **Every step** leaves every dispatcher with the job that it works for. -/
theorem step {s : MachineStep} (h : Housed jobId n.toNat m) (hPos : 0 < n)
    (hAllows : m.Allows jobId n) (hAllows' : m'.Allows jobId n) (hStep : m.step u s = some m') :
    Housed jobId n.toNat m' := by
  have hSound := h.sound.step hStep
  have hTasks : m.TasksStay m' := fun i t ht => exists_task_of_step h.sound hStep ht
  cases s with
  | time | store | saveJob | removeJob | saveTask | launch =>
    obtain rfl := Option.some.inj hStep
    exact h.of_eq hSound hTasks rfl rfl rfl
  | publish post =>
    obtain rfl := Option.some.inj hStep
    cases post with
    | node onAttributes _ => cases onAttributes <;> exact h.of_eq hSound hTasks rfl rfl rfl
    | trigger | job => exact h.of_eq hSound hTasks rfl rfl rfl
  | announce k =>
    obtain ⟨a, _, _, -, -, rfl⟩ := announce_cases hStep
    cases a <;> exact h.of_eq hSound hTasks rfl rfl rfl
  | submit j a input =>
    obtain rfl := Option.some.inj hStep
    exact h.submit hPos hSound hAllows
  | call k =>
    obtain ⟨_, -, ⟨_, _, -, rfl⟩ | ⟨-, rfl⟩⟩ := call_cases hStep <;>
      exact h.of_eq hSound hTasks rfl rfl rfl
  | listen c => exact h.listen hPos hSound hTasks hAllows' hStep
  | route => exact h.stepRouter hPos hSound hTasks hAllows hStep
  | dispatch k s =>
    obtain ⟨b, b', hb, hStepped, rfl, -⟩ := h.sound.staffed.stepBench hStep
    refine ⟨hSound, h.named,
      h.owned.goOn hb (fun d' hd' => ?_) hStepped.accepting hStepped.size⟩
    -- a runnable that is begun with is of the same task as before
    rcases hStepped.duties_eq with ⟨-, hSame⟩ | ⟨r, rest, -, hOld, hNew⟩
    · exact ⟨d', hSame ▸ hd', rfl⟩
    · rw [hNew] at hd'
      rw [hOld]
      rcases Multiset.mem_cons.mp hd' with rfl | hd'
      · exact ⟨_, Multiset.mem_cons_self _ _, rfl⟩
      · exact ⟨d', Multiset.mem_cons_of_mem hd', rfl⟩
  | work k w =>
    obtain ⟨b, e, f, after, hb, he, hMoved, rfl⟩ := work_cases hStep
    obtain ⟨rest, hOld, hOver, hOn⟩ := Dispatcher.exists_carry_rest he
    have hOpen : (b.carry w after).accepting = b.accepting := by cases after <;> rfl
    -- the execution ends, or goes on with the same runnable
    have hDuties : ∀ d' ∈ (b.carry w after).duties, ∃ d ∈ b.duties, d'.task = d.task := by
      intro d' hd'
      rw [hOld]
      rcases Execution.exists_phase hMoved with rfl | ⟨p, rfl⟩
      · rw [hOver] at hd'
        exact ⟨d', Multiset.mem_cons_of_mem hd', rfl⟩
      · rw [hOn] at hd'
        rcases Multiset.mem_cons.mp hd' with rfl | hd'
        · exact ⟨_, Multiset.mem_cons_self _ _, rfl⟩
        · exact ⟨d', Multiset.mem_cons_of_mem hd', rfl⟩
    have hGoesOn := h.owned.goOn hb hDuties hOpen (Dispatcher.carry_size b w after)
    exact ⟨hSound, h.named, hGoesOn.of_eq hTasks rfl rfl⟩
  | write s =>
    obtain ⟨_, _, -, ⟨_, -, -, rfl⟩ | ⟨-, rfl⟩⟩ := write_cases hStep <;>
      exact h.of_eq hSound hTasks rfl rfl rfl
  | silence c =>
    obtain ⟨-, rfl⟩ := silence_cases hStep
    cases c <;> exact h.of_eq hSound hTasks rfl rfl rfl
  | endRouter =>
    obtain ⟨-, rfl⟩ := endRouter_cases hStep
    exact h.of_eq hSound hTasks rfl rfl rfl
  | stopDispatchers =>
    obtain rfl := Option.some.inj hStep
    obtain ⟨service, benches, hStopped⟩ := exists_stopDispatchers m
    refine ⟨hSound, ?_, h.owned.stopDispatchers⟩
    rw [hStopped]
    exact h.named

end Housed

/-! ## Every reachable state -/

/-- At the start nothing is executed. -/
theorem housed_of_start {u : Setup} {now : Int64} {catalog : Catalog} {capacity : Nat} {m : Machine}
    (hStart : start u now catalog capacity = .ok m) (jobId : String) (limit : Nat) :
    Housed jobId limit m := by
  have hSound := sound_of_start hStart
  obtain ⟨js, -, rfl⟩ := exists_of_start hStart
  refine ⟨hSound, fun id j hj => ?_, fun k b hb => absurd hb (by simp)⟩
  rcases get?_foldl_insert js Dict.empty id with ⟨j', -, hId, hGet⟩ | ⟨-, hGet⟩
  · obtain rfl : j' = j := Option.some.inj (hGet.symm.trans hj)
    exact hId
  · rw [show Dict.get? _ id = _ from hGet] at hj
    exact absurd hj (by simp [Dict.get?, Dict.empty, Dict.lookup])

/-- A step after which the loaded definition of a job still allows so many workers. -/
def KeepsLimit (u : Setup) (jobId : String) (n : UInt32) (m : Machine) (s : MachineStep) : Prop :=
  ∀ m', m.step u s = some m' → m'.Allows jobId n

/-- How the limit of a job holds. -/
structure Limited (m : Machine) (jobId : String) (limit : Nat) : Prop where
  /-- No dispatcher executes more runnables of the job at once. -/
  each     : ∀ b ∈ m.benches, b.executingFor m.floor jobId ≤ limit
  /-- Of the dispatchers that execute some, only the one in service was not stopped. -/
  replaced : ∀ k b, m.benches[k]? = some b → 0 < b.executingFor m.floor jobId →
    b.accepting = true → m.service.get? jobId = some k
  /-- All together execute no more than that, and as many again for each that was stopped and is not
  yet at its end. -/
  together : m.executingFor jobId ≤ limit * (m.drainingFor jobId + 1)

/-- A dispatcher that works for another job executes nothing of this one. -/
theorem WorksFor.executingFor_eq_zero {m : Machine} {jobId owner : String} {limit k : Nat}
    {b : Bench} (h : m.WorksFor jobId limit k b owner) (hOther : owner ≠ jobId) :
    b.executingFor m.floor jobId = 0 := by
  refine List.countP_eq_zero.mpr fun w hw hFor => ?_
  cases w with
  -- the task of an execution has one job, and that is the owner
  | busy e =>
    obtain ⟨t, ht, hOwner⟩ := h.duties _ (Dispatcher.running_mem_duties hw)
    have hTask : m.floor.tasks[e.runnable.task]? = some t := ht
    simp only [Worker.executesFor, Floor.isFor, hTask, Option.any_some, beq_iff_eq] at hFor
    exact hOther (hOwner.symm.trans hFor)
  | _ => exact absurd hFor (by simp [Worker.executesFor])

/-- From the housing of executions to their number: the current dispatcher has no more than its
workers, and so has each one that was replaced. -/
theorem Housed.limited {m : Machine} {jobId : String} {limit : Nat} (h : Housed jobId limit m) :
    m.Limited jobId limit := by
  have hOwner : ∀ k b, m.benches[k]? = some b → 0 < b.executingFor m.floor jobId →
      m.WorksFor jobId limit k b jobId := by
    intro k b hb hSome
    obtain ⟨owner, hWorks⟩ := h.owned k b hb
    by_cases hSame : owner = jobId
    · exact hSame ▸ hWorks
    · rw [hWorks.executingFor_eq_zero hSame] at hSome
      exact absurd hSome (by simp)
  have hEach : ∀ b ∈ m.benches, b.executingFor m.floor jobId ≤ limit := by
    intro b hb
    obtain ⟨k, hk⟩ := List.mem_iff_getElem?.mp hb
    by_cases hSome : 0 < b.executingFor m.floor jobId
    -- a dispatcher of the job has as many workers as the limit
    · rw [← (hOwner k b hk hSome).size rfl]
      exact Dispatcher.executingFor_le m.floor jobId b
    · omega
  have hReplaced : ∀ k b, m.benches[k]? = some b → 0 < b.executingFor m.floor jobId →
      b.accepting = true → m.service.get? jobId = some k :=
    fun k b hb hSome => (hOwner k b hb hSome).service
  refine ⟨hEach, hReplaced, ?_⟩
  -- what executes is stopped, or is the one dispatcher in service
  have hOne : m.benches.countP (fun b => b.accepting && decide (0 < b.executingFor m.floor jobId))
      ≤ 1 := by
    refine countP_le_one (k := (m.service.get? jobId).getD 0) fun j b hb hBoth => ?_
    obtain ⟨hOpen, hSome⟩ := Bool.and_eq_true_iff.mp hBoth
    rw [hReplaced j b hb (of_decide_eq_true hSome) hOpen, Option.getD_some]
  have hSplit : m.benches.countP (fun b => decide (0 < b.executingFor m.floor jobId)) =
      m.drainingFor jobId +
        m.benches.countP (fun b => b.accepting && decide (0 < b.executingFor m.floor jobId)) := by
    unfold drainingFor
    induction m.benches with
    | nil => rfl
    | cons b rest ih =>
      simp only [List.countP_cons, ih]
      cases b.accepting <;> simp <;> omega
  calc m.executingFor jobId
      ≤ limit * m.benches.countP fun b => decide (0 < b.executingFor m.floor jobId) :=
        sum_map_le hEach
    _ ≤ limit * (m.drainingFor jobId + 1) := Nat.mul_le_mul_left limit (by omega)

/-- **The limit of a job holds for each of its dispatchers**, in every state that a scheduler can
reach while all definitions of the job that it loads have the same `concurrency`. A dispatcher that
`handle_job_change` has replaced goes on with what it has taken in, so only when the replaced ones
execute nothing does the limit hold for all of them together. -/
theorem concurrency_limited {u : Setup} {now : Int64} {catalog : Catalog} {capacity : Nat}
    {m₀ m : Machine} {ss : List MachineStep} {jobId : String} {n : UInt32} (hPos : 0 < n)
    (hStart : start u now catalog capacity = .ok m₀) (hFirst : m₀.Allows jobId n)
    (hRun : Course u (KeepsLimit u jobId n) m₀ ss m) : m.Limited jobId n.toNat := by
  have hKept : m.Allows jobId n ∧ Housed jobId n.toNat m := by
    refine hRun.invariant (P := fun m => m.Allows jobId n ∧ Housed jobId n.toNat m) ?_
      ⟨hFirst, housed_of_start hStart jobId n.toNat⟩
    intro m m' s hm hKeeps hStep
    have hAllows := hKeeps m' hStep
    exact ⟨hAllows, hm.2.step hPos hm.1 hAllows hStep⟩
  exact hKept.2.limited

/-! ## One run -/

/-- From the start of a task to the execution of its only runnable, by a dispatcher with a
number. -/
def executionBy (k : Nat) : List MachineStep :=
  [.launch plainJob (.timer { jobId := "j" }), .call 0, .call 0, .call 0, .call 0, .route,
   .dispatch k (.offer 0), .dispatch k .take, .dispatch k .hand, .dispatch k (.pick 0)]

/-- A job with one worker is saved again, unchanged, while a task of it runs, and another task of it
is started. -/
def resavedSteps : List MachineStep :=
  [.publish (.job { updated := some plainJob }), .listen .jobs] ++ executionBy 0 ++
    [.publish (.job { updated := some plainJob }), .listen .jobs] ++ executionBy 1

/-- Whether the definition that is loaded after a step allows one worker. -/
def keepsOne (m : Machine) (s : MachineStep) : Bool :=
  ((m.step bareSetup s).bind fun m => m.jobs.get? "j").all fun j => j.maxConcurrency == 1

theorem keepsLimit_of_keepsOne {m : Machine} {s : MachineStep} (h : keepsOne m s = true) :
    KeepsLimit bareSetup "j" 1 m s := by
  intro m' hStep j hj
  simp only [keepsOne, hStep, Option.bind_some, hj, Option.all_some, beq_iff_eq] at h
  exact h

/-- **Two executions at once for a job with one worker**: the dispatcher that `handle_job_change`
has replaced is not at its end when the new one starts. -/
theorem limit_exceeded :
    ∃ m₀ m, start bareSetup 0 {} 8 = .ok m₀ ∧ m₀.Allows "j" 1 ∧
      Course bareSetup (KeepsLimit bareSetup "j" 1) m₀ resavedSteps m ∧ m.executingFor "j" = 2 := by
  obtain ⟨m₀, hStart, hNone, hEnd⟩ : ∃ m₀, start bareSetup 0 {} 8 = .ok m₀ ∧
      m₀.jobs.get? "j" = none ∧ (m₀.run bareSetup keepsOne resavedSteps).map
        (fun m => m.executingFor "j") = some 2 := ⟨_, rfl, rfl, rfl⟩
  obtain ⟨m, hRun, hCount⟩ := Option.map_eq_some_iff.mp hEnd
  refine ⟨m₀, m, hStart, fun j hj => ?_, .of_run (fun _ _ => keepsLimit_of_keepsOne) hRun, hCount⟩
  rw [hNone] at hj
  exact absurd hj (by simp)

/-- In that run one dispatcher drains next to the one in service, and each has one execution. -/
theorem concurrency_limited_resavedSteps :
    ∃ m₀ m, start bareSetup 0 {} 8 = .ok m₀ ∧ m₀.run bareSetup keepsOne resavedSteps = some m ∧
      m.drainingFor "j" = 1 ∧ m.benches.map (Dispatcher.executingFor m.floor "j") = [1, 1] ∧
      m.Limited "j" 1 := by
  obtain ⟨m₀, hStart, hNone, hEnd⟩ : ∃ m₀, start bareSetup 0 {} 8 = .ok m₀ ∧
      m₀.jobs.get? "j" = none ∧ (m₀.run bareSetup keepsOne resavedSteps).map
        (fun m => (m.drainingFor "j", m.benches.map (Dispatcher.executingFor m.floor "j"))) =
          some (1, [1, 1]) := ⟨_, rfl, rfl, rfl⟩
  obtain ⟨m, hRun, hCounts⟩ := Option.map_eq_some_iff.mp hEnd
  obtain ⟨hDraining, hEach⟩ := Prod.mk.inj hCounts
  have hFirst : m₀.Allows "j" 1 := by
    intro j hj
    rw [hNone] at hj
    exact absurd hj (by simp)
  exact ⟨m₀, m, hStart, hRun, hDraining, hEach, concurrency_limited (n := 1) (by decide) hStart
    hFirst (.of_run (fun _ _ => keepsLimit_of_keepsOne) hRun)⟩

end Machine

end Taskyard
