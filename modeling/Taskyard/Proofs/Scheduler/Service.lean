import Taskyard.Proofs.Scheduler.Attention
import Taskyard.Proofs.Scheduler.Genealogy
import Taskyard.Proofs.Scheduler.Storage

/-!
# Scheduler — dispatchers in service fit the loaded jobs

Four parts of the scheduler write the loaded jobs and the dispatchers: a new definition replaces the
dispatcher, a removal takes both away, the router puts a dispatcher in service when a runnable first
needs one, and a trigger may load a job from the catalog. The last one is the weak point. A job that
is loaded for a trigger leaves the dispatcher as it is, which is right only because there is none
for a job that is not loaded, and this is only so while nothing else is heard in between.

Main definitions and results:

* `Machine.Fits` — what is kept of the loaded jobs and the dispatchers.
* `Machine.Vacant` — a job that is about to be loaded is not loaded yet.
* `Machine.Orderly.step` — every step in turn keeps both.
* `Machine.dispatchers_fit` — the dispatchers after every run, and where runnables go.
-/

namespace Taskyard

theorem Job.one_le_workers (j : Job) (default : UInt32) : 1 ≤ j.workers default :=
  Nat.le_max_right _ _

/-- The identifier of the job that a listener reads from the catalog, or loads. -/
def Ear.sought : Ear → Option String
  | .fetching t => some t.jobId
  | .loading _ j => some j.id
  | .listening | .seeking _ | .busy _ | .deaf => none

theorem Ear.sought_of_rests {ear : Ear} (h : ear.rests = true) : ear.sought = none := by
  rcases Ear.eq_of_rests h with rfl | rfl <;> rfl

namespace Machine

theorem sought_triggered (t : JobTrigger) (j : Job) : (triggered t j).sought = none := by
  unfold triggered
  split <;> rfl

/-- Finding a dispatcher for a job changes no job. -/
theorem jobs_benchFor (u : Setup) (m : Machine) (j : Job) : (m.benchFor u j).1.jobs = m.jobs := by
  unfold benchFor
  split <;> rfl

/-! ## Loaded jobs and dispatchers -/

/-- The dispatchers fit the loaded jobs, in the two maps of the multiplexer's `State`: jobs are
loaded under their identifiers, a dispatcher in service is for a loaded job and has the workers of
its definition, and one that accepts runnables is in service. -/
structure Fits (u : Setup) (m : Machine) : Prop where
  staffed : m.Staffed
  named : m.Named
  crewed {id : String} {n : Nat} (h : m.service.get? id = some n) :
    ∃ j b, m.jobs.get? id = some j ∧ m.benches[n]? = some b ∧
      b.crew.length = j.workers u.defaultWorkers
  known {n : Nat} {b : Bench} (hb : m.benches[n]? = some b) (hOpen : b.accepting = true) :
    ∃ id, m.service.get? id = some n

namespace Fits

variable {u : Setup} {m m' : Machine}

theorem of_eq (h : Fits u m) (hJobs : m'.jobs = m.jobs) (hService : m'.service = m.service)
    (hBenches : m'.benches = m.benches) : Fits u m' where
  staffed := h.staffed.of_eq hBenches hService
  named := by
    rw [Named, hJobs]
    exact h.named
  crewed hn := by
    rw [hService] at hn
    rw [hJobs, hBenches]
    exact h.crewed hn
  known hb hOpen := by
    rw [hBenches] at hb
    rw [hService]
    exact h.known hb hOpen

/-- Retiring a dispatcher takes it off the map. -/
theorem get?_retire (m : Machine) (jobId id : String) :
    (m.retire jobId).service.get? id = if jobId = id then none else m.service.get? id := by
  unfold Machine.retire
  split
  · next hNone =>
    split
    · next hSame => rw [← hSame, hNone]
    · rfl
  · exact Dict.get?_erase _ _ _

/-- A job without a dispatcher still fits. -/
theorem retire (h : Fits u m) (jobId : String) : Fits u (m.retire jobId) := by
  have hStaffed := h.staffed.retire jobId
  have hJobs : (m.retire jobId).jobs = m.jobs := by
    obtain ⟨_, _, hRetire⟩ := exists_retire m jobId
    rw [hRetire]
  refine ⟨hStaffed, ?_, fun {id n} hn => ?_, fun {n b} hb hOpen => ?_⟩
  · rw [Named, hJobs]
    exact h.named
  -- the other jobs keep their dispatchers
  · rw [get?_retire] at hn
    split at hn
    · cases hn
    · next hOther =>
      obtain ⟨j, b, hj, hb, hCrew⟩ := h.crewed hn
      rw [hJobs]
      refine ⟨j, b, hj, ?_, hCrew⟩
      unfold Machine.retire
      split
      · exact hb
      · next k hk =>
        -- no two jobs share a dispatcher
        have hNot : k ≠ n := fun hEq => hOther (h.staffed.apart jobId id n (hEq ▸ hk) hn)
        simp [hNot, hb]
  -- the one that was taken out of service accepts no more
  · unfold Machine.retire at hb
    split at hb
    · next hNone =>
      obtain ⟨id, hId⟩ := h.known hb hOpen
      refine ⟨id, ?_⟩
      rw [get?_retire, if_neg, hId]
      rintro rfl
      rw [hNone] at hId
      cases hId
    · next k hk =>
      simp only [List.getElem?_modify] at hb
      obtain ⟨x, hx, hEq⟩ := Option.map_eq_some_iff.mp hb
      split at hEq
      · rw [← hEq] at hOpen
        cases hOpen
      · next hNot =>
        subst hEq
        obtain ⟨id, hId⟩ := h.known hx hOpen
        refine ⟨id, ?_⟩
        rw [get?_retire, if_neg, hId]
        rintro rfl
        exact hNot (Option.some.inj (hk.symm.trans hId))

/-- A dispatcher with as many workers as its job has fits it. -/
theorem engage (h : Fits u m) {j : Job} (hj : m.jobs.get? j.id = some j)
    (hNone : m.service.get? j.id = none) :
    Fits u (m.engage j.id (j.workers u.defaultWorkers)) where
  staffed := h.staffed.engage _ _
  named := h.named
  crewed {id n} hn := by
    simp only [Machine.engage, Dict.get?_insert] at hn
    split at hn
    · next hSame =>
      obtain rfl := Option.some.inj hn
      subst hSame
      refine ⟨j, Dispatcher.start (j.workers u.defaultWorkers), hj, by simp [Machine.engage], ?_⟩
      -- a dispatcher starts with the workers that its job asks for, and one at least
      have hLeast := j.one_le_workers u.defaultWorkers
      simp only [Dispatcher.start, List.length_replicate]
      omega
    · obtain ⟨j', b, hj', hb, hCrew⟩ := h.crewed hn
      have hLt : n < m.benches.length := (List.getElem?_eq_some_iff.mp hb).1
      refine ⟨j', b, hj', ?_, hCrew⟩
      simp only [Machine.engage, List.getElem?_append_left hLt, hb]
  known {n b} hb hOpen := by
    simp only [Machine.engage, Dict.get?_insert]
    simp only [Machine.engage, List.getElem?_append] at hb
    split at hb
    · next hLt =>
      obtain ⟨id, hId⟩ := h.known hb hOpen
      refine ⟨id, ?_⟩
      rw [if_neg, hId]
      -- the job had no dispatcher, so those that are open are of other jobs
      rintro rfl
      rw [hNone] at hId
      cases hId
    · refine ⟨j.id, ?_⟩
      rw [if_pos rfl]
      rw [List.getElem?_singleton] at hb
      split at hb
      · exact congrArg some (by omega)
      · cases hb

/-- A definition may be replaced while the job has no dispatcher. -/
theorem insert (h : Fits u m) {j : Job} (hNone : m.service.get? j.id = none) :
    Fits u { m with jobs := m.jobs.insert j.id j } where
  staffed := h.staffed.of_eq rfl rfl
  named _ _ hj := h.named.insert rfl hj
  crewed {id n} hn := by
    obtain ⟨j', b, hj', hRest⟩ := h.crewed hn
    refine ⟨j', b, ?_, hRest⟩
    -- a job with a dispatcher is another one
    show (m.jobs.insert j.id j).get? id = some j'
    rw [Dict.get?_insert, if_neg, hj']
    rintro rfl
    rw [hNone] at hn
    cases hn
  known := h.known

/-- A job may be forgotten while it has no dispatcher. -/
theorem erase (h : Fits u m) {jobId : String} (hNone : m.service.get? jobId = none) :
    Fits u { m with jobs := m.jobs.erase jobId } where
  staffed := h.staffed.of_eq rfl rfl
  named id j hj := by
    replace hj : (m.jobs.erase jobId).get? id = some j := hj
    rw [Dict.get?_erase] at hj
    split at hj
    · cases hj
    · exact h.named id j hj
  crewed {id n} hn := by
    obtain ⟨j, b, hj, hRest⟩ := h.crewed hn
    refine ⟨j, b, ?_, hRest⟩
    show (m.jobs.erase jobId).get? id = some j
    -- a job that has a dispatcher is not the one erased
    rw [Dict.get?_erase, if_neg, hj]
    rintro rfl
    rw [hNone] at hn
    cases hn
  known := h.known

/-- A change retires the old dispatcher, loads the definition and engages a new one. -/
theorem handleChange (h : Fits u m) (c : JobChange) : Fits u (m.handleChange u c) := by
  unfold Machine.handleChange
  split
  -- removed or saved, the job loses its dispatcher first
  · next id _ =>
    have hNone : (m.retire id).service.get? id = none := by rw [get?_retire, if_pos rfl]
    refine ((h.retire id).erase hNone).of_eq ?_ rfl rfl
    obtain ⟨_, _, hRetire⟩ := exists_retire m id
    rw [Machine.unload, hRetire]
  · next j _ _ =>
    have hNone : (m.retire j.withoutTasks.id).service.get? j.withoutTasks.id = none := by
      rw [get?_retire, if_pos rfl]
    have hLoaded := (h.retire j.withoutTasks.id).insert hNone
    cases hReplaced : m.service.contains j.withoutTasks.id with
    | true =>
      -- it makes no difference whether the definition or its dispatcher comes first
      simp only [Machine.load, hReplaced, if_true]
      exact (hLoaded.engage (by rw [Dict.get?_insert, if_pos rfl]) hNone).of_eq rfl rfl rfl
    | false =>
      simp only [Machine.load, hReplaced, Bool.false_eq_true, if_false]
      exact hLoaded
  · exact h

/-- A job gets a dispatcher when it first needs one. -/
theorem benchFor (h : Fits u m) {j : Job} (hj : m.jobs.get? j.id = some j) :
    Fits u (m.benchFor u j).1 := by
  unfold Machine.benchFor
  split
  · exact h
  · next hNone => exact h.engage hj hNone

/-- A dispatcher goes on with as many workers, and accepts runnables if it did. -/
theorem set (h : Fits u m) {n : Nat} {b b' : Bench} (hb : m.benches[n]? = some b)
    (hb' : b'.Staffed) (hOpen : b'.accepting = b.accepting)
    (hSize : b'.crew.length = b.crew.length) :
    Fits u { m with benches := m.benches.set n b' } where
  staffed := h.staffed.set hb hb' hOpen
  named := h.named
  crewed {id k} hk := by
    obtain ⟨j, x, hj, hx, hCrew⟩ := h.crewed hk
    have hLt : n < m.benches.length := (List.getElem?_eq_some_iff.mp hb).1
    -- the crew has its size, whichever dispatcher went on
    by_cases hSame : n = k
    · subst hSame
      obtain rfl : x = b := Option.some.inj (hx.symm.trans hb)
      exact ⟨j, b', hj, by simp [hLt], hSize.trans hCrew⟩
    · exact ⟨j, x, hj, by simp [hSame, hx], hCrew⟩
  known {k x} hx hAccepts := by
    simp only [List.getElem?_set] at hx
    split at hx
    · next hSame =>
      subst hSame
      split at hx
      · obtain rfl := Option.some.inj hx
        exact h.known hb (hOpen ▸ hAccepts)
      · cases hx
    · exact h.known hx hAccepts

/-- Stopping takes every dispatcher off the map. -/
theorem stopDispatchers (h : Fits u m) : Fits u m.stopDispatchers :=
  stopDispatchers_induction (fun _ jobId h => h.retire jobId) h

/-- What staffs a job keeps the dispatchers fitting. -/
theorem staffs (h : Fits u m) (hStaffed : m'.Staffed) (hJobs : m'.jobs = m.jobs)
    (hStaffs : Staffs u m m') : Fits u m' := by
  cases hStaffs with
  | alike hService hBenches => exact h.of_eq hJobs hService hBenches
  | @went n b b' hb hOpen hSize _ hService hBenches =>
    have hHere : b' ∈ m'.benches := by
      rw [hBenches]
      exact List.mem_set (List.getElem?_eq_some_iff.mp hb).1 b'
    exact (h.set hb (hStaffed.benches b' hHere) hOpen hSize).of_eq hJobs hService hBenches
  | @routed r t j b _ hJob hb hService hBenches =>
    have hLoaded : m.jobs.get? j.id = some j := by rw [h.named _ _ hJob, hJob]
    have hBench := h.benchFor hLoaded
    have hMore := (hBench.staffed.benches b (List.mem_of_getElem? hb)).queue (b.queue ++ [r])
    exact (hBench.set hb hMore rfl rfl).of_eq (hJobs.trans (jobs_benchFor u m j).symm) hService
      hBenches
  | stopped hService hBenches =>
    -- stopping all dispatchers is taking one after another out of service
    refine h.stopDispatchers.of_eq ?_ hService hBenches
    obtain ⟨_, _, hStop⟩ := exists_stopDispatchers m
    rw [hJobs, hStop]

end Fits

/-! ## Steps in turn -/

/-- A job that a listener is about to load is not loaded. -/
def Vacant (m : Machine) : Prop :=
  ∀ c id, (m.ears.get c).sought = some id → m.jobs.get? id = none

/-- What is kept in turn. -/
structure Orderly (u : Setup) (m : Machine) : Prop where
  fits : Fits u m
  vacant : m.Vacant

section Steps

variable {u : Setup} {m m' : Machine}

theorem Vacant.setEar (h : m.Vacant) {c : Channel} {ear : Ear}
    (hEar : ∀ id, ear.sought = some id → m.jobs.get? id = none) (hJobs : m'.jobs = m.jobs)
    (hEars : m'.ears = m.ears.set ear c) : m'.Vacant := by
  intro c' id hSought
  rw [hEars] at hSought
  rw [hJobs]
  by_cases hSame : c' = c
  · subst hSame
    rw [Ears.get_set] at hSought
    exact hEar id hSought
  · rw [Ears.get_set_of_ne _ _ hSame] at hSought
    exact h c' id hSought

theorem vacant_of_rests (h : ∀ c, (m'.ears.get c).rests = true) : m'.Vacant := by
  intro c id hSought
  rw [Ear.sought_of_rests (h c)] at hSought
  cases hSought

namespace Orderly

/-- A listener may seek a job only while there is none loaded. -/
theorem setEar (h : Orderly u m) {c : Channel} {ear : Ear}
    (hEar : ∀ id, ear.sought = some id → m.jobs.get? id = none) (hJobs : m'.jobs = m.jobs)
    (hEars : m'.ears = m.ears.set ear c) (hService : m'.service = m.service)
    (hBenches : m'.benches = m.benches) : Orderly u m' :=
  ⟨h.fits.of_eq hJobs hService hBenches, h.vacant.setEar hEar hJobs hEars⟩

/-- A step of a listener keeps the service orderly. -/
theorem heeds {c : Channel} {hs : List Happening} (h : Orderly u m)
    (hFaithful : m.floor.catalog.Faithful)
    (hOthers : ∀ c', c' ≠ c → (m.ears.get c').rests = true) (hHeeds : Heeds u m c hs m') :
    Orderly u m' := by
  have hNone {ear : Ear} (hEar : ear.sought = none) :
      ∀ id, ear.sought = some id → m.jobs.get? id = none := by
    intro id hSought
    rw [hEar] at hSought
    cases hSought
  cases hHeeds with
  | @change t x _ hEar _ =>
    have hHeard : Fits u { m with changes := t } := h.fits.of_eq rfl rfl rfl
    refine ⟨hHeard.handleChange x, vacant_of_rests fun c' => ?_⟩
    obtain ⟨_, _, hHandled⟩ := exists_handleChange u { m with changes := t } x
    rw [hHandled]
    show (m.ears.get c').rests = true
    by_cases hSame : c' = c
    · rw [hSame, hEar]
      rfl
    · exact hOthers c' hSame
  | tree | attributes | trigger => exact h.setEar (hNone rfl) rfl rfl rfl rfl
  | @known x j => exact h.setEar (hNone (sought_triggered x j)) rfl rfl rfl rfl
  | @unknown x _ hJob =>
    refine h.setEar (fun id hSought => ?_) rfl rfl rfl rfl
    obtain rfl := Option.some.inj hSought
    exact hJob
  | @found x j hEar hRead =>
    refine h.setEar (fun id hSought => ?_) rfl rfl rfl rfl
    obtain rfl := Option.some.inj hSought
    -- the catalog has a job under its own identifier, and that one was not loaded
    rw [hFaithful.id_of_getJob hRead]
    exact h.vacant c x.jobId (by rw [hEar]; rfl)
  | missing | errand | done => exact h.setEar (hNone rfl) rfl rfl rfl rfl
  | @load x j hEar =>
    have hVacant : m.jobs.get? j.id = none := h.vacant c j.id (by rw [hEar]; rfl)
    -- a dispatcher would be for a job that is loaded already
    have hFree : m.service.get? j.id = none := by
      cases hService : m.service.get? j.id with
      | none => rfl
      | some n =>
        obtain ⟨j', _, hLoaded, -⟩ := h.fits.crewed hService
        rw [hVacant] at hLoaded
        cases hLoaded
    refine ⟨(h.fits.insert hFree).of_eq rfl rfl rfl, fun c' id hSought => ?_⟩
    replace hSought : ((m.ears.set (triggered x j) c).get c').sought = some id := hSought
    by_cases hSame : c' = c
    · rw [hSame, Ears.get_set, sought_triggered] at hSought
      cases hSought
    · rw [Ears.get_set_of_ne _ _ hSame, Ear.sought_of_rests (hOthers c' hSame)] at hSought
      cases hSought

/-- **Every step in turn** keeps the dispatchers fitting. -/
theorem step {s : MachineStep} (h : Orderly u m) (hFaithful : m.floor.catalog.Faithful)
    (hTurn : m.inTurn s = true) (hStep : m.step u s = some m') : Orderly u m' := by
  rcases heeds_or_aside h.fits.staffed hStep with ⟨c, rfl, hHeeds⟩ | ⟨-, -, hAside⟩
  · exact h.heeds hFaithful (inTurn_listen_iff.mp hTurn) hHeeds
  · refine ⟨h.fits.staffs (step_staffed h.fits.staffed hStep) hAside.jobs hAside.staffs, ?_⟩
    intro c id hSought
    rw [hAside.jobs]
    rcases hAside.ears c with hSame | ⟨hDeaf, -⟩
    · exact h.vacant c id (hSame ▸ hSought)
    · rw [hDeaf] at hSought
      cases hSought

end Orderly

/-- At the start there are no dispatchers. -/
theorem orderly_of_start {now : Int64} {catalog : Catalog} {capacity : Nat}
    (hStart : start u now catalog capacity = .ok m) : Orderly u m := by
  have hNamed := (housed_of_start hStart "" 0).named
  have hStaffed := staffed_of_start hStart
  obtain ⟨js, -, rfl⟩ := exists_of_start hStart
  refine ⟨⟨hStaffed, hNamed, fun hn => ?_, fun hb => ?_⟩, vacant_of_rests fun c => ?_⟩
  · simp [Dict.get?, Dict.empty, Dict.lookup] at hn
  · simp at hb
  · cases c <;> rfl

/-! ## Where runnables go -/

theorem queueAt_of_eq (h : m'.benches = m.benches) (n : Nat) : m'.queueAt n = m.queueAt n := by
  rw [queueAt, queueAt, h]

/-- A change of a job leaves what is queued at a dispatcher, also at one that it stops. -/
theorem queueAt_handleChange (u : Setup) (m : Machine) (c : JobChange) (n : Nat) :
    (m.handleChange u c).queueAt n = m.queueAt n :=
  seenAt_handleChange (fun _ => rfl) (fun _ => rfl) u m c n

theorem queueAt_heeds {c : Channel} {hs : List Happening} (h : Heeds u m c hs m') (n : Nat) :
    m'.queueAt n = m.queueAt n := by
  cases h with
  | change => exact queueAt_handleChange u _ _ n
  | tree | attributes | trigger | known | unknown | found | missing | load | errand | done => rfl

theorem queueAt_stopDispatchers (m : Machine) (n : Nat) :
    m.stopDispatchers.queueAt n = m.queueAt n :=
  seenAt_stopDispatchers (fun _ => rfl) m n

/-- A step of one dispatcher leaves the queues of the others. -/
theorem queueAt_set {n : Nat} {b : Bench} (hb : m.benches[n]? = some b) (b' : Bench) (k : Nat)
    (hBenches : m'.benches = m.benches.set n b') :
    m'.queueAt k = if n = k then b'.queue else m.queueAt k :=
  seenAt_set hb b' k hBenches

/-- `route` puts a runnable into the queue of the dispatcher in service for its job, which is
loaded. -/
structure Hands (m m' : Machine) (n : Nat) (r : Runnable) : Prop where
  queued : m'.queueAt n = m.queueAt n ++ [r]
  loaded : ∃ t j, m'.floor.tasks[r.task]? = some t ∧ m.jobs.get? t.job.id = some j ∧
    m'.service.get? t.job.id = some n

/-- What a step does to a queue: it takes something out of it, or it puts one runnable in. -/
theorem queueAt_of_step {s : MachineStep} (h : Fits u m) (hStep : m.step u s = some m') (n : Nat) :
    m'.queueAt n <:+ m.queueAt n ∨ ∃ r, m.Hands m' n r := by
  rcases heeds_or_aside h.staffed hStep with ⟨c, rfl, hHeeds⟩ | ⟨-, -, hAside⟩
  · -- listeners start tasks, and leave their runnables to the router
    exact .inl (queueAt_heeds hHeeds n ▸ List.suffix_rfl)
  · cases hAside.staffs with
    | alike _ hBenches => exact .inl (queueAt_of_eq hBenches n ▸ List.suffix_rfl)
    | @went k b b' hb _ _ hQueue _ hBenches =>
      refine .inl ?_
      rw [queueAt_set hb b' n hBenches]
      split
      · next hSame =>
        rw [← hSame, queueAt, hb]
        exact hQueue
      · exact List.suffix_rfl
    | @routed r t j b ht hJob hb hService hBenches =>
      have hId : j.id = t.job.id := h.named _ _ hJob
      have hAfter := queueAt_set hb { b with queue := b.queue ++ [r] } n hBenches
      have hServed := (h.staffed.benchFor u j).2
      -- only the queue of the dispatcher that serves the job grows
      by_cases hSame : (m.benchFor u j).2 = n
      · subst hSame
        rw [if_pos rfl] at hAfter
        refine .inr ⟨r, ?_, t, j, ht, hJob, ?_⟩
        · rw [hAfter, ← queueAt_benchFor u m j, queueAt, hb]
          rfl
        · rw [hService, ← hId]
          exact hServed
      · rw [if_neg hSame, queueAt_benchFor] at hAfter
        exact .inl (hAfter ▸ List.suffix_rfl)
    | stopped _ hBenches =>
      rw [queueAt_of_eq hBenches, queueAt_stopDispatchers]
      exact .inl List.suffix_rfl

/-! ## The router -/

theorem now_mark (f : Floor) (i : Nat) (s : TaskStep) : (f.mark i s).now = f.now := by
  obtain ⟨tasks, writer, hMark⟩ := f.exists_mark i s
  rw [hMark]

/-- A busy router makes its next mark. -/
theorem stepRouter_mark {i : Nat} {s : TaskStep} {rest : List Deed}
    (h : m.router = .busy { task := i, deeds := .mark s :: rest }) :
    m.step u .route = some { m.onFloor (m.floor.mark i s) with
      router := .busy { task := i, deeds := rest } } := by
  show m.stepRouter u = _
  rw [stepRouter, h]
  rfl

/-- A router that has carried everything out waits again. -/
theorem stepRouter_done {i : Nat} (h : m.router = .busy { task := i }) :
    m.step u .route = some { m with router := .waiting } := by
  show m.stepRouter u = _
  rw [stepRouter, h]
  rfl

/-- The router as it goes on to the next runnable. -/
def Routed (m : Machine) (rest : List Runnable) (m' : Machine) : Prop :=
  m'.router = .waiting ∧ m'.floor.main = rest ∧ m'.jobs = m.jobs

/-- A runnable of a loaded job is handed to the dispatcher of its job. -/
theorem Fits.exists_hands (h : Fits u m) {r : Runnable} {rest : List Runnable} {t : LiveTask}
    {j : Job} (hRouter : m.router = .waiting) (hMain : m.floor.main = r :: rest)
    (ht : m.floor.tasks[r.task]? = some t) (hJob : m.jobs.get? t.job.id = some j) :
    ∃ m' n, m.step u .route = some m' ∧ m.Hands m' n r ∧ m.Routed rest m' := by
  have hTaken : (m.onFloor { m.floor with main := rest }).Staffed := h.staffed.of_eq rfl rfl
  have hHere : ((m.onFloor { m.floor with main := rest }).floor.tasks[r.task]?).bind
      (fun t => (m.onFloor { m.floor with main := rest }).jobs.get? t.job.id) = some j := by
    show (m.floor.tasks[r.task]?).bind _ = _
    rw [ht]
    exact hJob
  rcases hTaken.route_cases u r with ⟨hNone, -⟩ | ⟨j', b, hSome, hb, hRouted⟩
  · rw [hHere] at hNone
    cases hNone
  · obtain rfl : j = j' := Option.some.inj (hHere.symm.trans hSome)
    -- which dispatcher it is does not depend on what waits for the router
    rw [benchFor_onFloor] at hb hRouted
    let m₁ := (m.benchFor u j).1.onFloor { m.floor with main := rest }
    have hStep : m.step u .route = some { m₁ with
        benches := m₁.benches.set (m.benchFor u j).2 { b with queue := b.queue ++ [r] } } := by
      show m.stepRouter u = _
      rw [stepRouter, hRouter, hMain]
      dsimp only
      rw [hRouted]
      rfl
    refine ⟨_, (m.benchFor u j).2, hStep, ⟨?_, t, j, ht, hJob, ?_⟩, ?_, rfl, ?_⟩
    · rw [queueAt_set (m := (m.benchFor u j).1) hb { b with queue := b.queue ++ [r] } _ rfl,
        if_pos rfl, ← queueAt_benchFor u m j, queueAt]
      exact congrArg (fun o => Option.elim o [] Dispatcher.queue ++ [r]) hb.symm
    · show (m.benchFor u j).1.service.get? t.job.id = _
      rw [← h.named _ _ hJob]
      exact (h.staffed.benchFor u j).2
    · exact (benchFor_keeps u m j).2.2.trans hRouter
    · exact jobs_benchFor u m j

/-- A task that is turned away is interrupted, and then released. -/
theorem tasks_turnedAway {f : Floor} {i : Nat} {t : LiveTask} (ht : f.tasks[i]? = some t)
    (reason : String) :
    ((f.mark i (.interrupt reason)).mark i .release).main = f.main ∧
      ∃ outlet, ((f.mark i (.interrupt reason)).mark i .release).tasks = f.tasks.set i { t with
        record := (t.record.transition f.now .interrupted reason).release f.now, outlet } := by
  obtain ⟨⟨outlet₁, hTasks₁⟩, hMain₁, -, -⟩ := Floor.marks_mark ht (.interrupt reason)
  have hLt : i < f.tasks.length := (List.getElem?_eq_some_iff.mp ht).1
  -- the release finds the record that the interruption left
  have ht₁ : (f.mark i (.interrupt reason)).tasks[i]? = some { t with
      record := t.record.transition f.now .interrupted reason, outlet := outlet₁ } := by
    rw [hTasks₁, List.getElem?_set_self hLt]
    rfl
  obtain ⟨⟨outlet₂, hTasks₂⟩, hMain₂, -, -⟩ := Floor.marks_mark ht₁ .release
  refine ⟨hMain₂.trans hMain₁, outlet₂, ?_⟩
  rw [hTasks₂, hTasks₁, List.set_set, now_mark]
  rfl

/-- A runnable whose job is not loaded costs its task a reference, and no dispatcher anything. -/
theorem exists_turnedAway {r : Runnable} {rest : List Runnable} {t : LiveTask}
    (hRouter : m.router = .waiting) (hMain : m.floor.main = r :: rest)
    (ht : m.floor.tasks[r.task]? = some t) (hGone : m.jobs.get? t.job.id = none) :
    ∃ m', m.run u (fun _ _ => true) [.route, .route, .route, .route] = some m' ∧
      m.Routed rest m' ∧ m'.service = m.service ∧ m'.benches = m.benches ∧
      ∃ outlet, m'.floor.tasks = m.floor.tasks.set r.task { t with
        record := (t.record.transition m.floor.now .interrupted "job removed").release m.floor.now,
        outlet } := by
  let f := { m.floor with main := rest }
  have hFirst : m.step u .route = some { m.onFloor f with
      router := .busy { task := r.task, deeds := turnAway "job removed" } } := by
    show m.stepRouter u = _
    have hNone : ((m.onFloor f).floor.tasks[r.task]?).bind
        (fun t => (m.onFloor f).jobs.get? t.job.id) = none := by
      show (m.floor.tasks[r.task]?).bind _ = none
      rw [ht]
      exact hGone
    rw [stepRouter, hRouter, hMain]
    dsimp only
    rw [route, hNone]
    rfl
  -- then one step for each of the two deeds, and one to go on
  obtain ⟨hRest, outlet, hTasks⟩ := tasks_turnedAway (f := f) ht "job removed"
  refine ⟨{ m.onFloor ((f.mark r.task (.interrupt "job removed")).mark r.task .release) with
    router := .waiting }, ?_, ⟨rfl, hRest, rfl⟩, rfl, rfl, outlet, hTasks⟩
  simp only [run, if_true, hFirst, Option.bind_some]
  rw [stepRouter_mark rfl, Option.bind_some, stepRouter_mark rfl, Option.bind_some,
    stepRouter_done rfl, Option.bind_some]
  rfl

/-- A caller makes its next mark. -/
theorem call_mark {callers : List Errand} {i : Nat} {s : TaskStep} {rest : List Deed}
    (h : m.callers = callers ++ [{ task := i, deeds := .mark s :: rest }]) :
    m.step u (.call callers.length) = some { m.onFloor (m.floor.mark i s) with
      callers := callers ++ [{ task := i, deeds := rest }] } := by
  show m.call u callers.length = _
  rw [call, h, List.getElem?_concat_length]
  simp only [runErrand, Floor.perform, List.nil_append]
  rw [List.set_append_right _ _ (Nat.le_refl _), Nat.sub_self, List.set_cons_zero]

/-- A caller that has carried everything out is gone. -/
theorem call_done {callers : List Errand} {i : Nat} (h : m.callers = callers ++ [{ task := i }]) :
    m.step u (.call callers.length) = some { m with callers } := by
  show m.call u callers.length = _
  rw [call, h, List.getElem?_concat_length]
  simp only [runErrand]
  rw [List.eraseIdx_append_of_length_le (Nat.le_refl _), Nat.sub_self, List.eraseIdx_zero,
    List.tail_cons, List.append_nil]

/-- A caller from outside sees to it if the job of its runnable is not loaded. -/
theorem exists_submittedAway {j : Job} (a : Action) (input : Message)
    (hGone : m.jobs.get? j.id = none) :
    ∃ m₁ m' t, m.step u (.submit j a input) = some m₁ ∧
      m₁.floor.tasks[m.floor.tasks.length]? = some t ∧ t.job = j ∧
      m₁.run u (fun _ _ => true) (List.replicate 3 (.call m.callers.length)) = some m' ∧
      m'.callers = m.callers ∧ m'.service = m.service ∧ m'.benches = m.benches ∧
      ∃ outlet, m'.floor.tasks = m₁.floor.tasks.set m.floor.tasks.length { t with
        record := (t.record.transition m.floor.now .interrupted "job removed").release m.floor.now,
        outlet } := by
  let i := m.floor.tasks.length
  let f := (m.floor.addTask u j (.aside [])).mark i .retain
  obtain ⟨⟨outlet, hTasks⟩, -⟩ := Floor.marks_mark (f := m.floor.addTask u j (.aside []))
    (t := { job := j, record := j.freshTask (u.taskId i), outlet := .aside [] })
    List.getElem?_concat_length .retain
  -- the task is new, and holds a reference for its runnable
  let t : LiveTask :=
    { job := j, record := TaskStep.retain.apply m.floor.now (j.freshTask (u.taskId i)), outlet }
  have ht : f.tasks[i]? = some t := by
    rw [hTasks, List.getElem?_set_self]
    · rfl
    · simp [Floor.addTask]
  have hNone : ((m.onFloor f).floor.tasks[i]?).bind
      (fun t => (m.onFloor f).jobs.get? t.job.id) = none := by
    show (f.tasks[i]?).bind _ = none
    rw [ht]
    exact hGone
  have hRoute : (m.onFloor f).route u { action := a, task := i, input } =
      (m.onFloor f, turnAway "job removed") := by
    rw [route, hNone]
  let m₁ : Machine := { m.onFloor f with
    callers := m.callers ++ [{ task := i, deeds := turnAway "job removed" }] }
  have hFirst : m.step u (.submit j a input) = some m₁ := by
    show some (m.submit u j a input) = _
    rw [submit_eq hRoute]
    rfl
  have hNow : f.now = m.floor.now := now_mark _ _ _
  obtain ⟨-, outlet', hTasks'⟩ := tasks_turnedAway ht "job removed"
  rw [hNow] at hTasks'
  refine ⟨m₁, m.onFloor ((f.mark i (.interrupt "job removed")).mark i .release), t, hFirst, ht, rfl,
    ?_, rfl, rfl, rfl, outlet', hTasks'⟩
  simp only [List.replicate, run, if_true]
  rw [call_mark rfl, Option.bind_some, call_mark rfl, Option.bind_some, call_done rfl,
    Option.bind_some]
  rfl

end Steps

/-! ## Every run -/

/-- How dispatchers and loaded jobs fit, and where a runnable goes from here. -/
structure Fitted (u : Setup) (m : Machine) : Prop where
  /-- A dispatcher in service is for a loaded job, and has the workers of its definition. -/
  served {id : String} {n : Nat} (h : m.service.get? id = some n) :
    ∃ j b, m.jobs.get? id = some j ∧ j.id = id ∧ m.benches[n]? = some b ∧ b.accepting = true ∧
      b.workers = j.workers u.defaultWorkers
  /-- It is for no other job. -/
  apart : ∀ id id' n, m.service.get? id = some n → m.service.get? id' = some n → id = id'
  /-- All others were stopped. -/
  alone {n : Nat} {b : Bench} (hb : m.benches[n]? = some b) (hOpen : b.accepting = true) :
    ∃ id, m.service.get? id = some n
  /-- Only a runnable of a job that is loaded is put into a queue, and it is the right one. -/
  queues {s : MachineStep} {m' : Machine} (h : m.step u s = some m') (n : Nat) :
    m'.queueAt n <:+ m.queueAt n ∨ ∃ r, m.Hands m' n r
  /-- The router sees to that. -/
  hands {r : Runnable} {rest : List Runnable} {t : LiveTask} {j : Job}
    (hRouter : m.router = .waiting) (hMain : m.floor.main = r :: rest)
    (ht : m.floor.tasks[r.task]? = some t) (hJob : m.jobs.get? t.job.id = some j) :
    ∃ m' n, m.step u .route = some m' ∧ m.Hands m' n r ∧ m.Routed rest m'
  /-- If the job is not loaded, the router interrupts the task and releases it. -/
  turnedAway {r : Runnable} {rest : List Runnable} {t : LiveTask} (hRouter : m.router = .waiting)
    (hMain : m.floor.main = r :: rest) (ht : m.floor.tasks[r.task]? = some t)
    (hGone : m.jobs.get? t.job.id = none) :
    ∃ m', m.run u (fun _ _ => true) [.route, .route, .route, .route] = some m' ∧
      m.Routed rest m' ∧ m'.service = m.service ∧ m'.benches = m.benches ∧
      ∃ outlet, m'.floor.tasks = m.floor.tasks.set r.task { t with
        record := (t.record.transition m.floor.now .interrupted "job removed").release m.floor.now,
        outlet }
  /-- So does someone who routes a runnable of a task of its own. -/
  submittedAway {j : Job} (a : Action) (input : Message) (hGone : m.jobs.get? j.id = none) :
    ∃ m₁ m' t, m.step u (.submit j a input) = some m₁ ∧
      m₁.floor.tasks[m.floor.tasks.length]? = some t ∧ t.job = j ∧
      m₁.run u (fun _ _ => true) (List.replicate 3 (.call m.callers.length)) = some m' ∧
      m'.callers = m.callers ∧ m'.service = m.service ∧ m'.benches = m.benches ∧
      ∃ outlet, m'.floor.tasks = m₁.floor.tasks.set m.floor.tasks.length { t with
        record := (t.record.transition m.floor.now .interrupted "job removed").release m.floor.now,
        outlet }

/-- What fits, seen from the jobs: each one that is served has the workers of its definition. -/
theorem Fits.fitted {u : Setup} {m : Machine} (h : Fits u m) : Fitted u m where
  served hn := by
    obtain ⟨j, b, hj, hb, hCrew⟩ := h.crewed hn
    obtain ⟨b', hb', hAccepts⟩ := h.staffed.service _ _ hn
    obtain rfl : b' = b := Option.some.inj (hb'.symm.trans hb)
    exact ⟨j, b', hj, h.named _ _ hj, hb, hAccepts, hCrew⟩
  apart := h.staffed.apart
  alone := h.known
  queues := queueAt_of_step h
  hands := h.exists_hands
  turnedAway := exists_turnedAway
  submittedAway := exists_submittedAway

/-- **The dispatchers in service fit the loaded jobs**, however often these are saved, removed and
triggered, as long as each message is seen to before the next one is heard. The router, the workers
and all others may come in at any time. -/
theorem dispatchers_fit {u : Setup} {now : Int64} {changes : List Catalog.Change} {capacity : Nat}
    {m₀ m : Machine} {ss : List MachineStep}
    (hStart : start u now (Catalog.after changes) capacity = .ok m₀)
    (hRun : Course u (fun m s => m.inTurn s = true) m₀ ss m) : Fitted u m := by
  have hFirst : m₀.floor.catalog.Faithful := by
    rw [catalog_of_start hStart]
    exact Catalog.Faithful.after changes
  have hKept : Orderly u m ∧ m.floor.catalog.Faithful := by
    refine hRun.invariant (P := fun m => Orderly u m ∧ m.floor.catalog.Faithful) ?_
      ⟨orderly_of_start hStart, hFirst⟩
    intro m m' s hm hTurn hStep
    exact ⟨hm.1.step hm.2 hTurn hStep, faithful_of_step hm.2 hStep⟩
  exact hKept.1.fits.fitted

/-- The job has three workers from now on. -/
def widerJob : Job := { plainJob with maxConcurrency := 3 }

/-- A trigger of the job is heard and its task started, up to the runnable in the main queue. -/
def triggeringSteps : List MachineStep :=
  .publish (.trigger { jobId := "j" }) :: List.replicate 7 (.listen .timers)

/-- A runnable of the job is routed; then the job is saved with another number of workers. -/
def refittingSteps : List MachineStep :=
  [.publish (.job (.saved plainJob)), .listen .jobs] ++ triggeringSteps ++
    [.route, .publish (.job (.saved widerJob)), .listen .jobs]

/-- Another task is started, and the job is removed before its runnable is routed. -/
def removingSteps : List MachineStep :=
  triggeringSteps ++ [.publish (.job (.gone "j")), .listen .jobs]

/-- The dispatcher of the job is replaced by one with three workers, and after the removal of the
job its second task is interrupted. -/
theorem dispatchers_fit_refittingSteps :
    ∃ m₀ m₁ m₂ m', start bareSetup 0 (Catalog.after []) 8 = .ok m₀ ∧
      m₀.run bareSetup inTurn refittingSteps = some m₁ ∧
      m₁.run bareSetup inTurn removingSteps = some m₂ ∧
      (∃ b, m₁.bench? "j" = some b ∧ b.workers = 3) ∧ (m₁.queueAt 0).length = 1 ∧
      m₂.run bareSetup (fun _ _ => true) [.route, .route, .route, .route] = some m' ∧
      m'.benches = m₂.benches ∧
      m'.floor.tasks.map (fun t => (t.record.status, t.record.pending)) =
        [(.idle, 1), (.interrupted, 0)] := by
  obtain ⟨m₀, m₁, m₂, r, t₀, t₁, hStart, hFirst, hSecond, ⟨hService, hLoaded, hQueue⟩,
      hRouter, hMain, hTasks, hTask, hGone, hIdle, hEnded⟩ : ∃ m₀ m₁ m₂ r t₀ t₁,
      start bareSetup 0 (Catalog.after []) 8 = .ok m₀ ∧
      m₀.run bareSetup inTurn refittingSteps = some m₁ ∧
      m₁.run bareSetup inTurn removingSteps = some m₂ ∧
      (m₁.service.get? "j" = some 1 ∧ m₁.jobs.get? "j" = some widerJob ∧
        (m₁.queueAt 0).length = 1) ∧
      m₂.router = .waiting ∧ m₂.floor.main = [r] ∧ m₂.floor.tasks = [t₀, t₁] ∧ r.task = 1 ∧
      m₂.jobs.get? t₁.job.id = none ∧ (t₀.record.status, t₀.record.pending) = (.idle, 1) ∧
      (((t₁.record.transition m₂.floor.now .interrupted "job removed").release m₂.floor.now).status,
        ((t₁.record.transition m₂.floor.now .interrupted "job removed").release
          m₂.floor.now).pending) = (.interrupted, 0) :=
    ⟨_, _, _, _, _, _, rfl, rfl, rfl, ⟨rfl, rfl, rfl⟩, rfl, rfl, rfl, rfl, rfl, rfl, rfl⟩
  have hRun := Course.of_run (fun _ _ h => h) hFirst
  have hRun' := hRun.append (Course.of_run (fun _ _ h => h) hSecond)
  -- the dispatcher has the workers of the definition that is loaded
  obtain ⟨j, b, hj, -, hb, -, hWorkers⟩ := (dispatchers_fit hStart hRun).served hService
  obtain rfl : widerJob = j := Option.some.inj (hLoaded.symm.trans hj)
  have ht : m₂.floor.tasks[r.task]? = some t₁ := by
    rw [hTasks, hTask]
    rfl
  obtain ⟨m', hRouted, -, -, hBenches, outlet, hTasks'⟩ :=
    (dispatchers_fit hStart hRun').turnedAway hRouter hMain ht hGone
  refine ⟨m₀, m₁, m₂, m', hStart, hFirst, hSecond, ⟨b, ?_, hWorkers⟩, hQueue, hRouted, hBenches, ?_⟩
  · rw [bench?, hService]
    exact hb
  · rw [hTasks', hTasks, hTask]
    exact congrArg₂ (fun x y => [x, y]) hIdle hEnded

end Machine

end Taskyard
