import Taskyard.Proofs.Scheduler.Frames
import Taskyard.Proofs.Scheduler.Listening

/-!
# Scheduler — dispatchers always have hands

A dispatcher keeps its workers for as long as its loop goes on, its pool names waiting workers
only, and its loop ends only after it was stopped. So no runnable that was accepted is ever given
back, and a dispatcher in service accepts whatever is routed to it.

Main results:

* `Dispatcher.Stepped`, `Dispatcher.Staffed.stepped` — what a step of a dispatcher can do; no step
  gives a runnable back.
* `Dispatcher.step_staffed` — every step of a dispatcher keeps it staffed.
* `Machine.stopDispatchers_induction`, `Machine.handleChange_induction` — what every stop and start
  of a dispatcher keeps.
* `Machine.step_staffed` — every step of the machine keeps it for all dispatchers, and keeps the
  dispatchers in service open and apart.
* `Machine.Staffed.exists_dispatch` — a dispatcher in service accepts a runnable.
-/

namespace Taskyard

namespace Dispatcher

variable {ρ ε : Type}

/-! ## One dispatcher -/

/-- What is always true of a dispatcher: it has workers, none of whom leaves before the loop has
ended; the pool names waiting workers, each once, and is empty after the end of the loop; and the
loop has not ended while the dispatcher accepts runnables. -/
structure Staffed (d : Dispatcher ρ ε) : Prop where
  manned   : d.crew ≠ []
  present  : d.loop ≠ .ended → ∀ w ∈ d.crew, isGone w = false
  ready    : ∀ n ∈ d.pool, d.crew[n]? = some .waiting
  distinct : d.pool.Nodup
  drained  : d.loop = .ended → d.pool = []
  lasting  : d.accepting = true → d.loop ≠ .ended

/-- A new dispatcher has its workers, and they are free. -/
theorem start_staffed (workers : Nat) : (start workers : Dispatcher ρ ε).Staffed where
  manned := by
    intro h
    have hLen := congrArg List.length h
    simp only [start, List.length_replicate, List.length_nil] at hLen
    omega
  present _ w hw := by
    rw [(List.mem_replicate.mp hw).2]
    rfl
  ready n hn := by simp [start] at hn
  distinct := List.nodup_nil
  drained _ := rfl
  lasting _ := by simp [start]

/-- A dispatcher that is stopped keeps its workers. -/
theorem Staffed.stop {d : Dispatcher ρ ε} (h : d.Staffed) : d.stop.Staffed where
  manned := h.manned
  present := h.present
  ready := h.ready
  distinct := h.distinct
  drained := h.drained
  lasting := by simp [Dispatcher.stop]

/-- A dispatcher whose loop goes on accepts a runnable, and stays as it is but for its queue. -/
theorem dispatch_eq_some {d : Dispatcher ρ ε} (h : d.loop ≠ .ended) (r : ρ) :
    d.dispatch r = some { d with queue := d.queue ++ [r] } := by
  unfold dispatch
  split
  · next hEnded => exact absurd hEnded h
  · rfl

/-- A longer queue leaves a dispatcher staffed. -/
theorem Staffed.queue {d : Dispatcher ρ ε} (h : d.Staffed) (queue : List ρ) :
    ({ d with queue } : Dispatcher ρ ε).Staffed :=
  ⟨h.manned, h.present, h.ready, h.distinct, h.drained, h.lasting⟩

/-- The end of the loop of a stopped dispatcher leaves it staffed. -/
theorem Staffed.closeLoop {d : Dispatcher ρ ε} (h : d.Staffed) (hStopped : d.accepting = false) :
    d.closeLoop.Staffed where
  manned := h.manned
  present hLoop := absurd rfl hLoop
  ready n hn := by simp [Dispatcher.closeLoop] at hn
  distinct := List.nodup_nil
  drained _ := rfl
  lasting hOpen := by
    have hClosed : d.closeLoop.accepting = false := hStopped
    rw [hClosed] at hOpen
    exact absurd hOpen (by simp)

/-- A dispatcher stays staffed when a worker outside of the pool does something else, as long as it
does not leave before the loop. -/
theorem Staffed.assign {d : Dispatcher ρ ε} (h : d.Staffed) {n : Nat} {w : Worker ρ ε}
    (hPool : n ∉ d.pool) (hGone : d.loop ≠ .ended → isGone w = false) :
    (d.assign n w).Staffed where
  manned := by
    intro hNil
    exact h.manned (List.length_eq_zero_iff.mp (by
      have := congrArg List.length hNil
      simpa [Dispatcher.assign] using this))
  present hLoop x hx := by
    rcases List.mem_or_eq_of_mem_set hx with hx | rfl
    · exact h.present hLoop x hx
    · exact hGone hLoop
  ready k hk := by
    -- whoever is in the pool is not the worker who is assigned
    have hNe : n ≠ k := fun hEq => hPool (hEq ▸ hk)
    show (d.crew.set n w)[k]? = some .waiting
    rw [List.getElem?_set_ne hNe]
    exact h.ready k hk
  distinct := h.distinct
  drained := h.drained
  lasting := h.lasting

/-- A worker who does anything but wait is not in the pool. -/
theorem Staffed.not_mem_pool {d : Dispatcher ρ ε} (h : d.Staffed) {n : Nat} {w : Worker ρ ε}
    (hw : d.crew[n]? = some w) (hWait : w ≠ .waiting) : n ∉ d.pool := by
  intro hn
  rw [h.ready n hn] at hw
  exact hWait (Option.some.inj hw).symm

/-- A staffed dispatcher hands its runnable to the first worker of its pool, who waits for one. -/
theorem Staffed.handOver {d d' : Dispatcher ρ ε} {r : ρ} {returned : Returned ρ}
    (h : d.Staffed) (hLoop : d.loop = .matching r) (hStep : d.handOver r = some (d', returned)) :
    ∃ n rest, d.pool = n :: rest ∧ d.crew[n]? = some .waiting ∧ returned = none ∧
      d' = { d.assign n (.handed r) with
        pool := rest, loop := .receiving, dispatched := d.dispatched + 1 } := by
  unfold Dispatcher.handOver at hStep
  split at hStep
  · next n rest hPool =>
    have hWaiting : d.crew[n]? = some .waiting := h.ready n (by simp [hPool])
    rw [hWaiting] at hStep
    obtain ⟨rfl, rfl⟩ := Prod.mk.inj (Option.some.inj hStep)
    exact ⟨n, rest, hPool, hWaiting, rfl, rfl⟩
  · -- an empty pool would need a crew of which everyone has left
    split at hStep
    · next hAll =>
      obtain ⟨w, rest, hCrew⟩ := List.exists_cons_of_ne_nil h.manned
      have hHere := h.present (by simp [hLoop]) w (by simp [hCrew])
      have hLeft := List.all_eq_true.mp hAll w (by simp [hCrew])
      rw [hHere] at hLeft
      exact absurd hLeft (by simp)
    · exact absurd hStep (by simp)

section Steps

variable {begin : ρ → ε} {d d' : Dispatcher ρ ε} {s : DispatcherStep}

/-- What a step of a staffed dispatcher does. No step gives a runnable back. -/
inductive Stepped (begin : ρ → ε) (d : Dispatcher ρ ε) : DispatcherStep → Dispatcher ρ ε → Prop
  | took {r : ρ} {rest : List ρ} (hLoop : d.loop = .receiving) (hQueue : d.queue = r :: rest) :
      Stepped begin d .take { d with queue := rest, loop := .matching r }
  | closed (hLoop : d.loop = .receiving) (hQueue : d.queue = []) (hStopped : d.accepting = false) :
      Stepped begin d .take d.closeLoop
  | handed {r : ρ} {n : Nat} {rest : List Nat} (hLoop : d.loop = .matching r)
      (hPool : d.pool = n :: rest) (hWorker : d.crew[n]? = some .waiting) :
      Stepped begin d .hand { d.assign n (.handed r) with
        pool := rest, loop := .receiving, dispatched := d.dispatched + 1 }
  | offered {n : Nat} (hWorker : d.crew[n]? = some .offering) (hLoop : d.loop ≠ .ended) :
      Stepped begin d (.offer n) { d.assign n .waiting with pool := d.pool ++ [n] }
  | retired {n : Nat} (hWorker : d.crew[n]? = some .offering) (hLoop : d.loop = .ended) :
      Stepped begin d (.offer n) (d.assign n .gone)
  | picked {n : Nat} {r : ρ} (hWorker : d.crew[n]? = some (.handed r)) :
      Stepped begin d (.pick n) { d.assign n (.busy (begin r)) with
        busy := d.busy + 1, peak := max d.peak (d.busy + 1) }
  | left {n : Nat} (hWorker : d.crew[n]? = some .waiting) (hLoop : d.loop = .ended) :
      Stepped begin d (.leave n) (d.assign n .gone)

/-- **Every step of a staffed dispatcher** is one of these. -/
theorem Staffed.stepped {returned : Returned ρ} (h : d.Staffed)
    (hStep : d.step begin s = some (d', returned)) : Stepped begin d s d' ∧ returned = none := by
  -- one case per step, and in it one per branch of its guards
  cases s with
  | take =>
    simp only [step] at hStep
    split at hStep
    · next hLoop hQueue =>
      obtain ⟨rfl, rfl⟩ := Prod.mk.inj (Option.some.inj hStep)
      exact ⟨.took hLoop hQueue, rfl⟩
    · next hLoop hQueue =>
      split at hStep
      · exact absurd hStep (by simp)
      · next hStopped =>
        obtain ⟨rfl, rfl⟩ := Prod.mk.inj (Option.some.inj hStep)
        exact ⟨.closed hLoop hQueue (by simpa using hStopped), rfl⟩
    · exact absurd hStep (by simp)
  | hand =>
    simp only [step] at hStep
    split at hStep
    · next hLoop =>
      obtain ⟨n, rest, hPool, hWorker, rfl, rfl⟩ := h.handOver hLoop hStep
      exact ⟨.handed hLoop hPool hWorker, rfl⟩
    · exact absurd hStep (by simp)
  | offer n =>
    simp only [step] at hStep
    split at hStep
    · next hWorker hLoop =>
      obtain ⟨rfl, rfl⟩ := Prod.mk.inj (Option.some.inj hStep)
      exact ⟨.retired hWorker hLoop, rfl⟩
    · next hWorker hLoop =>
      split at hStep
      · obtain ⟨rfl, rfl⟩ := Prod.mk.inj (Option.some.inj hStep)
        exact ⟨.offered hWorker hLoop, rfl⟩
      · exact absurd hStep (by simp)
    · exact absurd hStep (by simp)
  | pick n =>
    simp only [step] at hStep
    split at hStep
    · next hWorker =>
      obtain ⟨rfl, rfl⟩ := Prod.mk.inj (Option.some.inj hStep)
      exact ⟨.picked hWorker, rfl⟩
    · exact absurd hStep (by simp)
  | leave n =>
    simp only [step] at hStep
    split at hStep
    · next hWorker hLoop =>
      obtain ⟨rfl, rfl⟩ := Prod.mk.inj (Option.some.inj hStep)
      exact ⟨.left hWorker hLoop, rfl⟩
    · exact absurd hStep (by simp)

/-- A step keeps a dispatcher staffed. -/
theorem Stepped.staffed (hStep : Stepped begin d s d') (h : d.Staffed) : d'.Staffed := by
  cases hStep with
  | took hLoop =>
    have hGoes : d.loop ≠ .ended := by simp [hLoop]
    exact ⟨h.manned, fun _ => h.present hGoes, h.ready, h.distinct, by simp, by simp⟩
  -- the loop ends only when the queue is empty and nothing more is accepted
  | closed _ _ hStopped => exact h.closeLoop hStopped
  | @handed r n rest hLoop hPool =>
    have hGoes : d.loop ≠ .ended := by simp [hLoop]
    obtain ⟨hNotIn, hRest⟩ := List.nodup_cons.mp (hPool ▸ h.distinct)
    -- without the worker that was taken out the pool is as before
    have hShort : ({ d with pool := rest, loop := .receiving } : Dispatcher ρ ε).Staffed :=
      ⟨h.manned, fun _ => h.present hGoes, fun k hk => h.ready k (by simp [hPool, hk]), hRest,
        by simp, by simp⟩
    have hHanded := hShort.assign (w := .handed r) hNotIn fun _ => rfl
    exact ⟨hHanded.manned, hHanded.present, hHanded.ready, hHanded.distinct, hHanded.drained,
      hHanded.lasting⟩
  | @offered n hOffering hGoes =>
    -- a worker that offers itself was not in the pool, so the pool stays without repetition
    have hFresh : n ∉ d.pool := h.not_mem_pool hOffering (by simp)
    have hWaits := h.assign (w := .waiting) hFresh fun _ => rfl
    have hAt : (d.assign n .waiting).crew[n]? = some .waiting := by
      have hLt : n < d.crew.length := (List.getElem?_eq_some_iff.mp hOffering).1
      simp [Dispatcher.assign, hLt]
    refine ⟨hWaits.manned, hWaits.present, fun k hk => ?_, ?_, fun hEnded => absurd hEnded hGoes,
      hWaits.lasting⟩
    · rcases List.mem_append.mp hk with hk | hk
      · exact hWaits.ready k hk
      · rw [List.mem_singleton.mp hk]
        exact hAt
    · refine List.nodup_append.mpr ⟨h.distinct, by simp, fun a ha b hb hEq => ?_⟩
      rw [List.mem_singleton] at hb
      exact hFresh (hb ▸ hEq ▸ ha)
  | retired hOffering hEnded =>
    exact h.assign (h.not_mem_pool hOffering (by simp)) fun hGoes => absurd hEnded hGoes
  | @picked n r hHanded =>
    have hBusy := h.assign (w := .busy (begin r)) (h.not_mem_pool hHanded (by simp)) fun _ => rfl
    exact ⟨hBusy.manned, hBusy.present, hBusy.ready, hBusy.distinct, hBusy.drained, hBusy.lasting⟩
  | @left n hWaiting hEnded =>
    -- after the end of the loop the pool is empty, so whoever leaves is not in it
    have hNotIn : n ∉ d.pool := by simp [h.drained hEnded]
    exact h.assign hNotIn fun hGoes => absurd hEnded hGoes

/-- No step changes whether a dispatcher accepts runnables. -/
theorem Stepped.accepting (hStep : Stepped begin d s d') : d'.accepting = d.accepting := by
  cases hStep <;> rfl

/-- No step changes the number of the workers. -/
theorem Stepped.size (hStep : Stepped begin d s d') : d'.crew.length = d.crew.length := by
  cases hStep with
  | took | closed => rfl
  | handed | offered | retired | picked | left => exact List.length_set

/-- No step puts anything into the queue. -/
theorem Stepped.queue_suffix (hStep : Stepped begin d s d') : d'.queue <:+ d.queue := by
  cases hStep with
  | took _ hQueue =>
    rw [hQueue]
    exact List.suffix_cons _ _
  | closed | handed | offered | retired | picked | left => exact List.suffix_rfl

/-- Every step keeps a dispatcher staffed, and none gives a runnable back. -/
theorem step_staffed {returned : Returned ρ} (h : d.Staffed)
    (hStep : d.step begin s = some (d', returned)) : d'.Staffed ∧ returned = none := by
  obtain ⟨hStepped, hNone⟩ := h.stepped hStep
  exact ⟨hStepped.staffed h, hNone⟩

end Steps

/-- A worker that is busy has its execution. -/
theorem crew_of_execution? {d : Dispatcher ρ ε} {n : Nat} {e : ε} (h : d.execution? n = some e) :
    d.crew[n]? = some (.busy e) := by
  unfold execution? at h
  split at h
  · next e' hCrew => rw [hCrew, Option.some.inj h]
  · exact absurd h (by simp)

/-- A dispatcher stays staffed when the execution of a worker goes on or ends. -/
theorem Staffed.carry {d : Dispatcher ρ ε} (h : d.Staffed) {n : Nat} {e : ε}
    (he : d.execution? n = some e) (next : Option ε) : (d.carry n next).Staffed := by
  have hFree := h.not_mem_pool (crew_of_execution? he) (by simp)
  cases next with
  | some e' => exact h.assign hFree fun _ => rfl
  | none =>
    have hBack := h.assign (w := .offering) hFree fun _ => rfl
    exact ⟨hBack.manned, hBack.present, hBack.ready, hBack.distinct, hBack.drained, hBack.lasting⟩

end Dispatcher

namespace Machine

/-! ## All dispatchers -/

/-- What is always true of the dispatchers: each is staffed, the ones in service accept runnables,
and no two jobs share one. -/
structure Staffed (m : Machine) : Prop where
  benches : ∀ b ∈ m.benches, b.Staffed
  service : ∀ jobId n, m.service.get? jobId = some n →
    ∃ b, m.benches[n]? = some b ∧ b.accepting = true
  apart   : ∀ jobId jobId' n, m.service.get? jobId = some n → m.service.get? jobId' = some n →
    jobId = jobId'

/-- Only the dispatchers and the service count. -/
theorem Staffed.of_eq {m m' : Machine} (h : m.Staffed) (hBenches : m'.benches = m.benches)
    (hService : m'.service = m.service) : m'.Staffed := by
  refine ⟨?_, ?_, ?_⟩
  · rw [hBenches]
    exact h.benches
  · rw [hBenches, hService]
    exact h.service
  · rw [hService]
    exact h.apart

/-- Replacing a dispatcher by a staffed one that is as open keeps all staffed. -/
theorem Staffed.set {m : Machine} (h : m.Staffed) {n : Nat} {b b' : Bench}
    (hb : m.benches[n]? = some b) (hb' : b'.Staffed) (hOpen : b'.accepting = b.accepting) :
    ({ m with benches := m.benches.set n b' } : Machine).Staffed where
  benches x hx := by
    rcases List.mem_or_eq_of_mem_set hx with hx | rfl
    · exact h.benches x hx
    · exact hb'
  service jobId k hk := by
    obtain ⟨x, hx, hAccepts⟩ := h.service jobId k hk
    -- the replaced dispatcher is in service for as long as it was
    by_cases hEq : n = k
    · subst hEq
      have hLt : n < m.benches.length := (List.getElem?_eq_some_iff.mp hb).1
      have hSame : x = b := Option.some.inj (hx.symm.trans hb)
      exact ⟨b', by simp [hLt], by rw [hOpen, ← hSame, hAccepts]⟩
    · exact ⟨x, by simp [hEq, hx], hAccepts⟩
  apart := h.apart

/-- Stopping the dispatcher of a job keeps all staffed. -/
theorem Staffed.retire {m : Machine} (h : m.Staffed) (jobId : String) :
    (m.retire jobId).Staffed := by
  unfold Machine.retire
  split
  · exact h
  · next n hn =>
    refine ⟨?_, ?_, ?_⟩
    · intro b hb
      obtain ⟨k, hk⟩ := List.mem_iff_getElem?.mp hb
      simp only [List.getElem?_modify] at hk
      obtain ⟨x, hx, rfl⟩ := Option.map_eq_some_iff.mp hk
      have hStaffed := h.benches x (List.mem_of_getElem? hx)
      split
      · exact hStaffed.stop
      · exact hStaffed
    · intro jobId' k hk
      simp only [Dict.get?_erase] at hk
      split at hk
      · exact absurd hk (by simp)
      · next hNe =>
        obtain ⟨b, hb, hAccepts⟩ := h.service jobId' k hk
        -- another job is served by another dispatcher
        have hOther : n ≠ k := fun hEq => hNe (h.apart jobId jobId' n hn (hEq ▸ hk))
        exact ⟨b, by simp [hOther, hb], hAccepts⟩
    · intro jobId' jobId'' k hk hk'
      simp only [Dict.get?_erase] at hk hk'
      split at hk
      · exact absurd hk (by simp)
      · split at hk'
        · exact absurd hk' (by simp)
        · exact h.apart jobId' jobId'' k hk hk'

/-- A new dispatcher in service keeps all staffed. -/
theorem Staffed.engage {m : Machine} (h : m.Staffed) (jobId : String) (workers : Nat) :
    (m.engage jobId workers).Staffed := by
  -- the new dispatcher has a number that no job has yet
  have hOld : ∀ jobId' n, m.service.get? jobId' = some n → n < m.benches.length := by
    intro jobId' n hn
    obtain ⟨b, hb, -⟩ := h.service jobId' n hn
    exact (List.getElem?_eq_some_iff.mp hb).1
  refine ⟨?_, ?_, ?_⟩
  · intro b hb
    rcases List.mem_append.mp hb with hb | hb
    · exact h.benches b hb
    · rw [List.mem_singleton.mp hb]
      exact Dispatcher.start_staffed workers
  · intro jobId' n hn
    simp only [Machine.engage, Dict.get?_insert] at hn
    split at hn
    · obtain rfl := Option.some.inj hn
      exact ⟨Dispatcher.start workers, by simp [Machine.engage], rfl⟩
    · obtain ⟨b, hb, hAccepts⟩ := h.service jobId' n hn
      refine ⟨b, ?_, hAccepts⟩
      simp only [Machine.engage]
      rw [List.getElem?_append_left (hOld jobId' n hn)]
      exact hb
  · intro jobId' jobId'' n hn hn'
    simp only [Machine.engage, Dict.get?_insert] at hn hn'
    split at hn
    · next hEq =>
      split at hn'
      · next hEq' => exact hEq.symm.trans hEq'
      · have := hOld jobId'' n hn'
        have := Option.some.inj hn
        omega
    · split at hn'
      · have := hOld jobId' n hn
        have := Option.some.inj hn'
        omega
      · exact h.apart jobId' jobId'' n hn hn'

/-- What every stop of a dispatcher keeps, stopping them all keeps. -/
theorem stopDispatchers_induction {P : Machine → Prop}
    (hRetire : ∀ m jobId, P m → P (m.retire jobId)) {m : Machine} (h : P m) :
    P m.stopDispatchers := by
  unfold stopDispatchers
  induction m.service.keys generalizing m with
  | nil => exact h
  | cons jobId rest ih => exact ih (hRetire m jobId h)

/-- What every stop and start of a dispatcher keeps, a change of a job keeps, if it does not depend
on the loaded jobs. -/
theorem handleChange_induction {P : Machine → Prop}
    (hRetire : ∀ m jobId, P m → P (m.retire jobId))
    (hEngage : ∀ m jobId workers, P m → P (m.engage jobId workers))
    (hJobs : ∀ (m : Machine) jobs, P m → P { m with jobs }) (u : Setup) {m : Machine} (c : JobChange)
    (h : P m) : P (m.handleChange u c) := by
  unfold handleChange
  split
  · exact hJobs _ _ (hRetire _ _ h)
  · next j _ _ =>
    -- a dispatcher of an older definition makes room for a new one
    have hRetired := hRetire m j.withoutTasks.id h
    cases hReplaced : m.service.contains j.withoutTasks.id with
    | true =>
      simp only [load, hReplaced, if_true]
      exact hJobs _ _ (hEngage _ _ _ hRetired)
    | false =>
      simp only [load, hReplaced, Bool.false_eq_true, if_false]
      exact hJobs _ _ hRetired
  · exact h

/-- Loading and unloading of jobs keep all dispatchers staffed. -/
theorem Staffed.handleChange {m : Machine} (h : m.Staffed) (u : Setup) (c : JobChange) :
    (m.handleChange u c).Staffed :=
  handleChange_induction (fun _ jobId h => h.retire jobId)
    (fun _ jobId workers h => h.engage jobId workers) (fun _ _ h => h.of_eq rfl rfl) u c h

theorem Staffed.stopDispatchers {m : Machine} (h : m.Staffed) : m.stopDispatchers.Staffed :=
  stopDispatchers_induction (fun _ jobId h => h.retire jobId) h

/-- **A dispatcher in service accepts a runnable.** -/
theorem Staffed.exists_dispatch {m : Machine} (h : m.Staffed) {jobId : String} {n : Nat}
    (hn : m.service.get? jobId = some n) (r : Runnable) :
    ∃ b, m.benches[n]? = some b ∧ b.dispatch r = some { b with queue := b.queue ++ [r] } := by
  obtain ⟨b, hb, hAccepts⟩ := h.service jobId n hn
  have hGoes := (h.benches b (List.mem_of_getElem? hb)).lasting hAccepts
  exact ⟨b, hb, Dispatcher.dispatch_eq_some hGoes r⟩

/-- The dispatcher for a job is in service, and putting it there keeps all staffed. -/
theorem Staffed.benchFor {m : Machine} (h : m.Staffed) (u : Setup) (j : Job) :
    (m.benchFor u j).1.Staffed ∧
      (m.benchFor u j).1.service.get? j.id = some (m.benchFor u j).2 := by
  unfold Machine.benchFor
  split
  · next n hn => exact ⟨h, hn⟩
  · exact ⟨h.engage _ _, by simp [Machine.engage, Dict.get?_insert]⟩

/-- A runnable is turned away only if its job is not loaded; otherwise it is put into the queue of a
dispatcher that is in service, maybe a new one. -/
theorem Staffed.route_cases {m : Machine} (h : m.Staffed) (u : Setup) (r : Runnable) :
    ((m.floor.tasks[r.task]?).bind (fun t => m.jobs.get? t.job.id) = none ∧
      m.route u r = (m, turnAway "job removed")) ∨
    ∃ j b, (m.floor.tasks[r.task]?).bind (fun t => m.jobs.get? t.job.id) = some j ∧
      (m.benchFor u j).1.benches[(m.benchFor u j).2]? = some b ∧
      m.route u r = ({ (m.benchFor u j).1 with
        benches := (m.benchFor u j).1.benches.set (m.benchFor u j).2
          { b with queue := b.queue ++ [r] } }, []) := by
  cases hJob : (m.floor.tasks[r.task]?).bind fun t => m.jobs.get? t.job.id with
  | none =>
    refine Or.inl ⟨rfl, ?_⟩
    unfold Machine.route
    rw [hJob]
  | some j =>
    -- whichever dispatcher it is, it is in service and so accepts the runnable
    obtain ⟨hStaffed, hServed⟩ := h.benchFor u j
    obtain ⟨b, hb, hDispatch⟩ := hStaffed.exists_dispatch hServed r
    refine Or.inr ⟨j, b, rfl, hb, ?_⟩
    unfold Machine.route
    rw [hJob]
    simp only [hb, Option.bind_some, hDispatch]

theorem Staffed.route {m : Machine} (h : m.Staffed) (u : Setup) (r : Runnable) :
    (m.route u r).1.Staffed := by
  rcases h.route_cases u r with ⟨-, hAway⟩ | ⟨j, b, -, hb, hRouted⟩
  · rw [hAway]
    exact h
  · rw [hRouted]
    obtain ⟨hStaffed, -⟩ := h.benchFor u j
    exact hStaffed.set hb ((hStaffed.benches b (List.mem_of_getElem? hb)).queue _) rfl

/-- A scheduler starts without dispatchers. -/
theorem staffed_of_start {u : Setup} {now : Int64} {catalog : Catalog} {capacity : Nat} {m : Machine}
    (hStart : start u now catalog capacity = .ok m) : m.Staffed := by
  obtain ⟨js, -, rfl⟩ := exists_of_start hStart
  refine ⟨by simp, ?_, ?_⟩
  · intro jobId n hn
    simp [Dict.get?, Dict.empty, Dict.lookup] at hn
  · intro jobId jobId' n hn
    simp [Dict.get?, Dict.empty, Dict.lookup] at hn

/-! ## Every step of the machine -/

/-- Telling of a change touches neither the dispatchers nor the service. -/
theorem tell_benches (m : Machine) (a : Announcement) :
    (m.tell a).benches = m.benches ∧ (m.tell a).service = m.service := by
  cases a <;> exact ⟨rfl, rfl⟩

/-- What a listener does touches the dispatchers only when it hears a change of a job. -/
theorem Staffed.listen {m m' : Machine} (h : m.Staffed) {u : Setup} {c : Channel}
    (hStep : m.listen u c = some m') : m'.Staffed := by
  obtain ⟨_, hHeeds⟩ := exists_heeds hStep
  cases hHeeds with
  | @change t x =>
    have hTaken : ({ m with changes := t } : Machine).Staffed := h.of_eq rfl rfl
    exact hTaken.handleChange u x
  | tree | attributes | trigger | known | unknown | found | missing | load | errand | done =>
    exact h.of_eq rfl rfl

/-- The machine after a runnable of a task of its own was routed, in terms of the routing. -/
theorem submit_eq {u : Setup} {m m₁ : Machine} {j : Job} {a : Action} {input : Message}
    {deeds : List Deed}
    (hRoute : (m.onFloor ((m.floor.addTask u j (.aside [])).mark m.floor.tasks.length
      .retain)).route u { action := a, task := m.floor.tasks.length, input } = (m₁, deeds)) :
    m.submit u j a input = if deeds.isEmpty then m₁ else
      { m₁ with callers := m₁.callers ++ [{ task := m.floor.tasks.length, deeds }] } := by
  simp only [Machine.submit, hRoute]

theorem Staffed.stepRouter {m m' : Machine} (h : m.Staffed) {u : Setup}
    (hStep : m.stepRouter u = some m') : m'.Staffed := by
  rcases stepRouter_cases hStep with ⟨r, rest, m₁, deeds, -, -, hRoute, rfl⟩ |
    ⟨_, -, ⟨_, _, -, rfl⟩ | ⟨-, rfl⟩⟩
  · have hTaken : (m.onFloor { m.floor with main := rest }).Staffed := h.of_eq rfl rfl
    have hRouted := hTaken.route u r
    rw [hRoute] at hRouted
    split
    · exact hRouted
    · exact hRouted.of_eq rfl rfl
  · exact h.of_eq rfl rfl
  · exact h.of_eq rfl rfl

/-- A step of a dispatcher turns nothing away and keeps all dispatchers staffed. -/
theorem Staffed.stepBench {m m' : Machine} (h : m.Staffed) {n : Nat} {s : DispatcherStep}
    (hStep : m.stepBench n s = some m') :
    ∃ b b', m.benches[n]? = some b ∧ Dispatcher.Stepped ({ runnable := · }) b s b' ∧
      m' = { m with benches := m.benches.set n b' } ∧ m'.Staffed := by
  unfold Machine.stepBench at hStep
  split at hStep
  · exact absurd hStep (by simp)
  · next b' returned hBench =>
    obtain ⟨b, hb, hMoved⟩ := Option.bind_eq_some_iff.mp hBench
    have hHere := h.benches b (List.mem_of_getElem? hb)
    -- what the dispatcher would give back is nothing, so no caller is added
    obtain ⟨hStepped, rfl⟩ := hHere.stepped hMoved
    obtain rfl := Option.some.inj hStep
    exact ⟨b, b', hb, hStepped, rfl, h.set hb (hStepped.staffed hHere) hStepped.accepting⟩

theorem Staffed.work {m m' : Machine} (h : m.Staffed) {u : Setup} {n w : Nat}
    (hStep : m.work u n w = some m') : m'.Staffed := by
  obtain ⟨b, e, f, next, hb, he, -, rfl⟩ := work_cases hStep
  have hHere := h.benches b (List.mem_of_getElem? hb)
  have hOpen : (b.carry w next).accepting = b.accepting := by cases next <;> rfl
  exact (h.set hb (hHere.carry he next) hOpen).of_eq rfl rfl

/-- **Every step of the machine keeps all dispatchers staffed.** -/
theorem step_staffed {u : Setup} {m m' : Machine} {s : MachineStep} (h : m.Staffed)
    (hStep : m.step u s = some m') : m'.Staffed := by
  cases s with
  | time | store | saveJob | removeJob | saveTask =>
    rw [← Option.some.inj hStep]
    exact h.of_eq rfl rfl
  | publish post =>
    rw [← Option.some.inj hStep]
    cases post with
    | node onAttributes _ => cases onAttributes <;> exact h.of_eq rfl rfl
    | trigger | job => exact h.of_eq rfl rfl
  | announce n =>
    obtain ⟨a, _, calls, -, -, rfl⟩ := announce_cases hStep
    obtain ⟨hBenches, hService⟩ := tell_benches (m.onFloor { m.floor with calls }) a
    exact h.of_eq hBenches hService
  | launch j e =>
    rw [← Option.some.inj hStep]
    exact h.of_eq rfl rfl
  | submit j a input =>
    -- the runnable goes past the main queue, straight to a dispatcher
    have hKnown : (m.onFloor ((m.floor.addTask u j (.aside [])).mark m.floor.tasks.length
      .retain)).Staffed := h.of_eq rfl rfl
    have hRouted := hKnown.route u { action := a, task := m.floor.tasks.length, input }
    rcases hRoute : (m.onFloor ((m.floor.addTask u j (.aside [])).mark m.floor.tasks.length
      .retain)).route u { action := a, task := m.floor.tasks.length, input } with ⟨m₁, deeds⟩
    rw [hRoute] at hRouted
    rw [← Option.some.inj hStep, submit_eq hRoute]
    cases deeds with
    | nil => exact hRouted
    | cons => exact hRouted.of_eq rfl rfl
  | call n =>
    obtain ⟨_, -, ⟨_, _, -, rfl⟩ | ⟨-, rfl⟩⟩ := call_cases hStep <;> exact h.of_eq rfl rfl
  | listen c => exact h.listen hStep
  | route => exact h.stepRouter hStep
  | dispatch n s =>
    obtain ⟨_, _, _, _, _, hStaffed⟩ := h.stepBench hStep
    exact hStaffed
  | work n w => exact h.work hStep
  | write s =>
    obtain ⟨_, _, -, ⟨_, -, -, rfl⟩ | ⟨-, rfl⟩⟩ := write_cases hStep <;> exact h.of_eq rfl rfl
  | silence c =>
    obtain ⟨-, rfl⟩ := silence_cases hStep
    cases c <;> exact h.of_eq rfl rfl
  | endRouter =>
    obtain ⟨-, rfl⟩ := endRouter_cases hStep
    exact h.of_eq rfl rfl
  | stopDispatchers =>
    rw [← Option.some.inj hStep]
    exact h.stopDispatchers

end Machine

end Taskyard
