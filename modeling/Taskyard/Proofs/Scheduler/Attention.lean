import Taskyard.Proofs.Scheduler.Changes
import Taskyard.Proofs.Scheduler.Limits

/-!
# Scheduler — one listener at a time

A listener takes several steps over what it has heard, and others can come in between. Where it goes
on only while the other listeners rest, each message is seen to before the next one is heard, as if
it were one step. All other steps leave the loaded jobs and the listeners, and do little to the
dispatchers.

Main definitions and results:

* `Machine.inTurn` — steps with which one listener at a time has something to do.
* `Machine.Staffs` — what other steps do to the dispatchers.
* `Machine.Aside`, `Machine.aside_of_step` — and to the rest.
* `Machine.heeds_or_aside` — the two cases of a step.
-/

namespace Taskyard

/-- Whether a listener has nothing to do for what it has heard. -/
def Ear.rests : Ear → Bool
  | .listening | .deaf => true
  | .seeking _ | .fetching _ | .loading _ _ | .busy _ => false

/-- A listener rests when it waits for its topic or is gone. -/
theorem Ear.eq_of_rests {ear : Ear} (h : ear.rests = true) : ear = .listening ∨ ear = .deaf := by
  cases ear with
  | listening => exact .inl rfl
  | deaf => exact .inr rfl
  | seeking | fetching | loading | busy => cases h

theorem Ears.get_set_of_ne (e : Ears) (ear : Ear) {c c' : Channel} (h : c' ≠ c) :
    (e.set ear c).get c' = e.get c' := by
  cases c <;> cases c' <;> first | rfl | exact absurd rfl h

theorem Ears.set_get (e : Ears) (c : Channel) : e.set (e.get c) c = e := by
  cases c <;> rfl

/-- Changing one listener leaves the others at rest. -/
theorem Ears.rests_set {e : Ears} {c : Channel} (ear : Ear)
    (h : ∀ c', c' ≠ c → (e.get c').rests = true) :
    ∀ c', c' ≠ c → ((e.set ear c).get c').rests = true := by
  intro c' hNot
  rw [get_set_of_ne _ _ hNot]
  exact h c' hNot

/-- Four listeners are given by what each of them does. -/
theorem Ears.eq_of_get {e e' : Ears} (h : ∀ c, e'.get c = e.get c) : e' = e := by
  have hTree := h .tree
  have hAttributes := h .attributes
  have hTimers := h .timers
  have hJobs := h .jobs
  cases e
  cases e'
  simp only [Ears.get] at hTree hAttributes hTimers hJobs
  rw [hTree, hAttributes, hTimers, hJobs]

def Ears.all (e : Ears) : List Ear := [e.tree, e.attributes, e.timers, e.jobs]

/-- While the others rest, only one listener has to be looked at. -/
theorem Ears.flatMap_all {α : Type} {e : Ears} {c : Channel} {f : Ear → List α}
    (hRests : ∀ ear : Ear, ear.rests = true → f ear = [])
    (hOthers : ∀ c', c' ≠ c → (e.get c').rests = true) : e.all.flatMap f = f (e.get c) := by
  have hNone (c' : Channel) (hNot : c' ≠ c) : f (e.get c') = [] := hRests _ (hOthers c' hNot)
  have hTree := hNone .tree
  have hAttributes := hNone .attributes
  have hTimers := hNone .timers
  have hJobs := hNone .jobs
  simp only [Ears.get] at hTree hAttributes hTimers hJobs
  unfold Ears.all
  -- in each case three listeners have nothing to add
  cases c <;> simp_all [Ears.get]

namespace Machine

/-- Whether a step is not of a listener, or all other listeners rest. -/
def inTurn (m : Machine) : MachineStep → Bool
  | .listen c => [Channel.tree, .attributes, .timers, .jobs].all fun c' =>
      decide (c' = c) || (m.ears.get c').rests
  | _ => true

/-- A listener is in turn while the three others rest. -/
theorem inTurn_listen_iff {m : Machine} {c : Channel} :
    m.inTurn (.listen c) = true ↔ ∀ c', c' ≠ c → (m.ears.get c').rests = true := by
  unfold inTurn
  rw [List.all_eq_true]
  constructor
  · intro h c' hOther
    have hAny : c' ∈ [Channel.tree, .attributes, .timers, .jobs] := by cases c' <;> simp
    simpa [hOther] using h c' hAny
  · intro h c' _
    by_cases hSame : c' = c
    · simp [hSame]
    · simp [h c' hSame]

/-! ## What listeners do -/

variable {u : Setup} {m m' : Machine}

theorem triggered_ne_deaf (t : JobTrigger) (j : Job) : triggered t j ≠ .deaf := by
  unfold triggered
  split <;> simp

/-- A listener that has something to do goes on, and does not end. -/
theorem Heeds.exists_ear {c : Channel} {hs : List Happening} (h : Heeds u m c hs m') :
    ∃ ear, ear ≠ .deaf ∧ m'.ears = m.ears.set ear c := by
  cases h with
  | @change t x hChannel hEar _ =>
    subst hChannel
    obtain ⟨_, _, hHandled⟩ := exists_handleChange u { m with changes := t } x
    refine ⟨.listening, by simp, ?_⟩
    rw [hHandled, ← hEar, Ears.set_get]
  | tree | attributes | errand => exact ⟨.busy _, by simp, rfl⟩
  | @trigger _ x => exact ⟨.seeking x, by simp, rfl⟩
  | @known x j | @load x j => exact ⟨triggered x j, triggered_ne_deaf x j, rfl⟩
  | @unknown x => exact ⟨.fetching x, by simp, rfl⟩
  | @found x j => exact ⟨.loading x j, by simp, rfl⟩
  | missing | done => exact ⟨.listening, by simp, rfl⟩

/-! ## What other steps do -/

def posting (m : Machine) (s : MachineStep) : Machine :=
  (m.posts s).foldl (fun m post => (m.publish post).1) m

structure SameTopics (m m' : Machine) : Prop where
  tree : m'.tree = m.tree
  attributes : m'.attributes = m.attributes
  timers : m'.timers = m.timers
  changes : m'.changes = m.changes

/-- What a step that is not of a listener does to the dispatchers: nothing, one of them goes on, a
runnable of a loaded job is put into the queue of the dispatcher of its job, or all are stopped. -/
inductive Staffs (u : Setup) (m m' : Machine) : Prop
  | alike (hService : m'.service = m.service) (hBenches : m'.benches = m.benches)
  | went {n : Nat} {b b' : Bench} (hb : m.benches[n]? = some b)
      (hOpen : b'.accepting = b.accepting) (hSize : b'.crew.length = b.crew.length)
      (hQueue : b'.queue <:+ b.queue) (hService : m'.service = m.service)
      (hBenches : m'.benches = m.benches.set n b')
  | routed {r : Runnable} {t : LiveTask} {j : Job} {b : Bench}
      (ht : m'.floor.tasks[r.task]? = some t) (hJob : m.jobs.get? t.job.id = some j)
      (hb : (m.benchFor u j).1.benches[(m.benchFor u j).2]? = some b)
      (hService : m'.service = (m.benchFor u j).1.service)
      (hBenches : m'.benches = (m.benchFor u j).1.benches.set (m.benchFor u j).2
        { b with queue := b.queue ++ [r] })
  | stopped (hService : m'.service = m.stopDispatchers.service)
      (hBenches : m'.benches = m.stopDispatchers.benches)

theorem benchFor_onFloor (u : Setup) (m : Machine) (f : Floor) (j : Job) :
    (m.onFloor f).benchFor u j = ((m.benchFor u j).1.onFloor f, (m.benchFor u j).2) := by
  unfold benchFor
  rw [show (m.onFloor f).service = m.service from rfl]
  cases m.service.get? j.id <;> rfl

/-- A runnable is put into the queue of the dispatcher of its job, or nothing happens. -/
theorem Staffed.staffs_route (h : m.Staffed) (f : Floor) (r : Runnable)
    (hService : m'.service = ((m.onFloor f).route u r).1.service)
    (hBenches : m'.benches = ((m.onFloor f).route u r).1.benches) (hFloor : m'.floor = f) :
    Staffs u m m' := by
  have hHere : (m.onFloor f).Staffed := h.of_eq rfl rfl
  rcases hHere.route_cases u r with ⟨-, hAway⟩ | ⟨j, b, hJob, hb, hRouted⟩
  · rw [hAway] at hService hBenches
    exact .alike hService hBenches
  · rw [hRouted] at hService hBenches
    rw [benchFor_onFloor] at hb hService hBenches
    obtain ⟨t, ht, hLoaded⟩ := Option.bind_eq_some_iff.mp hJob
    exact .routed (hFloor ▸ ht) hLoaded hb hService hBenches

/-- A step that is not of a listener leaves the loaded jobs and, but for what it publishes, the
topics. A listener goes on as it was, with its topic, unless it is ended. -/
structure Aside (u : Setup) (m : Machine) (s : MachineStep) (m' : Machine) : Prop where
  jobs : m'.jobs = m.jobs
  ears : ∀ c, m'.ears.get c = m.ears.get c ∨ m'.ears.get c = .deaf ∧ s = .silence c
  topics : (∀ c, s ≠ .silence c) → (m.posting s).SameTopics m'
  staffs : Staffs u m m'

namespace Aside

variable {s : MachineStep}

/-- What goes on beside the listeners leaves them as they are, unless one of them ends. -/
theorem ears_eq (h : Aside u m s m') (hs : ∀ c, s ≠ .silence c) : m'.ears = m.ears := by
  refine Ears.eq_of_get fun c => ?_
  rcases h.ears c with hSame | ⟨-, hSilence⟩
  · exact hSame
  · exact absurd hSilence (hs c)

theorem of_eq (hJobs : m'.jobs = m.jobs) (hEars : m'.ears = m.ears)
    (hTopics : (m.posting s).SameTopics m') (hService : m'.service = m.service)
    (hBenches : m'.benches = m.benches) : Aside u m s m' :=
  ⟨hJobs, fun _ => .inl (by rw [hEars]), fun _ => hTopics, .alike hService hBenches⟩

/-- The router takes no part in what the listeners do. -/
theorem stepRouter (hm : m.Staffed) (h : m.stepRouter u = some m') : Aside u m .route m' := by
  rcases stepRouter_cases h with ⟨r, rest, m₁, deeds, -, -, hRoute, rfl⟩ |
    ⟨_, -, ⟨_, _, -, rfl⟩ | ⟨-, rfl⟩⟩
  · obtain ⟨service, benches, hKeeps⟩ := exists_route u (m.onFloor { m.floor with main := rest }) r
    have hStaffs {m' : Machine} (hService : m'.service = service) (hBenches : m'.benches = benches)
        (hFloor : m'.floor = { m.floor with main := rest }) : Staffs u m m' :=
      hm.staffs_route _ r (by rw [hKeeps, hService]) (by rw [hKeeps, hBenches]) hFloor
    obtain rfl : m₁ = _ := (congrArg Prod.fst hRoute).symm.trans hKeeps
    -- with deeds for the runnable the router is busy, and that is all that differs
    split <;> exact ⟨rfl, fun _ => .inl rfl, fun _ => ⟨rfl, rfl, rfl, rfl⟩, hStaffs rfl rfl rfl⟩
  · exact .of_eq rfl rfl ⟨rfl, rfl, rfl, rfl⟩ rfl rfl
  · exact .of_eq rfl rfl ⟨rfl, rfl, rfl, rfl⟩ rfl rfl

theorem submit (hm : m.Staffed) (j : Job) (a : Action) (input : Message) :
    Aside u m (.submit j a input) (m.submit u j a input) := by
  obtain ⟨service, benches, hRouted⟩ := exists_route u (m.onFloor
    ((m.floor.addTask u j (.aside [])).mark m.floor.tasks.length .retain))
    { action := a, task := m.floor.tasks.length, input }
  rcases hRoute : (m.onFloor ((m.floor.addTask u j (.aside [])).mark m.floor.tasks.length
    .retain)).route u { action := a, task := m.floor.tasks.length, input } with ⟨m₁, deeds⟩
  rw [hRoute] at hRouted
  dsimp only at hRouted
  -- the dispatchers are those after routing, whether or not a caller is left
  have hStaffs {m' : Machine} (hService : m'.service = service) (hBenches : m'.benches = benches)
      (hFloor : m'.floor = (m.floor.addTask u j (.aside [])).mark m.floor.tasks.length .retain) :
      Staffs u m m' :=
    hm.staffs_route _ _ (by rw [hRoute, hRouted, hService]) (by rw [hRoute, hRouted, hBenches])
      hFloor
  rw [submit_eq hRoute, hRouted]
  split <;> exact ⟨rfl, fun _ => .inl rfl, fun _ => ⟨rfl, rfl, rfl, rfl⟩, hStaffs rfl rfl rfl⟩

theorem work {n w : Nat} (h : m.work u n w = some m') : Aside u m (.work n w) m' := by
  obtain ⟨b, e, f, after, hb, -, -, rfl⟩ := work_cases h
  refine ⟨rfl, fun _ => .inl rfl, fun _ => ⟨rfl, rfl, rfl, rfl⟩, .went hb ?_ ?_ ?_ rfl rfl⟩
  · cases after <;> rfl
  · exact Dispatcher.carry_size b w after
  · cases after <;> exact List.suffix_rfl

/-- A listener that ends leaves what the others do. -/
theorem silence {c : Channel} (h : m.silence c = some m') : Aside u m (.silence c) m' := by
  obtain ⟨-, rfl⟩ := silence_cases h
  have hEars : ∀ c', (m.ears.set .deaf c).get c' = m.ears.get c' ∨
      (m.ears.set .deaf c).get c' = .deaf ∧ MachineStep.silence c = .silence c' := by
    intro c'
    by_cases hSame : c' = c
    · subst hSame
      exact .inr ⟨Ears.get_set _ _ _, rfl⟩
    · exact .inl (Ears.get_set_of_ne _ _ hSame)
  -- of the topic of a listener that is ended, nothing is said
  have hNot : ¬∀ c', MachineStep.silence c ≠ .silence c' := fun h => h c rfl
  cases c <;> exact ⟨rfl, hEars, fun h => absurd h hNot, .alike rfl rfl⟩

end Aside

/-- Every step but those of the listeners goes on beside them: a case for each kind of step. -/
theorem aside_of_step {s : MachineStep} (hm : m.Staffed) (hs : ∀ c, s ≠ .listen c)
    (h : m.step u s = some m') : Aside u m s m' := by
  cases s with
  | listen c => exact absurd rfl (hs c)
  | time | store | saveJob | removeJob | saveTask | launch =>
    cases h
    exact .of_eq rfl rfl ⟨rfl, rfl, rfl, rfl⟩ rfl rfl
  | publish post =>
    cases h
    cases post with
    | node onAttributes _ => cases onAttributes <;> exact .of_eq rfl rfl ⟨rfl, rfl, rfl, rfl⟩ rfl rfl
    | trigger | job => exact .of_eq rfl rfl ⟨rfl, rfl, rfl, rfl⟩ rfl rfl
  | announce n =>
    -- what is told is published on its topic, or on none that is listened to
    obtain ⟨a, _, _, hCall, -, rfl⟩ := announce_cases h
    cases a <;>
    · refine .of_eq rfl rfl ?_ rfl rfl
      simp only [posting, posts, hCall]
      exact ⟨rfl, rfl, rfl, rfl⟩
  | submit j a input =>
    cases h
    exact .submit hm j a input
  | call n =>
    obtain ⟨_, -, ⟨_, _, -, rfl⟩ | ⟨-, rfl⟩⟩ := call_cases h <;>
      exact .of_eq rfl rfl ⟨rfl, rfl, rfl, rfl⟩ rfl rfl
  | route => exact .stepRouter hm h
  | dispatch n s =>
    obtain ⟨b, b', hb, hStepped, rfl, -⟩ := hm.stepBench h
    exact ⟨rfl, fun _ => .inl rfl, fun _ => ⟨rfl, rfl, rfl, rfl⟩,
      .went hb hStepped.accepting hStepped.size hStepped.queue_suffix rfl rfl⟩
  | work n w => exact .work h
  | write s =>
    obtain ⟨_, _, -, ⟨_, -, -, rfl⟩ | ⟨-, rfl⟩⟩ := write_cases h <;>
      exact .of_eq rfl rfl ⟨rfl, rfl, rfl, rfl⟩ rfl rfl
  | silence c => exact .silence h
  | endRouter =>
    obtain ⟨-, rfl⟩ := endRouter_cases h
    exact .of_eq rfl rfl ⟨rfl, rfl, rfl, rfl⟩ rfl rfl
  | stopDispatchers =>
    cases h
    obtain ⟨service, benches, hStop⟩ := exists_stopDispatchers m
    refine ⟨?_, fun _ => .inl ?_, fun _ => ?_, .stopped rfl rfl⟩ <;> rw [hStop]
    exact ⟨rfl, rfl, rfl, rfl⟩

/-- **A step** is of a listener, or leaves the listeners aside. -/
theorem heeds_or_aside {s : MachineStep} (hm : m.Staffed) (h : m.step u s = some m') :
    (∃ c, s = .listen c ∧ Heeds u m c (m.happens s) m') ∨
      (∀ c, s ≠ .listen c) ∧ m.happens s = [] ∧ Aside u m s m' := by
  by_cases hListens : ∃ c, s = .listen c
  · obtain ⟨c, rfl⟩ := hListens
    exact .inl ⟨c, rfl, heeds_of_listen h⟩
  · have hNot : ∀ c, s ≠ .listen c := fun c hEq => hListens ⟨c, hEq⟩
    refine .inr ⟨hNot, ?_, aside_of_step hm hNot h⟩
    cases s with
    | listen c => exact absurd rfl (hNot c)
    | _ => rfl

end Machine

end Taskyard
