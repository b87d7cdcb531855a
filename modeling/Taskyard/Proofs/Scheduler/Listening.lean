import Taskyard.Scheduler.Machine

/-!
# Scheduler — what listeners do

A listener that waits hears the next message of its topic. For a change of a node it then starts the
tasks one by one, and for a trigger it looks for the job, first among the loaded ones and then in
the catalog. A change of a job is handled at once. Every step of a listener is one of eleven, and
whatever the steps of listeners keep is proved for each of these.

Main definitions and results:

* `Happening` — what bears on the tasks to be started, and `Machine.happens` for a step.
* `Machine.Heeds`, `Machine.heeds_of_listen` — what a listener does next, and what happens with it.
-/

namespace Taskyard

/-- Something that bears on the tasks to be started. -/
inductive Happening where
  /-- A change of a job is heard of. -/
  | change (c : JobChange)
  /-- A change of a node is heard of, on one of the two topics. -/
  | node (onAttributes : Bool) (c : NodeChange)
  /-- A trigger is seen to, while the catalog has this to say of its job. -/
  | trigger (t : JobTrigger) (stored : Option Job)

namespace Machine

/-! ## What happens -/

/-- What the catalog has to say of the job of a trigger. -/
def stored (m : Machine) (t : JobTrigger) : Option Job :=
  (m.floor.catalog.getJob t.jobId .unknown).toOption

/-- The next message of a topic, but for triggers, which are seen to later. -/
def message (m : Machine) : Channel → List Happening
  | .tree =>
    match (m.tree.receive listener).2 with
    | .message x => [.node false x]
    | _ => []
  | .attributes =>
    match (m.attributes.receive listener).2 with
    | .message x => [.node true x]
    | _ => []
  | .timers => []
  | .jobs =>
    match (m.changes.receive listener).2 with
    | .message x => [.change x]
    | _ => []

/-- What happens with a step. A trigger is seen to when its job is found among the loaded ones, or
when the catalog has been asked for it. -/
def happens (m : Machine) : MachineStep → List Happening
  | .listen c =>
    match m.ears.get c with
    | .listening => m.message c
    | .seeking t => if (m.jobs.get? t.jobId).isSome then [.trigger t (m.stored t)] else []
    | .fetching t => [.trigger t (m.stored t)]
    | .loading _ _ | .busy _ | .deaf => []
  | _ => []

/-- A trigger is seen to with what the catalog has to say then. -/
theorem stored_of_happens {m : Machine} {s : MachineStep} {t : JobTrigger} {stored : Option Job}
    (h : .trigger t stored ∈ m.happens s) : m.stored t = stored := by
  unfold happens at h
  split at h
  -- what is heard at once is no trigger, and what is fetched is what the catalog has
  · split at h
    · next c _ =>
      unfold message at h
      split at h
      · split at h <;> simp at h
      · split at h <;> simp at h
      · cases h
      · split at h <;> simp at h
    · split at h
      · obtain ⟨rfl, rfl⟩ := Happening.trigger.inj (List.mem_singleton.mp h)
        rfl
      · cases h
    · obtain ⟨rfl, rfl⟩ := Happening.trigger.inj (List.mem_singleton.mp h)
      rfl
    all_goals cases h
  · cases h

/-! ## What is done -/

/-- What a listener does next, inside `handle_job_change`, `handle_node_change` or `handle_timer`,
and what happens with it. -/
inductive Heeds (u : Setup) (m : Machine) (c : Channel) : List Happening → Machine → Prop
  | change {t : Topic JobChange} {x : JobChange} (hChannel : c = .jobs)
      (hEar : m.ears.get c = .listening) (hHeard : m.changes.receive listener = (t, .message x)) :
      Heeds u m c [.change x] ({ m with changes := t }.handleChange u x)
  | tree {t : Topic NodeChange} {x : NodeChange} (hChannel : c = .tree)
      (hEar : m.ears.get c = .listening) (hHeard : m.tree.receive listener = (t, .message x)) :
      Heeds u m c [.node false x]
        ({ m with tree := t }.setEar c
          (.busy { launches := m.launchesOf (u.order false (behind t)) x }))
  | attributes {t : Topic NodeChange} {x : NodeChange} (hChannel : c = .attributes)
      (hEar : m.ears.get c = .listening)
      (hHeard : m.attributes.receive listener = (t, .message x)) :
      Heeds u m c [.node true x]
        ({ m with attributes := t }.setEar c
          (.busy { launches := m.launchesOf (u.order true (behind t)) x }))
  | trigger {t : Topic JobTrigger} {x : JobTrigger} (hChannel : c = .timers)
      (hEar : m.ears.get c = .listening) (hHeard : m.timers.receive listener = (t, .message x)) :
      Heeds u m c [] ({ m with timers := t }.setEar c (.seeking x))
  | known {x : JobTrigger} {j : Job} (hEar : m.ears.get c = .seeking x)
      (hJob : m.jobs.get? x.jobId = some j) :
      Heeds u m c [.trigger x (m.stored x)] (m.setEar c (triggered x j))
  | unknown {x : JobTrigger} (hEar : m.ears.get c = .seeking x)
      (hJob : m.jobs.get? x.jobId = none) : Heeds u m c [] (m.setEar c (.fetching x))
  | found {x : JobTrigger} {j : Job} (hEar : m.ears.get c = .fetching x)
      (hRead : m.floor.catalog.getJob x.jobId .unknown = .ok j) :
      Heeds u m c [.trigger x (some j)] (m.setEar c (.loading x j))
  | missing {x : JobTrigger} {e : Fault} (hEar : m.ears.get c = .fetching x)
      (hRead : m.floor.catalog.getJob x.jobId .unknown = .error e) :
      Heeds u m c [.trigger x none] (m.setEar c .listening)
  | load {x : JobTrigger} {j : Job} (hEar : m.ears.get c = .loading x j) :
      Heeds u m c [] ({ m with jobs := m.jobs.insert j.id j }.setEar c (triggered x j))
  | errand {e e' : Errand} {f : Floor} (hEar : m.ears.get c = .busy e)
      (hRun : runErrand u m.floor e = some (f, e')) :
      Heeds u m c [] ((m.onFloor f).setEar c (.busy e'))
  | done {e : Errand} (hEar : m.ears.get c = .busy e) (hRun : runErrand u m.floor e = none) :
      Heeds u m c [] (m.setEar c .listening)

variable {u : Setup} {m m' : Machine}

/-- Every way a listener can go on from a message, as a case of `Heeds`. -/
theorem heeds_of_hear {c : Channel} (hEar : m.ears.get c = .listening)
    (h : m.hear u c = some m') : Heeds u m c (m.message c) m' := by
  cases c with
  | tree =>
    simp only [hear, hearNode] at h
    split at h
    · next x hHeard =>
      cases h
      have hMessage : m.message .tree = [.node false x] := by simp only [message, hHeard]
      rw [hMessage]
      exact .tree rfl hEar hHeard
    · cases h
  | attributes =>
    simp only [hear, hearNode] at h
    split at h
    · next x hHeard =>
      cases h
      have hMessage : m.message .attributes = [.node true x] := by simp only [message, hHeard]
      rw [hMessage]
      exact .attributes rfl hEar hHeard
    · cases h
  | timers =>
    simp only [hear] at h
    split at h
    -- a trigger that is heard is not seen to yet
    · next hHeard =>
      cases h
      exact .trigger rfl hEar hHeard
    · cases h
  | jobs =>
    simp only [hear] at h
    split at h
    · next x hHeard =>
      cases h
      have hMessage : m.message .jobs = [.change x] := by simp only [message, hHeard]
      rw [hMessage]
      exact .change rfl hEar hHeard
    · cases h

/-- Every step of a listener, as a case of `Heeds`. -/
theorem heeds_of_listen {c : Channel} (h : m.listen u c = some m') :
    Heeds u m c (m.happens (.listen c)) m' := by
  rw [listen] at h
  split at h
  · next hEar =>
    have hHappens : m.happens (.listen c) = m.message c := by simp only [happens, hEar]
    rw [hHappens]
    exact heeds_of_hear hEar h
  · next x hEar =>
    cases h
    cases hJob : m.jobs.get? x.jobId with
    | some j =>
      have hHappens : m.happens (.listen c) = [.trigger x (m.stored x)] := by
        simp only [happens, hEar, hJob, Option.isSome_some, if_true]
      rw [hHappens]
      exact .known hEar hJob
    | none =>
      -- the trigger is seen to when the catalog has been asked
      have hHappens : m.happens (.listen c) = [] := by
        simp only [happens, hEar, hJob, Option.isSome_none, Bool.false_eq_true, if_false]
      rw [hHappens]
      exact .unknown hEar hJob
  · next x hEar =>
    cases h
    cases hRead : m.floor.catalog.getJob x.jobId .unknown with
    | ok j =>
      have hHappens : m.happens (.listen c) = [.trigger x (some j)] := by
        simp only [happens, hEar, stored, hRead, Except.toOption]
      rw [hHappens]
      exact .found hEar hRead
    | error e =>
      have hHappens : m.happens (.listen c) = [.trigger x none] := by
        simp only [happens, hEar, stored, hRead, Except.toOption]
      rw [hHappens]
      exact .missing hEar hRead
  · next x j hEar =>
    cases h
    have hHappens : m.happens (.listen c) = [] := by simp only [happens, hEar]
    rw [hHappens]
    exact .load hEar
  · next e hEar =>
    have hHappens : m.happens (.listen c) = [] := by simp only [happens, hEar]
    rw [hHappens]
    split at h
    · next hRun =>
      cases h
      exact .errand hEar hRun
    · next hRun =>
      cases h
      exact .done hEar hRun
  · cases h

/-- What a listener does, whatever happens with it. -/
theorem exists_heeds {c : Channel} (h : m.listen u c = some m') : ∃ hs, Heeds u m c hs m' :=
  ⟨m.happens (.listen c), heeds_of_listen h⟩

end Machine

end Taskyard
