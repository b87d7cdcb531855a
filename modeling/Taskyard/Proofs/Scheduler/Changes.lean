import Taskyard.Proofs.Bus.Unread
import Taskyard.Proofs.Scheduler.Staffing

/-!
# Scheduler — what steps do to definitions of jobs

A definition of a job stands in the catalog, in what is still to be told, on the topic of changes,
with a listener that has read it, and among the loaded jobs. Most steps leave all of these alone.
The others are a write, of which there is then something to tell; the telling; the hearing of a
change; and the two halves of the loading of a job that a trigger has asked for.

Main definitions and results:

* `JobChange.subject`, `JobChange.Describes`, `JobChange.applied` — what a change is about, when it
  tells what the catalog holds, and what it makes of the loaded jobs.
* `owing` — the changes of a job that are still to be told.
* `Machine.serves` — steps with which every change goes through the service and reaches the
  listener.
* `Machine.posts`, `Machine.tellsOf` — what a step publishes, and what of a job.
* `Machine.Shift`, `Machine.step_shift` — what a step does to definitions.
-/

namespace Taskyard

/-! ## Changes -/

namespace JobChange

/-- The job that a change is about. -/
def subject (c : JobChange) : Option String := c.removed.or (c.updated.map Job.id)

/-- Whether a change tells what the catalog holds of its job. -/
def Describes (c : JobChange) (row : Option JobRow) : Prop :=
  (c.removed.isSome = true ∧ row = none) ∨
    (c.removed = none ∧ ∃ j, c.updated = some j ∧ row = some j.row)

/-- The loaded jobs after a change was heard of. -/
def applied (c : JobChange) (jobs : Dict Job) : Dict Job :=
  match c.removed, c.updated with
  | some id, _ => jobs.erase id
  | none, some j => jobs.insert j.id j.withoutTasks
  | none, none => jobs

/-- A change of one job leaves the others loaded as they were. -/
theorem get?_applied_of_ne {c : JobChange} {id : String} (h : c.subject ≠ some id)
    (jobs : Dict Job) : (c.applied jobs).get? id = jobs.get? id := by
  rw [applied]
  -- a removal comes before a new definition, and either is of the subject
  split
  · next removed hRemoved =>
    rw [Dict.get?_erase, if_neg]
    rintro rfl
    exact h (by rw [subject, hRemoved]; rfl)
  · next j hRemoved hUpdated =>
    rw [Dict.get?_insert, if_neg]
    intro hEq
    exact h (by rw [subject, hRemoved, hUpdated, ← hEq]; rfl)
  · rfl

end JobChange

/-- The change of a job that an announcement tells of, if it does. -/
def Announcement.about (id : String) : Announcement → Option JobChange
  | .job c => if c.subject = some id then some c else none
  | .trigger _ | .task _ => none

/-- The changes of a job that are still to be told, the oldest first. -/
def owing (id : String) (calls : List (List Announcement)) : List JobChange :=
  calls.flatten.filterMap (Announcement.about id)

section Owing

variable {id : String} {calls : List (List Announcement)}

/-- What is owed of a job, call by call. -/
theorem owing_append (calls calls' : List (List Announcement)) :
    owing id (calls ++ calls') = owing id calls ++ owing id calls' := by
  rw [owing, owing, owing, List.flatten_append, List.filterMap_append]

theorem owing_cons (told : List Announcement) (calls : List (List Announcement)) :
    owing id (told :: calls) = owing id [told] ++ owing id calls :=
  owing_append [told] calls

/-- A call that tells of no job owes nothing. -/
theorem owing_of_silent {told : List Announcement} (h : ∀ a ∈ told, a.about id = none) :
    owing id [told] = [] := by
  rw [owing, List.flatten_singleton, List.filterMap_eq_nil_iff]
  exact h

/-- A call that first tells of a change of a job, and of none after it. -/
theorem owing_job {c : JobChange} {told : List Announcement} (h : ∀ a ∈ told, a.about id = none) :
    owing id [.job c :: told] = if c.subject = some id then [c] else [] := by
  have hRest : told.filterMap (Announcement.about id) = [] := List.filterMap_eq_nil_iff.mpr h
  rw [owing, List.flatten_singleton, List.filterMap_cons, hRest, Announcement.about]
  split
  · next hNone =>
    split at hNone
    · cases hNone
    · next hOther => rw [if_neg hOther]
  · next c' hSome =>
    split at hSome
    · next hSubject =>
      cases hSome
      rw [if_pos hSubject]
    · cases hSome

/-- One call's announcements singled out among what is owed. -/
theorem owing_split {n : Nat} {told : List Announcement} (h : calls[n]? = some told) :
    owing id calls =
      owing id (calls.take n) ++ (owing id [told] ++ owing id (calls.drop (n + 1))) := by
  obtain ⟨hLt, hItem⟩ := List.getElem?_eq_some_iff.mp h
  have hSplit : calls = calls.take n ++ told :: calls.drop (n + 1) := by
    rw [← hItem, ← List.drop_eq_getElem_cons hLt, List.take_append_drop]
  calc owing id calls = owing id (calls.take n ++ told :: calls.drop (n + 1)) := by rw [← hSplit]
    _ = _ := by rw [owing_append, owing_cons]

/-- A change of a job is owed behind what earlier calls owe. -/
theorem owing_call {n : Nat} {c : JobChange} {rest : List Announcement}
    (h : calls[n]? = some (.job c :: rest)) :
    owing id calls = owing id (calls.take n) ++
      ((if c.subject = some id then [c] else []) ++ owing id (rest :: calls.drop (n + 1))) := by
  have hHead : owing id [.job c :: rest] =
      owing id [[.job c]] ++ owing id [rest] := by
    rw [owing, owing, owing, ← List.filterMap_append]
    rfl
  have hOne : owing id [[.job c]] = if c.subject = some id then [c] else [] :=
    owing_job fun _ ha => nomatch ha
  rw [owing_split h, hHead, hOne, owing_cons rest (calls.drop (n + 1)), List.append_assoc]

/-- What is still owed once the first part of a call was told. -/
theorem owing_told {n : Nat} {told rest : List Announcement} (h : calls[n]? = some told) :
    owing id (if rest.isEmpty then calls.eraseIdx n else calls.set n rest) =
      owing id (calls.take n) ++ owing id (rest :: calls.drop (n + 1)) := by
  obtain ⟨hLt, -⟩ := List.getElem?_eq_some_iff.mp h
  -- a call that has told everything is gone, and owes nothing
  split
  · next hEmpty =>
    rw [List.isEmpty_iff.mp hEmpty, List.eraseIdx_eq_take_drop_succ, owing_append, owing_cons []]
    rfl
  · rw [List.set_eq_take_append_cons_drop, if_pos hLt, owing_append]

end Owing

/-! ## Steps that leave definitions alone -/

/-- A floor after something that leaves the rows of jobs and what is to be told of them. -/
structure Floor.Spares (f f' : Floor) : Prop where
  /-- The rows. -/
  rows : f'.catalog.jobs = f.catalog.jobs
  /-- What is to be told. -/
  owed : ∀ id, owing id f'.calls = owing id f.calls

namespace Floor.Spares

variable {f f' : Floor}

theorem refl (f : Floor) : f.Spares f := ⟨rfl, fun _ => rfl⟩

theorem trans {f'' : Floor} (h : f.Spares f') (h' : f'.Spares f'') : f.Spares f'' :=
  ⟨h'.rows.trans h.rows, fun id => (h'.owed id).trans (h.owed id)⟩

/-- Nothing that is done with a task tells of a job. -/
theorem perform (f : Floor) (i : Nat) (d : Deed) : f.Spares (f.perform i d).1 := by
  obtain ⟨tasks, writer, main, hPerform⟩ := f.exists_perform i d
  rw [hPerform]
  exact ⟨rfl, fun _ => rfl⟩

/-- What is told of tasks is told of no job. -/
theorem telling (f : Floor) {told : List Announcement} (h : ∀ id, ∀ a ∈ told, a.about id = none) :
    f.Spares (f.telling told) := by
  rw [Floor.telling]
  split
  · exact refl f
  · refine ⟨rfl, fun id => ?_⟩
    show owing id (f.calls ++ [told]) = owing id f.calls
    rw [owing_append, owing_of_silent (h id), List.append_nil]

theorem runErrand {u : Setup} {e e' : Errand} (h : Machine.runErrand u f e = some (f', e')) :
    f.Spares f' := by
  obtain ⟨tasks, writer, main, rfl⟩ := Machine.exists_runErrand h
  exact ⟨rfl, fun _ => rfl⟩

end Floor.Spares

/-- A deletion takes tasks from the catalog, and tells of tasks only. -/
theorem Execution.prune_spares (u : Setup) (f : Floor) (e : Execution) (d : Deletion)
    (script : Except Fault (List String) → Script) :
    f.Spares (e.proceed u f (.prune d script)).1 := by
  rw [Execution.proceed, Catalog.removeTasks, Catalog.deleteTasks]
  cases f.catalog.chooseTasks d with
  | error fault => exact .refl f
  | ok ts =>
    show f.Spares ({ f with catalog := f.catalog.eraseTasks ts }.telling
      (ts.map fun t : Task => Announcement.task (.gone t.id)))
    have hErased : f.Spares { f with catalog := f.catalog.eraseTasks ts } :=
      ⟨Catalog.jobs_eraseTasks _ ts, fun _ => rfl⟩
    refine hErased.trans (.telling _ fun id a ha => ?_)
    obtain ⟨t, -, rfl⟩ := List.mem_map.mp ha
    rfl

theorem Execution.step_spares {u : Setup} {f f' : Floor} {e : Execution} {next : Option Execution}
    (h : e.step u f = some (f', next)) : f.Spares f' := by
  rcases Execution.floor_cases h with ⟨d, script, -, rfl⟩ | ⟨-, rfl | ⟨x, rfl⟩⟩
  · exact e.prune_spares u f d script
  · exact .refl f'
  · exact .perform f _ x

namespace Ears

/-- Setting the part of one listener, only that one can come to load a job. -/
theorem get_set_of_loading {e : Ears} {ear : Ear} {c c' : Channel} {t : JobTrigger} {j : Job}
    (h : (e.set ear c).get c' = .loading t j) :
    (c' = c ∧ ear = .loading t j) ∨ e.get c' = .loading t j := by
  cases c <;> cases c' <;> first | exact Or.inl ⟨rfl, h⟩ | exact Or.inr h

end Ears

/-- The job that is written with a step, by someone who tells of it. -/
def MachineStep.written? : MachineStep → Option String
  | .saveJob j => some j.id
  | .removeJob id => some id
  | _ => none

namespace Machine

/-- What is published with a step. -/
def posts (m : Machine) : MachineStep → List Post
  | .publish post => [post]
  | .announce n =>
    match m.floor.calls[n]? with
    | some (.job c :: _) => [.job c]
    | some (.trigger t :: _) => [.trigger t]
    | _ => []
  | _ => []

/-- The change of a job that a message tells of, if it does. -/
def Post.about (id : String) : Post → Option JobChange
  | .job c => if c.subject = some id then some c else none
  | .node _ _ | .trigger _ => none

/-- The changes of a job that are published with a step. -/
def tellsOf (id : String) (m : Machine) (s : MachineStep) : List JobChange :=
  (m.posts s).filterMap (Post.about id)

/-- The row of a job in the catalog. -/
def row? (m : Machine) (id : String) : Option JobRow := m.floor.catalog.jobs.get? id

/-- A machine after something that leaves all definitions of jobs. -/
structure Spares (m m' : Machine) : Prop where
  /-- The loaded ones. -/
  jobs : m'.jobs = m.jobs
  /-- Those on the topic. -/
  changes : m'.changes = m.changes
  /-- Those that listeners have read. -/
  loading : ∀ c t j, m'.ears.get c = .loading t j → m.ears.get c = .loading t j
  /-- Those in the catalog and in what is to be told. -/
  floor : m.floor.Spares m'.floor

/-! ## Dispatchers -/

/-- Stopping a dispatcher changes nothing but the service and the dispatchers. -/
theorem exists_retire (m : Machine) (jobId : String) :
    ∃ service benches, m.retire jobId = { m with service, benches } := by
  rw [retire]
  split <;> exact ⟨_, _, rfl⟩

/-- Loading a job touches the loaded jobs and the dispatchers only. -/
theorem exists_load (u : Setup) (m : Machine) (j : Job) : ∃ service benches,
    m.load u j = { m with service, benches, jobs := m.jobs.insert j.id j } := by
  obtain ⟨service, benches, hRetire⟩ := exists_retire m j.id
  rw [load, hRetire]
  cases m.service.contains j.id <;> exact ⟨_, _, rfl⟩

/-- A change that is heard of makes of the loaded jobs what it says. -/
theorem exists_handleChange (u : Setup) (m : Machine) (c : JobChange) : ∃ service benches,
    m.handleChange u c = { m with service, benches, jobs := c.applied m.jobs } := by
  rw [handleChange]
  split
  · next id hRemoved =>
    obtain ⟨service, benches, hRetire⟩ := exists_retire m id
    have hApplied : c.applied m.jobs = m.jobs.erase id := by rw [JobChange.applied, hRemoved]
    rw [unload, hRetire, hApplied]
    exact ⟨service, benches, rfl⟩
  -- the dispatcher may be replaced, the definition is
  · next j hRemoved hUpdated =>
    have hApplied : c.applied m.jobs = m.jobs.insert j.id j.withoutTasks := by
      rw [JobChange.applied, hRemoved, hUpdated]
    rw [hApplied]
    exact exists_load u m j.withoutTasks
  · next hRemoved hUpdated =>
    have hApplied : c.applied m.jobs = m.jobs := by rw [JobChange.applied, hRemoved, hUpdated]
    rw [hApplied]
    exact ⟨_, _, rfl⟩

/-- Stopping the dispatchers touches nothing else. -/
theorem exists_stopDispatchers (m : Machine) :
    ∃ service benches, m.stopDispatchers = { m with service, benches } := by
  refine stopDispatchers_induction (P := fun x => ∃ service benches, x = { m with service, benches })
    ?_ ⟨_, _, rfl⟩
  rintro _ jobId ⟨service, benches, rfl⟩
  exact exists_retire { m with service, benches } jobId

/-- Routing changes nothing but the service and the dispatchers. -/
theorem exists_route (u : Setup) (m : Machine) (r : Runnable) :
    ∃ service benches, (m.route u r).1 = { m with service, benches } := by
  rw [route]
  split
  · exact ⟨_, _, rfl⟩
  · next j _ =>
    have hBench : ∃ service benches, (m.benchFor u j).1 = { m with service, benches } := by
      rw [benchFor]
      split <;> exact ⟨_, _, rfl⟩
    obtain ⟨service, benches, hBench⟩ := hBench
    dsimp only
    rw [hBench]
    split <;> exact ⟨_, _, rfl⟩

namespace Spares

variable {u : Setup} {m m' : Machine}

theorem of_floor {f : Floor} (h : m.floor.Spares f) : m.Spares (m.onFloor f) :=
  ⟨rfl, rfl, fun _ _ _ h => h, h⟩

/-- The router writes no job and tells of none. -/
theorem stepRouter (h : m.stepRouter u = some m') : m.Spares m' := by
  rcases stepRouter_cases h with ⟨r, rest, m₁, deeds, -, -, hRoute, rfl⟩ |
    ⟨e, -, ⟨f, e', hErrand, rfl⟩ | ⟨-, rfl⟩⟩
  -- whether the runnable is routed or turned away, only dispatchers are touched
  · obtain ⟨service, benches, hKeeps⟩ :=
      exists_route u (m.onFloor { m.floor with main := rest }) r
    rw [hRoute] at hKeeps
    obtain rfl : m₁ = _ := hKeeps
    split <;> exact ⟨rfl, rfl, fun _ _ _ h => h, rfl, fun _ => rfl⟩
  · exact ⟨rfl, rfl, fun _ _ _ h => h, .runErrand hErrand⟩
  · exact ⟨rfl, rfl, fun _ _ _ h => h, .refl _⟩

theorem submit (j : Job) (a : Action) (input : Message) : m.Spares (m.submit u j a input) := by
  have hFloor : m.floor.Spares
      ((m.floor.addTask u j (.aside [])).mark m.floor.tasks.length .retain) := by
    have hAdded : m.floor.Spares (m.floor.addTask u j (.aside [])) := ⟨rfl, fun _ => rfl⟩
    exact hAdded.trans (.perform _ _ (.mark .retain))
  -- routing changes dispatchers only, and the rest is the new task
  obtain ⟨service, benches, hRouted⟩ := exists_route u (m.onFloor
    ((m.floor.addTask u j (.aside [])).mark m.floor.tasks.length .retain))
    { action := a, task := m.floor.tasks.length, input }
  cases hRoute : (m.onFloor ((m.floor.addTask u j (.aside [])).mark m.floor.tasks.length
    .retain)).route u { action := a, task := m.floor.tasks.length, input } with
  | mk m₁ deeds =>
    rw [hRoute] at hRouted
    dsimp only at hRouted
    rw [submit_eq hRoute, hRouted]
    split <;> exact ⟨rfl, rfl, fun _ _ _ h => h, hFloor⟩

theorem call {n : Nat} (h : m.call u n = some m') : m.Spares m' := by
  obtain ⟨e, -, ⟨f, e', hErrand, rfl⟩ | ⟨-, rfl⟩⟩ := call_cases h
  · exact ⟨rfl, rfl, fun _ _ _ h => h, .runErrand hErrand⟩
  · exact ⟨rfl, rfl, fun _ _ _ h => h, .refl _⟩

theorem stepBench {n : Nat} {s : DispatcherStep} (h : m.stepBench n s = some m') :
    m.Spares m' := by
  rw [Machine.stepBench] at h
  split at h
  · cases h
  · cases h
    exact ⟨rfl, rfl, fun _ _ _ h => h, .refl _⟩

/-- A worker changes no job: what it prunes are tasks. -/
theorem work {n w : Nat} (h : m.work u n w = some m') : m.Spares m' := by
  obtain ⟨b, e, f, next, -, -, hStep, rfl⟩ := work_cases h
  exact ⟨rfl, rfl, fun _ _ _ h => h, e.step_spares hStep⟩

/-- Saving a task changes no job. -/
theorem saveTask (t : Task) : m.Spares (m.change (m.floor.catalog.saveTask t)) := by
  have hSaved : m.floor.Spares { m.floor with catalog := (m.floor.catalog.saveTask t).1 } :=
    ⟨rfl, fun _ => rfl⟩
  refine of_floor (hSaved.trans (.telling _ fun id a ha => ?_))
  rw [List.mem_singleton.mp ha]
  rfl

/-- So the writer, which saves tasks, changes none. -/
theorem write {s : WriterStep} (h : m.write s = some m') : m.Spares m' := by
  obtain ⟨writer, put, -, ⟨t, -, -, rfl⟩ | ⟨-, rfl⟩⟩ := write_cases h
  · have hSaved : m.floor.Spares { m.floor with
        writer, catalog := (m.floor.catalog.saveTask t).1 } := ⟨rfl, fun _ => rfl⟩
    refine of_floor (hSaved.trans (.telling _ fun id a ha => ?_))
    rw [List.mem_singleton.mp ha]
    rfl
  · exact of_floor ⟨rfl, fun _ => rfl⟩

/-- A listener that goes on to something else than the loading of a job. -/
theorem setEar {c : Channel} {ear : Ear} {f : Floor} (hEar : ∀ t j, ear ≠ .loading t j)
    (hFloor : m.floor.Spares f) : m.Spares ((m.onFloor f).setEar c ear) where
  jobs := rfl
  changes := rfl
  loading c' t j h := by
    rcases Ears.get_set_of_loading h with ⟨-, hLoading⟩ | hKept
    · exact absurd hLoading (hEar t j)
    · exact hKept
  floor := hFloor

/-- After a trigger was heard of nothing is being loaded. -/
theorem triggered_ne (t t' : JobTrigger) (j j' : Job) : triggered t j ≠ .loading t' j' := by
  rw [triggered]
  split <;> simp

/-- A listener that ends takes no change of a job with it, unless it is the one on changes. -/
theorem silence {c : Channel} (hc : c ≠ .jobs) (h : m.silence c = some m') : m.Spares m' := by
  obtain ⟨-, rfl⟩ := silence_cases h
  have hDeaf : m.Spares (m.setEar c .deaf) := setEar (by simp) (.refl _)
  cases c with
  | jobs => exact absurd rfl hc
  | tree | attributes | timers => exact ⟨rfl, rfl, hDeaf.loading, .refl _⟩

end Spares

/-! ## Every step -/

/-- Whether a step is one of a scheduler whose jobs are changed through the service alone, and whose
listener on changes of jobs is not ended and does not fall behind. -/
def serves (m : Machine) : MachineStep → Bool
  | .store _ | .publish (.job _) | .silence .jobs => false
  | .announce n =>
    match m.floor.calls[n]? with
    | some (.job _ :: _) => (m.changes.unread listener).length < m.changes.slots
    | _ => true
  | _ => true

/-- What a step does to the definitions of jobs, by what it publishes and writes. -/
inductive Shift (u : Setup) (m : Machine) : MachineStep → Machine → Prop
  | spares {s : MachineStep} {m' : Machine} (hTells : ∀ id, m.tellsOf id s = [])
      (hWritten : s.written? = none) (h : m.Spares m') : Shift u m s m'
  | wrote {s : MachineStep} {m' : Machine} {c : JobChange} {k : String}
      (hTells : ∀ id, m.tellsOf id s = []) (hWritten : s.written? = some k)
      (hSubject : c.subject = some k) (hDescribes : c.Describes (m'.row? k))
      (hFaithful : ∀ r, m'.row? k = some r → ∃ j : Job, j.id = k ∧ j.row = r)
      (hRows : ∀ k', k' ≠ k → m'.row? k' = m.row? k')
      (hOwed : ∀ id, owing id m'.floor.calls =
        owing id m.floor.calls ++ if k = id then [c] else [])
      (hJobs : m'.jobs = m.jobs) (hChanges : m'.changes = m.changes) (hEars : m'.ears = m.ears) :
      Shift u m s m'
  | told {n : Nat} {m' : Machine} {c : JobChange} {rest : List Announcement}
      (hCall : m.floor.calls[n]? = some (.job c :: rest))
      (hOwed : ∀ id, owing id m'.floor.calls = owing id (m.floor.calls.take n) ++
        owing id (rest :: m.floor.calls.drop (n + 1)))
      (hChanges : m'.changes = (m.changes.publish c).1)
      (hRows : ∀ id, m'.row? id = m.row? id) (hJobs : m'.jobs = m.jobs)
      (hEars : m'.ears = m.ears) : Shift u m (.announce n) m'
  | heard {m' : Machine} {c : JobChange}
      (hHeard : m.changes.receive listener = (m'.changes, .message c))
      (hJobs : m'.jobs = c.applied m.jobs) (hFloor : m'.floor = m.floor)
      (hEars : m'.ears = m.ears) : Shift u m (.listen .jobs) m'
  | fetched {ch : Channel} {t : JobTrigger} {j : Job}
      (hRead : m.floor.catalog.getJob t.jobId .unknown = .ok j) :
      Shift u m (.listen ch) (m.setEar ch (.loading t j))
  | loaded {ch : Channel} {t : JobTrigger} {j : Job} (hEar : m.ears.get ch = .loading t j) :
      Shift u m (.listen ch)
        ({ m with jobs := m.jobs.insert j.id j }.setEar ch (triggered t j))

variable {u : Setup} {m m' : Machine}

/-- A call that tells of a job adds it to the topic; telling of a task spares all. -/
theorem shift_announce {n : Nat} (h : m.announce n = some m') : Shift u m (.announce n) m' := by
  rw [announce] at h
  split at h
  · next a rest hCall =>
    cases h
    -- a change of a job goes to the topic, and what else is told is of no job
    cases a with
    | job c => exact .told hCall (fun id => owing_told hCall) rfl (fun _ => rfl) rfl rfl
    | trigger | task =>
      have hTells : ∀ id, m.tellsOf id (.announce n) = [] := by
        intro id
        simp only [tellsOf, posts, hCall]
        rfl
      refine .spares hTells rfl ⟨rfl, rfl, fun _ _ _ h => h, rfl, fun id => ?_⟩
      refine (owing_told hCall).trans ?_
      rw [owing_split hCall, owing_cons rest]
      rfl
  · cases h

/-- What a listener does to the jobs: it hears of a change, it reads one, or it loads what it
read. -/
theorem shift_listen {c : Channel} (h : m.listen u c = some m') : Shift u m (.listen c) m' := by
  obtain ⟨_, hHeeds⟩ := exists_heeds h
  have hBusy (e : Errand) : m.Spares (m.setEar c (.busy e)) := Spares.setEar (by simp) (.refl _)
  cases hHeeds with
  -- only the listener on changes hears of definitions
  | @change t x hChannel _ hHeard =>
    subst hChannel
    obtain ⟨service, benches, hHandled⟩ := exists_handleChange u { m with changes := t } x
    rw [hHandled]
    exact .heard hHeard rfl rfl rfl
  | @tree t x =>
    exact .spares (fun _ => rfl) rfl ⟨rfl, rfl, (hBusy _).loading, .refl _⟩
  | @attributes t x =>
    exact .spares (fun _ => rfl) rfl ⟨rfl, rfl, (hBusy _).loading, .refl _⟩
  | @trigger t x =>
    have hEars : m.Spares (m.setEar c (.seeking x)) := Spares.setEar (by simp) (.refl _)
    exact .spares (fun _ => rfl) rfl ⟨rfl, rfl, hEars.loading, .refl _⟩
  | @known x j =>
    exact .spares (fun _ => rfl) rfl
      (Spares.setEar (fun _ _ => Spares.triggered_ne x _ j _) (.refl m.floor))
  -- what the catalog has of a job is taken
  | found _ hRead => exact .fetched hRead
  | load hEar => exact .loaded hEar
  | errand _ hRun => exact .spares (fun _ => rfl) rfl (Spares.setEar (by simp) (.runErrand hRun))
  | unknown | missing | done =>
    exact .spares (fun _ => rfl) rfl (Spares.setEar (by simp) (.refl m.floor))

/-- The rows of jobs after a call of the service are those that it left. -/
theorem row?_change (c : Catalog × List Announcement) (k : String) :
    (m.change c).row? k = c.1.jobs.get? k := by
  rw [row?, change, onFloor, Floor.telling]
  split <;> rfl

/-- What a call of the service has to tell is owed from then on. -/
theorem owing_change (id : String) (c : Catalog × List Announcement) :
    owing id (m.change c).floor.calls = owing id m.floor.calls ++ owing id [c.2] := by
  rw [change, onFloor, Floor.telling]
  split
  · next hEmpty =>
    rw [List.isEmpty_iff.mp hEmpty]
    exact (List.append_nil _).symm
  · exact owing_append m.floor.calls [c.2]

/-- Saving a job writes its row, and owes the news of it. -/
theorem shift_saveJob (j : Job) : Shift u m (.saveJob j)
    (m.change (m.floor.catalog.putJob j.withoutTasks, j.withoutTasks.announcements)) := by
  have hRow : ∀ k, (m.change (m.floor.catalog.putJob j.withoutTasks,
      j.withoutTasks.announcements)).row? k =
        if j.id = k then some j.withoutTasks.row else m.row? k := by
    intro k
    rw [row?_change, Catalog.putJob]
    exact Dict.get?_insert _ _ _ _
  refine .wrote (fun _ => rfl) rfl (c := .saved j.withoutTasks) (k := j.id) rfl ?_ (fun r hr => ?_)
    (fun k' hk' => ?_) (fun id => ?_) rfl rfl rfl
  · refine Or.inr ⟨rfl, j.withoutTasks, rfl, ?_⟩
    rw [hRow, if_pos rfl]
  · rw [hRow, if_pos rfl] at hr
    exact ⟨j.withoutTasks, rfl, Option.some.inj hr⟩
  · rw [hRow, if_neg (Ne.symm hk')]
  -- after the change a saved job may be triggered, which tells of no job
  · have hTold : ∀ a ∈ (if j.withoutTasks.autoStart then [Announcement.trigger
        (.immediate j.withoutTasks.id)] else []), a.about id = none := by
      intro a ha
      split at ha
      · rw [List.mem_singleton.mp ha]
        rfl
      · cases ha
    rw [owing_change]
    show _ ++ owing id [.job (.saved j.withoutTasks) :: _] = _
    rw [owing_job hTold]
    show _ ++ (if some j.id = some id then _ else _) = _
    simp only [Option.some.injEq]

/-- Removing a job that is there clears its row, and owes the news of it. -/
theorem shift_removeJob (id : String) :
    Shift u m (.removeJob id) (m.change (m.floor.catalog.removeJob id)) := by
  have hRow : ∀ k, (m.change (m.floor.catalog.removeJob id)).row? k =
      if id = k then none else m.row? k := by
    intro k
    rw [row?_change]
    exact Dict.get?_erase _ _ _
  refine .wrote (fun _ => rfl) rfl (c := .gone id) (k := id) rfl (Or.inl ⟨rfl, ?_⟩)
    (fun r hr => ?_) (fun k' hk' => ?_) (fun id' => ?_) rfl rfl rfl
  · rw [hRow, if_pos rfl]
  · rw [hRow, if_pos rfl] at hr
    cases hr
  · rw [hRow, if_neg (Ne.symm hk')]
  -- the removal itself writes nothing else, so this is all that is told of it
  · have hTold : ∀ a ∈ ([] : List Announcement), a.about id' = none := fun _ ha => nomatch ha
    rw [owing_change]
    show _ ++ owing id' [[.job (.gone id)]] = _
    rw [owing_job hTold]
    show _ ++ (if some id = some id' then _ else _) = _
    simp only [Option.some.injEq]

/-- **What a step does to the definitions of jobs**, if they are changed through the service. -/
theorem step_shift {s : MachineStep} (hServes : m.serves s = true) (h : m.step u s = some m') :
    Shift u m s m' := by
  cases s with
  | time now clock =>
    cases h
    exact .spares (fun _ => rfl) rfl (.of_floor ⟨rfl, fun _ => rfl⟩)
  | publish post =>
    cases h
    cases post with
    | node onAttributes c =>
      cases onAttributes <;>
        exact .spares (fun _ => rfl) rfl ⟨rfl, rfl, fun _ _ _ h => h, .refl _⟩
    | trigger t => exact .spares (fun _ => rfl) rfl ⟨rfl, rfl, fun _ _ _ h => h, .refl _⟩
    -- a change of a job that the service does not make is not among these steps
    | job c => cases hServes
  | store j => cases hServes
  | saveJob j =>
    cases h
    exact shift_saveJob j
  | removeJob id =>
    cases h
    exact shift_removeJob id
  | saveTask t =>
    cases h
    exact .spares (fun _ => rfl) rfl (.saveTask t)
  | announce n => exact shift_announce h
  | launch j e =>
    cases h
    exact .spares (fun _ => rfl) rfl ⟨rfl, rfl, fun _ _ _ h => h, rfl, fun _ => rfl⟩
  | submit j a input =>
    cases h
    exact .spares (fun _ => rfl) rfl (.submit j a input)
  | call n => exact .spares (fun _ => rfl) rfl (.call h)
  | listen c => exact shift_listen h
  | route => exact .spares (fun _ => rfl) rfl (.stepRouter h)
  | dispatch n s => exact .spares (fun _ => rfl) rfl (.stepBench h)
  | work n w => exact .spares (fun _ => rfl) rfl (.work h)
  | write s => exact .spares (fun _ => rfl) rfl (.write h)
  | silence c =>
    -- the listener to changes of jobs goes on
    have hOther : c ≠ .jobs := by
      rintro rfl
      cases hServes
    exact .spares (fun _ => rfl) rfl (.silence hOther h)
  | endRouter =>
    obtain ⟨-, rfl⟩ := endRouter_cases h
    exact .spares (fun _ => rfl) rfl ⟨rfl, rfl, fun _ _ _ h => h, rfl, fun _ => rfl⟩
  | stopDispatchers =>
    cases h
    obtain ⟨service, benches, hStop⟩ := exists_stopDispatchers m
    rw [hStop]
    exact .spares (fun _ => rfl) rfl ⟨rfl, rfl, fun _ _ _ h => h, .refl _⟩

end Machine

end Taskyard
