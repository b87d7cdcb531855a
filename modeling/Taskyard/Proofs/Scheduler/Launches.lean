import Taskyard.Proofs.Scheduler.Convergence
import Taskyard.Proofs.Scheduler.Hearing
import Taskyard.Proofs.Scheduler.Service

/-!
# Scheduler — which tasks are started

Listeners start tasks for changes of nodes and for triggers. Which ones these are depends on all
that was heard before: the definitions that were loaded at the start, saved, removed, and loaded on
demand for triggers. Where each message is seen to before the next one is heard, the tasks are those
that can be told from the messages alone.

Main definitions and results:

* `Happening.due`, `Happening.learn` — what is to be started, and what is known from then on.
* `AsksFor` — the tasks that a history asks for. Those of one change of a node come in any order,
  for the loaded jobs have none.
* `Machine.Tracked.current_known` — what is known is what the catalog has, once it was heard of.
* `Machine.tally_step` — what is asked for is started, now or later; `Course.tally` for a run.
* `Course.exists_rooted` — each task is started by some step, with its number and message.
* `Machine.tasks_started` — the tasks of a run are those that its history asks for.
-/

namespace Taskyard

/-! ## Histories -/

/-- The active jobs that name the event of a change. -/
def subscribers (known : Dict Job) (c : NodeChange) : List Job :=
  known.values.filter fun j => j.inactive = false ∧ c.eventName ∈ j.eventNames

namespace Happening

/-- The tasks that are to be started, each by its job and event. In which order they are listed here
is of no account. -/
def due (known : Dict Job) : Happening → List (Job × Event)
  | .change _ => []
  | .node _ c => (subscribers known c).map (·, .nodeChange c)
  | .trigger t stored =>
    match (known.get? t.jobId).or stored with
    | some j => if j.inactive = false ∨ t.runNow = true then [(j, .timer t)] else []
    | none => []

/-- The jobs that are known from then on. -/
def learn (known : Dict Job) : Happening → Dict Job
  | .change c => c.applied known
  | .node _ _ => known
  | .trigger t stored =>
    match known.get? t.jobId, stored with
    | none, some j => known.insert j.id j
    | _, _ => known

end Happening

/-- The jobs that are known after a history. -/
def learned (known : Dict Job) (hs : List Happening) : Dict Job := hs.foldl Happening.learn known

/-- The tasks that a history asks for, one message after the other. Those that one message asks for
come in any order. -/
inductive AsksFor : Dict Job → List Happening → List (Job × Event) → Prop
  | nothing (known : Dict Job) : AsksFor known [] []
  | next {known : Dict Job} {h : Happening} {hs : List Happening} {now later : List (Job × Event)}
      (hNow : now.Perm (h.due known)) (hLater : AsksFor (h.learn known) hs later) :
      AsksFor known (h :: hs) (now ++ later)

namespace AsksFor

variable {known : Dict Job} {h : Happening} {hs hs' : List Happening} {due due' : List (Job × Event)}

/-- One message asks for what is due for it. -/
theorem one (hDue : due.Perm (h.due known)) : AsksFor known [h] due := by
  rw [← List.append_nil due]
  exact .next hDue (.nothing _)

/-- What comes later is asked for of the jobs that are known then. -/
theorem append (hFirst : AsksFor known hs due) (hThen : AsksFor (learned known hs) hs' due') :
    AsksFor known (hs ++ hs') (due ++ due') := by
  induction hFirst with
  | nothing => exact hThen
  | next hNow _ ih =>
    rw [List.cons_append, List.append_assoc]
    exact .next hNow (ih hThen)

end AsksFor

/-- Every job is known under its identifier. -/
def NamedJobs (known : Dict Job) : Prop := ∀ id j, known.get? id = some j → j.id = id

/-- A job that is kept under its own id keeps the jobs named. -/
theorem NamedJobs.insert {known : Dict Job} (h : NamedJobs known) (j : Job) :
    NamedJobs (known.insert j.id j) := by
  intro id j' hj'
  rw [Dict.get?_insert] at hj'
  split at hj'
  · next hSame => rw [← Option.some.inj hj', hSame]
  · exact h id j' hj'

theorem NamedJobs.learn {known : Dict Job} (h : NamedJobs known) (x : Happening) :
    NamedJobs (x.learn known) := by
  cases x with
  | change c =>
    simp only [Happening.learn, JobChange.applied]
    -- a removal only takes jobs away, and a job is kept under its own name
    split
    · intro id j hj
      rw [Dict.get?_erase] at hj
      split at hj
      · cases hj
      · exact h id j hj
    · next j _ _ => exact h.insert j.withoutTasks
    · exact h
  | node => exact h
  | trigger t stored =>
    simp only [Happening.learn]
    -- a trigger brings in the job that it names, if that was not known
    cases known.get? t.jobId with
    | some _ => exact h
    | none =>
      cases stored with
      | some j => exact h.insert j
      | none => exact h

theorem NamedJobs.learned {known : Dict Job} (h : NamedJobs known) (hs : List Happening) :
    NamedJobs (learned known hs) := by
  induction hs generalizing known with
  | nil => exact h
  | cons x hs ih => exact ih (h.learn x)

/-- The jobs that a change starts: the active ones that subscribe to its event. -/
theorem NamedJobs.mem_subscribers {known : Dict Job} (h : NamedJobs known) {c : NodeChange}
    {j : Job} : j ∈ subscribers known c ↔
      known.get? j.id = some j ∧ j.inactive = false ∧ c.eventName ∈ j.eventNames := by
  rw [subscribers, List.mem_filter, Dict.mem_values_iff, decide_eq_true_iff]
  refine and_congr_left fun _ => ⟨?_, fun hj => ⟨j.id, hj⟩⟩
  rintro ⟨id, hj⟩
  rwa [h id j hj]

/-- No job subscribes twice. -/
theorem NamedJobs.nodup_subscribers {known : Dict Job} (h : NamedJobs known) (c : NodeChange) :
    ((subscribers known c).map Job.id).Nodup := by
  have hKeys : known.values.map Job.id = known.entries.map Prod.fst := by
    rw [Dict.values, List.map_map]
    exact List.map_congr_left fun e he => h e.1 e.2 (Dict.lookup_of_mem known.sorted he)
  -- the identifiers are the keys, and those are in order
  have hSorted : (known.values.map Job.id).Nodup := by
    rw [hKeys, List.Nodup, List.pairwise_map]
    refine known.sorted.imp fun hLess hSame => ?_
    rw [hSame] at hLess
    exact String.lt_irrefl _ hLess
  exact hSorted.sublist (List.filter_sublist.map Job.id)

/-! ## The jobs of tasks -/

/-- The jobs of the tasks, in the order in which they were started. -/
def Floor.jobs (f : Floor) : List Job := f.tasks.map LiveTask.job

namespace Floor

/-- A mark never changes which job a task is of. -/
theorem jobs_mark (f : Floor) (i : Nat) (s : TaskStep) : (f.mark i s).jobs = f.jobs := by
  cases ht : f.tasks[i]? with
  | none =>
    rw [mark, ht]
  | some t =>
    obtain ⟨outlet, hTasks⟩ := (marks_mark ht s).tasks
    rw [jobs, hTasks, List.map_set]
    refine List.ext_getElem? fun k => ?_
    rw [List.getElem?_set]
    split
    · -- the job at the place is the one that was there
      next hSame =>
      subst hSame
      have hLt : i < f.tasks.length := (List.getElem?_eq_some_iff.mp ht).1
      rw [List.length_map, if_pos hLt, jobs, List.getElem?_map, ht]
      rfl
    · rfl

theorem jobs_perform (f : Floor) (i : Nat) (d : Deed) : (f.perform i d).1.jobs = f.jobs := by
  cases d with
  | mark s => exact jobs_mark f i s
  | queue action input =>
    rw [perform]
    split <;> rfl

theorem jobs_telling (f : Floor) (told : List Announcement) : (f.telling told).jobs = f.jobs := by
  obtain ⟨calls, hTelling⟩ := f.exists_telling told
  rw [hTelling, jobs, jobs]

end Floor

variable {u : Setup}

theorem Execution.jobs_prune (f : Floor) (e : Execution) (d : Deletion)
    (script : Except Fault (List String) → Script) :
    (e.proceed u f (.prune d script)).1.jobs = f.jobs := by
  rw [Execution.proceed]
  cases f.catalog.removeTasks d with
  | error fault => rfl
  | ok r => exact Floor.jobs_telling _ _

theorem Execution.jobs_step {f f' : Floor} {e : Execution} {next : Option Execution}
    (h : e.step u f = some (f', next)) : f'.jobs = f.jobs := by
  rcases Execution.floor_cases h with ⟨d, script, -, rfl⟩ | ⟨-, rfl | ⟨x, rfl⟩⟩
  · exact e.jobs_prune f d script
  · rfl
  · exact Floor.jobs_perform f _ x

/-! ## What is still to be started -/

/-- The tasks that a listener has still to start; a job that it has read for a trigger counts. -/
def Ear.toStart : Ear → List (Job × Event)
  | .busy e => e.launches
  | .loading t j => if j.inactive = false ∨ t.runNow = true then [(j, .timer t)] else []
  | .listening | .seeking _ | .fetching _ | .deaf => []

/-- The known jobs together with one that a listener has read. -/
def Ear.learned (ear : Ear) (jobs : Dict Job) : Dict Job :=
  match ear with
  | .loading _ j => jobs.insert j.id j
  | _ => jobs

theorem Ear.toStart_of_rests {ear : Ear} (h : ear.rests = true) : ear.toStart = [] := by
  rcases Ear.eq_of_rests h with rfl | rfl <;> rfl

theorem Ear.learned_of_rests {ear : Ear} (h : ear.rests = true) (jobs : Dict Job) :
    ear.learned jobs = jobs := by
  rcases Ear.eq_of_rests h with rfl | rfl <;> rfl

/-- An errand starts the first of what it has to launch, when it comes to it. -/
theorem Errand.launches_of_runErrand {f f' : Floor} {e e' : Errand}
    (h : Machine.runErrand u f e = some (f', e')) :
    e.launches = e.starts.toList ++ e'.launches ∧
      f'.jobs = f.jobs ++ e.starts.toList.map Prod.fst := by
  obtain ⟨i, deeds, launches⟩ := e
  rw [Machine.runErrand] at h
  cases deeds with
  | cons d rest =>
    cases h
    exact ⟨rfl, (Floor.jobs_perform f i d).trans (List.append_nil _).symm⟩
  | nil =>
    cases launches with
    | nil => cases h
    | cons l launches =>
      cases h
      exact ⟨rfl, List.map_append⟩

/-- An errand that is over has launched everything. -/
theorem Errand.launches_of_runErrand_eq_none {f : Floor} {e : Errand}
    (h : Machine.runErrand u f e = none) : e.launches = [] := by
  rw [Machine.runErrand] at h
  split at h
  · cases h
  · cases h
  · next hLaunches => exact hLaunches

namespace Machine

/-- The tasks that listeners have still to start. -/
def toStart (m : Machine) : List (Job × Event) := m.ears.all.flatMap Ear.toStart

def known (m : Machine) : Dict Job :=
  m.ears.jobs.learned (m.ears.timers.learned (m.ears.attributes.learned
    (m.ears.tree.learned m.jobs)))

variable {m m' : Machine}

/-- With the other listeners at rest, what is still to be started is up to one of them. -/
theorem toStart_of_rests {c : Channel} (h : ∀ c', c' ≠ c → (m.ears.get c').rests = true) :
    m.toStart = (m.ears.get c).toStart ∧ m.known = (m.ears.get c).learned m.jobs := by
  refine ⟨Ears.flatMap_all (fun _ => Ear.toStart_of_rests) h, ?_⟩
  have hOther (c' : Channel) (hNot : c' ≠ c) (jobs : Dict Job) :
      (m.ears.get c').learned jobs = jobs := Ear.learned_of_rests (h c' hNot) jobs
  have hTree := hOther .tree
  have hAttributes := hOther .attributes
  have hTimers := hOther .timers
  have hJobs := hOther .jobs
  simp only [Ears.get] at hTree hAttributes hTimers hJobs
  unfold known
  -- in each case three listeners have read nothing
  cases c <;> simp_all [Ears.get]

/-- The same after that listener has changed. -/
theorem toStart_setEar {c : Channel} {ear : Ear}
    (h : ∀ c', c' ≠ c → (m.ears.get c').rests = true) (hEars : m'.ears = m.ears.set ear c) :
    m'.toStart = ear.toStart ∧ m'.known = ear.learned m'.jobs := by
  have hOthers : ∀ c', c' ≠ c → (m'.ears.get c').rests = true := by
    rw [hEars]
    exact Ears.rests_set ear h
  -- the listener that was set is the one that all depends on
  have hHere := toStart_of_rests hOthers
  rwa [hEars, Ears.get_set] at hHere

/-- A definition that a listener has read is that of the catalog, if the others are. -/
theorem Ear.current_learned {ear : Ear} {jobs : Dict Job} {id : String} {row : Option JobRow}
    (h : Current (jobs.get? id) row)
    (hLoading : ∀ t j, ear = .loading t j → j.id = id → Current (some j) row) :
    Current ((ear.learned jobs).get? id) row := by
  cases ear with
  | loading t j =>
    rw [Ear.learned, Dict.get?_insert]
    split
    · next hId => exact hLoading t j rfl hId
    · exact h
  | listening | seeking | fetching | busy | deaf => exact h

/-- A job of which every change was heard is known as the catalog has it. -/
theorem Tracked.current_known {id : String} {told : List JobChange} (h : Tracked id told m)
    (hNewest : Newest id told m) (hHeard : m.pending id = []) :
    Current (m.known.get? id) (m.floor.catalog.jobs.get? id) := by
  have hLoaded := (h.loaded hHeard).current fun _ hLast => hNewest.last hHeard hLast
  have hLoading := h.loading hHeard
  exact Ear.current_learned (Ear.current_learned (Ear.current_learned (Ear.current_learned
    hLoaded (hLoading .tree)) (hLoading .attributes)) (hLoading .timers)) (hLoading .jobs)

/-! ## What a step hears and starts -/

/-- Whether a step is in turn, and not one with which someone else starts a task or a listener is
ended. -/
def attends (m : Machine) (s : MachineStep) : Bool :=
  m.inTurn s &&
    match s with
    | .launch _ _ | .submit _ _ _ | .silence _ => false
    | _ => true

/-- As long as everybody attends, no listener ends. -/
theorem ne_silence {m : Machine} {s : MachineStep} (h : m.attends s = true) (c : Channel) :
    s ≠ .silence c := by
  rintro rfl
  simp [attends] at h

/-- Only listeners have tasks to start. -/
structure Quiet (m : Machine) : Prop where
  router {e : Errand} (h : m.router = .busy e) : e.launches = []
  callers {e : Errand} (h : e ∈ m.callers) : e.launches = []

theorem Quiet.of_eq (h : m.Quiet) (hRouter : m'.router = m.router)
    (hCallers : m'.callers = m.callers) : m'.Quiet where
  router hBusy := h.router (hRouter ▸ hBusy)
  callers hMem := h.callers (hCallers ▸ hMem)

/-- What a step does to the tasks: those that it starts, and those that are still to be started
then, are the ones that were to be started before and the ones that are asked for by what
happens. -/
structure Tallies (m : Machine) (hs : List Happening) (started : List (Job × Event)) (m' : Machine) :
    Prop where
  due : ∃ due, AsksFor m.known hs due ∧ started ++ m'.toStart = m.toStart ++ due
  known : m'.known = learned m.known hs
  jobs : m'.floor.jobs = m.floor.jobs ++ started.map Prod.fst

/-- What a trigger is about to start: its job, if that is active or asked for at once. -/
theorem toStart_triggered (t : JobTrigger) (j : Job) :
    (triggered t j).toStart = (if j.inactive = false ∨ t.runNow = true then [(j, .timer t)] else []) ∧
      ∀ jobs, (triggered t j).learned jobs = jobs := by
  unfold triggered
  cases j.inactive <;> cases t.runNow <;> exact ⟨rfl, fun _ => rfl⟩

/-- A change of a node starts one task for each subscriber, in whatever order the jobs come. -/
theorem launchesOf_perm (m : Machine) (order : Arrangement Job) (c : NodeChange) :
    (m.launchesOf order c).Perm ((subscribers m.jobs c).map (·, .nodeChange c)) := by
  have hSame : ∀ j : Job, (!j.inactive && j.subscribesTo c.eventName) =
      decide (j.inactive = false ∧ c.eventName ∈ j.eventNames) := by
    intro j
    unfold Job.subscribesTo
    cases j.inactive <;> simp
  unfold launchesOf subscribers
  simp only [hSame]
  exact ((order.perm m.jobs.values).filter _).map _

variable {c : Channel}

/-- A step of one listener tallies when its own part does. -/
theorem tallies_of_ear {old ear : Ear} {hs : List Happening} {started due : List (Job × Event)}
    (hEar : m.ears.get c = old) (hOthers : ∀ c', c' ≠ c → (m.ears.get c').rests = true)
    (hEars : m'.ears = m.ears.set ear c) (hAsks : AsksFor (old.learned m.jobs) hs due)
    (hDue : started ++ ear.toStart = old.toStart ++ due)
    (hLearned : ear.learned m'.jobs = learned (old.learned m.jobs) hs)
    (hJobs : m'.floor.jobs = m.floor.jobs ++ started.map Prod.fst) : Tallies m hs started m' := by
  subst hEar
  obtain ⟨hStart, hKnown⟩ := toStart_of_rests hOthers
  obtain ⟨hStart', hKnown'⟩ := toStart_setEar hOthers hEars
  refine ⟨⟨due, hKnown ▸ hAsks, ?_⟩, ?_, hJobs⟩
  · rw [hStart, hStart', hDue]
  · rw [hKnown, hKnown', hLearned]

/-- A listener that is not busy starts nothing. -/
theorem tallies_of_wait {old ear : Ear} {hs : List Happening} {due : List (Job × Event)}
    (hEar : m.ears.get c = old) (hWaits : ∀ e, old ≠ .busy e)
    (hOthers : ∀ c', c' ≠ c → (m.ears.get c').rests = true)
    (hEars : m'.ears = m.ears.set ear c) (hFloor : m'.floor = m.floor)
    (hAsks : AsksFor (old.learned m.jobs) hs due) (hDue : ear.toStart = old.toStart ++ due)
    (hLearned : ear.learned m'.jobs = learned (old.learned m.jobs) hs) :
    Tallies m hs (m.starts (.listen c)).toList m' := by
  have hStarts : m.starts (.listen c) = none := by
    simp only [starts, hEar]
  rw [hStarts]
  refine tallies_of_ear hEar hOthers hEars hAsks hDue hLearned ?_
  rw [hFloor]
  exact (List.append_nil _).symm

/-- Every step of a listener tallies: what it hears asks for what it then has to start. -/
theorem tallies_of_heeds {hs : List Happening} (hm : Orderly u m)
    (hOthers : ∀ c', c' ≠ c → (m.ears.get c').rests = true) (h : Heeds u m c hs m') :
    Tallies m hs (m.starts (.listen c)).toList m' := by
  -- while the catalog is asked for a job, none is loaded under its identifier
  have hVacant {x : JobTrigger} (hEar : m.ears.get c = .fetching x) :
      m.jobs.get? x.jobId = none := hm.vacant c x.jobId (by rw [hEar]; rfl)
  cases h with
  | @change t x hChannel hEar _ =>
    subst hChannel
    obtain ⟨_, _, hHandled⟩ := exists_handleChange u { m with changes := t } x
    rw [hHandled]
    have hEars : m.ears = m.ears.set .listening .jobs := by
      rw [← hEar]
      rfl
    exact tallies_of_wait hEar (by simp) hOthers hEars rfl (.one (.refl _)) rfl rfl
  -- the jobs come in any order, so the tasks do
  | @tree t x _ hEar _ | @attributes t x _ hEar _ =>
    exact tallies_of_wait hEar (by simp) hOthers rfl rfl (.one (m.launchesOf_perm _ x)) rfl rfl
  | @trigger t x _ hEar _ | @unknown x hEar _ =>
    exact tallies_of_wait hEar (by simp) hOthers rfl rfl (.nothing _) rfl rfl
  | @known x j hEar hJob =>
    obtain ⟨hStart, hLearned⟩ := toStart_triggered x j
    have hDue : (triggered x j).toStart = (Happening.trigger x (m.stored x)).due m.jobs := by
      rw [hStart]
      simp only [Happening.due, hJob, Option.some_or]
    refine tallies_of_wait hEar (by simp) hOthers rfl rfl (.one (.of_eq hDue)) rfl ?_
    rw [hLearned]
    simp only [learned, Ear.learned, List.foldl_cons, List.foldl_nil, Happening.learn, hJob]
    rfl
  | @found x j hEar _ =>
    have hDue : (Ear.loading x j).toStart = (Happening.trigger x (some j)).due m.jobs := by
      simp only [Ear.toStart, Happening.due, hVacant hEar, Option.none_or]
    refine tallies_of_wait hEar (by simp) hOthers rfl rfl (.one (.of_eq hDue)) rfl ?_
    simp only [learned, Ear.learned, List.foldl_cons, List.foldl_nil, Happening.learn,
      hVacant hEar]
    rfl
  | @missing x e hEar _ =>
    have hDue : Ear.listening.toStart = (Happening.trigger x none).due m.jobs := by
      simp only [Ear.toStart, Happening.due, hVacant hEar, Option.none_or]
    refine tallies_of_wait hEar (by simp) hOthers rfl rfl (.one (.of_eq hDue)) rfl ?_
    simp only [learned, Ear.learned, List.foldl_cons, List.foldl_nil, Happening.learn,
      hVacant hEar]
    rfl
  | @load x j hEar =>
    obtain ⟨hStart, hLearned⟩ := toStart_triggered x j
    exact tallies_of_wait hEar (by simp) hOthers rfl rfl (.nothing _)
      (hStart.trans (List.append_nil _).symm) (hLearned _)
  | @errand e e' f hEar hRun =>
    have hStarts : m.starts (.listen c) = e.starts := by simp only [starts, hEar]
    obtain ⟨hLaunches, hJobs⟩ := Errand.launches_of_runErrand hRun
    rw [hStarts]
    exact tallies_of_ear hEar hOthers rfl (.nothing _)
      (hLaunches.symm.trans (List.append_nil _).symm) rfl hJobs
  | @done e hEar hRun =>
    have hStarts : m.starts (.listen c) = none := by
      simp only [starts, hEar]
      exact (runErrand_eq_none hRun).2
    have hNone : e.launches = [] := Errand.launches_of_runErrand_eq_none hRun
    rw [hStarts]
    exact tallies_of_ear hEar hOthers rfl (.nothing _) (hNone.symm.trans (List.append_nil _).symm)
      rfl (List.append_nil _).symm

/-! ## Every step -/

/-- What a step of someone who has no task to start leaves. -/
structure StartsNone (m : Machine) (s : MachineStep) (m' : Machine) : Prop where
  quiet : m'.Quiet
  starts : m.starts s = none
  jobs : m'.floor.jobs = m.floor.jobs

/-- An errand with nothing to launch starts no task. -/
theorem Quiet.errand {e e' : Errand} {f f' : Floor} (he : e.launches = [])
    (h : runErrand u f e = some (f', e')) :
    e.starts = none ∧ e'.launches = [] ∧ f'.jobs = f.jobs := by
  obtain ⟨hLaunches, hJobs⟩ := Errand.launches_of_runErrand h
  rw [he] at hLaunches
  obtain ⟨hStarts, hRest⟩ := List.append_eq_nil_iff.mp hLaunches.symm
  have hNone : e.starts = none := Option.toList_eq_nil_iff.mp hStarts
  refine ⟨hNone, hRest, ?_⟩
  rw [hJobs, hNone]
  exact List.append_nil _

namespace StartsNone

variable {s : MachineStep}

theorem of_eq (h : m.Quiet) (hStarts : m.starts s = none) (hRouter : m'.router = m.router)
    (hCallers : m'.callers = m.callers) (hJobs : m'.floor.jobs = m.floor.jobs) :
    StartsNone m s m' := ⟨h.of_eq hRouter hCallers, hStarts, hJobs⟩

/-- The router starts no task. -/
theorem stepRouter (h : m.Quiet) (hStep : m.stepRouter u = some m') : StartsNone m .route m' := by
  rcases stepRouter_cases hStep with ⟨r, rest, m₁, deeds, hWaiting, -, hRoute, rfl⟩ |
    ⟨e, hBusy, hErrand⟩
  · have hStarts : m.starts .route = none := by simp only [Machine.starts, hWaiting]
    obtain ⟨service, benches, hKeeps⟩ := exists_route u (m.onFloor { m.floor with main := rest }) r
    rw [hRoute] at hKeeps
    obtain rfl : m₁ = _ := hKeeps
    split
    · exact .of_eq h hStarts rfl rfl rfl
    -- all that a busy router has to do is to turn the runnable away
    · refine ⟨⟨fun hBusy => ?_, h.callers⟩, hStarts, rfl⟩
      obtain rfl := Router.busy.inj hBusy
      rfl
  · have hNone := h.router hBusy
    rcases hErrand with ⟨f, e', hRun, rfl⟩ | ⟨hDone, rfl⟩
    · obtain ⟨hStarts, hRest, hJobs⟩ := Quiet.errand hNone hRun
      refine ⟨⟨fun hBusy' => ?_, h.callers⟩, ?_, hJobs⟩
      · obtain rfl := Router.busy.inj hBusy'
        exact hRest
      · simp only [Machine.starts, hBusy, hStarts]
    · refine ⟨⟨fun hBusy' => ?_, h.callers⟩, ?_, rfl⟩
      · cases hBusy'
      · simp only [Machine.starts, hBusy]
        exact (runErrand_eq_none hDone).2

theorem call (h : m.Quiet) {n : Nat} (hStep : m.call u n = some m') :
    StartsNone m (.call n) m' := by
  obtain ⟨e, hCaller, hCases⟩ := call_cases hStep
  have hNone := h.callers (List.mem_of_getElem? hCaller)
  rcases hCases with ⟨f, e', hRun, rfl⟩ | ⟨hDone, rfl⟩
  · obtain ⟨hStarts, hRest, hJobs⟩ := Quiet.errand hNone hRun
    refine ⟨⟨h.router, fun {e'} hMem => ?_⟩, ?_, hJobs⟩
    · rcases List.mem_or_eq_of_mem_set hMem with hOld | rfl
      · exact h.callers hOld
      · exact hRest
    · simp only [Machine.starts, hCaller, Option.bind_some, hStarts]
  · refine ⟨⟨h.router, fun {e'} hMem => h.callers (List.mem_of_mem_eraseIdx hMem)⟩, ?_, rfl⟩
    simp only [Machine.starts, hCaller, Option.bind_some]
    exact (runErrand_eq_none hDone).2

theorem work (h : m.Quiet) {n w : Nat} (hStep : m.work u n w = some m') :
    StartsNone m (.work n w) m' := by
  obtain ⟨b, e, f, next, -, -, hMoved, rfl⟩ := work_cases hStep
  exact .of_eq h rfl rfl rfl (e.jobs_step hMoved)

theorem write (h : m.Quiet) {x : WriterStep} (hStep : m.write x = some m') :
    StartsNone m (.write x) m' := by
  obtain ⟨w, put, -, ⟨t, -, -, rfl⟩ | ⟨-, rfl⟩⟩ := write_cases hStep
  · exact .of_eq h rfl rfl rfl (Floor.jobs_telling _ _)
  · exact .of_eq h rfl rfl rfl rfl

end StartsNone

/-- No step starts a task for an event but those of the listeners. -/
theorem startsNone_of_step {s : MachineStep} (hm : m.Staffed) (h : m.Quiet)
    (hAttends : m.attends s = true) (hs : ∀ c, s ≠ .listen c) (hStep : m.step u s = some m') :
    StartsNone m s m' := by
  cases s with
  | listen c => exact absurd rfl (hs c)
  -- the tasks that someone else starts, and the ends of listeners, were left out
  | launch | submit | silence => simp [attends] at hAttends
  | time | store =>
    cases hStep
    exact .of_eq h rfl rfl rfl rfl
  | saveJob | removeJob | saveTask =>
    cases hStep
    exact .of_eq h rfl rfl rfl (Floor.jobs_telling _ _)
  | publish post =>
    cases hStep
    cases post with
    | node onAttributes _ => cases onAttributes <;> exact .of_eq h rfl rfl rfl rfl
    | trigger | job => exact .of_eq h rfl rfl rfl rfl
  | announce n =>
    obtain ⟨a, _, _, -, -, rfl⟩ := announce_cases hStep
    cases a <;> exact .of_eq h rfl rfl rfl rfl
  | call n => exact .call h hStep
  | route => exact .stepRouter h hStep
  | dispatch n x =>
    obtain ⟨_, _, _, _, rfl, -⟩ := hm.stepBench hStep
    exact .of_eq h rfl rfl rfl rfl
  | work n w => exact .work h hStep
  | write x => exact .write h hStep
  | endRouter =>
    obtain ⟨-, rfl⟩ := endRouter_cases hStep
    -- a router that has ended is busy with nothing
    refine ⟨⟨fun hBusy => ?_, h.callers⟩, rfl, rfl⟩
    cases hBusy
  | stopDispatchers =>
    cases hStep
    obtain ⟨service, benches, hStop⟩ := exists_stopDispatchers m
    rw [hStop]
    exact .of_eq h rfl rfl rfl rfl

theorem Quiet.heeds {hs : List Happening} (h : m.Quiet) (hHeeds : Heeds u m c hs m') :
    m'.Quiet := by
  cases hHeeds with
  | @change t x =>
    obtain ⟨_, _, hHandled⟩ := exists_handleChange u { m with changes := t } x
    rw [hHandled]
    exact h.of_eq rfl rfl
  | tree | attributes | trigger | known | unknown | found | missing | load | errand | done =>
    exact h.of_eq rfl rfl

structure Attentive (u : Setup) (m : Machine) : Prop where
  orderly : Orderly u m
  faithful : m.floor.catalog.Faithful
  quiet : m.Quiet
  sound : m.Sound

/-- **Every step** starts or leaves to be started what was asked for. -/
theorem tally_step {s : MachineStep} (h : Attentive u m) (hAttends : m.attends s = true)
    (hStep : m.step u s = some m') :
    Tallies m (m.happens s) (m.starts s).toList m' ∧ Attentive u m' := by
  have hTurn : m.inTurn s = true := (Bool.and_eq_true_iff.mp hAttends).1
  have hOrderly := h.orderly.step h.faithful hTurn hStep
  have hFaithful := faithful_of_step h.faithful hStep
  have hSound := h.sound.step hStep
  rcases heeds_or_aside h.orderly.fits.staffed hStep with
    ⟨c, rfl, hHeeds⟩ | ⟨hNot, hHappens, hAside⟩
  · exact ⟨tallies_of_heeds h.orderly (inTurn_listen_iff.mp hTurn) hHeeds,
      hOrderly, hFaithful, h.quiet.heeds hHeeds, hSound⟩
  · obtain ⟨hQuiet, hStarts, hJobs⟩ :=
      startsNone_of_step h.orderly.fits.staffed h.quiet hAttends hNot hStep
    have hEars : m'.ears = m.ears := hAside.ears_eq (ne_silence hAttends)
    refine ⟨?_, hOrderly, hFaithful, hQuiet, hSound⟩
    -- the listeners and the loaded jobs are as they were
    refine ⟨?_, ?_, ?_⟩
    · rw [hStarts, hHappens, toStart, toStart, hEars]
      exact ⟨[], .nothing _, (List.append_nil _).symm⟩
    · rw [hHappens, known, known, hEars, hAside.jobs]
      rfl
    · rw [hStarts, hJobs]
      exact (List.append_nil _).symm

/-! ## Every run -/

/-- At the start everybody attends and nothing has been asked for. -/
theorem attentive_of_start {now : Int64} {changes : List Catalog.Change} {capacity : Nat}
    (hStart : start u now (Catalog.after changes) capacity = .ok m) :
    Attentive u m ∧ m.toStart = [] ∧ m.known = m.jobs ∧ m.floor.tasks = [] := by
  have hOrderly : Orderly u m := orderly_of_start hStart
  have hSound := sound_of_start hStart
  have hFaithful : m.floor.catalog.Faithful := by
    rw [catalog_of_start hStart]
    exact Catalog.Faithful.after changes
  obtain ⟨js, -, rfl⟩ := exists_of_start hStart
  refine ⟨⟨hOrderly, hFaithful, ⟨fun hBusy => ?_, fun hMem => ?_⟩, hSound⟩, rfl, rfl, rfl⟩
  · cases hBusy
  · cases hMem

/-- What is started in a run. -/
abbrev started (u : Setup) (m : Machine) (ss : List MachineStep) : List (Job × Event) :=
  m.trace u (fun m s => (m.starts s).toList) ss

/-- The run lemma: what was started, with what is still to be started, is what was asked for. -/
theorem Course.tally {ss : List MachineStep} (h : Course u (fun m s => m.attends s = true) m ss m')
    (hm : Attentive u m) :
    (∃ due, AsksFor m.known (history u m ss) due ∧ started u m ss ++ m'.toStart = m.toStart ++ due) ∧
      m'.known = learned m.known (history u m ss) ∧
      m'.floor.jobs = m.floor.jobs ++ (started u m ss).map Prod.fst := by
  induction h with
  | rest m =>
    exact ⟨⟨[], .nothing _, (List.append_nil _).symm⟩, rfl, (List.append_nil _).symm⟩
  | @step m m₁ m₂ s ss hAttends hStep _ ih =>
    obtain ⟨⟨⟨due, hAsks, hDue⟩, hKnown, hJobs⟩, hm₁⟩ := tally_step hm hAttends hStep
    obtain ⟨⟨due', hAsks', hDue'⟩, hKnown', hJobs'⟩ := ih hm₁
    -- what is left to be started after the first step is started by the others, or left again
    have hHistory : history u m (s :: ss) = m.happens s ++ history u m₁ ss := trace_cons hStep ss
    have hStarted : started u m (s :: ss) = (m.starts s).toList ++ started u m₁ ss :=
      trace_cons hStep ss
    refine ⟨?_, ?_, ?_⟩
    · refine ⟨due ++ due', hHistory ▸ hAsks.append (hKnown ▸ hAsks'), ?_⟩
      calc started u m (s :: ss) ++ m₂.toStart
          = (m.starts s).toList ++ (m₁.toStart ++ due') := by
            rw [hStarted, List.append_assoc, hDue']
        _ = m.toStart ++ (due ++ due') := by
            rw [← List.append_assoc, hDue, List.append_assoc]
    · rw [hKnown', hKnown, hHistory, learned, learned, learned, List.foldl_append]
    · rw [hJobs', hJobs, hStarted, List.map_append, List.append_assoc]

/-- The job that a trigger reads has the id it names. -/
theorem id_of_stored {t : JobTrigger} {j : Job} (h : m.floor.catalog.Faithful)
    (hStored : m.stored t = some j) : j.id = t.jobId := by
  unfold stored at hStored
  cases hRead : m.floor.catalog.getJob t.jobId .unknown with
  | error e =>
    rw [hRead] at hStored
    cases hStored
  | ok j' =>
    rw [hRead] at hStored
    obtain rfl : j' = j := Option.some.inj hStored
    exact h.id_of_getJob hRead

/-- In a history, what a trigger has read has the id it names. -/
theorem Course.id_of_stored {ss : List MachineStep}
    (h : Course u (fun m s => m.attends s = true) m ss m') (hm : Attentive u m) {t : JobTrigger}
    {j : Job} (hSeen : .trigger t (some j) ∈ history u m ss) : j.id = t.jobId := by
  induction h with
  | rest => cases hSeen
  | @step m m₁ m₂ s ss hAttends hStep _ ih =>
    have hHistory : history u m (s :: ss) = m.happens s ++ history u m₁ ss := trace_cons hStep ss
    rw [hHistory] at hSeen
    rcases List.mem_append.mp hSeen with hNow | hLater
    · exact Machine.id_of_stored hm.faithful (stored_of_happens hNow)
    · exact ih (tally_step hm hAttends hStep).2 hLater

/-- The task with a number is begun with a message that carries its event, and the node that this is
about if there is one. -/
def Rooted (u : Setup) (m : Machine) (i : Nat) (j : Job) (e : Event) : Prop :=
  ∃ t root, m.floor.tasks[i]? = some t ∧ t.job = j ∧ root.event = some e ∧
    root.nodes = (match e with
      | .nodeChange c => (c.target.or c.source).toList
      | .timer _ => []) ∧
    m.dutiesOf i =
      Duty.ofDeeds i (rootDeeds u.site.backend u.selectionBuffer root j.actions)

/-- The nodes of a root message: the target of a change, or else its source. -/
theorem nodes_ofEvent (e : Event) :
    (Message.ofEvent e).nodes = match e with
      | .nodeChange c => (c.target.or c.source).toList
      | .timer _ => [] := by
  cases e with
  | nodeChange c =>
    show (c.target <|> c.source).toList = (c.target.or c.source).toList
    cases c.target <;> rfl
  | timer t => rfl

/-- A task that a step starts is rooted in its event: created, with the message of that event. -/
theorem rooted_of_step {s : MachineStep} {j : Job} {e : Event} (hm : m.Sound)
    (hStarts : m.starts s = some (j, e)) (hStep : m.step u s = some m') :
    Rooted u m' m.floor.tasks.length j e := by
  rcases step_cases hm hStep with ⟨hMove, -⟩ | ⟨rfl, -⟩
  · obtain ⟨t, ht, hJob, -, hDuties⟩ := hMove.started hm hStarts
    exact ⟨t, .ofEvent e, ht, hJob, rfl, nodes_ofEvent e, hDuties⟩
  -- the end of the router starts nothing
  · cases hStarts

/-- What is started in a run is a task from some step of it on, with its number. -/
theorem Course.exists_rooted {ss : List MachineStep}
    (h : Course u (fun m s => m.attends s = true) m ss m') (hm : Attentive u m) {n : Nat} {j : Job}
    {e : Event} (hStarted : (started u m ss)[n]? = some (j, e)) :
    ∃ before s after m₁ m₂, ss = before ++ s :: after ∧
      Course u (fun m s => m.attends s = true) m before m₁ ∧ m₁.step u s = some m₂ ∧
      Course u (fun m s => m.attends s = true) m₂ after m' ∧
      m₁.floor.tasks.length = m.floor.tasks.length + n ∧
      Rooted u m₂ (m.floor.tasks.length + n) j e := by
  induction h generalizing n with
  | rest => cases hStarted
  | @step m m₁ m₂ s ss hAttends hStep hRest ih =>
    obtain ⟨⟨-, -, hJobs⟩, hm₁⟩ := tally_step hm hAttends hStep
    have hSplit : started u m (s :: ss) = (m.starts s).toList ++ started u m₁ ss :=
      trace_cons hStep ss
    have hLength : m₁.floor.tasks.length = m.floor.tasks.length + (m.starts s).toList.length := by
      simpa [Floor.jobs] using congrArg List.length hJobs
    rw [hSplit] at hStarted
    cases hStarts : m.starts s with
    | none =>
      -- the first step has no part in it
      rw [hStarts] at hStarted hLength
      obtain ⟨before, s', after, m₃, m₄, rfl, hBefore, hStep', hAfter, hNumber, hRooted⟩ :=
        ih hm₁ hStarted
      rw [hLength] at hNumber hRooted
      exact ⟨s :: before, s', after, m₃, m₄, rfl, .step hAttends hStep hBefore, hStep', hAfter,
        hNumber, hRooted⟩
    | some l =>
      rw [hStarts] at hStarted hLength
      cases n with
      | zero =>
        -- the task is started by the first step
        obtain rfl : l = (j, e) := Option.some.inj hStarted
        exact ⟨[], s, ss, m, m₁, rfl, .rest m, hStep, hRest, rfl,
          rooted_of_step hm.sound hStarts hStep⟩
      | succ n =>
        obtain ⟨before, s', after, m₃, m₄, rfl, hBefore, hStep', hAfter, hNumber, hRooted⟩ :=
          ih hm₁ (n := n) hStarted
        have hSame : m₁.floor.tasks.length + n = m.floor.tasks.length + (n + 1) := by
          rw [hLength, Option.toList_some, List.length_singleton]
          omega
        rw [hSame] at hNumber hRooted
        exact ⟨s :: before, s', after, m₃, m₄, rfl, .step hAttends hStep hBefore, hStep', hAfter,
          hNumber, hRooted⟩

/-- The tasks of a run are those that its history asks for, in one of the orders in which the tasks
for each message can come. -/
structure StartsDue (u : Setup) (m₀ : Machine) (ss : List MachineStep) (m : Machine)
    (due : List (Job × Event)) : Prop where
  /-- These tasks are asked for. -/
  asked : AsksFor m₀.jobs (history u m₀ ss) due
  /-- When everything was seen to, there is one task for each that was asked for, and no other. -/
  settled (h : ∀ c, (m.ears.get c).rests = true) :
    m.floor.tasks.map LiveTask.job = due.map Prod.fst ∧
      m.jobs = learned m₀.jobs (history u m₀ ss)
  /-- Before that, some are still to be started. -/
  ongoing : m.floor.tasks.map LiveTask.job ++ m.toStart.map Prod.fst = due.map Prod.fst
  /-- Where jobs are changed through the service alone and its changes are told one after another, a
  job is known as the catalog has it once each change of it was heard of. -/
  current {id : String} (h : Course u (fun m s => m.serves s = true ∧ m.calm s = true) m₀ ss m)
    (hHeard : m.pending id = []) :
    Current ((learned m₀.jobs (history u m₀ ss)).get? id) (m.floor.catalog.jobs.get? id)
  /-- Each task was started in its turn, with the message that its event calls for. -/
  rooted {i : Nat} {j : Job} {e : Event} (hTask : i < m.floor.tasks.length)
    (hDue : due[i]? = some (j, e)) :
    ∃ before s after m₁ m₂, ss = before ++ s :: after ∧
      Course u (fun m s => m.attends s = true) m₀ before m₁ ∧ m₁.step u s = some m₂ ∧
      Course u (fun m s => m.attends s = true) m₂ after m ∧ m₁.floor.tasks.length = i ∧
      Rooted u m₂ i j e
  /-- Where no listener falls behind, nothing that was published is missed, heard twice, or heard
  before what was published earlier on its topic. -/
  heard (h : Course u (fun m s => m.attends s = true ∧ m.keepsUp s = true) m₀ ss m) (c : Channel) :
    (published u m₀ ss).filter (·.channel = c) =
      ((history u m₀ ss).map Happening.post).filter (·.channel = c) ++ m.unseen c
  /-- And nothing waits in vain: until all is seen to, a listener can go on. -/
  attended (h : Course u (fun m s => m.attends s = true ∧ m.keepsUp s = true) m₀ ss m)
    (hLeft : (∃ c, m.unseen c ≠ []) ∨ ∃ c, (m.ears.get c).rests = false) :
    ∃ c m', m.attends (.listen c) = true ∧ m.step u (.listen c) = some m'
  /-- The job that a trigger is about is the one that it names. -/
  triggered {before after : List Happening} {t : JobTrigger} {stored : Option Job} {j : Job}
    (h : history u m₀ ss = before ++ .trigger t stored :: after)
    (hJob : ((learned m₀.jobs before).get? t.jobId).or stored = some j) : j.id = t.jobId
  /-- A change of a node asks for one task of each active job that names its event, as the job is
  then known. -/
  subscribed {before after : List Happening} {onAttributes : Bool} {c : NodeChange}
    (h : history u m₀ ss = before ++ .node onAttributes c :: after) :
    (∀ j, j ∈ subscribers (learned m₀.jobs before) c ↔
      (learned m₀.jobs before).get? j.id = some j ∧ j.inactive = false ∧
        c.eventName ∈ j.eventNames) ∧
      ((subscribers (learned m₀.jobs before) c).map Job.id).Nodup

/-- **Exactly the tasks that are asked for are started** by `handle_node_change` and `handle_timer`,
in every run in which each message is seen to before the next one is heard, nobody else starts tasks
and no listener is ended. The tasks for one change of a node are started one after another, in
whatever order the loaded jobs come then. -/
theorem tasks_started {now : Int64} {changes : List Catalog.Change} {capacity : Nat} {m₀ : Machine}
    {ss : List MachineStep} (hStart : start u now (Catalog.after changes) capacity = .ok m₀)
    (hRun : Course u (fun m s => m.attends s = true) m₀ ss m) : ∃ due, StartsDue u m₀ ss m due := by
  obtain ⟨hAttentive, hNone, hKnown, hTasks⟩ := attentive_of_start hStart
  obtain ⟨⟨due, hAsks, hDue⟩, hLearned, hJobs⟩ := hRun.tally hAttentive
  rw [hNone, List.nil_append] at hDue
  rw [hKnown] at hAsks hLearned
  have hStarted : m.floor.tasks.map LiveTask.job = (started u m₀ ss).map Prod.fst := by
    have hEmpty : m₀.floor.jobs = [] := by rw [Floor.jobs, hTasks, List.map_nil]
    rw [hEmpty, List.nil_append] at hJobs
    exact hJobs
  have hOngoing : m.floor.tasks.map LiveTask.job ++ m.toStart.map Prod.fst = due.map Prod.fst := by
    rw [hStarted, ← List.map_append, hDue]
  have hSees (hKeepsUp : Course u (fun m s => m.attends s = true ∧ m.keepsUp s = true) m₀ ss m) :=
    hKeepsUp.sees (fun m s hBoth => ⟨(Bool.and_eq_true_iff.mp hBoth.1).1, ne_silence hBoth.1,
      hBoth.2⟩) (alert_of_start hStart).1
  have hNamed (hs : List Happening) : NamedJobs (learned m₀.jobs hs) :=
    NamedJobs.learned hAttentive.orderly.fits.named hs
  have hCurrent {id : String}
      (hCalm : Course u (fun m s => m.serves s = true ∧ m.calm s = true) m₀ ss m)
      (hHeard : m.pending id = []) : Current (m.known.get? id) (m.floor.catalog.jobs.get? id) := by
    obtain ⟨hTracked, hNewest⟩ := tracked_of_start (Catalog.Faithful.after changes) hStart id
    have hAll := (hCalm.imp fun _ _ h => ⟨h.1, (inOrder_of_calm h.2 id).1⟩).tracked hTracked
    have hLast := (hCalm.imp fun _ _ h => ⟨h.1, (inOrder_of_calm h.2 id).2⟩).newest hNewest
    exact hAll.current_known hLast hHeard
  refine ⟨due, hAsks, fun hRests => ⟨?_, ?_⟩, hOngoing, fun {id} hCalm hHeard => ?_,
    fun {i j e} hTask hOf => ?_, fun hKeepsUp c => ?_, fun hKeepsUp hLeft => ?_,
    fun {before after t stored j} hSplit hJob => ?_, fun _ => ?_⟩
  -- at rest, nothing is left to be started
  · have hDone : m.toStart = [] := by
      rw [(toStart_of_rests (c := .jobs) fun c _ => hRests c).1]
      exact Ear.toStart_of_rests (hRests .jobs)
    rw [hDone, List.map_nil, List.append_nil] at hOngoing
    exact hOngoing
  · rw [← hLearned, (toStart_of_rests (c := .jobs) fun c _ => hRests c).2]
    exact (Ear.learned_of_rests (hRests .jobs) _).symm
  · rw [← hLearned]
    exact hCurrent hCalm hHeard
  -- what was asked for in the place of a task is what was started in that place
  · have hLength : m.floor.tasks.length = (started u m₀ ss).length := by
      simpa using congrArg List.length hStarted
    rw [← hDue, List.getElem?_append_left (hLength ▸ hTask)] at hOf
    obtain ⟨before, s, after, m₁, m₂, hSplit, hBefore, hStep, hAfter, hNumber, hRooted⟩ :=
      hRun.exists_rooted hAttentive hOf
    rw [hTasks, List.length_nil, Nat.zero_add] at hNumber hRooted
    exact ⟨before, s, after, m₁, m₂, hSplit, hBefore, hStep, hAfter, hNumber, hRooted⟩
  · rw [← (hSees hKeepsUp).2 c, (alert_of_start hStart).2, List.nil_append]
  · obtain ⟨c, m', hTurn, hStep⟩ := (hSees hKeepsUp).1.exists_listen (u := u) hLeft
    exact ⟨c, m', Bool.and_eq_true_iff.mpr ⟨hTurn, rfl⟩, hStep⟩
  -- a job is known, and kept in the catalog, under its own identifier
  · cases hGet : (learned m₀.jobs before).get? t.jobId with
    | some j' =>
      rw [hGet, Option.some_or] at hJob
      obtain rfl := Option.some.inj hJob
      exact hNamed before t.jobId j' hGet
    | none =>
      rw [hGet, Option.none_or] at hJob
      refine hRun.id_of_stored hAttentive (t := t) ?_
      rw [hSplit, hJob]
      simp
  · exact ⟨fun j => (hNamed _).mem_subscribers, (hNamed _).nodup_subscribers _⟩

/-- A job that names one event twice. -/
def namingJob : Job where
  id := "j"
  eventNames := [ChangeKind.create.eventName, ChangeKind.create.eventName]

/-- Another job that names the same event. -/
def earlierJob : Job := { namingJob with id := "i" }

/-- A job that names the same event and is inactive. -/
def restingJob : Job := { namingJob with id := "k", inactive := true }

/-- Loaded jobs come in the opposite order of their identifiers. -/
def reversingSetup : Setup :=
  { bareSetup with order := fun _ _ => ⟨List.reverse, List.reverse_perm⟩ }

/-- The jobs are saved, a node comes into being, and triggers of the inactive job and of one that
does not exist are heard. -/
def answeringSteps : List MachineStep := [
  .saveJob earlierJob, .announce 0, .listen .jobs,
  .saveJob namingJob, .announce 0, .listen .jobs,
  .saveJob restingJob, .announce 0, .listen .jobs,
  .publish (.node false { kind := .create }),
  .listen .tree, .listen .tree, .listen .tree, .listen .tree, .listen .tree, .listen .tree,
  .publish (.trigger { jobId := "k" }), .listen .timers, .listen .timers,
  .publish (.trigger (.immediate "k")),
  .listen .timers, .listen .timers, .listen .timers, .listen .timers, .listen .timers,
  .publish (.trigger { jobId := "x" }), .listen .timers, .listen .timers, .listen .timers]

/-- The change starts tasks of the active jobs, the later one first, and a trigger that runs at once
one of the other. -/
theorem tasks_started_answeringSteps :
    ∃ m₀ m, start reversingSetup 0 (Catalog.after []) 8 = .ok m₀ ∧
      m₀.run reversingSetup
        (fun m s => m.attends s && (m.keepsUp s && (m.serves s && m.calm s))) answeringSteps = some m ∧
      (∃ due, StartsDue reversingSetup m₀ answeringSteps m due) ∧
      m.floor.tasks.map LiveTask.job = [namingJob, earlierJob, restingJob] := by
  obtain ⟨m₀, m, hStart, hSteps, hTasks⟩ : ∃ m₀ m,
      start reversingSetup 0 (Catalog.after []) 8 = .ok m₀ ∧
      m₀.run reversingSetup
        (fun m s => m.attends s && (m.keepsUp s && (m.serves s && m.calm s))) answeringSteps = some m ∧
      m.floor.tasks.map LiveTask.job = [namingJob, earlierJob, restingJob] :=
    ⟨_, _, rfl, rfl, rfl⟩
  exact ⟨m₀, m, hStart, hSteps,
    tasks_started hStart (Course.of_run (fun _ _ h => (Bool.and_eq_true_iff.mp h).1) hSteps),
    hTasks⟩

end Machine

end Taskyard
