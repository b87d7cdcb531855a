import Taskyard.Catalog.Service
import Taskyard.Proofs.Catalog.Separation

/-!
# Catalog — what is told retells the catalog

Whoever listens from the beginning can keep a mirror of the catalog: what is told of a job or a task
is the only thing that happened to it. Deletions of tasks are told by the identifier of the task
alone, so the mirror of tasks is right as long as no two jobs have tasks with one identifier.

Main definitions and results:

* `Mirror`, `Mirror.hear`, `replay` — what a listener knows.
* `Call`, `Call.perform` — calls of the service, each of which may be kept from the catalog.
* `Session` — calls that are made one after another, with what was answered and told.
* `Catalog.retold` — the mirror of a session is its catalog, and what each call tells.
-/

namespace Taskyard

/-! ## Listeners -/

/-- What a listener knows: jobs by identifier, and tasks by job and identifier. -/
structure Mirror where
  job? : String → Option Job := fun _ => none
  task? : String → String → Option Task := fun _ _ => none

namespace Mirror

/-- A job that was saved takes the place of an older one, a job that is gone takes its tasks with
it. -/
def hearJob (v : Mirror) (c : JobChange) : Mirror :=
  match c.removed, c.updated with
  | some id, _ =>
    { job? := fun k => if id = k then none else v.job? k
      task? := fun k i => if id = k then none else v.task? k i }
  | none, some j => { v with job? := fun k => if j.id = k then some j else v.job? k }
  | none, none => v

/-- A task that was saved takes the place of an older one of the same job, a task that is gone is
gone wherever it was. -/
def hearTask (v : Mirror) (c : TaskChange) : Mirror :=
  match c.removed, c.updated with
  | some id, _ => { v with task? := fun k i => if id = i then none else v.task? k i }
  | none, some t =>
    { v with task? := fun k i => if t.jobId = k ∧ t.id = i then some t else v.task? k i }
  | none, none => v

def hear (v : Mirror) : Announcement → Mirror
  | .job c => v.hearJob c
  | .task c => v.hearTask c
  | .trigger _ => v

/-- What a listener knows after all that was told. -/
def hearAll (v : Mirror) (told : List Announcement) : Mirror := told.foldl hear v

/-- What is told in two parts is heard in two parts. -/
theorem hearAll_append (v : Mirror) (told later : List Announcement) :
    v.hearAll (told ++ later) = (v.hearAll told).hearAll later := List.foldl_append

end Mirror

/-- What a listener knows who began with nothing. -/
def replay (told : List Announcement) : Mirror := Mirror.hearAll {} told

namespace Announcement

/-- The trigger that is told, if it is one. -/
def trigger? : Announcement → Option JobTrigger
  | .trigger t => some t
  | _ => none

end Announcement

namespace Catalog

/-! ## Calls -/

inductive Call where
  | saveJob (j : Job)
  | removeJob (id : String)
  | saveTask (t : Task)
  | saveTasks (ts : List Task)
  | removeTasks (d : Deletion)
  | getJob (id : String) (load : TaskStatus)
  | listJobs (l : JobListing)
  | listTasks (scope : String) (status : TaskStatus)

/-- What a call is answered; several tasks that are saved are answered one by one. -/
inductive Answer where
  | done
  | job (j : Job)
  | task (t : Task)
  | each (answers : List (Except Fault Task))
  | ids (ids : List String)
  | jobs (js : List Job)
  | tasks (ts : List Task)

structure Outcome where
  catalog : Catalog
  answer : Except Fault Answer
  told : List Announcement

/-- What keeps a call from the catalog the n-th time that it needs it, if anything does. -/
abbrev Outages := Nat → Option Fault

/-- A call that needs the catalog once. If that fails, or it is kept from it, nothing happens. -/
def attempt (c : Catalog) (outage : Option Fault)
    (x : Except Fault (Catalog × Answer × List Announcement)) : Outcome :=
  match outage, x with
  | some e, _ => ⟨c, .error e, []⟩
  | none, .error e => ⟨c, .error e, []⟩
  | none, .ok (c', a, told) => ⟨c', .ok a, told⟩

/-- A call that fails tells nothing and changes nothing. -/
theorem attempt_of_error {c : Catalog} {outage : Option Fault}
    {x : Except Fault (Catalog × Answer × List Announcement)} {e : Fault}
    (h : (c.attempt outage x).answer = .error e) :
    (c.attempt outage x).told = [] ∧ (c.attempt outage x).catalog = c := by
  unfold attempt at h ⊢
  split at h
  · exact ⟨rfl, rfl⟩
  · exact ⟨rfl, rfl⟩
  · cases h

/-- What is only read changes nothing, and nothing is told of it. -/
theorem attempt_map {α : Type} (c : Catalog) (outage : Option Fault) (x : Except Fault α)
    (f : α → Answer) :
    (c.attempt outage (x.map fun a => (c, f a, []))).catalog = c ∧
      (c.attempt outage (x.map fun a => (c, f a, []))).told = [] := by
  cases outage <;> cases x <;> exact ⟨rfl, rfl⟩

/-- Tasks are saved one after another, the first of them being the n-th; one that cannot be saved
is answered with its fault, and the next one follows. -/
def saveEach (o : Outages) (c : Catalog) (n : Nat) :
    List Task → Catalog × List (Except Fault Task) × List Announcement
  | [] => (c, [], [])
  | t :: ts =>
    match o n with
    | some e =>
      let (c, answers, told) := saveEach o c (n + 1) ts
      (c, .error e :: answers, told)
    | none =>
      let (c, told) := c.saveTask t
      let (c, answers, later) := saveEach o c (n + 1) ts
      (c, .ok t :: answers, told ++ later)

/-- What comes of a call that is made alone. -/
def Call.perform (c : Catalog) (o : Outages) : Call → Outcome
  | .saveJob j =>
    let (c', j', told) := c.saveJob j
    c.attempt (o 0) (.ok (c', .job j', told))
  | .removeJob id =>
    let (c', told) := c.removeJob id
    c.attempt (o 0) (.ok (c', .done, told))
  | .saveTask t =>
    let (c', told) := c.saveTask t
    c.attempt (o 0) (.ok (c', .task t, told))
  | .saveTasks ts =>
    let (c', answers, told) := saveEach o c 0 ts
    ⟨c', .ok (.each answers), told⟩
  | .removeTasks d =>
    c.attempt (o 0) ((c.removeTasks d).map fun (c', ids, told) => (c', .ids ids, told))
  | .getJob id load => c.attempt (o 0) ((c.getJob id load).map fun j => (c, .job j, []))
  | .listJobs l => c.attempt (o 0) ((c.listJobs l).map fun js => (c, .jobs js, []))
  | .listTasks scope status =>
    c.attempt (o 0) ((c.listTasks scope status).map fun ts => (c, .tasks ts, []))

/-- Calls that were made one after another. -/
structure Session where
  catalog : Catalog := empty
  /-- What was told, in order. -/
  told : List Announcement := []
  /-- What each call was answered. -/
  log : List (Call × Except Fault Answer) := []

def Session.call (s : Session) (x : Call × Outages) : Session :=
  let r := x.1.perform s.catalog x.2
  { catalog := r.catalog, told := s.told ++ r.told, log := s.log ++ [(x.1, r.answer)] }

/-- The session of these calls, from a catalog without rows. -/
def session (calls : List (Call × Outages)) : Session := calls.foldl Session.call {}

/-- The last call of a session meets what the earlier ones left. -/
theorem session_concat (calls : List (Call × Outages)) (x : Call × Outages) :
    session (calls ++ [x]) = (session calls).call x := List.foldl_append

/-! ## Several tasks -/

/-- What the task at a place is answered. -/
def answerAt (o : Outages) (x : Task × Nat) : Except Fault Task :=
  match o x.2 with
  | some e => .error e
  | none => .ok x.1

def accepted (o : Outages) (n : Nat) (ts : List Task) : List Task :=
  (ts.zipIdx n).filterMap fun x => (answerAt o x).toOption

/-- Saving several tasks, in closed form: the accepted ones are put in order, and each is told
of. -/
theorem saveEach_eq (o : Outages) (c : Catalog) (n : Nat) (ts : List Task) :
    saveEach o c n ts = ((accepted o n ts).foldl putTask c, (ts.zipIdx n).map (answerAt o),
      (accepted o n ts).map fun t => .task (.saved t)) := by
  induction ts generalizing c n with
  | nil => rfl
  | cons t ts ih =>
    rw [saveEach]
    cases hOutage : o n with
    -- a task that is refused leaves the catalog and tells nothing
    | some e =>
      have hAnswer : answerAt o (t, n) = .error e := by rw [answerAt, hOutage]
      have hAccepted : accepted o n (t :: ts) = accepted o (n + 1) ts := by
        rw [accepted, List.zipIdx_cons, List.filterMap_cons, hAnswer]
        rfl
      rw [hAccepted, List.zipIdx_cons, List.map_cons, hAnswer, ih]
    | none =>
      have hAnswer : answerAt o (t, n) = .ok t := by rw [answerAt, hOutage]
      have hAccepted : accepted o n (t :: ts) = t :: accepted o (n + 1) ts := by
        rw [accepted, List.zipIdx_cons, List.filterMap_cons, hAnswer]
        rfl
      rw [hAccepted, List.zipIdx_cons, List.map_cons, hAnswer]
      dsimp only [saveTask]
      rw [ih]
      rfl

/-- With nothing in the way, the tasks are saved as they are without a caller. -/
theorem saveEach_eq_saveTasks (c : Catalog) (n : Nat) (ts : List Task) :
    saveEach (fun _ => none) c n ts =
      ((c.saveTasks ts).1, ts.map Except.ok, (c.saveTasks ts).2) := by
  induction ts generalizing c n with
  | nil => rfl
  | cons t ts ih =>
    rw [saveEach, saveTasks]
    dsimp only
    rw [ih]
    rfl

/-! ## Calls as changes -/

/-- The changes that a call makes. -/
def Call.changes (o : Outages) : Call → List Change
  | .saveJob j => if (o 0).isSome then [] else [.putJob j.withoutTasks]
  | .removeJob id => if (o 0).isSome then [] else [.deleteJob id]
  | .saveTask t => if (o 0).isSome then [] else [.putTask t]
  | .saveTasks ts => (accepted o 0 ts).map .putTask
  | .removeTasks d => if (o 0).isSome then [] else [.deleteTasks d]
  | .getJob _ _ | .listJobs _ | .listTasks _ _ => []

/-- What is told of a change. -/
def Change.told (c : Catalog) : Change → List Announcement
  | .putJob j => j.announcements
  | .deleteJob id => [.job (.gone id)]
  | .putTask t => [.task (.saved t)]
  | .deleteTasks d =>
    match c.deleteTasks d with
    | .ok (_, ts) => ts.map fun t => .task (.gone t.id)
    | .error _ => []

/-- What is told of changes that are made one after another. -/
def toldOf (c : Catalog) : List Change → List Announcement
  | [] => []
  | y :: ys => y.told c ++ toldOf (y.apply c) ys

/-- A list of puts as changes, and what they tell. -/
theorem foldl_putTask (c : Catalog) (ts : List Task) :
    (ts.map Change.putTask).foldl Change.apply c = ts.foldl putTask c ∧
      toldOf c (ts.map .putTask) = ts.map fun t => .task (.saved t) := by
  induction ts generalizing c with
  | nil => exact ⟨rfl, rfl⟩
  | cons t ts ih =>
    obtain ⟨hCatalog, hTold⟩ := ih (c.putTask t)
    exact ⟨hCatalog, congrArg (Announcement.task (.saved t) :: ·) hTold⟩

/-- A call changes the catalog by its changes, and tells of nothing else. -/
theorem perform_eq (c : Catalog) (o : Outages) (x : Call) :
    (x.perform c o).catalog = (x.changes o).foldl Change.apply c ∧
      (x.perform c o).told = toldOf c (x.changes o) := by
  cases x with
  | saveJob j =>
    simp only [Call.perform, Call.changes, attempt, saveJob]
    cases o 0 <;> exact ⟨rfl, by simp [toldOf, Change.told]⟩
  | removeJob id =>
    simp only [Call.perform, Call.changes, attempt, removeJob]
    cases o 0 <;> exact ⟨rfl, rfl⟩
  | saveTask t =>
    simp only [Call.perform, Call.changes, attempt, saveTask]
    cases o 0 <;> exact ⟨rfl, rfl⟩
  | saveTasks ts =>
    obtain ⟨hCatalog, hTold⟩ := foldl_putTask c (accepted o 0 ts)
    simp only [Call.perform, Call.changes, saveEach_eq]
    exact ⟨hCatalog.symm, hTold.symm⟩
  | removeTasks d =>
    simp only [Call.perform, Call.changes, attempt, removeTasks]
    cases o 0 with
    | some e => exact ⟨rfl, rfl⟩
    | none =>
      cases hDelete : c.deleteTasks d with
      | error e => simp [toldOf, Change.told, Change.apply, hDelete, Except.map]
      | ok r => simp [toldOf, Change.told, Change.apply, hDelete, Except.map]
  -- what only reads has no changes
  | getJob | listJobs | listTasks => exact attempt_map ..

/-- The catalog of a session is the one after the changes of its calls. -/
theorem session_catalog (calls : List (Call × Outages)) :
    (session calls).catalog = after (calls.flatMap fun x => x.1.changes x.2) := by
  induction calls using List.reverseRecOn with
  | nil => rfl
  | append_singleton calls x ih =>
    rw [session_concat, List.flatMap_append, after, List.foldl_append, ← after, ← ih]
    simp only [List.flatMap_cons, List.flatMap_nil, List.append_nil]
    exact (perform_eq _ _ _).1

/-! ## The mirror -/

variable {c : Catalog} {v : Mirror}

/-- The mirror has the jobs of the catalog. -/
def MirrorsJobs (c : Catalog) (v : Mirror) : Prop :=
  ∀ id, c.jobs.get? id = (v.job? id).map Job.row

/-- The mirror has the tasks of the catalog. -/
def MirrorsTasks (c : Catalog) (v : Mirror) : Prop :=
  ∀ jobId id, (c.bucket jobId).get? id = (v.task? jobId id).map Task.row

/-- No two jobs have tasks with one identifier. -/
def Solo (c : Catalog) : Prop :=
  ∀ a b id, (c.bucket a).get? id ≠ none → (c.bucket b).get? id ≠ none → a = b

/-- Tasks that are gone leave the jobs, and are gone wherever they were. -/
theorem hearAll_gone (v : Mirror) (ts : List Task) :
    (v.hearAll (ts.map fun t => .task (.gone t.id))).job? = v.job? ∧
      ∀ k i, (v.hearAll (ts.map fun t => .task (.gone t.id))).task? k i =
        if ∃ t ∈ ts, t.id = i then none else v.task? k i := by
  induction ts generalizing v with
  | nil => simp [Mirror.hearAll]
  | cons t ts ih =>
    obtain ⟨hJobs, hTasks⟩ := ih (v.hear (.task (.gone t.id)))
    refine ⟨hJobs, fun k i => (hTasks k i).trans ?_⟩
    by_cases hHead : t.id = i
    · simp [hHead, Mirror.hear, Mirror.hearTask, TaskChange.gone]
    · simp [hHead, Mirror.hear, Mirror.hearTask, TaskChange.gone]

theorem hearAll_announcements (v : Mirror) (j : Job) :
    v.hearAll j.announcements = v.hear (.job (.saved j)) := by
  rw [Job.announcements]
  split <;> rfl

/-- A listener that has the jobs of the catalog still has them after a change and its tellings. -/
theorem MirrorsJobs.apply (h : MirrorsJobs c v) (y : Change) :
    MirrorsJobs (y.apply c) (v.hearAll (y.told c)) := by
  intro id
  cases y with
  | putJob j =>
    rw [Change.told, hearAll_announcements, Change.apply, putJob, Dict.get?_insert, h id]
    show _ = (if j.id = id then some j else v.job? id).map Job.row
    split <;> rfl
  | deleteJob k =>
    rw [Change.apply, deleteJob, Dict.get?_erase, h id]
    show _ = (if k = id then none else v.job? id).map Job.row
    split <;> rfl
  | putTask t => exact h id
  -- of deleted tasks something is told, but nothing of jobs
  | deleteTasks d =>
    rw [jobs_apply_deleteTasks, h id, Change.told]
    cases c.deleteTasks d with
    | error e => rfl
    | ok r =>
      dsimp only
      rw [(hearAll_gone v r.2).1]

/-- What is told of a change keeps the tasks of the mirror, as long as a task that is deleted is the
only one with its identifier. -/
theorem MirrorsTasks.apply (h : MirrorsTasks c v) (hc : c.Faithful) {y : Change}
    (hSolo : ∀ d, y = .deleteTasks d → c.Solo) :
    MirrorsTasks (y.apply c) (v.hearAll (y.told c)) := by
  intro jobId id
  cases y with
  | putJob j =>
    rw [Change.told, hearAll_announcements]
    exact h jobId id
  | deleteJob k =>
    -- the removal of a job is told of once, and stands for its tasks too
    rw [Change.apply, bucket_deleteJob]
    show _ = (if k = jobId then none else v.task? jobId id).map Task.row
    split
    · rfl
    · exact h jobId id
  | putTask t =>
    rw [Change.apply, bucket_putTask]
    show _ = (if t.jobId = jobId ∧ t.id = id then some t else v.task? jobId id).map Task.row
    by_cases hJob : t.jobId = jobId
    · rw [if_pos hJob, Dict.get?_insert, h jobId id]
      by_cases hId : t.id = id
      · rw [if_pos hId, if_pos ⟨hJob, hId⟩]
        rfl
      · rw [if_neg hId, if_neg fun hBoth => hId hBoth.2]
    · rw [if_neg hJob, if_neg fun hBoth => hJob hBoth.1]
      exact h jobId id
  | deleteTasks d =>
    rw [Change.told, Change.apply]
    cases hDelete : c.deleteTasks d with
    | error e => exact h jobId id
    | ok r =>
      obtain ⟨c', ts⟩ := r
      obtain ⟨hChosen, rfl⟩ := deleteTasks_eq_ok hDelete
      dsimp only
      rw [get?_eraseTasks, (hearAll_gone v ts).2]
      by_cases hGone : ∃ t ∈ ts, t.id = id
      · rw [if_pos hGone]
        obtain ⟨t, ht, rfl⟩ := hGone
        split
        · rfl
        · next hOther =>
          -- no other job has a task with the identifier of the deleted one
          by_contra hThere
          obtain ⟨⟨row, hRow, -⟩, -⟩ := row_of_chosen hc hChosen ht
          have hDeleted : (c.bucket t.jobId).get? t.id ≠ none := by simp [hRow]
          exact hOther ⟨t, ht, hSolo d rfl t.jobId jobId t.id hDeleted hThere, rfl⟩
      · rw [if_neg hGone, if_neg]
        · exact h jobId id
        · rintro ⟨t, ht, -, hId⟩
          exact hGone ⟨t, ht, hId⟩

/-- A call makes puts of tasks only, or a single change. -/
theorem changes_cases (o : Outages) (x : Call) :
    (∃ ts : List Task, x.changes o = ts.map Change.putTask) ∨ ∃ y, x.changes o = [y] := by
  cases x with
  | saveJob | removeJob | saveTask | removeTasks =>
    simp only [Call.changes]
    split
    · exact .inl ⟨[], rfl⟩
    · exact .inr ⟨_, rfl⟩
  | saveTasks ts => exact .inl ⟨_, rfl⟩
  | getJob | listJobs | listTasks => exact .inl ⟨[], rfl⟩

/-- The same over a list of changes, by induction. -/
theorem MirrorsJobs.foldl (h : MirrorsJobs c v) (ys : List Change) :
    MirrorsJobs (ys.foldl Change.apply c) (v.hearAll (toldOf c ys)) := by
  induction ys generalizing c v with
  | nil => exact h
  | cons y ys ih =>
    rw [toldOf, Mirror.hearAll_append]
    exact ih (h.apply y)

/-- A listener that has the tasks still has them after a list of puts. -/
theorem MirrorsTasks.foldl_putTask (h : MirrorsTasks c v) (hc : c.Faithful) (ts : List Task) :
    MirrorsTasks ((ts.map Change.putTask).foldl Change.apply c)
      (v.hearAll (toldOf c (ts.map .putTask))) := by
  induction ts generalizing c v with
  | nil => exact h
  | cons t ts ih =>
    rw [List.map_cons, toldOf, Mirror.hearAll_append]
    exact ih (h.apply hc fun _ hEq => nomatch hEq) (hc.putTask t)

/-- One call keeps the listener's jobs those of the catalog, whether or not it succeeds. -/
theorem MirrorsJobs.perform (h : MirrorsJobs c v) (o : Outages) (x : Call) :
    MirrorsJobs (x.perform c o).catalog (v.hearAll (x.perform c o).told) := by
  obtain ⟨hCatalog, hTold⟩ := perform_eq c o x
  rw [hCatalog, hTold]
  exact h.foldl _

/-- One call keeps the listener's tasks those of the catalog, as long as no two jobs share a
task id. -/
theorem MirrorsTasks.perform (h : MirrorsTasks c v) (hc : c.Faithful) (hSolo : c.Solo) (o : Outages)
    (x : Call) : MirrorsTasks (x.perform c o).catalog (v.hearAll (x.perform c o).told) := by
  obtain ⟨hCatalog, hTold⟩ := perform_eq c o x
  rw [hCatalog, hTold]
  rcases changes_cases o x with ⟨ts, hTasks⟩ | ⟨y, hOne⟩
  · -- no task is deleted while tasks are saved
    rw [hTasks]
    exact h.foldl_putTask hc ts
  · rw [hOne, toldOf, toldOf, List.append_nil]
    exact h.apply hc fun _ _ => hSolo

/-! ## Triggers -/

/-- The trigger of a job that was saved and starts when it is saved. -/
def Call.starts : Call × Except Fault Answer → Option JobTrigger
  | (.saveJob j, .ok _) => if j.autoStart then some (.immediate j.id) else none
  | _ => none

/-- Tellings of tasks start nothing. -/
theorem trigger?_tasks {α : Type} (l : List α) (f : α → TaskChange) :
    (l.map fun a => Announcement.task (f a)).filterMap Announcement.trigger? = [] := by
  induction l with
  | nil => rfl
  | cons a l ih => exact ih

/-- A call publishes a trigger exactly if its answer says that an eager job was put. -/
theorem triggers_perform (c : Catalog) (o : Outages) (x : Call) :
    (x.perform c o).told.filterMap Announcement.trigger? =
      (Call.starts (x, (x.perform c o).answer)).toList := by
  cases x with
  | saveJob j =>
    simp only [Call.perform, attempt, saveJob]
    cases o 0 with
    | some e => rfl
    | none =>
      -- a job is told of without its tasks, which does not touch its automatic start
      show j.withoutTasks.announcements.filterMap _ = (if j.autoStart then _ else _ : Option _).toList
      rw [Job.announcements, show j.withoutTasks.autoStart = j.autoStart from rfl]
      split <;> rfl
  | removeJob id =>
    simp only [Call.perform, attempt, removeJob]
    cases o 0 <;> rfl
  | saveTask t =>
    simp only [Call.perform, attempt, saveTask]
    cases o 0 <;> rfl
  | saveTasks ts =>
    simp only [Call.perform, saveEach_eq]
    exact trigger?_tasks _ _
  | removeTasks d =>
    simp only [Call.perform, attempt, removeTasks]
    cases o 0 with
    | some e => rfl
    | none =>
      cases c.deleteTasks d with
      | error e => rfl
      | ok r => exact trigger?_tasks r.2 fun t => .gone t.id
  | getJob | listJobs | listTasks =>
    rw [Call.perform, (attempt_map ..).2]
    rfl

/-- Every trigger is told right after the change of the job that it starts. -/
def TriggersFollow (told : List Announcement) : Prop :=
  ∀ before t later, told = before ++ .trigger t :: later →
    ∃ earlier j, before = earlier ++ [.job (.saved j)] ∧ j.autoStart = true ∧ t = .immediate j.id

/-- Triggers that follow their puts in two parts follow them in the whole. -/
theorem TriggersFollow.append {told more : List Announcement} (h : TriggersFollow told)
    (h' : TriggersFollow more) : TriggersFollow (told ++ more) := by
  intro before t later hSplit
  rcases List.append_eq_append_iff.mp hSplit with ⟨rest, rfl, hMore⟩ | ⟨rest, hTold, hRest⟩
  · obtain ⟨earlier, j, rfl, hStarts, hOf⟩ := h' rest t later hMore
    exact ⟨told ++ earlier, j, by rw [List.append_assoc], hStarts, hOf⟩
  · cases rest with
    | nil =>
      -- the first of what is added is no trigger
      obtain ⟨earlier, j, hNil, -⟩ := h' [] t later hRest.symm
      exact absurd hNil (by simp)
    | cons a rest =>
      obtain ⟨rfl, -⟩ := List.cons.inj hRest
      exact h before t rest hTold

theorem triggersFollow_of_none {told : List Announcement}
    (h : told.filterMap Announcement.trigger? = []) : TriggersFollow told := by
  rintro before t later rfl
  simp [Announcement.trigger?] at h

/-- The trigger of an eager job comes right after the telling of its put. -/
theorem triggersFollow_announcements (j : Job) : TriggersFollow j.announcements := by
  intro before t later hSplit
  rw [Job.announcements] at hSplit
  split at hSplit
  · next hStarts =>
    cases before with
    | nil => cases hSplit
    | cons a before =>
      obtain ⟨rfl, hRest⟩ := List.cons.inj hSplit
      cases before with
      | nil =>
        -- the trigger is the second of two announcements
        obtain ⟨hTrigger, -⟩ := List.cons.inj hRest
        exact ⟨[], j, rfl, hStarts, (Announcement.trigger.inj hTrigger).symm⟩
      | cons b before => simp at hRest
  · cases before <;> simp at hSplit

theorem triggersFollow_told (c : Catalog) (y : Change) : TriggersFollow (y.told c) := by
  cases y with
  | putJob j => exact triggersFollow_announcements j
  | deleteJob | putTask => exact triggersFollow_of_none rfl
  | deleteTasks d =>
    rw [Change.told]
    split
    · exact triggersFollow_of_none (trigger?_tasks _ fun t : Task => .gone t.id)
    · exact triggersFollow_of_none rfl

theorem triggersFollow_toldOf (c : Catalog) (ys : List Change) : TriggersFollow (toldOf c ys) := by
  induction ys generalizing c with
  | nil => exact triggersFollow_of_none rfl
  | cons y ys ih => exact (triggersFollow_told c y).append (ih _)

/-! ## What one call tells -/

/-- What a call tells of what it answers. -/
structure Tells (c : Catalog) (o : Outages) (x : Call) : Prop where
  /-- A call that fails tells nothing and leaves the catalog. -/
  failed {e : Fault} (h : (x.perform c o).answer = .error e) :
    (x.perform c o).told = [] ∧ (x.perform c o).catalog = c
  /-- A deletion tells of the tasks that it took, each once and in the order of its answer. -/
  removed {d : Deletion} {ids : List String} (hCall : x = .removeTasks d)
    (h : (x.perform c o).answer = .ok (.ids ids)) :
    (x.perform c o).told = ids.map (fun id => .task (.gone id)) ∧
      ∃ keys : List (String × String), keys.map Prod.snd = ids ∧ keys.Nodup ∧
        ∀ jobId id, (jobId, id) ∈ keys ↔ (c.bucket jobId).get? id ≠ none ∧
          ((x.perform c o).catalog.bucket jobId).get? id = none
  /-- Of several tasks, each is answered in its turn, and told of if it was saved. -/
  saved {ts : List Task} (hCall : x = .saveTasks ts) :
    (x.perform c o).answer = .ok (.each (ts.zipIdx.map (answerAt o))) ∧
      (x.perform c o).told = (accepted o 0 ts).map fun t => .task (.saved t)

/-- Everything that is said of a single call: what it tells in each case, and in which order. -/
theorem Faithful.tells (hc : c.Faithful) (o : Outages) (x : Call) : Tells c o x where
  failed {e} h := by
    cases x with
    | saveTasks ts => cases h
    | saveJob | removeJob | saveTask | removeTasks | getJob | listJobs | listTasks =>
      exact attempt_of_error h
  removed {d ids} hCall h := by
    subst hCall
    simp only [Call.perform, attempt, removeTasks] at h ⊢
    cases hOutage : o 0 with
    | some e =>
      rw [hOutage] at h
      cases h
    | none =>
      rw [hOutage] at h
      cases hDelete : c.deleteTasks d with
      | error e =>
        rw [hDelete] at h
        cases h
      | ok r =>
        obtain ⟨c', ts⟩ := r
        rw [hDelete] at h
        cases h
        -- identifiers may repeat among the tasks of several jobs, these with their jobs do not
        obtain ⟨hNodup, hKeys⟩ := hc.keys_of_deleteTasks hDelete
        refine ⟨?_, ts.map keyOf, ?_, hNodup, hKeys⟩
        · show ts.map _ = (ts.map _).map _
          rw [List.map_map]
          rfl
        · rw [List.map_map]
          rfl
  saved {ts} hCall := by
    subst hCall
    constructor <;> simp only [Call.perform, saveEach_eq]

/-! ## What was saved as it is -/

/-- The mirror has what is read back as it is. -/
structure MirrorExact (v : Mirror) : Prop where
  job {id : String} {j : Job} (h : v.job? id = some j) : j.row.read = .ok j
  task {jobId id : String} {t : Task} (h : v.task? jobId id = some t) : t.row.read = .ok t

/-- A job that reads back is heard as it was put. -/
theorem MirrorExact.hearJob (hv : MirrorExact v) {j : Job} (hj : j.row.read = .ok j) :
    MirrorExact (v.hear (.job (.saved j))) where
  job {id j'} h := by
    replace h : (if j.id = id then some j else v.job? id) = some j' := h
    split at h
    · obtain rfl := Option.some.inj h
      exact hj
    · exact hv.job h
  task h := hv.task h

/-- A task that reads back is heard as it was put. -/
theorem MirrorExact.hearTask (hv : MirrorExact v) {t : Task} (ht : t.row.read = .ok t) :
    MirrorExact (v.hear (.task (.saved t))) where
  job h := hv.job h
  task {jobId id t'} h := by
    replace h : (if t.jobId = jobId ∧ t.id = id then some t else v.task? jobId id) = some t' := h
    split at h
    · obtain rfl := Option.some.inj h
      exact ht
    · exact hv.task h

/-- What an exact change tells keeps the listener's copies exact. -/
theorem MirrorExact.tell (hv : MirrorExact v) {y : Change} (hy : y.Exact)
    (hTasks : ∀ j, y = .putJob j → j.withoutTasks = j) : MirrorExact (v.hearAll (y.told c)) := by
  cases y with
  | putJob j =>
    rw [Change.told, hearAll_announcements]
    exact hv.hearJob ((show j.row.read = .ok j.withoutTasks from hy).trans
      (congrArg Except.ok (hTasks j rfl)))
  | deleteJob id =>
    -- a mirror that forgets knows nothing else
    constructor
    · intro id' j h
      replace h : (if id = id' then none else v.job? id') = some j := h
      exact hv.job (Option.ite_none_left_eq_some.mp h).2
    · intro jobId id' t h
      replace h : (if id = jobId then none else v.task? jobId id') = some t := h
      exact hv.task (Option.ite_none_left_eq_some.mp h).2
  | putTask t => exact hv.hearTask hy
  | deleteTasks d =>
    rw [Change.told]
    split
    · next ts _ =>
      obtain ⟨hJobs, hTasks⟩ := hearAll_gone v ts
      constructor
      · intro id j h
        rw [hJobs] at h
        exact hv.job h
      · intro jobId id t h
        rw [hTasks] at h
        exact hv.task (Option.ite_none_left_eq_some.mp h).2
    · exact hv

/-- What a list of exact changes tells keeps them exact, by induction. -/
theorem MirrorExact.foldl (hv : MirrorExact v) {ys : List Change} (h : ∀ y ∈ ys, y.Exact)
    (hTasks : ∀ j, .putJob j ∈ ys → j.withoutTasks = j) : MirrorExact (v.hearAll (toldOf c ys)) := by
  induction ys generalizing c v with
  | nil => exact hv
  | cons y ys ih =>
    rw [toldOf, Mirror.hearAll_append]
    have hHead : MirrorExact (v.hearAll (y.told c)) :=
      hv.tell (h y List.mem_cons_self) fun j hEq => hTasks j (hEq ▸ List.mem_cons_self)
    exact ih hHead (fun z hz => h z (List.mem_cons_of_mem y hz))
      fun j hj => hTasks j (List.mem_cons_of_mem y hj)

/-- The service strips the tasks of a job before it puts it. -/
theorem withoutTasks_of_changes {o : Outages} {x : Call} {j : Job} (h : .putJob j ∈ x.changes o) :
    j.withoutTasks = j := by
  cases x with
  | saveJob j₀ =>
    simp only [Call.changes] at h
    split at h
    · cases h
    · obtain rfl := Change.putJob.inj (List.mem_singleton.mp h)
      rfl
  | removeJob | saveTask | removeTasks =>
    simp only [Call.changes] at h
    split at h <;> simp at h
  | saveTasks ts => simp [Call.changes] at h
  | getJob | listJobs | listTasks => cases h

/-- What is read are the jobs of a mirror. -/
theorem Exact.exists_listJobs_mirror (hc : c.Exact) (hJobs : MirrorsJobs c v) (hv : MirrorExact v) :
    ∃ js, c.listJobs {} = .ok js ∧ ∀ j, j ∈ js ↔ v.job? j.id = some j := by
  obtain ⟨js, hList, -, hMem⟩ := exists_listJobs hc {}
  refine ⟨js, hList, fun j => (hMem j).trans ⟨?_, fun hKnown => ?_⟩⟩
  · rintro ⟨j₀, ts, ⟨hRow, hRead⟩, hAttached, -, rfl⟩
    obtain rfl : [] = ts := Except.ok.inj hAttached
    have hEq : ({ j₀ with tasks := [] } : Job) = j₀ := by
      rw [← (Job.of_read_row hRead).2]
    rw [hEq]
    -- the mirror has a job with the same row, and a row is read back as one job
    rw [hJobs] at hRow
    obtain ⟨j', hKnown, hSame⟩ := Option.map_eq_some_iff.mp hRow
    have hRead' := hv.job hKnown
    rw [hSame, hRead] at hRead'
    obtain rfl := Except.ok.inj hRead'
    exact hKnown
  · have hRead := hv.job hKnown
    refine ⟨j, [], ⟨?_, hRead⟩, rfl, ⟨.inl rfl, ?_, ?_, fun hSkips => hSkips.1 rfl⟩, ?_⟩
    · rw [hJobs, hKnown]
      rfl
    · intro hAsked
      cases hAsked
    · intro hAsked
      cases hAsked
    · rw [← (Job.of_read_row hRead).2]

/-- An exact catalog lists exactly the tasks that the listener has. -/
theorem Exact.exists_listTasks_mirror (hc : c.Exact) (hTasks : MirrorsTasks c v)
    (hv : MirrorExact v) :
    ∃ ts, c.listTasks "" .any = .ok ts ∧ ∀ t, t ∈ ts ↔ v.task? t.jobId t.id = some t := by
  obtain ⟨ts, hList, -, hMem⟩ := exists_listTasks hc "" .any
  refine ⟨ts, hList, fun t => (hMem t).trans ⟨?_, fun hKnown => ⟨⟨?_, hv.task hKnown⟩, .inl rfl, rfl⟩⟩⟩
  · rintro ⟨⟨hRow, hRead⟩, -⟩
    -- as with jobs, a row that the mirror has is that of one task
    rw [hTasks] at hRow
    obtain ⟨t', hKnown, hSame⟩ := Option.map_eq_some_iff.mp hRow
    have hRead' := hv.task hKnown
    rw [hSame, hRead] at hRead'
    obtain rfl := Except.ok.inj hRead'
    exact hKnown
  · rw [hTasks, hKnown]
    rfl

/-! ## Sessions -/

theorem replay_append (told later : List Announcement) :
    replay (told ++ later) = (replay told).hearAll later := Mirror.hearAll_append _ _ _

/-- Every session leaves a faithful catalog. -/
theorem faithful_session (calls : List (Call × Outages)) : (session calls).catalog.Faithful := by
  rw [session_catalog]
  exact Faithful.after _

/-- The run lemma of the jobs: what a session told replays to the jobs of its catalog. -/
theorem mirrorsJobs_session (calls : List (Call × Outages)) :
    MirrorsJobs (session calls).catalog (replay (session calls).told) := by
  induction calls using List.reverseRecOn with
  | nil => exact fun _ => rfl
  | append_singleton calls x ih =>
    rw [session_concat, Session.call]
    dsimp only
    rw [replay_append]
    exact ih.perform x.2 x.1

/-- The run lemma of the tasks, for sessions in which no two jobs ever share a task id. -/
theorem mirrorsTasks_session {calls : List (Call × Outages)}
    (h : ∀ before, before <+: calls → (session before).catalog.Solo) :
    MirrorsTasks (session calls).catalog (replay (session calls).told) := by
  induction calls using List.reverseRecOn with
  | nil => exact fun _ _ => rfl
  | append_singleton calls x ih =>
    have hUpTo : calls <+: calls ++ [x] := List.prefix_append _ _
    rw [session_concat, Session.call]
    dsimp only
    rw [replay_append]
    exact (ih fun before hBefore => h before (hBefore.trans hUpTo)).perform (faithful_session calls)
      (h calls hUpTo) x.2 x.1

theorem mirrorExact_session {calls : List (Call × Outages)}
    (h : ∀ x ∈ calls, ∀ y ∈ x.1.changes x.2, y.Exact) :
    MirrorExact (replay (session calls).told) := by
  induction calls using List.reverseRecOn with
  | nil => exact ⟨fun hKnown => (nomatch hKnown), fun hKnown => (nomatch hKnown)⟩
  | append_singleton calls x ih =>
    rw [session_concat, Session.call]
    dsimp only
    rw [replay_append, (perform_eq _ _ _).2]
    refine (ih fun z hz => h z (List.mem_append_left _ hz)).foldl ?_ fun j => withoutTasks_of_changes
    exact h x (List.mem_append_right _ List.mem_cons_self)

/-- A session of exact changes leaves an exact catalog. -/
theorem exact_session {calls : List (Call × Outages)}
    (h : ∀ x ∈ calls, ∀ y ∈ x.1.changes x.2, y.Exact) : (session calls).catalog.Exact := by
  rw [session_catalog]
  apply Exact.after
  intro y hy
  obtain ⟨x, hx, hOf⟩ := List.mem_flatMap.mp hy
  exact h x hx y hOf

/-- The triggers of a session are those of its answers, in their order. -/
theorem triggers_session (calls : List (Call × Outages)) :
    (session calls).told.filterMap Announcement.trigger? =
      (session calls).log.filterMap Call.starts := by
  induction calls using List.reverseRecOn with
  | nil => rfl
  | append_singleton calls x ih =>
    rw [session_concat, Session.call]
    dsimp only
    rw [List.filterMap_append, List.filterMap_append, ih, triggers_perform]
    simp [List.filterMap_cons, List.filterMap_nil]
    cases Call.starts (x.1, (x.1.perform (session calls).catalog x.2).answer) <;> rfl

theorem triggersFollow_session (calls : List (Call × Outages)) :
    TriggersFollow (session calls).told := by
  induction calls using List.reverseRecOn with
  | nil => exact triggersFollow_of_none rfl
  | append_singleton calls x ih =>
    rw [session_concat, Session.call]
    dsimp only
    rw [(perform_eq _ _ _).2]
    exact ih.append (triggersFollow_toldOf _ _)

/-- A session retells its catalog. -/
structure Retold (calls : List (Call × Outages)) : Prop where
  /-- The mirror has the jobs. -/
  jobs : MirrorsJobs (session calls).catalog (replay (session calls).told)
  /-- The mirror has the tasks, as long as no two jobs have tasks with one identifier. -/
  tasks (h : ∀ before, before <+: calls → (session before).catalog.Solo) :
    MirrorsTasks (session calls).catalog (replay (session calls).told)
  /-- If what was saved is read back as it is, then what is read are the jobs of the mirror. -/
  readJobs (h : ∀ x ∈ calls, ∀ y ∈ x.1.changes x.2, y.Exact) :
    ∃ js, (session calls).catalog.listJobs {} = .ok js ∧
      ∀ j, j ∈ js ↔ (replay (session calls).told).job? j.id = some j
  /-- And so are the tasks. -/
  readTasks (h : ∀ x ∈ calls, ∀ y ∈ x.1.changes x.2, y.Exact)
    (h' : ∀ before, before <+: calls → (session before).catalog.Solo) :
    ∃ ts, (session calls).catalog.listTasks "" .any = .ok ts ∧
      ∀ t, t ∈ ts ↔ (replay (session calls).told).task? t.jobId t.id = some t
  /-- The triggers are those of the jobs that were saved and start when they are. -/
  triggers : (session calls).told.filterMap Announcement.trigger? =
    (session calls).log.filterMap Call.starts
  /-- Each comes right after the change of its job. -/
  follow : TriggersFollow (session calls).told
  /-- One more call tells of what it answers. -/
  next (x : Call) (o : Outages) : Tells (session calls).catalog o x

/-- **Retelling.** Whoever hears all that calls of the job service tell, made one after another, has
the jobs and the tasks of the catalog. Calls that fail tell nothing, deletions tell of every task
that they took in the order of their answer, several tasks are answered and told of in their order,
and every job that starts when it is saved is triggered once, right after it was told of. -/
theorem retold (calls : List (Call × Outages)) : Retold calls where
  jobs := mirrorsJobs_session calls
  tasks := mirrorsTasks_session
  readJobs h :=
    (exact_session h).exists_listJobs_mirror (mirrorsJobs_session calls) (mirrorExact_session h)
  readTasks h h' :=
    (exact_session h).exists_listTasks_mirror (mirrorsTasks_session h') (mirrorExact_session h)
  triggers := triggers_session calls
  follow := triggersFollow_session calls
  next x o := (faithful_session calls).tells o x

/-! ## Identifiers of one job -/

/-- A task that is there was saved. -/
theorem exists_saved {changes : List Change} {jobId id : String}
    (h : ((after changes).bucket jobId).get? id ≠ none) :
    ∃ t : Task, .putTask t ∈ changes ∧ t.jobId = jobId ∧ t.id = id := by
  induction changes using List.reverseRecOn with
  | nil => exact absurd rfl h
  | append_singleton changes y ih =>
    rw [after_concat] at h
    by_cases hBefore : ((after changes).bucket jobId).get? id = none
    · -- of all changes, only saving a task puts it there
      cases y with
      | putJob j => exact absurd hBefore h
      | deleteJob k =>
        rw [Change.apply, bucket_deleteJob] at h
        split at h
        · exact absurd rfl h
        · exact absurd hBefore h
      | putTask t =>
        rw [Change.apply, bucket_putTask] at h
        split at h
        · next hJob =>
          rw [Dict.get?_insert] at h
          split at h
          · next hId => exact ⟨t, List.mem_append_right _ List.mem_cons_self, hJob, hId⟩
          · exact absurd hBefore h
        · exact absurd hBefore h
      | deleteTasks d =>
        rw [get?_apply_deleteTasks] at h
        split at h
        · exact absurd rfl h
        · exact absurd hBefore h
    -- what was there before was saved before
    · obtain ⟨t, ht, hOf⟩ := ih hBefore
      exact ⟨t, List.mem_append_left _ ht, hOf⟩

/-- If no two jobs have tasks saved with one identifier, then none ever have. -/
theorem solo_of_saved {calls : List (Call × Outages)}
    (h : ∀ x ∈ calls, ∀ y ∈ calls, ∀ t t' : Task, .putTask t ∈ x.1.changes x.2 →
      .putTask t' ∈ y.1.changes y.2 → t.id = t'.id → t.jobId = t'.jobId)
    {before : List (Call × Outages)} (hBefore : before <+: calls) :
    (session before).catalog.Solo := by
  intro a b id hA hB
  rw [session_catalog] at hA hB
  obtain ⟨t, ht, rfl, rfl⟩ := exists_saved hA
  obtain ⟨t', ht', rfl, hSame⟩ := exists_saved hB
  obtain ⟨x, hx, htx⟩ := List.mem_flatMap.mp ht
  obtain ⟨y, hy, hty⟩ := List.mem_flatMap.mp ht'
  exact h x (hBefore.subset hx) y (hBefore.subset hy) t t' htx hty hSame.symm

/-- A job that starts when it is saved. -/
def eager : Job := { id := "a", autoStart := true }

/-- A job is saved, a task of it is saved and deleted, and of two more tasks the second one is kept
from the catalog. -/
def tellingCalls : List (Call × Outages) :=
  [(.saveJob eager, fun _ => none), (.saveTask (doneTask "a" "t"), fun _ => none),
    (.removeTasks { scope := "a", ids := ["t"] }, fun _ => none),
    (.saveTasks [doneTask "a" "u", doneTask "a" "v"],
      fun n => if n = 1 then some (.internal "store worker") else none)]

theorem changes_tellingCalls {x : Call × Outages} (hx : x ∈ tellingCalls) {y : Change}
    (hy : y ∈ x.1.changes x.2) :
    y = .putJob eager ∨ y = .putTask (doneTask "a" "t") ∨
      y = .deleteTasks { scope := "a", ids := ["t"] } ∨ y = .putTask (doneTask "a" "u") := by
  have hOf : y ∈ tellingCalls.flatMap fun x => x.1.changes x.2 := List.mem_flatMap.mpr ⟨x, hx, hy⟩
  rw [show (tellingCalls.flatMap fun x => x.1.changes x.2) = [.putJob eager,
    .putTask (doneTask "a" "t"), .deleteTasks { scope := "a", ids := ["t"] },
    .putTask (doneTask "a" "u")] from rfl] at hOf
  simpa only [List.mem_cons, List.not_mem_nil, or_false] using hOf

theorem exact_tellingCalls : ∀ x ∈ tellingCalls, ∀ y ∈ x.1.changes x.2, y.Exact := by
  intro x hx y hy
  rcases changes_tellingCalls hx hy with rfl | rfl | rfl | rfl
  · exact exact_putJob (by decide +kernel) rfl
  · exact exact_putTask (by decide +kernel) rfl rfl
  · trivial
  · exact exact_putTask (by decide +kernel) rfl rfl

theorem solo_tellingCalls {before : List (Call × Outages)} (h : before <+: tellingCalls) :
    (session before).catalog.Solo := by
  have hOf : ∀ x ∈ tellingCalls, ∀ t : Task, .putTask t ∈ x.1.changes x.2 → t.jobId = "a" := by
    intro x hx t ht
    rcases changes_tellingCalls hx ht with hEq | hEq | hEq | hEq
    · cases hEq
    · rw [Change.putTask.inj hEq]
      rfl
    · cases hEq
    · rw [Change.putTask.inj hEq]
      rfl
  exact solo_of_saved (fun x hx y hy t t' ht ht' _ => (hOf x hx t ht).trans (hOf y hy t' ht').symm) h

/-- The session of `tellingCalls`, computed: what it told and what each call answered. -/
theorem session_tellingCalls :
    (session tellingCalls).told = [.job (.saved eager), .trigger (.immediate "a"),
      .task (.saved (doneTask "a" "t")), .task (.gone "t"), .task (.saved (doneTask "a" "u"))] ∧
    (session tellingCalls).log.map Prod.snd = [.ok (.job eager), .ok (.task (doneTask "a" "t")),
      .ok (.ids ["t"]),
      .ok (.each [.ok (doneTask "a" "u"), .error (.internal "store worker")])] := by
  have hRead : (doneTask "a" "t").row.read = .ok (doneTask "a" "t") :=
    exact_putTask (by decide +kernel) rfl rfl
  let c := (empty.putJob eager).putTask (doneTask "a" "t")
  -- the deletion takes the only task there is
  have hDelete : c.deleteTasks { scope := "a", ids := ["t"] } =
      .ok (c.eraseTasks [doneTask "a" "t"], [doneTask "a" "t"]) :=
    deleteTasks_of_one (b := Dict.empty.insert "t" (doneTask "a" "t").row) rfl rfl
      (readBucket_insert (b := Dict.empty) (t := doneTask "a" "t") rfl hRead) rfl
  have hRemove : (Call.removeTasks { scope := "a", ids := ["t"] }).perform c (fun _ => none) =
      ⟨c.eraseTasks [doneTask "a" "t"], .ok (.ids ["t"]), [.task (.gone "t")]⟩ := by
    rw [Call.perform, removeTasks, hDelete]
    rfl
  have hTwo : session (tellingCalls.take 2) = ⟨c, [.job (.saved eager), .trigger (.immediate "a"),
      .task (.saved (doneTask "a" "t"))], [(.saveJob eager, .ok (.job eager)),
        (.saveTask (doneTask "a" "t"), .ok (.task (doneTask "a" "t")))]⟩ := rfl
  rw [← List.take_append_drop 2 tellingCalls, session, List.foldl_append, ← session, hTwo]
  show (Session.call (Session.call _ (.removeTasks _, _)) _).told = _ ∧
    (Session.call (Session.call _ (.removeTasks _, _)) _).log.map _ = _
  rw [Session.call.eq_def _ (.removeTasks _, _)]
  dsimp only
  rw [hRemove]
  exact ⟨rfl, rfl⟩

/-- In the end the job is there, and of the tasks the one that was saved last. -/
theorem retold_tellingCalls :
    (∃ js, (session tellingCalls).catalog.listJobs {} = .ok js ∧ eager ∈ js) ∧
      (∃ ts, (session tellingCalls).catalog.listTasks "" .any = .ok ts ∧
        ∀ t, t ∈ ts ↔ t = doneTask "a" "u") ∧
      (session tellingCalls).log.filterMap Call.starts = [.immediate "a"] := by
  obtain ⟨hTold, -⟩ := session_tellingCalls
  have hRetold := retold tellingCalls
  obtain ⟨js, hJobs, hMemJobs⟩ := hRetold.readJobs exact_tellingCalls
  obtain ⟨ts, hTasks, hMemTasks⟩ :=
    hRetold.readTasks exact_tellingCalls fun _ => solo_tellingCalls
  refine ⟨⟨js, hJobs, ?_⟩, ⟨ts, hTasks, fun t => ?_⟩, ?_⟩
  · rw [hMemJobs, hTold]
    show (if eager.id = eager.id then some eager else none) = some eager
    exact if_pos rfl
  · rw [hMemTasks, hTold]
    show (if "a" = t.jobId ∧ "u" = t.id then some (doneTask "a" "u") else if "t" = t.id then none
      else if "a" = t.jobId ∧ "t" = t.id then some (doneTask "a" "t") else none) = some t ↔ _
    constructor
    · intro hKnown
      split at hKnown
      · exact (Option.some.inj hKnown).symm
      · split at hKnown
        · cases hKnown
        · next hOther =>
          -- nothing is known any more of the task that was deleted
          rw [if_neg fun hOf => hOther hOf.2] at hKnown
          cases hKnown
    · rintro rfl
      exact if_pos ⟨rfl, rfl⟩
  · rw [← hRetold.triggers, hTold]
    rfl

end Catalog

end Taskyard
