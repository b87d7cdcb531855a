import Taskyard.Proofs.Catalog.Readable
import Taskyard.Proofs.Split

/-!
# Catalog — readings and the changes that led to them

When every job and every task that was saved is read back as it is, the changes of a catalog tell
all that is read from it: a job or a task is there exactly if it was saved and no later change
undid that, and a listing has those that are there and asked for, in key order. A change that
concerns one job leaves alone what is read of another, with one exception: the tasks that are
attached to the job with the empty identifier are those of all jobs.

Main definitions and results:

* `Catalog.Standing` — a change that no later one undoes; `standing_concat` tells what one more
  change does to it.
* `Catalog.Exact` — every row is read back as what was saved; `keepsJob_apply` and `keepsTask_apply`
  tell what one change does to what is kept, `keepsJob_after` and `keepsTask_after` what all do.
* `Catalog.exists_listTasks`, `Catalog.exists_listJobs` — what is listed.
* `Catalog.recounts_after` — readings recount the changes.
* `Catalog.attached_of_other` — the exception.
-/

namespace Taskyard

/-- A task comes before another in a listing. -/
def Task.Precedes (t t' : Task) : Prop :=
  t.jobId < t'.jobId ∨ t.jobId = t'.jobId ∧ t.id < t'.id

theorem Task.Precedes.irrefl (t : Task) : ¬t.Precedes t := by
  rintro (hJob | ⟨-, hId⟩)
  · exact String.lt_irrefl _ hJob
  · exact String.lt_irrefl _ hId

/-- Listed order is transitive: by job, then latest start first, then by id. -/
theorem Task.Precedes.trans {t₁ t₂ t₃ : Task} (h : t₁.Precedes t₂) (h' : t₂.Precedes t₃) :
    t₁.Precedes t₃ := by
  rcases h with hJob | ⟨hJob, hId⟩ <;> rcases h' with hJob' | ⟨hJob', hId'⟩
  · exact Or.inl (String.lt_trans hJob hJob')
  · exact Or.inl (hJob' ▸ hJob)
  · exact Or.inl (hJob ▸ hJob')
  · exact Or.inr ⟨hJob.trans hJob', String.lt_trans hId hId'⟩

/-- A listing shows a job, given the tasks that are attached to it. -/
def JobListing.Shows (l : JobListing) (j : Job) (ts : List Task) : Prop :=
  (l.owner = "" ∨ j.owner = l.owner) ∧ (l.eventsOnly = true → j.eventNames ≠ []) ∧
    (l.timersOnly = true → j.schedule ≠ none) ∧ ¬(l.load ≠ .unknown ∧ l.load ≠ .any ∧ ts = [])

theorem Deletion.mem_of_mem_doomed {d : Deletion} {ts : List Task} {t : Task}
    (h : t ∈ d.doomed ts) : t ∈ ts := by
  rw [doomed] at h
  split at h
  · exact List.mem_of_mem_filter (List.mem_mergeSort.mp (List.mem_of_mem_drop h))
  · exact List.mem_of_mem_filter h

namespace Catalog

/-! ## Changes that stand -/

/-- A change saves what is read back from its row as it is. -/
def Change.Exact : Change → Prop
  | .putJob j => j.row.read = .ok j.withoutTasks
  | .putTask t => t.row.read = .ok t
  | _ => True

/-- A change that comes upon a catalog undoes that a job was saved: it saves the job anew or deletes
it. -/
def undoesJob (id : String) (_ : Catalog) : Change → Prop
  | .putJob j => j.id = id
  | .deleteJob id' => id' = id
  | _ => False

/-- A change that comes upon a catalog undoes that a task was saved: it saves the task anew, deletes
its job, or is a deletion of tasks that returns it. -/
def undoesTask (jobId id : String) (c : Catalog) : Change → Prop
  | .putTask t => t.jobId = jobId ∧ t.id = id
  | .deleteJob id' => id' = jobId
  | .deleteTasks d => ∃ c' ts, c.deleteTasks d = .ok (c', ts) ∧ ∃ t ∈ ts, t.jobId = jobId ∧ t.id = id
  | _ => False

/-- A change is one of a sequence, and none of the later ones undoes it. -/
def Standing (undoes : Catalog → Change → Prop) (x : Change) (changes : List Change) : Prop :=
  ∃ before later, changes = before ++ x :: later ∧
    ∀ mid y rest, later = mid ++ y :: rest → ¬undoes (after (before ++ x :: mid)) y

/-- One more change applies to what the earlier ones left. -/
theorem after_concat (changes : List Change) (y : Change) :
    after (changes ++ [y]) = y.apply (after changes) := by
  rw [after, List.foldl_append]
  rfl

/-- With one more change, what stands is that change and what stood and is not undone by it. -/
theorem standing_concat {undoes : Catalog → Change → Prop} {x y : Change} {changes : List Change} :
    Standing undoes x (changes ++ [y]) ↔
      y = x ∨ Standing undoes x changes ∧ ¬undoes (after changes) y := by
  constructor
  -- the change is the last one, or it stood before and the last one does not undo it
  · rintro ⟨before, later, hSplit, hLater⟩
    rcases concat_eq_append_cons_iff.mp hSplit with ⟨-, hLast, -⟩ | ⟨rest, rfl, rfl⟩
    · exact Or.inl hLast
    · refine Or.inr ⟨⟨before, rest, rfl, fun mid z more hMid => ?_⟩, hLater rest y [] rfl⟩
      exact hLater mid z (more ++ [y]) (by simp [hMid])
  · rintro (rfl | ⟨⟨before, later, rfl, hLater⟩, hUndoes⟩)
    · refine ⟨changes, [], rfl, fun mid w rest hSplit => ?_⟩
      cases mid <;> cases hSplit
    · refine ⟨before, later ++ [y], by simp, fun mid z rest hSplit => ?_⟩
      rcases concat_eq_append_cons_iff.mp hSplit with ⟨rfl, rfl, -⟩ | ⟨more, hMid, -⟩
      · exact hUndoes
      · exact hLater mid z more hMid

theorem standing_last {undoes : Catalog → Change → Prop} {x : Change} (changes : List Change) :
    Standing undoes x (changes ++ [x]) := standing_concat.mpr (Or.inl rfl)

/-! ## What is kept -/

variable {c : Catalog}

/-- Every row is that of a job or a task with the identifiers it is kept under, and it is read back
as that job or task. -/
structure Exact (c : Catalog) : Prop where
  /-- The rows of jobs. -/
  job {id : String} {r : JobRow} (h : c.jobs.get? id = some r) :
    ∃ j : Job, j.id = id ∧ j.row = r ∧ r.read = .ok j
  /-- The rows of tasks. -/
  task {jobId id : String} {r : TaskRow} (h : (c.bucket jobId).get? id = some r) :
    ∃ t : Task, t.jobId = jobId ∧ t.id = id ∧ t.row = r ∧ r.read = .ok t

/-- A job is there and read back as it is. -/
def KeepsJob (c : Catalog) (j : Job) : Prop :=
  c.jobs.get? j.id = some j.row ∧ j.row.read = .ok j

/-- A task is there and read back as it is. -/
def KeepsTask (c : Catalog) (t : Task) : Prop :=
  (c.bucket t.jobId).get? t.id = some t.row ∧ t.row.read = .ok t

/-- Erasing tasks takes away exactly their own keys. -/
theorem get?_eraseTasks (ts : List Task) (jobId id : String) :
    ((c.eraseTasks ts).bucket jobId).get? id =
      if ∃ t ∈ ts, t.jobId = jobId ∧ t.id = id then none else (c.bucket jobId).get? id := by
  induction ts generalizing c with
  | nil => simp [eraseTasks]
  | cons t ts ih =>
    show (((c.eraseTask t.jobId t.id).eraseTasks ts).bucket jobId).get? id = _
    rw [ih, bucket_eraseTask]
    by_cases hJob : t.jobId = jobId
    · by_cases hId : t.id = id
      · simp [hJob, hId, Dict.get?_erase]
      · simp [hJob, hId, Dict.get?_erase]
    · simp [hJob]

/-- A deletion of tasks leaves the jobs and takes away what it returns. -/
theorem deleteTasks_eq_ok {d : Deletion} {c' : Catalog} {ts : List Task}
    (h : c.deleteTasks d = .ok (c', ts)) : c.chooseTasks d = .ok ts ∧ c' = c.eraseTasks ts := by
  rw [deleteTasks] at h
  cases hChosen : c.chooseTasks d with
  | error e =>
    rw [hChosen] at h
    cases h
  | ok ts' =>
    rw [hChosen] at h
    cases h
    exact ⟨rfl, rfl⟩

/-- Deleting tasks never touches a job. -/
theorem jobs_apply_deleteTasks (d : Deletion) : (Change.apply c (.deleteTasks d)).jobs = c.jobs := by
  rw [Change.apply]
  split
  · next hDelete =>
    rw [(deleteTasks_eq_ok hDelete).2, jobs_eraseTasks]
  · rfl

/-- A deletion that succeeds takes away what it undoes, one that fails nothing. -/
theorem get?_apply_deleteTasks (d : Deletion) (jobId id : String) :
    ((Change.apply c (.deleteTasks d)).bucket jobId).get? id =
      open Classical in
      if undoesTask jobId id c (.deleteTasks d) then none else (c.bucket jobId).get? id := by
  rw [Change.apply, undoesTask]
  cases hDelete : c.deleteTasks d with
  | error e => simp
  | ok r =>
    obtain ⟨c', ts⟩ := r
    rw [(deleteTasks_eq_ok hDelete).2, get?_eraseTasks]
    simp

/-- What one change does to a job that is there. -/
theorem keepsJob_apply {y : Change} (hy : y.Exact) {j : Job} :
    (y.apply c).KeepsJob j ↔
      (∃ j₀, y = .putJob j₀ ∧ j₀.withoutTasks = j) ∨ c.KeepsJob j ∧ ¬undoesJob j.id c y := by
  cases y with
  | putJob j₀ =>
    simp only [KeepsJob, Change.apply, putJob, Dict.get?_insert, undoesJob, Change.putJob.injEq,
      exists_eq_left']
    by_cases hId : j₀.id = j.id
    · simp only [hId, if_true, not_true_eq_false, and_false, or_false, Option.some.injEq]
      constructor
      · rintro ⟨hRow, hRead⟩
        -- the row is read back as the one job and as the other
        rw [← hRow] at hRead
        exact Except.ok.inj ((show _ = _ from hy).symm.trans hRead)
      · rintro rfl
        exact ⟨rfl, hy⟩
    · simp only [hId, if_false, not_false_eq_true, and_true]
      constructor
      · exact Or.inr
      · rintro (rfl | hKept)
        · exact absurd rfl hId
        · exact hKept
  | deleteJob id =>
    simp only [KeepsJob, Change.apply, deleteJob, Dict.get?_erase, undoesJob, reduceCtorEq,
      false_and, exists_false, false_or]
    by_cases hId : id = j.id <;> simp [hId]
  | putTask t =>
    simp [KeepsJob, Change.apply, putTask, undoesJob]
  | deleteTasks d =>
    simp [KeepsJob, jobs_apply_deleteTasks, undoesJob]

/-- What one change does to a task that is there. -/
theorem keepsTask_apply {y : Change} (hy : y.Exact) {t : Task} :
    (y.apply c).KeepsTask t ↔
      y = .putTask t ∨ c.KeepsTask t ∧ ¬undoesTask t.jobId t.id c y := by
  cases y with
  | putJob j => simp [KeepsTask, Change.apply, putJob, bucket, undoesTask]
  | deleteJob id =>
    simp only [KeepsTask, Change.apply, bucket_deleteJob, undoesTask, reduceCtorEq, false_or]
    -- only the tasks of the job itself go with it
    by_cases hJob : id = t.jobId
    · have hNone : (Dict.empty : Dict TaskRow).get? t.id = none := rfl
      simp [hJob, hNone]
    · simp [hJob]
  | putTask t₀ =>
    simp only [KeepsTask, Change.apply, bucket_putTask, undoesTask, Change.putTask.injEq]
    -- a task with the same key takes its place, and is what is there after that
    by_cases hKey : t₀.jobId = t.jobId ∧ t₀.id = t.id
    · simp only [hKey, Dict.get?_insert, if_true, not_true_eq_false, and_false, or_false,
        Option.some.injEq, and_self]
      constructor
      · rintro ⟨hRow, hRead⟩
        rw [← hRow] at hRead
        exact Except.ok.inj ((show _ = _ from hy).symm.trans hRead)
      · rintro rfl
        exact ⟨rfl, hy⟩
    -- a task with another key leaves it where it is
    · have hOther : t₀ ≠ t := by
        rintro rfl
        exact hKey ⟨rfl, rfl⟩
      simp only [hKey, hOther, not_false_eq_true, and_true, false_or]
      by_cases hJob : t₀.jobId = t.jobId
      · have hId : t₀.id ≠ t.id := fun hId => hKey ⟨hJob, hId⟩
        simp [hJob, hId, Dict.get?_insert]
      · simp [hJob]
  | deleteTasks d =>
    simp only [KeepsTask, get?_apply_deleteTasks, reduceCtorEq, false_or]
    split
    · next hUndone => simp [hUndone]
    · next hUndone => simp [hUndone]

namespace Exact

theorem empty : Exact empty where
  job h := by cases h
  task h := by cases h

/-- An exact change keeps a catalog exact: every row it holds reads back as what was put. -/
theorem apply (hc : c.Exact) {y : Change} (hy : y.Exact) : (y.apply c).Exact where
  job {id r} h := by
    cases y with
    | putJob j =>
      rw [Change.apply, putJob, Dict.get?_insert] at h
      split at h
      -- a new row is that of the job that was saved, which is read back as it is
      · next hId =>
        cases h
        exact ⟨j.withoutTasks, hId, rfl, hy⟩
      · exact hc.job h
    | deleteJob id' =>
      rw [Change.apply, deleteJob, Dict.get?_erase] at h
      split at h
      · cases h
      · exact hc.job h
    | putTask t => exact hc.job h
    | deleteTasks d =>
      rw [jobs_apply_deleteTasks] at h
      exact hc.job h
  task {jobId id r} h := by
    cases y with
    | putJob j => exact hc.task h
    | deleteJob id' =>
      rw [Change.apply, bucket_deleteJob] at h
      split at h
      · cases h
      · exact hc.task h
    | putTask t =>
      rw [Change.apply, bucket_putTask] at h
      split at h
      -- so is a new row of a task
      · next hJob =>
        rw [Dict.get?_insert] at h
        split at h
        · next hId =>
          cases h
          exact ⟨t, hJob, hId, rfl, hy⟩
        · exact hc.task h
      · exact hc.task h
    | deleteTasks d =>
      rw [get?_apply_deleteTasks] at h
      split at h
      · cases h
      · exact hc.task h

/-- A history of exact changes ends in an exact catalog, by induction on the history. -/
theorem after {changes : List Change} (h : ∀ x ∈ changes, x.Exact) : (after changes).Exact := by
  induction changes using List.reverseRecOn with
  | nil => exact empty
  | append_singleton changes y ih =>
    rw [after_concat]
    exact (ih fun x hx => h x (List.mem_append_left _ hx)).apply (h y (by simp))

end Exact

/-- After a sequence of changes, a job is there exactly if it was saved, then without its tasks, and
that stands. -/
theorem keepsJob_after {changes : List Change} (h : ∀ x ∈ changes, x.Exact) (j : Job) :
    (after changes).KeepsJob j ↔
      ∃ j₀, Standing (undoesJob j.id) (.putJob j₀) changes ∧ j₀.withoutTasks = j := by
  induction changes using List.reverseRecOn with
  | nil =>
    constructor
    · rintro ⟨hRow, -⟩
      cases hRow
    · rintro ⟨j₀, ⟨before, later, hEq, -⟩, -⟩
      cases before <;> cases hEq
  | append_singleton changes y ih =>
    rw [after_concat, keepsJob_apply (h y (by simp)), ih fun x hx => h x (List.mem_append_left _ hx)]
    simp only [standing_concat, or_and_right, exists_or, and_right_comm, ← exists_and_right]

/-- After a sequence of changes, a task is there exactly if it was saved and that stands. -/
theorem keepsTask_after {changes : List Change} (h : ∀ x ∈ changes, x.Exact) (t : Task) :
    (after changes).KeepsTask t ↔ Standing (undoesTask t.jobId t.id) (.putTask t) changes := by
  induction changes using List.reverseRecOn with
  | nil =>
    constructor
    · rintro ⟨hRow, -⟩
      cases hRow
    · rintro ⟨before, later, hEq, -⟩
      cases before <;> cases hEq
  | append_singleton changes y ih =>
    rw [after_concat, keepsTask_apply (h y (by simp)), ih fun x hx => h x (List.mem_append_left _ hx),
      standing_concat]

/-! ## Readings -/

/-- Entries in key order whose values can all be read give a list that is in order too. -/
theorem exists_mapM_values {α β : Type} {f : α → Except Fault β} {P : String → β → Prop}
    {R : β → β → Prop} (hR : ∀ {k k' b b'}, k < k' → P k b → P k' b' → R b b')
    {es : List (String × α)} (hSorted : Ascending es)
    (hRead : ∀ e ∈ es, ∃ b, f e.2 = .ok b ∧ P e.1 b) :
    ∃ bs, (es.map (·.2)).mapM f = .ok bs ∧ bs.Pairwise R ∧
      ∀ b, b ∈ bs ↔ ∃ e ∈ es, f e.2 = .ok b := by
  induction es with
  | nil => exact ⟨[], rfl, List.Pairwise.nil, by simp⟩
  | cons e es ih =>
    obtain ⟨hHead, hRest⟩ := List.pairwise_cons.mp hSorted
    obtain ⟨b, hb, hP⟩ := hRead e List.mem_cons_self
    have hReadRest : ∀ e' ∈ es, ∃ b, f e'.2 = .ok b ∧ P e'.1 b :=
      fun e' he' => hRead e' (List.mem_cons_of_mem _ he')
    obtain ⟨bs, hbs, hPairwise, hMem⟩ := ih hRest hReadRest
    refine ⟨b :: bs, ?_, List.pairwise_cons.mpr ⟨fun b' hb' => ?_, hPairwise⟩, fun b' => ?_⟩
    · rw [List.map_cons, List.mapM_cons, hb, hbs]
      rfl
    -- what is read later comes from a greater key
    · obtain ⟨e', he', hf⟩ := (hMem b').mp hb'
      obtain ⟨b'', hb'', hP'⟩ := hReadRest e' he'
      obtain rfl := Except.ok.inj (hf.symm.trans hb'')
      exact hR (hHead e' he') hP hP'
    · rw [List.mem_cons, hMem, List.exists_mem_cons_iff, hb, Except.ok.injEq, eq_comm]

/-- Entries of the buckets of a scope, in key order. -/
theorem exists_entries (c : Catalog) (scope : String) :
    ∃ es, Ascending es ∧ c.bucketsIn scope = es.map (·.2) ∧ (∀ e ∈ es, e.2 = c.bucket e.1) ∧
      ∀ {jobId id r}, (c.bucket jobId).get? id = some r →
        ((jobId, c.bucket jobId) ∈ es ↔ scope = "" ∨ jobId = scope) := by
  by_cases hScope : scope = ""
  -- with no scope these are the entries of all buckets, of which a bucket with rows is one
  · refine ⟨c.buckets.entries, c.buckets.sorted, ?_, fun e he => ?_, fun {jobId id r} hGet => ?_⟩
    · rw [bucketsIn, if_pos hScope, Dict.values]
    · exact (bucket_of_get? (Dict.lookup_of_mem c.buckets.sorted he)).symm
    · simp only [hScope, true_or, iff_true]
      exact Dict.mem_of_lookup (get?_buckets hGet)
  -- and with a scope the one bucket with that name
  · refine ⟨[(scope, c.bucket scope)], List.pairwise_singleton _ _, ?_, ?_, fun {jobId id r} _ => ?_⟩
    · rw [bucketsIn, if_neg hScope]
      rfl
    · simp
    · simp only [hScope, false_or, List.mem_singleton, Prod.mk.injEq]
      constructor
      · rintro ⟨rfl, -⟩
        rfl
      · rintro rfl
        exact ⟨rfl, rfl⟩

/-- The tasks that are attached to the job with an identifier; `unknown` attaches none. -/
def attached (c : Catalog) (load : TaskStatus) (id : String) : Except Fault (List Task) :=
  if load = .unknown then .ok [] else c.listTasks id load

/-- Attaching tasks to a job that has none is reading the list for its id. -/
theorem attach_eq {load : TaskStatus} {j : Job} (hTasks : j.tasks = []) :
    c.attach load j = (c.attached load j.id).map fun ts => { j with tasks := ts } := by
  rw [attach, attached]
  split
  · rw [← hTasks]
    rfl
  · rfl

/-- When a listing shows a job, spelled with the tests the code makes. -/
theorem shows_iff {l : JobListing} {j : Job} {ts : List Task} :
    l.Shows j ts ↔ (l.owner = "" || j.owner = l.owner) = true ∧
      (l.admits j && !(l.skipsEmpty && ts.isEmpty)) = true := by
  rw [JobListing.Shows, JobListing.admits, JobListing.skipsEmpty, Option.ne_none_iff_isSome,
    ← List.isEmpty_eq_false_iff, ← List.isEmpty_iff]
  cases l.eventsOnly <;> cases l.timersOnly <;> simp [imp_iff_not_or, or_assoc, and_assoc]

/-- What a listing makes of a row it can read: filtered on the job, then on its tasks. -/
theorem listed_of_read {l : JobListing} {r : JobRow} {j : Job} (hRead : r.read = .ok j) :
    c.listed l r = if l.admits j then (c.attach l.load j).map fun j' =>
      if l.skipsEmpty && j'.tasks.isEmpty then none else some j' else .ok none := by
  rw [listed, hRead]
  show (if (!l.admits j) = true then pure none else c.attach l.load j >>= _) = _
  cases l.admits j with
  | false => rfl
  | true =>
    cases c.attach l.load j with
    | error e => rfl
    | ok j' =>
      show (if (l.skipsEmpty && j'.tasks.isEmpty) = true then pure none else pure (some j')) =
        Except.ok (if (l.skipsEmpty && j'.tasks.isEmpty) = true then none else some j')
      split <;> rfl

/-- What a listing makes of the row of a stored job whose tasks are known. -/
theorem listed_eq {l : JobListing} {j : Job} {ts : List Task} (hRead : j.row.read = .ok j)
    (hts : c.attached l.load j.id = .ok ts) :
    c.listed l j.row = .ok (if l.admits j && !(l.skipsEmpty && ts.isEmpty) then
      some { j with tasks := ts } else none) := by
  rw [listed_of_read hRead, attach_eq (Job.of_read_row hRead).2, hts]
  cases l.admits j with
  | false => rfl
  | true =>
    show Except.ok (if (l.skipsEmpty && ts.isEmpty) = true then none
      else some { j with tasks := ts }) = _
    cases l.skipsEmpty && ts.isEmpty <;> rfl

/-- A job is read with its tasks in the state. -/
theorem getJob_eq {j : Job} (hKept : c.KeepsJob j) (load : TaskStatus) :
    c.getJob j.id load = (c.attached load j.id).map fun ts => { j with tasks := ts } := by
  rw [getJob, findJob, hKept.1]
  show j.row.read.bind _ = _
  rw [hKept.2]
  exact attach_eq ((Job.of_read_row hKept.2).2)

/-- A job that was never put, or was removed, is reported as not found. -/
theorem getJob_of_get?_eq_none {id : String} (h : c.jobs.get? id = none) (load : TaskStatus) :
    c.getJob id load = .error (.notFound ("job " ++ id)) := by
  rw [getJob, findJob, h]
  rfl

section Exact

variable (hc : c.Exact)
include hc

/-- A bucket is read as the tasks in it that are in the state, in order. -/
theorem exists_readBucket (jobId : String) (status : TaskStatus) :
    ∃ ts, readBucket status (c.bucket jobId) = .ok ts ∧ ts.Pairwise Task.Precedes ∧
      ∀ t, t ∈ ts ↔ c.KeepsTask t ∧ t.jobId = jobId ∧ t.status.meets status = true := by
  -- a row is read as the task whose key it is stored under
  have hRead : ∀ e ∈ (c.bucket jobId).entries.filter (fun e => e.2.status.meets status),
      ∃ t : Task, e.2.read = .ok t ∧ (t.jobId = jobId ∧ t.id = e.1) := by
    intro e he
    obtain ⟨t, hJob, hId, -, hRead⟩ :=
      hc.task (Dict.lookup_of_mem (c.bucket jobId).sorted (List.mem_of_mem_filter he))
    exact ⟨t, hRead, hJob, hId⟩
  obtain ⟨ts, hts, hSorted, hMem⟩ :=
    exists_mapM_values (P := fun k t => t.jobId = jobId ∧ t.id = k) (R := Task.Precedes)
      (fun hLess ⟨hJob, hId⟩ ⟨hJob', hId'⟩ => Or.inr ⟨hJob.trans hJob'.symm, hId ▸ hId' ▸ hLess⟩)
      ((c.bucket jobId).sorted.filter _) hRead
  refine ⟨ts, ?_, hSorted, fun t => ?_⟩
  · rw [readBucket, Dict.values, List.filter_map]
    exact hts
  -- what is read is what is there, one row for each key
  · rw [hMem]
    constructor
    · rintro ⟨⟨id, r⟩, he, ht⟩
      obtain ⟨he, hMeets⟩ := List.mem_filter.mp he
      have hGet := Dict.lookup_of_mem (c.bucket jobId).sorted he
      obtain ⟨t', rfl, rfl, rfl, hRead⟩ := hc.task hGet
      obtain rfl := Except.ok.inj (ht.symm.trans hRead)
      exact ⟨⟨hGet, hRead⟩, rfl, hMeets⟩
    · rintro ⟨⟨hGet, ht⟩, rfl, hMeets⟩
      exact ⟨(t.id, t.row), List.mem_filter.mpr ⟨Dict.mem_of_lookup hGet, hMeets⟩, ht⟩

/-- Reading the buckets of an exact catalog never fails, and gives the wanted tasks in listed
order. -/
theorem exists_readBuckets (scope : String) (status : TaskStatus) :
    ∃ bs, c.readBuckets scope status = .ok bs ∧ bs.flatten.Pairwise Task.Precedes ∧
      ∀ t, t ∈ bs.flatten ↔
        c.KeepsTask t ∧ (scope = "" ∨ t.jobId = scope) ∧ t.status.meets status = true := by
  obtain ⟨es, hSorted, hBuckets, hBucket, hScope⟩ := c.exists_entries scope
  -- what is read of one bucket
  let P (jobId : String) (ts : List Task) : Prop := ts.Pairwise Task.Precedes ∧
    ∀ t, t ∈ ts ↔ c.KeepsTask t ∧ t.jobId = jobId ∧ t.status.meets status = true
  have hRead : ∀ e ∈ es, ∃ ts, readBucket status e.2 = .ok ts ∧ P e.1 ts := by
    intro e he
    rw [hBucket e he]
    exact exists_readBucket hc e.1 status
  obtain ⟨bs, hbs, hPairwise, hMem⟩ :=
    exists_mapM_values (P := P) (R := fun ts ts' => ∀ t ∈ ts, ∀ t' ∈ ts', t.Precedes t')
      (fun hLess hP hP' t ht t' ht' => Or.inl (by
        rw [((hP.2 t).mp ht).2.1, ((hP'.2 t').mp ht').2.1]
        exact hLess))
      hSorted hRead
  have hOf : ∀ ts ∈ bs, ∃ e ∈ es, P e.1 ts := by
    intro ts hts
    obtain ⟨e, he, hEq⟩ := (hMem ts).mp hts
    obtain ⟨ts', hEq', hP⟩ := hRead e he
    obtain rfl := Except.ok.inj (hEq.symm.trans hEq')
    exact ⟨e, he, hP⟩
  refine ⟨bs, ?_, List.pairwise_flatten.mpr ⟨fun ts hts => ?_, hPairwise⟩, fun t => ?_⟩
  · rw [readBuckets, hBuckets]
    exact hbs
  · obtain ⟨e, -, hP⟩ := hOf ts hts
    exact hP.1
  · rw [List.mem_flatten]
    constructor
    · rintro ⟨ts, hts, ht⟩
      obtain ⟨⟨jobId, b⟩, he, hP⟩ := hOf ts hts
      obtain ⟨hKept, rfl, hMeets⟩ := (hP.2 t).mp ht
      obtain rfl : b = c.bucket t.jobId := hBucket _ he
      exact ⟨hKept, (hScope hKept.1).mp he, hMeets⟩
    · rintro ⟨hKept, hIn, hMeets⟩
      have he := (hScope hKept.1).mpr hIn
      obtain ⟨ts, hts, hP⟩ := hRead _ he
      exact ⟨ts, (hMem ts).mpr ⟨_, he, hts⟩, (hP.2 t).mpr ⟨hKept, rfl, hMeets⟩⟩

/-- **Listings of tasks.** The tasks of a scope in a state, in order. -/
theorem exists_listTasks (scope : String) (status : TaskStatus) :
    ∃ ts, c.listTasks scope status = .ok ts ∧ ts.Pairwise Task.Precedes ∧
      ∀ t, t ∈ ts ↔ c.KeepsTask t ∧ (scope = "" ∨ t.jobId = scope) ∧ t.status.meets status = true := by
  obtain ⟨bs, hbs, hRest⟩ := exists_readBuckets hc scope status
  refine ⟨bs.flatten, ?_, hRest⟩
  rw [listTasks, hbs]
  rfl

/-- The tasks that are attached to a job; `unknown` attaches none. -/
theorem exists_attached (load : TaskStatus) (id : String) : ∃ ts, c.attached load id = .ok ts := by
  rw [attached]
  split
  · exact ⟨[], rfl⟩
  · obtain ⟨ts, hts, -⟩ := exists_listTasks hc id load
    exact ⟨ts, hts⟩

/-- **Listings of jobs.** The jobs that are asked for, in order, each with its tasks in the
state. -/
theorem exists_listJobs (l : JobListing) :
    ∃ js, c.listJobs l = .ok js ∧ js.Pairwise (fun j j' => j.id < j'.id) ∧
      ∀ j, j ∈ js ↔ ∃ j₀ ts, c.KeepsJob j₀ ∧ c.attached l.load j₀.id = .ok ts ∧ l.Shows j₀ ts ∧
        j = { j₀ with tasks := ts } := by
  -- a row is listed as nothing, or as the job whose key it is stored under
  let P (id : String) (o : Option Job) : Prop := ∀ j ∈ o, j.id = id
  have hRead : ∀ e ∈ c.jobs.entries.filter (fun e => l.owner = "" || e.2.owner = l.owner),
      ∃ o, c.listed l e.2 = .ok o ∧ P e.1 o := by
    intro e he
    obtain ⟨j, hId, hRow, hEntry⟩ :=
      hc.job (Dict.lookup_of_mem c.jobs.sorted (List.mem_of_mem_filter he))
    obtain ⟨ts, hts⟩ := exists_attached hc l.load j.id
    rw [← hRow] at hEntry ⊢
    refine ⟨_, listed_eq hEntry hts, fun j' hj' => ?_⟩
    rw [Option.mem_def, Option.ite_none_right_eq_some, Option.some.injEq] at hj'
    rw [← hj'.2]
    exact hId
  -- the jobs are in order since the keys are
  obtain ⟨os, hos, hSorted, hMem⟩ :=
    exists_mapM_values (P := P) (R := fun o o' => ∀ j ∈ o, ∀ j' ∈ o', j.id < j'.id)
      (fun hLess hP hP' j hj j' hj' => by
        rw [hP j hj, hP' j' hj']
        exact hLess)
      (c.jobs.sorted.filter _) hRead
  refine ⟨os.filterMap id, ?_, ?_, fun j => ?_⟩
  · rw [listJobs, jobRows, Dict.values, List.filter_map]
    exact congrArg (Except.map _) hos
  · rw [List.pairwise_filterMap]
    exact hSorted
  · simp only [List.mem_filterMap, id_eq, exists_eq_right, hMem]
    constructor
    · rintro ⟨⟨id, r⟩, he, hListed⟩
      obtain ⟨he, hOwner⟩ := List.mem_filter.mp he
      have hGet := Dict.lookup_of_mem c.jobs.sorted he
      obtain ⟨j₀, rfl, rfl, hEntry⟩ := hc.job hGet
      obtain ⟨ts, hts⟩ := exists_attached hc l.load j₀.id
      rw [listed_eq hEntry hts, Except.ok.injEq, Option.ite_none_right_eq_some,
        Option.some.injEq] at hListed
      exact ⟨j₀, ts, ⟨hGet, hEntry⟩, hts, shows_iff.mpr ⟨hOwner, hListed.1⟩, hListed.2.symm⟩
    · rintro ⟨j₀, ts, ⟨hGet, hEntry⟩, hts, hShows, rfl⟩
      obtain ⟨hOwner, hRest⟩ := shows_iff.mp hShows
      refine ⟨(j₀.id, j₀.row), List.mem_filter.mpr ⟨Dict.mem_of_lookup hGet, hOwner⟩, ?_⟩
      rw [listed_eq hEntry hts, if_pos hRest]

/-- A deletion of the tasks of one job returns tasks of this job only. -/
theorem jobId_of_chosen {d : Deletion} (hScope : d.scope ≠ "") {ts : List Task}
    (h : c.chooseTasks d = .ok ts) {t : Task} (ht : t ∈ ts) : t.jobId = d.scope := by
  obtain ⟨bs, hbs, -, hMem⟩ := exists_readBuckets hc d.scope .any
  rw [chooseTasks, hbs] at h
  split at h
  · cases h
  · cases h
    obtain ⟨b, hb, htb⟩ := List.mem_flatMap.mp ht
    have htFlat := List.mem_flatten.mpr ⟨b, hb, Deletion.mem_of_mem_doomed htb⟩
    exact ((hMem t).mp htFlat).2.1.resolve_left hScope

end Exact

/-! ## Changes that concern another job -/

/-- The job that a change concerns; a deletion of the tasks of all jobs concerns no single one. -/
def Change.jobId? : Change → Option String
  | .putJob j => some j.id
  | .deleteJob id => some id
  | .putTask t => some t.jobId
  | .deleteTasks d => if d.scope = "" then none else some d.scope

/-- What is kept of a job is the same in both catalogs. -/
def SameFor (id : String) (c c' : Catalog) : Prop :=
  c'.jobs.get? id = c.jobs.get? id ∧ c'.bucket id = c.bucket id

/-- A change addressed to one job leaves every other one's row and bucket alone. -/
theorem sameFor_apply (hc : c.Exact) {y : Change} {a b : String} (hOf : y.jobId? = some a)
    (hOther : b ≠ a) : SameFor b c (y.apply c) := by
  cases y with
  | putJob j =>
    obtain rfl := Option.some.inj hOf
    refine ⟨?_, rfl⟩
    rw [Change.apply, putJob, Dict.get?_insert, if_neg hOther.symm]
  | deleteJob id =>
    obtain rfl := Option.some.inj hOf
    refine ⟨?_, ?_⟩
    · rw [Change.apply, deleteJob, Dict.get?_erase, if_neg hOther.symm]
    · rw [Change.apply, bucket_deleteJob, if_neg hOther.symm]
  | putTask t =>
    obtain rfl := Option.some.inj hOf
    refine ⟨rfl, ?_⟩
    rw [Change.apply, bucket_putTask, if_neg hOther.symm]
  | deleteTasks d =>
    rw [Change.jobId?, Option.ite_none_left_eq_some, Option.some.injEq] at hOf
    obtain ⟨hScope, rfl⟩ := hOf
    refine ⟨by rw [jobs_apply_deleteTasks], Dict.ext_get? fun id => ?_⟩
    -- a deletion chooses tasks of its scope only
    rw [get?_apply_deleteTasks, if_neg]
    rintro ⟨c', ts, hDelete, t, ht, hJob, -⟩
    have hChosen := (deleteTasks_eq_ok hDelete).1
    exact hOther (hJob.symm.trans (jobId_of_chosen hc hScope hChosen ht))

/-- What is read of a job is the same in both catalogs: the job alone, and if its identifier is not
empty also the job with its tasks, its tasks, and what a deletion of tasks of the job returns; of
listings, the members that are this job or its tasks. -/
structure ReadsSame (id : String) (c c' : Catalog) : Prop where
  /-- The job. -/
  job (load : TaskStatus) (h : id ≠ "" ∨ load = .unknown) : c'.getJob id load = c.getJob id load
  /-- Its tasks. -/
  tasks (h : id ≠ "") (status : TaskStatus) : c'.listTasks id status = c.listTasks id status
  /-- Deletions of its tasks. -/
  deleted (d : Deletion) (h : d.scope = id) (hId : id ≠ "") :
    (c'.deleteTasks d).map (·.2) = (c.deleteTasks d).map (·.2)
  /-- Its tasks among others. -/
  listedTasks {scope : String} {status : TaskStatus} {ts ts' : List Task}
    (hts : c.listTasks scope status = .ok ts) (hts' : c'.listTasks scope status = .ok ts') :
    ts'.filter (·.jobId = id) = ts.filter (·.jobId = id)
  /-- The job among others. -/
  listedJobs {l : JobListing} {js js' : List Job} (h : id ≠ "" ∨ l.load = .unknown)
    (hjs : c.listJobs l = .ok js) (hjs' : c'.listJobs l = .ok js') :
    js'.filter (·.id = id) = js.filter (·.id = id)

/-- A deletion returns the tasks that it chose. -/
theorem map_snd_deleteTasks (c : Catalog) (d : Deletion) :
    (c.deleteTasks d).map (·.2) = c.chooseTasks d := by
  rw [deleteTasks]
  cases c.chooseTasks d <;> rfl

namespace SameFor

variable {c' : Catalog} {id : String} (h : SameFor id c c')
include h

/-- Two catalogs that agree on a job list the same tasks under its id. -/
theorem readBuckets_eq (hId : id ≠ "") (status : TaskStatus) :
    c'.readBuckets id status = c.readBuckets id status := by
  rw [readBuckets, readBuckets, bucketsIn, bucketsIn, if_neg hId, if_neg hId, h.2]

/-- Two catalogs that agree on a job attach the same tasks to it, unless its id is the wildcard. -/
theorem attached_eq {load : TaskStatus} (hId : id ≠ "" ∨ load = .unknown) :
    c'.attached load id = c.attached load id := by
  rw [attached, attached]
  split
  · rfl
  · next hLoad =>
    rw [listTasks, listTasks, h.readBuckets_eq (hId.resolve_right hLoad)]

theorem keepsJob_iff {j : Job} (hId : j.id = id) : c'.KeepsJob j ↔ c.KeepsJob j := by
  rw [KeepsJob, KeepsJob, hId, h.1]

theorem keepsTask_iff {t : Task} (hJob : t.jobId = id) : c'.KeepsTask t ↔ c.KeepsTask t := by
  rw [KeepsTask, KeepsTask, hJob, h.2]

/-- Two catalogs that agree on a job get the same for it. -/
theorem getJob_eq (hc : c.Exact) {load : TaskStatus} (hId : id ≠ "" ∨ load = .unknown) :
    c'.getJob id load = c.getJob id load := by
  cases hGet : c.jobs.get? id with
  | none =>
    rw [getJob_of_get?_eq_none hGet, getJob_of_get?_eq_none (h.1.trans hGet)]
  | some r =>
    obtain ⟨j, rfl, rfl, hRead⟩ := hc.job hGet
    have hKept : c.KeepsJob j := ⟨hGet, hRead⟩
    rw [Catalog.getJob_eq hKept, Catalog.getJob_eq ((h.keepsJob_iff rfl).mpr hKept),
      h.attached_eq hId]

/-- A listing over all jobs shows the same tasks of a job the two catalogs agree on. -/
theorem listedTasks_eq (hc : c.Exact) (hc' : c'.Exact) {scope : String} {status : TaskStatus}
    {ts ts' : List Task} (hts : c.listTasks scope status = .ok ts)
    (hts' : c'.listTasks scope status = .ok ts') :
    ts'.filter (·.jobId = id) = ts.filter (·.jobId = id) := by
  obtain ⟨_, hEq, hSorted, hMem⟩ := exists_listTasks hc scope status
  obtain rfl := Except.ok.inj (hts.symm.trans hEq)
  obtain ⟨_, hEq', hSorted', hMem'⟩ := exists_listTasks hc' scope status
  obtain rfl := Except.ok.inj (hts'.symm.trans hEq')
  refine eq_of_pairwise_of_mem Task.Precedes.irrefl Task.Precedes.trans (hSorted'.filter _)
    (hSorted.filter _) fun t => ?_
  rw [List.mem_filter, List.mem_filter, hMem, hMem', decide_eq_true_eq]
  exact and_congr_left fun hJob => by rw [h.keepsTask_iff hJob]

/-- A listing of jobs shows the same entry of a job the two catalogs agree on. -/
theorem listedJobs_eq (hc : c.Exact) (hc' : c'.Exact) {l : JobListing} {js js' : List Job}
    (hId : id ≠ "" ∨ l.load = .unknown) (hjs : c.listJobs l = .ok js)
    (hjs' : c'.listJobs l = .ok js') :
    js'.filter (·.id = id) = js.filter (·.id = id) := by
  obtain ⟨_, hEq, hSorted, hMem⟩ := exists_listJobs hc l
  obtain rfl := Except.ok.inj (hjs.symm.trans hEq)
  obtain ⟨_, hEq', hSorted', hMem'⟩ := exists_listJobs hc' l
  obtain rfl := Except.ok.inj (hjs'.symm.trans hEq')
  refine eq_of_pairwise_of_mem (R := fun j j' : Job => j.id < j'.id) (fun _ => String.lt_irrefl _)
    (fun hLess hLess' => String.lt_trans hLess hLess') (hSorted'.filter _) (hSorted.filter _)
    fun j => ?_
  rw [List.mem_filter, List.mem_filter, hMem, hMem', decide_eq_true_eq]
  refine and_congr_left fun hOf => exists_congr fun j₀ => exists_congr fun ts => ?_
  by_cases hOf₀ : j₀.id = id
  · rw [h.keepsJob_iff hOf₀, hOf₀, h.attached_eq hId]
  · -- the member would have the identifier of the job it shows
    have hNot : j ≠ { j₀ with tasks := ts } := by
      rintro rfl
      exact hOf₀ hOf
    simp only [hNot, and_false]

/-- Agreement on a job's row and bucket is enough for every call that reads it. -/
theorem readsSame (hc : c.Exact) (hc' : c'.Exact) : ReadsSame id c c' where
  job load hId := h.getJob_eq hc hId
  tasks hId status := by rw [listTasks, listTasks, h.readBuckets_eq hId]
  deleted d hScope hId := by
    rw [map_snd_deleteTasks, map_snd_deleteTasks, chooseTasks, chooseTasks, hScope,
      h.readBuckets_eq hId]
  listedTasks hts hts' := h.listedTasks_eq hc hc' hts hts'
  listedJobs hId hjs hjs' := h.listedJobs_eq hc hc' hId hjs hjs'

end SameFor

/-! ## The changes recounted -/

/-- What is read from a catalog is told by the changes that stand. -/
structure Recounts (changes : List Change) (c : Catalog) : Prop where
  /-- A job that was saved is found, without its tasks. -/
  found {j : Job} (h : Standing (undoesJob j.id) (.putJob j) changes) :
    c.getJob j.id .unknown = .ok j.withoutTasks
  /-- No other job is found. -/
  missing {id : String} (h : ¬∃ j : Job, j.id = id ∧ Standing (undoesJob id) (.putJob j) changes)
    (load : TaskStatus) : c.getJob id load = .error (.notFound ("job " ++ id))
  /-- The tasks of a scope in a state are listed in order. -/
  tasks (scope : String) (status : TaskStatus) :
    ∃ ts, c.listTasks scope status = .ok ts ∧ ts.Pairwise Task.Precedes ∧
      ∀ t, t ∈ ts ↔ Standing (undoesTask t.jobId t.id) (.putTask t) changes ∧
        (scope = "" ∨ t.jobId = scope) ∧ t.status.meets status = true
  /-- The jobs that a listing shows are listed in order, with their tasks in the state. -/
  jobs (l : JobListing) :
    ∃ js, c.listJobs l = .ok js ∧ js.Pairwise (fun j j' => j.id < j'.id) ∧
      ∀ j, j ∈ js ↔ ∃ j₀ ts, Standing (undoesJob j₀.id) (.putJob j₀) changes ∧
        c.attached l.load j₀.id = .ok ts ∧ l.Shows j₀ ts ∧ j = { j₀ with tasks := ts }

/-- **Readings recount the changes.** After any sequence of changes that saved only what is read
back as it is, `get_job` and `list_tasks` find a job or a task exactly if it was saved and no later
change undid that, and listings have exactly those that are there and asked for, in order. One more
change that concerns a job leaves what is read of every other one. -/
theorem recounts_after (changes : List Change) (h : ∀ x ∈ changes, x.Exact) :
    Recounts changes (after changes) ∧
      ∀ y : Change, y.Exact → ∀ a, y.jobId? = some a → ∀ b, b ≠ a →
        ReadsSame b (after changes) (after (changes ++ [y])) := by
  have hc : (after changes).Exact := Exact.after h
  refine ⟨⟨fun {j} hStands => ?_, fun {id} hNone load => ?_, fun scope status => ?_, fun l => ?_⟩,
    fun y hy a hOf b hOther => ?_⟩
  -- a job that stands is found
  · have hKept := (keepsJob_after h j.withoutTasks).mpr ⟨j, hStands, rfl⟩
    exact getJob_eq hKept .unknown
  -- one that doesn't stand has no row, or the row would be that of a job that does
  · cases hGet : (after changes).jobs.get? id with
    | none => exact getJob_of_get?_eq_none hGet load
    | some r =>
      obtain ⟨j, rfl, rfl, hRead⟩ := hc.job hGet
      obtain ⟨j₀, hStands, rfl⟩ := (keepsJob_after h j).mp ⟨hGet, hRead⟩
      exact absurd ⟨j₀, rfl, hStands⟩ hNone
  · simp only [← keepsTask_after h]
    exact exists_listTasks hc scope status
  -- what is listed is what is there, and that is what stands
  · obtain ⟨js, hjs, hSorted, hMem⟩ := exists_listJobs hc l
    refine ⟨js, hjs, hSorted, fun j => ?_⟩
    simp only [hMem, keepsJob_after h]
    constructor
    · rintro ⟨-, ts, ⟨j₀, hStands, rfl⟩, hRest⟩
      exact ⟨j₀, ts, hStands, hRest⟩
    · rintro ⟨j₀, ts, hStands, hRest⟩
      exact ⟨j₀.withoutTasks, ts, ⟨j₀, hStands, rfl⟩, hRest⟩
  -- a change that concerns another job leaves the row and the bucket that readings look at
  · have hc' : (after (changes ++ [y])).Exact := by
      rw [after_concat]
      exact hc.apply hy
    have hSame := sameFor_apply hc hOf hOther
    rw [← after_concat] at hSame
    exact hSame.readsSame hc hc'

/-! ## Two jobs, one of which deletes its tasks -/

/-- A job with one worker per task. -/
def busyJob : Job := { id := "a", actions := [{ id := "noop" }] }

/-- A finished task of a job. -/
def doneTask (jobId id : String) : Task := { id, jobId, status := .finished }

/-- A job and tasks of this job and of one that was not saved; then the job's are deleted. -/
def prunedChanges : List Change :=
  [.putJob busyJob, .putTask (doneTask "a" "t"), .putTask (doneTask "b" "t"),
    .deleteTasks { scope := "a", statuses := [.finished] }]

/-- A storable job with no schedule reads back as it was put. -/
theorem exact_putJob {j : Job} (h : j.Storable) (hSchedule : j.schedule = none) :
    (Change.putJob j).Exact := by
  show j.row.read = .ok j.withoutTasks
  have hNone : j.withoutTasks.schedule = none := hSchedule
  rw [Job.read_row, if_pos h, Job.reread, hNone, Option.bind_none, ← hNone]

/-- A storable task without progress or logs reads back as it was put. -/
theorem exact_putTask {t : Task} (h : t.Storable) (hProgress : t.progress = .zero .single)
    (hLogs : t.logs = []) : (Change.putTask t).Exact := by
  have hZero : Decoder.single 0 (Json.ofSingle (.zero .single)).reread = some (.zero .single) := by
    decide +kernel
  show t.row.read = .ok t
  rw [Task.read_row, if_pos h, Task.reread, hProgress, hLogs, hZero]
  show Except.ok { t with progress := .zero .single, logs := [] } = _
  rw [← hProgress, ← hLogs]

/-- The job is found and the other is not, whose task is listed; and so it is after the job itself
is deleted. -/
theorem recounts_after_prunedChanges :
    (∀ x ∈ prunedChanges, x.Exact) ∧
      (after prunedChanges).getJob busyJob.id .unknown = .ok busyJob.withoutTasks ∧
      (after prunedChanges).getJob "b" .any = .error (.notFound ("job " ++ "b")) ∧
      (∃ ts, (after prunedChanges).listTasks "" .any = .ok ts ∧ doneTask "b" "t" ∈ ts) ∧
      (Change.deleteJob "a").Exact ∧ (Change.deleteJob "a").jobId? = some "a" ∧
      (after (prunedChanges ++ [.deleteJob "a"])).listTasks "b" .any =
        (after prunedChanges).listTasks "b" .any := by
  have hExact : ∀ x ∈ prunedChanges, x.Exact := by
    simp only [prunedChanges, List.forall_mem_cons]
    exact ⟨exact_putJob (by decide +kernel) rfl, exact_putTask (by decide +kernel) rfl rfl,
      exact_putTask (by decide +kernel) rfl rfl, trivial, fun _ hx => nomatch hx⟩
  obtain ⟨hRecounts, hOthers⟩ := recounts_after prunedChanges hExact
  -- the job was saved first, and what came after it undoes nothing of it
  have hJob : Standing (undoesJob "a") (.putJob busyJob) prunedChanges :=
    standing_concat.mpr <| .inr ⟨standing_concat.mpr <| .inr ⟨standing_concat.mpr <| .inr
      ⟨standing_last [], id⟩, id⟩, id⟩
  -- no job with the other identifier was ever saved
  have hNoJob : ¬∃ j : Job, j.id = "b" ∧ Standing (undoesJob "b") (.putJob j) prunedChanges := by
    rintro ⟨j, hId, before, later, hSplit, -⟩
    have hj : Change.putJob j ∈ prunedChanges := by simp [hSplit]
    obtain rfl : j = busyJob := by simpa [prunedChanges] using hj
    exact absurd hId (by decide)
  have hTask : Standing (undoesTask "b" "t") (.putTask (doneTask "b" "t")) prunedChanges := by
    have hSaved : Standing (undoesTask "b" "t") (.putTask (doneTask "b" "t"))
        (prunedChanges.take 3) := standing_last (prunedChanges.take 2)
    -- the last change deletes within another scope
    refine standing_concat.mpr (.inr ⟨hSaved, ?_⟩)
    rintro ⟨c', ts, hDelete, t, ht, hJob, -⟩
    have hBefore : (after (prunedChanges.take 3)).Exact :=
      Exact.after fun x hx => hExact x (List.mem_of_mem_take hx)
    have hOwn := jobId_of_chosen hBefore (by decide) (deleteTasks_eq_ok hDelete).1 ht
    exact absurd (hJob.symm.trans hOwn) (by decide)
  obtain ⟨ts, hts, -, hMem⟩ := hRecounts.tasks "" .any
  refine ⟨hExact, hRecounts.found hJob, hRecounts.missing hNoJob .any, ⟨ts, hts, ?_⟩, trivial, rfl, ?_⟩
  · exact (hMem _).mpr ⟨hTask, Or.inl rfl, rfl⟩
  · exact (hOthers (.deleteJob "a") trivial "a" rfl "b" (by decide)).tasks (by decide) .any

/-! ## The job without an identifier -/

/-- A bucket into which one task was put. -/
theorem readBucket_insert {b : Dict TaskRow} (hEmpty : b.entries = []) {t : Task}
    (hRead : t.row.read = .ok t) :
    readBucket .any (b.insert t.id t.row) = .ok [t] := by
  obtain ⟨entries, sorted⟩ := b
  obtain rfl : entries = [] := hEmpty
  show [t.row].mapM TaskRow.read = _
  rw [List.mapM_cons, hRead]
  rfl

/-- A job that reads back is found right after it was put. -/
theorem findJob_putJob {c : Catalog} {j : Job} (hRead : j.row.read = .ok j.withoutTasks) :
    (c.putJob j).findJob j.id = .ok j.withoutTasks := by
  rw [findJob, putJob, Dict.get?_insert, if_pos rfl]
  exact hRead

/-- Putting a task does not change which jobs are found. -/
theorem findJob_putTask {c : Catalog} (t : Task) (id : String) :
    (c.putTask t).findJob id = c.findJob id := rfl

theorem attach_of_listTasks {c : Catalog} {j : Job} {ts : List Task}
    (h : c.listTasks j.id .any = .ok ts) : c.attach .any j = .ok { j with tasks := ts } := by
  rw [attach, if_neg (by decide), h]
  rfl

theorem getJob_of_listTasks {c : Catalog} {j : Job} {ts : List Task}
    (hFind : c.findJob j.id = .ok j.withoutTasks) (h : c.listTasks j.id .any = .ok ts) :
    c.getJob j.id .any = .ok { j with tasks := ts } := by
  rw [getJob, hFind]
  exact attach_of_listTasks h

/-- A catalog with one job and one task of it lists that task. -/
theorem listTasks_of_putTask {j : Job} {t : Task} (hTask : t.row.read = .ok t) :
    ((empty.putJob j).putTask t).listTasks "" .any = .ok [t] := by
  rw [listTasks, readBuckets, bucketsIn, if_pos rfl]
  show Except.map _ ([(empty.bucket t.jobId).insert t.id t.row].mapM (readBucket .any)) = _
  rw [List.mapM_cons, readBucket_insert rfl hTask]
  rfl

/-- A job with the empty identifier. -/
def nameless : Job := { id := "" }

/-- A task is saved for one job, and from then on `get_job` has it among the tasks of the job with
the empty identifier. -/
theorem attached_of_other :
    (Change.putJob nameless).Exact ∧ (Change.putTask (doneTask "a" "t")).Exact ∧
      (Change.putTask (doneTask "a" "t")).jobId? = some "a" ∧ nameless.id ≠ "a" ∧
      (after ([.putJob nameless] ++ [.putTask (doneTask "a" "t")])).getJob nameless.id .any ≠
        (after [.putJob nameless]).getJob nameless.id .any := by
  have hJob : (Change.putJob nameless).Exact := exact_putJob (by decide +kernel) rfl
  have hTask : (Change.putTask (doneTask "a" "t")).Exact := exact_putTask (by decide +kernel) rfl rfl
  refine ⟨hJob, hTask, rfl, by decide, fun hSame => ?_⟩
  -- the id is the wildcard, so the tasks listed under it are those of every job
  have hBefore : (empty.putJob nameless).getJob nameless.id .any = .ok { nameless with tasks := [] } :=
    getJob_of_listTasks (findJob_putJob hJob) rfl
  have hAfter : ((empty.putJob nameless).putTask (doneTask "a" "t")).getJob nameless.id .any =
      .ok { nameless with tasks := [doneTask "a" "t"] } :=
    getJob_of_listTasks ((findJob_putTask _ _).trans (findJob_putJob hJob))
      (listTasks_of_putTask hTask)
  change ((empty.putJob nameless).putTask (doneTask "a" "t")).getJob nameless.id .any =
    (empty.putJob nameless).getJob nameless.id .any at hSame
  rw [hBefore, hAfter] at hSame
  exact absurd (congrArg Job.tasks (Except.ok.inj hSame)) (by simp)

end Catalog

end Taskyard
