import Mathlib.Data.List.Sort
import Taskyard.Catalog.Prune
import Taskyard.Job.Transition
import Taskyard.Proofs.Wire.Forms

/-!
# Catalog — what was accepted is readable

Every job and every task is accepted, but not every one is read back: a form may nest too deep, and
a progress that is not a number is written as `null`. As soon as one such row is at rest, readings
that meet it fail; while there is none, all of them succeed.

Main definitions and results:

* `Catalog.Change`, `Catalog.after` — sequences of changes.
* `Job.Storable`, `Task.Storable` — what is read back.
* `Catalog.Faithful` — every row is that of a job or a task with the identifiers it is kept under;
  `faithful_apply` for one change and `faithful_after` for all of them.
* `Catalog.Readable` — all readings succeed.
* `Catalog.readable_after_iff` — they do exactly while everything at rest is storable.
-/

namespace Taskyard

/-! ## Rows -/

/-- Whether a job is read back from its row. -/
def Job.Storable (j : Job) : Prop := j.withoutTasks.toJson.fits Json.maxDepth = true

/-- Whether a task is read back from its row. -/
def Task.Storable (t : Task) : Prop := t.Legible ∧ t.toJson.fits Json.maxDepth = true

instance (j : Job) : Decidable j.Storable := inferInstanceAs (Decidable (_ = _))

instance (t : Task) : Decidable t.Storable := inferInstanceAs (Decidable (_ ∧ _))

/-- What a row reads as is decided by what its text reads as. -/
theorem readRow_compact {α : Type} {d : Decoder α} {j : Json} {a : α} {p : Prop} [Decidable p]
    (h : d Json.maxDepth j.reread = if p then some a else none) :
    readRow d j.compact =
      if p then .ok a else .error (.serialization "a stored value cannot be read") := by
  rw [readRow, Json.parse?_compact, Option.bind_some, h]
  by_cases hp : p
  · rw [if_pos hp, if_pos hp]
  · rw [if_neg hp, if_neg hp]

/-- The row of a job reads back exactly if the job is storable, and then as rounded by its text. -/
theorem Job.read_row (j : Job) :
    j.row.read = if j.Storable then .ok j.withoutTasks.reread
      else .error (.serialization "a stored value cannot be read") :=
  readRow_compact (Decoder.ReadsAt.job j)

/-- The row of a task reads back exactly if the task is storable. -/
theorem Task.read_row (t : Task) :
    t.row.read = if t.Storable then .ok t.reread
      else .error (.serialization "a stored value cannot be read") :=
  readRow_compact (t.ofJson_reread Json.maxDepth)

/-- What is read from the row of a job has its identifier and no tasks. -/
theorem Job.of_read_row {j j' : Job} (h : j.row.read = .ok j') : j'.id = j.id ∧ j'.tasks = [] := by
  rw [Job.read_row] at h
  split at h
  · cases h
    exact ⟨rfl, rfl⟩
  · cases h

/-- What is read from the row of a task has its identifiers. -/
theorem Task.of_read_row {t t' : Task} (h : t.row.read = .ok t') :
    t'.jobId = t.jobId ∧ t'.id = t.id := by
  rw [Task.read_row] at h
  split at h
  · cases h
    exact ⟨rfl, rfl⟩
  · cases h

theorem Job.exists_read_iff (j : Job) : (∃ j', j.row.read = .ok j') ↔ j.Storable := by
  rw [Job.read_row]
  split
  · next h => exact ⟨fun _ => h, fun _ => ⟨_, rfl⟩⟩
  · next h => exact ⟨fun ⟨_, hEq⟩ => (nomatch hEq), fun hStorable => absurd hStorable h⟩

theorem Task.exists_read_iff (t : Task) : (∃ t', t.row.read = .ok t') ↔ t.Storable := by
  rw [Task.read_row]
  split
  · next h => exact ⟨fun _ => h, fun _ => ⟨_, rfl⟩⟩
  · next h => exact ⟨fun ⟨_, hEq⟩ => (nomatch hEq), fun hStorable => absurd hStorable h⟩

/-- What may fail is done for a list exactly if it is done for the head and for the tail. -/
theorem mapM_cons_eq_ok_iff {ε α β : Type} {f : α → Except ε β} {a : α} {l : List α}
    {bs : List β} :
    (a :: l).mapM f = .ok bs ↔ ∃ b bs', f a = .ok b ∧ l.mapM f = .ok bs' ∧ b :: bs' = bs := by
  rw [List.mapM_cons]
  -- a failing head or tail fails the whole
  cases f a with
  | error e => exact ⟨fun h => (nomatch h), fun ⟨_, _, h, _⟩ => (nomatch h)⟩
  | ok b =>
    cases l.mapM f with
    | error e => exact ⟨fun h => (nomatch h), fun ⟨_, _, _, h, _⟩ => (nomatch h)⟩
    | ok bs' =>
      constructor
      · intro h
        exact ⟨b, bs', rfl, rfl, Except.ok.inj h⟩
      · rintro ⟨_, _, hHead, hTail, rfl⟩
        cases hHead
        cases hTail
        rfl

/-- A successful `mapM` has the images of its elements and nothing else. -/
theorem mapM_ok {ε α β : Type} {f : α → Except ε β} {l : List α} {bs : List β}
    (h : l.mapM f = .ok bs) :
    (∀ b ∈ bs, ∃ a ∈ l, f a = .ok b) ∧ ∀ a ∈ l, ∃ b ∈ bs, f a = .ok b := by
  -- the two directions are proved together, for both use the same split of the result
  induction l generalizing bs with
  | nil =>
    cases h
    exact ⟨fun _ hb => (nomatch hb), fun _ ha => (nomatch ha)⟩
  | cons a l ih =>
    obtain ⟨b, bs', hHead, hTail, rfl⟩ := mapM_cons_eq_ok_iff.mp h
    obtain ⟨hFrom, hTo⟩ := ih hTail
    constructor
    · intro b' hb'
      rcases List.mem_cons.mp hb' with rfl | hb'
      · exact ⟨a, List.mem_cons_self, hHead⟩
      · obtain ⟨a', ha', hEq⟩ := hFrom b' hb'
        exact ⟨a', List.mem_cons_of_mem _ ha', hEq⟩
    · intro a' ha'
      rcases List.mem_cons.mp ha' with rfl | ha'
      · exact ⟨b, List.mem_cons_self, hHead⟩
      · obtain ⟨b', hb', hEq⟩ := hTo a' ha'
        exact ⟨b', List.mem_cons_of_mem _ hb', hEq⟩

/-- Lists in one strict order are the same if they have the same members. -/
theorem eq_of_pairwise_of_mem {α : Type} {R : α → α → Prop} (hIrrefl : ∀ a, ¬R a a)
    (hTrans : ∀ {a b c}, R a b → R b c → R a c) {l l' : List α} (h : l.Pairwise R)
    (h' : l'.Pairwise R) (hMem : ∀ a, a ∈ l ↔ a ∈ l') : l = l' := by
  have : Std.Irrefl R := ⟨hIrrefl⟩
  have : Std.Antisymm R := ⟨fun a _ hab hba => absurd (hTrans hab hba) (hIrrefl a)⟩
  exact h.eq_of_mem_iff h' hMem

namespace Dict

variable {α : Type}

/-- Dictionaries are told apart by what look-ups find. -/
theorem ext_get? {d d' : Dict α} (h : ∀ k, d.get? k = d'.get? k) : d = d' := by
  -- both lists of entries are in the one order, so it is enough that they have the same members
  have hMem : ∀ e, e ∈ d.entries ↔ e ∈ d'.entries := by
    intro e
    have hKey : lookup e.1 d.entries = lookup e.1 d'.entries := h e.1
    constructor
    · intro he
      exact mem_of_lookup (hKey.symm.trans (lookup_of_mem d.sorted he))
    · intro he
      exact mem_of_lookup (hKey.trans (lookup_of_mem d'.sorted he))
  exact ext_entries (eq_of_pairwise_of_mem (R := fun a b : String × α => a.1 < b.1)
    (fun _ => String.lt_irrefl _) (fun hab hbc => String.lt_trans hab hbc) d.sorted d'.sorted hMem)

end Dict

namespace Catalog

/-! ## Changes -/

/-- A change of the catalog. -/
inductive Change where
  /-- A job is saved. -/
  | putJob (j : Job)
  /-- A job is removed with its tasks. -/
  | deleteJob (id : String)
  /-- A task is saved. -/
  | putTask (t : Task)
  /-- Tasks are deleted; where that fails, nothing is. -/
  | deleteTasks (d : Deletion)

/-- The catalog after a change. -/
def Change.apply (c : Catalog) : Change → Catalog
  | .putJob j => c.putJob j
  | .deleteJob id => c.deleteJob id
  | .putTask t => c.putTask t
  | .deleteTasks d =>
    match c.deleteTasks d with
    | .ok (c', _) => c'
    | .error _ => c

/-- The catalog after a sequence of changes. -/
def after (changes : List Change) : Catalog := changes.foldl Change.apply empty

/-! ## Buckets -/

variable {c : Catalog}

/-- Putting a task writes one key of its own bucket. -/
theorem bucket_putTask (t : Task) (jobId : String) :
    (c.putTask t).bucket jobId =
      if t.jobId = jobId then (c.bucket jobId).insert t.id t.row else c.bucket jobId := by
  rw [bucket, putTask, Dict.get?_insert]
  split
  · next h =>
    subst h
    rfl
  · rfl

/-- Erasing a task clears one key of its bucket, also when the bucket goes with it. -/
theorem bucket_eraseTask (jobId id jobId' : String) :
    (c.eraseTask jobId id).bucket jobId' =
      if jobId = jobId' then (c.bucket jobId').erase id else c.bucket jobId' := by
  rw [bucket, eraseTask, Dict.get?_insert]
  split
  · next h =>
    subst h
    rfl
  · rfl

/-- Deleting a job takes its whole bucket. -/
theorem bucket_deleteJob (id jobId : String) :
    (c.deleteJob id).bucket jobId = if id = jobId then Dict.empty else c.bucket jobId := by
  rw [bucket, deleteJob, Dict.get?_erase]
  split <;> rfl

theorem bucket_of_get? {jobId : String} {b : Dict TaskRow} (h : c.buckets.get? jobId = some b) :
    c.bucket jobId = b := by
  rw [bucket, h]
  rfl

/-- A job with a row in its bucket has a bucket. -/
theorem get?_buckets {jobId id : String} {r : TaskRow} (h : (c.bucket jobId).get? id = some r) :
    c.buckets.get? jobId = some (c.bucket jobId) := by
  cases hBucket : c.buckets.get? jobId with
  | some b => rw [bucket_of_get? hBucket]
  | none =>
    rw [bucket, hBucket] at h
    cases h

/-- Every bucket of a scope is that of a job. -/
theorem exists_bucket {scope : String} {b : Dict TaskRow} (h : b ∈ c.bucketsIn scope) :
    ∃ jobId, c.bucket jobId = b := by
  rw [bucketsIn] at h
  split at h
  · obtain ⟨jobId, hGet⟩ := (Dict.mem_values_iff _ _).mp h
    exact ⟨jobId, bucket_of_get? hGet⟩
  · exact ⟨scope, (List.mem_singleton.mp h).symm⟩

/-! ## What rows hold -/

/-- Every row is that of a job or of a task with the identifiers it is kept under. -/
structure Faithful (c : Catalog) : Prop where
  /-- The rows of jobs. -/
  job {id : String} {r : JobRow} (h : c.jobs.get? id = some r) : ∃ j : Job, j.id = id ∧ j.row = r
  /-- The rows of tasks. -/
  task {jobId id : String} {r : TaskRow} (h : (c.bucket jobId).get? id = some r) :
    ∃ t : Task, t.jobId = jobId ∧ t.id = id ∧ t.row = r

namespace Faithful

theorem empty : Faithful empty where
  job h := by cases h
  task h := by cases h

/-- A job that is put is kept under its own id, with its own row. -/
theorem putJob (hc : c.Faithful) (j : Job) : (c.putJob j).Faithful where
  job h := by
    rw [Catalog.putJob, Dict.get?_insert] at h
    split at h
    · next hId =>
      cases h
      exact ⟨j, hId, rfl⟩
    · exact hc.job h
  task h := hc.task h

/-- Deleting a job leaves every other row where it is. -/
theorem deleteJob (hc : c.Faithful) (id : String) : (c.deleteJob id).Faithful where
  job h := by
    rw [Catalog.deleteJob, Dict.get?_erase] at h
    split at h
    · cases h
    · exact hc.job h
  task h := by
    rw [bucket_deleteJob] at h
    split at h
    · cases h
    · exact hc.task h

/-- A task that is put is kept under its job and its id, with its own row. -/
theorem putTask (hc : c.Faithful) (t : Task) : (c.putTask t).Faithful where
  job h := hc.job h
  task h := by
    rw [bucket_putTask] at h
    split at h
    · next hJob =>
      rw [Dict.get?_insert] at h
      split at h
      · next hId =>
        cases h
        exact ⟨t, hJob, hId, rfl⟩
      · exact hc.task h
    · exact hc.task h

theorem eraseTask (hc : c.Faithful) (jobId id : String) : (c.eraseTask jobId id).Faithful where
  job h := hc.job h
  task h := by
    rw [bucket_eraseTask] at h
    split at h
    · rw [Dict.get?_erase] at h
      split at h
      · cases h
      · exact hc.task h
    · exact hc.task h

theorem eraseTasks (hc : c.Faithful) (ts : List Task) : (c.eraseTasks ts).Faithful := by
  induction ts generalizing c with
  | nil => exact hc
  | cons t ts ih => exact ih (hc.eraseTask t.jobId t.id)

/-- One change keeps rows faithful. -/
theorem apply (hc : c.Faithful) (x : Change) : (x.apply c).Faithful := by
  cases x with
  | putJob j => exact hc.putJob j
  | deleteJob id => exact hc.deleteJob id
  | putTask t => exact hc.putTask t
  | deleteTasks d =>
    rw [Change.apply, deleteTasks]
    cases c.chooseTasks d with
    | error => exact hc
    | ok ts => exact hc.eraseTasks ts

/-- So does any sequence of changes. -/
theorem after (changes : List Change) : (after changes).Faithful := by
  have hRun : ∀ c : Catalog, c.Faithful → (changes.foldl Change.apply c).Faithful := by
    induction changes with
    | nil => exact fun c hc => hc
    | cons x changes ih => exact fun c hc => ih _ (hc.apply x)
  exact hRun _ Faithful.empty

end Faithful

/-! ## Readings -/

/-- All readings succeed: of every job that is there, with tasks in any state, of listings of jobs
and of tasks, and deletions that name something. -/
structure Readable (c : Catalog) : Prop where
  /-- Single jobs. -/
  getJob (id : String) (load : TaskStatus) (h : (c.jobs.get? id).isSome) :
    ∃ j, c.getJob id load = .ok j
  /-- Listings of jobs. -/
  listJobs (l : JobListing) : ∃ js, c.listJobs l = .ok js
  /-- Listings of tasks. -/
  listTasks (scope : String) (status : TaskStatus) : ∃ ts, c.listTasks scope status = .ok ts
  /-- Deletions. -/
  deleteTasks (d : Deletion) (h : d.isVoid = false) : ∃ r, c.deleteTasks d = .ok r

/-- Everything at rest is storable. -/
structure Sound (c : Catalog) : Prop where
  /-- Jobs. -/
  job (j : Job) (h : c.jobs.get? j.id = some j.row) : j.Storable
  /-- Tasks. -/
  task (t : Task) (h : (c.bucket t.jobId).get? t.id = some t.row) : t.Storable

/-- A `mapM` over results succeeds exactly if every element does. -/
theorem exists_mapM_iff {ε α β : Type} {f : α → Except ε β} {l : List α} :
    (∃ bs, l.mapM f = .ok bs) ↔ ∀ a ∈ l, ∃ b, f a = .ok b := by
  induction l with
  | nil => exact ⟨fun _ _ ha => (nomatch ha), fun _ => ⟨[], rfl⟩⟩
  | cons a l ih =>
    rw [List.forall_mem_cons, ← ih]
    constructor
    · rintro ⟨bs, h⟩
      obtain ⟨b, bs', hHead, hTail, -⟩ := mapM_cons_eq_ok_iff.mp h
      exact ⟨⟨b, hHead⟩, bs', hTail⟩
    · rintro ⟨⟨b, hHead⟩, bs, hTail⟩
      exact ⟨b :: bs, mapM_cons_eq_ok_iff.mpr ⟨b, bs, hHead, hTail, rfl⟩⟩

theorem exists_map_iff {ε α β : Type} {f : α → β} {x : Except ε α} :
    (∃ b, x.map f = .ok b) ↔ ∃ a, x = .ok a := by
  cases x with
  | error e => exact ⟨fun ⟨_, h⟩ => (nomatch h), fun ⟨_, h⟩ => (nomatch h)⟩
  | ok a => exact ⟨fun _ => ⟨a, rfl⟩, fun _ => ⟨f a, rfl⟩⟩

/-- The buckets of a scope are read exactly if each of their rows in the state is. -/
theorem exists_readBuckets_iff {scope : String} {status : TaskStatus} :
    (∃ bs, c.readBuckets scope status = .ok bs) ↔
      ∀ b ∈ c.bucketsIn scope, ∀ r ∈ b.values, r.status.meets status = true →
        ∃ t, r.read = .ok t := by
  rw [readBuckets, exists_mapM_iff]
  refine forall₂_congr fun b _ => ?_
  rw [readBucket, exists_mapM_iff]
  simp only [List.mem_filter, and_imp]

section Sound

variable (hc : c.Faithful) (hSound : c.Sound)
include hc hSound

/-- In a sound catalog every job row reads. -/
theorem Sound.exists_read_job {id : String} {r : JobRow} (h : c.jobs.get? id = some r) :
    ∃ j, r.read = .ok j := by
  obtain ⟨j, rfl, rfl⟩ := hc.job h
  exact j.exists_read_iff.mpr (hSound.job j h)

/-- In a sound catalog every task row reads. -/
theorem Sound.exists_read_task {jobId id : String} {r : TaskRow}
    (h : (c.bucket jobId).get? id = some r) : ∃ t, r.read = .ok t := by
  obtain ⟨t, rfl, rfl, rfl⟩ := hc.task h
  exact t.exists_read_iff.mpr (hSound.task t h)

/-- In a sound catalog no listing of tasks fails. -/
theorem Sound.exists_readBuckets (scope : String) (status : TaskStatus) :
    ∃ bs, c.readBuckets scope status = .ok bs := by
  rw [exists_readBuckets_iff]
  intro b hb r hr _
  obtain ⟨jobId, rfl⟩ := exists_bucket hb
  obtain ⟨id, hGet⟩ := (Dict.mem_values_iff _ _).mp hr
  exact Sound.exists_read_task hc hSound hGet

theorem Sound.exists_attach (load : TaskStatus) (j : Job) : ∃ j', c.attach load j = .ok j' := by
  rw [attach]
  split
  · exact ⟨j, rfl⟩
  · rw [exists_map_iff, listTasks, exists_map_iff]
    exact Sound.exists_readBuckets hc hSound j.id load

/-- In a sound catalog no row spoils a listing of jobs. -/
theorem Sound.exists_listed (l : JobListing) {r : JobRow} (hr : r ∈ c.jobs.values) :
    ∃ o, c.listed l r = .ok o := by
  obtain ⟨id, hGet⟩ := (Dict.mem_values_iff _ _).mp hr
  obtain ⟨j, hRead⟩ := Sound.exists_read_job hc hSound hGet
  obtain ⟨j', hAttach⟩ := Sound.exists_attach hc hSound l.load j
  rw [listed, hRead]
  show ∃ o, (if !l.admits j then pure none else c.attach l.load j >>= _) = Except.ok o
  rw [hAttach]
  -- the job is not admitted, or it is skipped for its lack of tasks, or it is shown
  split
  · exact ⟨none, rfl⟩
  · show ∃ o, (if l.skipsEmpty && j'.tasks.isEmpty then pure none else pure (some j')) =
      Except.ok o
    split
    · exact ⟨none, rfl⟩
    · exact ⟨some j', rfl⟩

/-- In a sound catalog every call that reads succeeds: the calls are built from the reads above. -/
theorem Sound.readable : c.Readable where
  getJob id load h := by
    -- the row is found and read; what is left is attaching
    obtain ⟨r, hGet⟩ := Option.isSome_iff_exists.mp h
    obtain ⟨j, hRead⟩ := Sound.exists_read_job hc hSound hGet
    obtain ⟨j', hAttach⟩ := Sound.exists_attach hc hSound load j
    refine ⟨j', ?_⟩
    rw [Catalog.getJob, findJob, hGet]
    show r.read.bind _ = _
    rw [hRead]
    exact hAttach
  listJobs l := by
    -- a listing fails only at one of its rows
    rw [Catalog.listJobs, exists_map_iff, exists_mapM_iff]
    intro r hr
    exact Sound.exists_listed hc hSound l (List.mem_of_mem_filter hr)
  listTasks scope status := by
    rw [Catalog.listTasks, exists_map_iff]
    exact Sound.exists_readBuckets hc hSound scope status
  deleteTasks d h := by
    rw [Catalog.deleteTasks, exists_map_iff, chooseTasks, h]
    show ∃ ts, (c.readBuckets d.scope .any).map _ = .ok ts
    rw [exists_map_iff]
    exact Sound.exists_readBuckets hc hSound d.scope .any

end Sound

/-- A listing of all jobs reads every row of a job, and one of all tasks every row of a task. -/
theorem Readable.sound (h : c.Readable) : c.Sound where
  job j hGet := by
    have hAll := h.listJobs {}
    rw [Catalog.listJobs, exists_map_iff, exists_mapM_iff] at hAll
    -- the row is among those that a listing of all jobs reads
    have hRow : j.row ∈ c.jobRows "" :=
      List.mem_filter.mpr ⟨(Dict.mem_values_iff _ _).mpr ⟨j.id, hGet⟩, rfl⟩
    obtain ⟨o, hListed⟩ := hAll j.row hRow
    rw [← Job.exists_read_iff]
    cases hRead : j.row.read with
    | ok j' => exact ⟨j', rfl⟩
    | error e =>
      rw [listed, hRead] at hListed
      cases hListed
  task t hGet := by
    have hAll := h.listTasks "" .any
    rw [Catalog.listTasks, exists_map_iff, exists_readBuckets_iff] at hAll
    -- and a row of a task is in a bucket that a listing of all tasks reads
    have hBucket : c.bucket t.jobId ∈ c.bucketsIn "" := by
      rw [bucketsIn, if_pos rfl, Dict.mem_values_iff]
      exact ⟨t.jobId, get?_buckets hGet⟩
    rw [← Task.exists_read_iff]
    have hValue : t.row ∈ (c.bucket t.jobId).values := (Dict.mem_values_iff _ _).mpr ⟨t.id, hGet⟩
    exact hAll _ hBucket t.row hValue rfl

/-- After any sequence of changes, all readings succeed exactly if every job and every task at rest
is storable. -/
theorem readable_after_iff (changes : List Change) :
    (after changes).Readable ↔
      (∀ j : Job, (after changes).jobs.get? j.id = some j.row → j.Storable) ∧
      ∀ t : Task, ((after changes).bucket t.jobId).get? t.id = some t.row → t.Storable := by
  constructor
  · intro h
    exact ⟨h.sound.job, h.sound.task⟩
  · rintro ⟨hJobs, hTasks⟩
    exact Sound.readable (Faithful.after changes) ⟨hJobs, hTasks⟩

/-- A live task whose `set_progress` is given what is not a number hands over a snapshot that is
accepted by `put_task` and cannot be listed any more. -/
theorem not_readable_of_nan :
    ¬(after [.putTask ((TaskStep.setProgress (.nan .single)).apply 0
      (Job.freshTask { id := "job", hasProgress := true } "task"))]).Readable := by
  intro h
  have hStorable := h.sound.task ((TaskStep.setProgress (.nan .single)).apply 0
    (Job.freshTask { id := "job", hasProgress := true } "task")) rfl
  have hInfinite : ((Decimal.Binary.nan .single).clampUnit).isFinite = false := by decide
  have hFinite : ((Decimal.Binary.nan .single).clampUnit).isFinite = true := hStorable.1.1
  rw [hInfinite] at hFinite
  cases hFinite

end Catalog

end Taskyard
