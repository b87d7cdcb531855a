import Taskyard.Proofs.Catalog.Separation

/-!
# Catalog — what a deletion takes

A deletion by states takes, of each job in its scope, the tasks in these states but the newest ones;
a deletion by name takes the tasks that are named. It reads all tasks in its scope first, so one
that cannot be read stands in the way of all others.

Main definitions and results:

* `Task.Outranks`, `Task.Leads` — newer tasks of a job, and the order in which tasks are deleted.
* `Deletion.ranked` — the tasks of a bucket in the states of a deletion, newest first.
* `Catalog.Pruned` — what a deletion takes and what it leaves.
* `Catalog.Deletes` — what becomes of a request; `Catalog.deletes_after` for every request after any
  sequence of changes.
* `Catalog.not_deleted` — a task that cannot be read, and one that stays because of it.
-/

namespace Taskyard

/-! ## Newest first -/

namespace Task

/-- A task started later than another one, or at the same time with a smaller identifier. -/
def Outranks (t t' : Task) : Prop :=
  t'.startTime < t.startTime ∨ t.startTime = t'.startTime ∧ t.id < t'.id

/-- A task is deleted before another: job by job, and of each job the newer ones first. -/
def Leads (t t' : Task) : Prop := t.jobId < t'.jobId ∨ t.jobId = t'.jobId ∧ t.Outranks t'

/-- The code's ordering of tasks: by start time, and by id where these are equal. -/
theorem newerThan_iff {t t' : Task} :
    t.newerThan t' = true ↔
      t'.startTime.toInt < t.startTime.toInt ∨
        t.startTime.toInt = t'.startTime.toInt ∧ t.id ≤ t'.id := by
  simp [newerThan, Int64.lt_iff_toInt_lt, Int64.toInt_inj]

/-- Being newer is transitive, as a sort needs. -/
theorem newerThan_trans (t₁ t₂ t₃ : Task) (h : t₁.newerThan t₂ = true)
    (h' : t₂.newerThan t₃ = true) : t₁.newerThan t₃ = true := by
  rw [newerThan_iff] at h h' ⊢
  rcases h with h | ⟨hSame, hId⟩ <;> rcases h' with h' | ⟨hSame', hId'⟩
  · exact .inl (h'.trans h)
  · exact .inl (hSame' ▸ h)
  · exact .inl (hSame ▸ h')
  · exact .inr ⟨hSame.trans hSame', String.le_trans hId hId'⟩

/-- Two tasks always compare, so the sort has one result up to equal keys. -/
theorem newerThan_total (t t' : Task) : (t.newerThan t' || t'.newerThan t) = true := by
  rw [Bool.or_eq_true, newerThan_iff, newerThan_iff]
  rcases lt_trichotomy t.startTime.toInt t'.startTime.toInt with h | h | h
  · exact .inr (.inl h)
  · rcases String.le_total t.id t'.id with hId | hId
    · exact .inl (.inr ⟨h, hId⟩)
    · exact .inr (.inr ⟨h.symm, hId⟩)
  · exact .inl (.inl h)

/-- Whether a task comes before another one when those of all jobs are sorted together. -/
def before (t t' : Task) : Bool :=
  t.jobId < t'.jobId || (t.jobId = t'.jobId && t.newerThan t')

/-- The order of a reply: by job, and within a job as `newerThan` has it. -/
theorem before_iff {t t' : Task} :
    t.before t' = true ↔ t.jobId < t'.jobId ∨ t.jobId = t'.jobId ∧ t.newerThan t' = true := by
  simp [before]

theorem before_trans (t₁ t₂ t₃ : Task) (h : t₁.before t₂ = true) (h' : t₂.before t₃ = true) :
    t₁.before t₃ = true := by
  rw [before_iff] at h h' ⊢
  rcases h with hJob | ⟨hSame, hNewer⟩ <;> rcases h' with hJob' | ⟨hSame', hNewer'⟩
  · exact .inl (String.lt_trans hJob hJob')
  · exact .inl (hSame' ▸ hJob)
  · exact .inl (hSame ▸ hJob')
  · exact .inr ⟨hSame.trans hSame', newerThan_trans _ _ _ hNewer hNewer'⟩

theorem before_total (t t' : Task) : (t.before t' || t'.before t) = true := by
  rw [Bool.or_eq_true, before_iff, before_iff]
  by_cases hSame : t.jobId = t'.jobId
  · have hNewer := newerThan_total t t'
    rw [Bool.or_eq_true] at hNewer
    exact hNewer.imp (fun h => .inr ⟨hSame, h⟩) fun h => .inr ⟨hSame.symm, h⟩
  · rcases String.le_total t.jobId t'.jobId with hLe | hLe
    · exact .inl (.inl (Std.lt_of_le_of_ne hLe hSame))
    · exact .inr (.inl (Std.lt_of_le_of_ne hLe (Ne.symm hSame)))

theorem Leads.before {t t' : Task} (h : t.Leads t') : t.before t' = true := by
  rw [before_iff, newerThan_iff, Int64.toInt_inj, ← Int64.lt_iff_toInt_lt]
  exact h.imp_right <| And.imp_right <| Or.imp_right <| And.imp_right Std.le_of_lt

/-- Of two tasks each comes before the other only if they have the same key. -/
theorem keyOf_eq_of_before {t t' : Task} (h : t.before t' = true) (h' : t'.before t = true) :
    Catalog.keyOf t = Catalog.keyOf t' := by
  rw [before_iff, newerThan_iff] at h h'
  -- the jobs have to agree, then the start times, and then the identifiers
  obtain hJob | ⟨hJob, hStart⟩ := h
  · obtain hJob' | ⟨hJob', -⟩ := h'
    · exact absurd (String.lt_trans hJob hJob') (String.lt_irrefl _)
    · exact absurd (hJob' ▸ hJob) (String.lt_irrefl _)
  · obtain hJob' | ⟨-, hStart'⟩ := h'
    · exact absurd (hJob ▸ hJob') (String.lt_irrefl _)
    · refine Prod.ext hJob ?_
      rcases hStart with hLess | ⟨hSame, hId⟩ <;> rcases hStart' with hLess' | ⟨hSame', hId'⟩
      · omega
      · omega
      · omega
      · exact String.le_antisymm hId hId'

/-- Between two tasks with different ids the sort's order is the strict one of the
specification. -/
theorem outranks_of_newerThan {t t' : Task} (h : t.newerThan t' = true) (hId : t.id ≠ t'.id) :
    t.Outranks t' := by
  rw [newerThan_iff, Int64.toInt_inj, ← Int64.lt_iff_toInt_lt] at h
  exact h.imp_right fun ⟨hSame, hLe⟩ => ⟨hSame, Std.lt_of_le_of_ne hLe hId⟩

end Task

namespace Deletion

/-- Whether a deletion looks at the tasks of a job. -/
def Reaches (d : Deletion) (jobId : String) : Prop := d.scope = "" ∨ jobId = d.scope

/-- The tasks of a bucket in the states of a deletion, newest first. -/
def ranked (d : Deletion) (ts : List Task) : List Task :=
  (ts.filter d.covers).mergeSort Task.newerThan

/-- With no ids given, the tasks to go are those past the first `keep` of the ranking. -/
theorem doomed_of_states {d : Deletion} (h : d.ids = []) (ts : List Task) :
    d.doomed ts = (d.ranked ts).drop d.keep := by
  rw [doomed, h]
  rfl

/-- With ids given, the tasks to go are the ones named, whatever their status. -/
theorem mem_doomed_of_ids {d : Deletion} (h : d.ids ≠ []) {ts : List Task} {t : Task} :
    t ∈ d.doomed ts ↔ t ∈ ts ∧ t.id ∈ d.ids := by
  rw [doomed, if_neg (by simpa using h), List.mem_filter, List.contains_iff_mem]

theorem mem_ranked {d : Deletion} {ts : List Task} {t : Task} :
    t ∈ d.ranked ts ↔ t ∈ ts ∧ d.covers t = true := by
  rw [ranked, List.mem_mergeSort, List.mem_filter]

/-- Ranking drops exactly the tasks whose status is not covered. -/
theorem length_ranked (d : Deletion) (ts : List Task) :
    (d.ranked ts).length = ts.countP d.covers := by
  rw [ranked, List.length_mergeSort, List.countP_eq_length_filter]

theorem nodup_ranked {d : Deletion} {ts : List Task} (h : (ts.map Catalog.keyOf).Nodup) :
    ((d.ranked ts).map Catalog.keyOf).Nodup := by
  have hSorted := (List.mergeSort_perm (ts.filter d.covers) Task.newerThan).map Catalog.keyOf
  exact hSorted.nodup_iff.mpr (h.sublist (List.filter_sublist.map _))

/-- The tasks of one job are ranked without ties. -/
theorem pairwise_ranked {d : Deletion} {ts : List Task} {jobId : String}
    (hKeys : (ts.map Catalog.keyOf).Nodup) (hJob : ∀ t ∈ ts, t.jobId = jobId) :
    (d.ranked ts).Pairwise Task.Outranks := by
  have hSorted : (d.ranked ts).Pairwise fun t t' => t.newerThan t' = true :=
    List.pairwise_mergeSort Task.newerThan_trans Task.newerThan_total _
  have hApart := List.pairwise_map.mp (nodup_ranked (d := d) hKeys)
  refine (hSorted.and hApart).imp_of_mem fun {t t'} ht ht' ⟨hNewer, hKey⟩ => ?_
  refine Task.outranks_of_newerThan hNewer fun hId => hKey (Prod.ext ?_ hId)
  exact (hJob t (mem_ranked.mp ht).1).trans (hJob t' (mem_ranked.mp ht').1).symm

/-- The tasks to be deleted of a list, where those of each job stand together: of each job the first
ones are kept and counted. It is known of which job the task before was, and how many of this job
were kept. -/
def sweep (keep : Nat) : Option String → Nat → List Task → List Task
  | _, _, [] => []
  | job, kept, t :: rest =>
    let kept := if job = some t.jobId then kept else 0
    if kept < keep then sweep keep (some t.jobId) (kept + 1) rest
    else t :: sweep keep (some t.jobId) kept rest

/-- The count starts anew with another job. -/
theorem sweep_fresh {keep : Nat} {job : Option String} {kept : Nat} {ts : List Task}
    (h : ∀ t ∈ ts, job ≠ some t.jobId) : sweep keep job kept ts = sweep keep none 0 ts := by
  cases ts with
  | nil => rfl
  | cons t ts =>
    rw [sweep, sweep, if_neg (h t List.mem_cons_self), if_neg (Option.some_ne_none _).symm]

/-- In the tasks of one job, as many are still kept as are missing. -/
theorem sweep_append {keep : Nat} {jobId : String} {ts later : List Task}
    (hJob : ∀ t ∈ ts, t.jobId = jobId) (hLater : ∀ t ∈ later, t.jobId ≠ jobId) (kept : Nat) :
    sweep keep (some jobId) kept (ts ++ later) =
      ts.drop (keep - kept) ++ sweep keep none 0 later := by
  induction ts generalizing kept with
  | nil =>
    rw [List.drop_nil]
    exact sweep_fresh fun t ht hSame => hLater t ht (Option.some.inj hSame).symm
  | cons t ts ih =>
    obtain ⟨hHead, hTail⟩ := List.forall_mem_cons.mp hJob
    rw [List.cons_append, sweep, hHead, if_pos rfl]
    by_cases hKeep : kept < keep
    · have hMissing : keep - kept = keep - (kept + 1) + 1 := by omega
      rw [if_pos hKeep, ih hTail, hMissing, List.drop_succ_cons]
    · have hNone : keep - kept = 0 := by omega
      rw [if_neg hKeep, ih hTail, hNone, List.drop_zero, List.drop_zero, List.cons_append]

/-- So of each job all but the first ones are deleted. -/
theorem sweep_flatten {keep : Nat} {gs : List (List Task)}
    (hJob : ∀ g ∈ gs, ∃ jobId, ∀ t ∈ g, t.jobId = jobId)
    (hApart : gs.Pairwise fun g g' => ∀ t ∈ g, ∀ t' ∈ g', t.jobId ≠ t'.jobId) :
    sweep keep none 0 gs.flatten = gs.flatMap (·.drop keep) := by
  induction gs with
  | nil => rfl
  | cons g gs ih =>
    obtain ⟨⟨jobId, hHead⟩, hTail⟩ := List.forall_mem_cons.mp hJob
    obtain ⟨hFirst, hRest⟩ := List.pairwise_cons.mp hApart
    rw [List.flatten_cons, List.flatMap_cons, ← ih hTail hRest]
    -- a task of another job starts a new count, so each group is swept by itself
    cases g with
    | nil => rw [List.drop_nil, List.nil_append, List.nil_append]
    | cons t g =>
      have hLater : ∀ t' ∈ gs.flatten, t'.jobId ≠ jobId := by
        intro t' ht'
        obtain ⟨g', hg', ht'⟩ := List.mem_flatten.mp ht'
        exact hHead t List.mem_cons_self ▸ (hFirst g' hg' t List.mem_cons_self t' ht').symm
      have hGroup : sweep keep (some jobId) 0 (t :: g ++ gs.flatten) =
          (t :: g).drop keep ++ sweep keep none 0 gs.flatten := sweep_append hHead hLater 0
      rw [← hGroup, List.cons_append, sweep, sweep, hHead t List.mem_cons_self, if_pos rfl,
        if_neg (Option.some_ne_none _).symm]

/-- What is left in the states of a deletion are the first ones of the ranking. -/
theorem perm_left {d : Deletion} (h : d.ids = []) {had left : List Task}
    (hKeys : (had.map Catalog.keyOf).Nodup) (hLeft : left.Nodup)
    (hMem : ∀ t, t ∈ left ↔ t ∈ had ∧ t ∉ d.doomed had) :
    (left.filter d.covers).Perm ((d.ranked had).take d.keep) := by
  have hRanked : (d.ranked had).Nodup := (nodup_ranked hKeys).of_map _
  have hParts := hRanked
  rw [← List.take_append_drop d.keep (d.ranked had), List.nodup_append] at hParts
  rw [List.perm_ext_iff_of_nodup (hLeft.filter _) hParts.1]
  intro t
  -- what is ranked is kept or goes, and nothing does both
  have hSplit : t ∈ d.ranked had ↔
      t ∈ (d.ranked had).take d.keep ∨ t ∈ (d.ranked had).drop d.keep := by
    rw [← List.mem_append, List.take_append_drop]
  rw [mem_ranked] at hSplit
  rw [List.mem_filter, hMem, doomed_of_states h]
  constructor
  · rintro ⟨⟨hHad, hStays⟩, hCovers⟩
    exact (hSplit.mp ⟨hHad, hCovers⟩).resolve_right hStays
  · intro hKept
    obtain ⟨hHad, hCovers⟩ := hSplit.mpr (.inl hKept)
    exact ⟨⟨hHad, fun hGone => hParts.2.2 t hKept t hGone rfl⟩, hCovers⟩

end Deletion

namespace Catalog

variable {c : Catalog}

/-! ## Tasks at rest -/

/-- A task is what is read from its row. -/
def Has (c : Catalog) (t : Task) : Prop :=
  ∃ row, (c.bucket t.jobId).get? t.id = some row ∧ row.read = .ok t

/-- There is one task under a key. -/
theorem Has.eq_of_keyOf {t t' : Task} (h : c.Has t) (h' : c.Has t') (hKey : keyOf t = keyOf t') :
    t = t' := by
  obtain ⟨row, hRow, hRead⟩ := h
  obtain ⟨row', hRow', hRead'⟩ := h'
  obtain ⟨hJob, hId⟩ := Prod.mk.inj hKey
  rw [hJob, hId, hRow', Option.some.injEq] at hRow
  rw [hRow, hRead] at hRead'
  exact Except.ok.inj hRead'

/-- The rows that are read in a scope are those of its jobs. -/
theorem exists_row_iff {scope : String} {r : TaskRow} :
    (∃ b ∈ c.bucketsIn scope, r ∈ b.values) ↔
      ∃ jobId id, (scope = "" ∨ jobId = scope) ∧ (c.bucket jobId).get? id = some r := by
  simp only [Dict.mem_values_iff]
  rw [bucketsIn]
  by_cases hScope : scope = ""
  -- with no scope all buckets are read, with one the bucket of that name
  · rw [if_pos hScope]
    simp only [Dict.mem_values_iff, hScope, true_or, true_and]
    constructor
    · rintro ⟨b, ⟨jobId, hBucket⟩, id, hGet⟩
      exact ⟨jobId, id, (bucket_of_get? hBucket).symm ▸ hGet⟩
    · rintro ⟨jobId, id, hGet⟩
      exact ⟨c.bucket jobId, ⟨jobId, get?_buckets hGet⟩, id, hGet⟩
  · rw [if_neg hScope]
    simp only [List.mem_singleton, exists_eq_left, hScope, false_or, exists_and_left]

/-- A failing `mapM` fails at one of its elements, with that element's error. -/
theorem mapM_error {ε α β : Type} {f : α → Except ε β} {l : List α} {e : ε}
    (h : l.mapM f = .error e) : ∃ a ∈ l, f a = .error e := by
  induction l with
  | nil => cases h
  | cons a l ih =>
    rw [List.mapM_cons] at h
    -- the fault is that of the head, or of the tail after the head went well
    cases hHead : f a with
    | error e' =>
      rw [hHead] at h
      cases h
      exact ⟨a, List.mem_cons_self, hHead⟩
    | ok b =>
      cases hTail : l.mapM f with
      | error e' =>
        rw [hHead, hTail] at h
        cases h
        obtain ⟨a', ha', hEq⟩ := ih hTail
        exact ⟨a', List.mem_cons_of_mem _ ha', hEq⟩
      | ok bs =>
        rw [hHead, hTail] at h
        cases h

/-- There is one way in which tasks cannot be read. -/
theorem readBuckets_error {scope : String} {status : TaskStatus} {e : Fault}
    (h : c.readBuckets scope status = .error e) :
    e = .serialization "a stored value cannot be read" := by
  obtain ⟨b, -, hBucket⟩ := mapM_error h
  obtain ⟨r, -, hRead⟩ := mapM_error hBucket
  rw [TaskRow.read, readRow] at hRead
  split at hRead
  · cases hRead
  · exact (Except.error.inj hRead).symm

namespace Faithful

variable (hc : c.Faithful)
include hc

/-- A bucket that reads without a fault gives the tasks the catalog has under that job. -/
theorem mem_readBucket_iff {jobId : String} {ts : List Task}
    (h : readBucket .any (c.bucket jobId) = .ok ts) {t : Task} :
    t ∈ ts ↔ t.jobId = jobId ∧ c.Has t := by
  obtain ⟨hFrom, hTo⟩ := mapM_ok h
  constructor
  · intro ht
    obtain ⟨r, hr, hRead⟩ := hFrom t ht
    obtain ⟨id, hGet⟩ := (Dict.mem_values_iff _ _).mp (List.mem_of_mem_filter hr)
    obtain ⟨t₀, rfl, rfl, rfl⟩ := hc.task hGet
    obtain ⟨hJob, hId⟩ := Task.of_read_row hRead
    exact ⟨hJob, t₀.row, by rw [hJob, hId]; exact hGet, hRead⟩
  · rintro ⟨rfl, r, hGet, hRead⟩
    have hr : r ∈ (c.bucket t.jobId).values := (Dict.mem_values_iff _ _).mpr ⟨t.id, hGet⟩
    obtain ⟨t', ht', hRead'⟩ := hTo r (List.mem_filter.mpr ⟨hr, rfl⟩)
    exact Except.ok.inj (hRead'.symm.trans hRead) ▸ ht'

/-- The tasks of a scope can be read exactly if all of them are storable. -/
theorem exists_readBuckets_any_iff {scope : String} :
    (∃ bs, c.readBuckets scope .any = .ok bs) ↔
      ∀ t : Task, (scope = "" ∨ t.jobId = scope) →
        (c.bucket t.jobId).get? t.id = some t.row → t.Storable := by
  rw [exists_readBuckets_iff]
  constructor
  · intro hAll t hIn hGet
    obtain ⟨b, hb, hr⟩ := exists_row_iff.mpr ⟨t.jobId, t.id, hIn, hGet⟩
    exact t.exists_read_iff.mp (hAll b hb t.row hr rfl)
  · intro hAll b hb r hr _
    obtain ⟨jobId, id, hIn, hGet⟩ := exists_row_iff.mp ⟨b, hb, hr⟩
    obtain ⟨t, rfl, rfl, rfl⟩ := hc.task hGet
    exact t.exists_read_iff.mpr (hAll t hIn hGet)

/-- What is chosen is chosen bucket by bucket. -/
theorem mem_chosen_iff {d : Deletion} {bs : List (List Task)}
    (h : c.readBuckets d.scope .any = .ok bs) {jobId : String} (hIn : d.Reaches jobId)
    {had : List Task} (hHad : readBucket .any (c.bucket jobId) = .ok had) {t : Task}
    (hJob : t.jobId = jobId) : t ∈ bs.flatMap d.doomed ↔ t ∈ d.doomed had := by
  obtain ⟨hFrom, hTo⟩ := readBuckets_ok h
  rw [List.mem_flatMap]
  constructor
  · rintro ⟨ts, hts, ht⟩
    obtain ⟨jobId', -, hRead⟩ := hFrom ts hts
    -- the bucket that the task was read from is that of its job
    have hJob' := hc.jobId_of_mem_readBucket hRead (Deletion.mem_of_mem_doomed ht)
    obtain rfl : jobId' = jobId := hJob'.symm.trans hJob
    obtain rfl := Except.ok.inj (hRead.symm.trans hHad)
    exact ht
  · intro ht
    obtain ⟨had', hRead, hMem⟩ := hTo jobId hIn
    obtain rfl := Except.ok.inj (hRead.symm.trans hHad)
    exact ⟨had', hMem (List.ne_nil_of_mem (Deletion.mem_of_mem_doomed ht)), ht⟩

end Faithful

/-! ## What a deletion does -/

/-- What is there after a deletion, and what it took. -/
structure Pruned (c : Catalog) (d : Deletion) (c' : Catalog) (ts : List Task) : Prop where
  /-- All jobs are left. -/
  jobs : c'.jobs = c.jobs
  /-- All rows of tasks are left but those of the tasks that were taken. -/
  rows (jobId id : String) : (c'.bucket jobId).get? id =
    if ∃ t ∈ ts, t.jobId = jobId ∧ t.id = id then none else (c.bucket jobId).get? id
  /-- The tasks that were taken were there, of a job in scope. -/
  stored : ∀ t ∈ ts, c.Has t ∧ d.Reaches t.jobId
  /-- Each of them was taken once. -/
  once : (ts.map keyOf).Nodup
  /-- If tasks are named, those in scope are taken. -/
  named : d.ids ≠ [] → ∀ t, t ∈ ts ↔ (c.Has t ∧ d.Reaches t.jobId) ∧ t.id ∈ d.ids
  /-- Otherwise all that is taken is in one of the states. -/
  covered : d.ids = [] → ∀ t ∈ ts, d.covers t = true
  /-- Then of each job in scope as many of the tasks in these states are left as are to be kept, or
  all of them if there are not more. -/
  counted : d.ids = [] → ∀ jobId, d.Reaches jobId → ∃ had left,
    readBucket .any (c.bucket jobId) = .ok had ∧ readBucket .any (c'.bucket jobId) = .ok left ∧
      left.countP d.covers = min d.keep (had.countP d.covers)
  /-- These are the newest ones. -/
  newest : d.ids = [] → ∀ k g, c'.Has k → d.covers k = true → g ∈ ts → k.jobId = g.jobId →
    k.Outranks g
  /-- The tasks are taken job by job, and of each job the newer ones first. -/
  ordered : d.ids = [] → ts.Pairwise Task.Leads
  /-- They are those that are met, sorted in this way, after as many of their job as are to be
  kept. -/
  swept : d.ids = [] → ∃ all, c.listTasks d.scope .any = .ok all ∧
    ts = Deletion.sweep d.keep none 0 ((all.filter d.covers).mergeSort Task.before)
  /-- The same deletion takes nothing more. -/
  again : c'.deleteTasks d = .ok (c', [])

/-- What becomes of a request to delete tasks. -/
structure Deletes (c : Catalog) (d : Deletion) : Prop where
  /-- A request that names neither tasks nor states is refused. -/
  void : d.isVoid = true →
    c.deleteTasks d = .error (.badRequest "delete tasks needs task ids or statuses") ∧
      Change.apply c (.deleteTasks d) = c
  /-- Any other one is done if all tasks in scope can be read. -/
  done : d.isVoid = false →
    (∀ t : Task, d.Reaches t.jobId → (c.bucket t.jobId).get? t.id = some t.row → t.Storable) →
      ∃ ts, c.deleteTasks d = .ok (Change.apply c (.deleteTasks d), ts) ∧
        Pruned c d (Change.apply c (.deleteTasks d)) ts
  /-- If one of them cannot, nothing is deleted. -/
  unread : d.isVoid = false → ∀ t : Task, d.Reaches t.jobId →
    (c.bucket t.jobId).get? t.id = some t.row → ¬t.Storable →
      c.deleteTasks d = .error (.serialization "a stored value cannot be read") ∧
        Change.apply c (.deleteTasks d) = c

section Pruned

variable (hc : c.Faithful) {d : Deletion} {bs : List (List Task)}
  (h : c.readBuckets d.scope .any = .ok bs)
include h

/-- With every bucket read, a deletion succeeds and takes each bucket's doomed tasks. -/
theorem deleteTasks_of_readBuckets (hVoid : d.isVoid = false) :
    c.deleteTasks d = .ok (c.eraseTasks (bs.flatMap d.doomed), bs.flatMap d.doomed) := by
  rw [deleteTasks, chooseTasks, if_neg (Bool.eq_false_iff.mp hVoid), h]
  rfl

include hc

/-- Only stored tasks of a job within reach are chosen. -/
theorem has_of_mem_chosen {t : Task} (ht : t ∈ bs.flatMap d.doomed) :
    c.Has t ∧ d.Reaches t.jobId := by
  obtain ⟨ts, hts, ht⟩ := List.mem_flatMap.mp ht
  obtain ⟨jobId, hIn, hRead⟩ := (readBuckets_ok h).1 ts hts
  obtain ⟨rfl, hHas⟩ := (hc.mem_readBucket_iff hRead).mp (Deletion.mem_of_mem_doomed ht)
  exact ⟨hHas, hIn⟩

/-- What is there after a deletion was there before and was not chosen. -/
theorem has_eraseTasks_iff {t : Task} :
    (c.eraseTasks (bs.flatMap d.doomed)).Has t ↔ c.Has t ∧ t ∉ bs.flatMap d.doomed := by
  rw [Has, get?_eraseTasks]
  constructor
  · rintro ⟨row, hGet, hRead⟩
    rw [ite_eq_iff] at hGet
    obtain ⟨-, hNone⟩ | ⟨hStays, hGet⟩ := hGet
    · cases hNone
    · exact ⟨⟨row, hGet, hRead⟩, fun ht => hStays ⟨t, ht, rfl, rfl⟩⟩
  · rintro ⟨hHas, hStays⟩
    obtain ⟨row, hGet, hRead⟩ := hHas
    refine ⟨row, ?_, hRead⟩
    rw [if_neg, hGet]
    rintro ⟨g, hg, hJob, hId⟩
    -- the row under the keys of a chosen task is the one that it was read from
    obtain rfl := (has_of_mem_chosen hc h hg).1.eq_of_keyOf ⟨row, hGet, hRead⟩ (Prod.ext hJob hId)
    exact hStays hg

/-- What is left of the buckets can be read, and is what was not to be deleted. -/
theorem exists_left : ∃ bs',
    (c.eraseTasks (bs.flatMap d.doomed)).readBuckets d.scope .any = .ok bs' ∧
    ∀ jobId, d.Reaches jobId → ∃ had left, readBucket .any (c.bucket jobId) = .ok had ∧
      readBucket .any ((c.eraseTasks (bs.flatMap d.doomed)).bucket jobId) = .ok left ∧
        ∀ t, t ∈ left ↔ t ∈ had ∧ t ∉ d.doomed had := by
  have hc' := hc.eraseTasks (bs.flatMap d.doomed)
  -- what is left was there before, so it can be read as well
  obtain ⟨bs', hbs'⟩ := hc'.exists_readBuckets_any_iff.mpr fun t hIn hGet => by
    rw [get?_eraseTasks, ite_eq_iff] at hGet
    obtain ⟨-, hNone⟩ | ⟨-, hGet⟩ := hGet
    · cases hNone
    · exact hc.exists_readBuckets_any_iff.mp ⟨bs, h⟩ t hIn hGet
  refine ⟨bs', hbs', fun jobId hIn => ?_⟩
  obtain ⟨had, hHad, -⟩ := (readBuckets_ok h).2 jobId hIn
  obtain ⟨left, hLeft, -⟩ := (readBuckets_ok hbs').2 jobId hIn
  refine ⟨had, left, hHad, hLeft, fun t => ?_⟩
  rw [hc'.mem_readBucket_iff hLeft, hc.mem_readBucket_iff hHad, has_eraseTasks_iff hc h, and_assoc]
  refine and_congr_right fun hJob => and_congr_right fun _ => not_congr ?_
  exact hc.mem_chosen_iff h hIn hHad hJob

omit h in
/-- Of the covered tasks of a job, the newest `keep` are left, or all when there are fewer. -/
theorem countP_left (hStates : d.ids = []) {jobId : String} {had left : List Task}
    (hHad : readBucket .any (c.bucket jobId) = .ok had)
    (hLeft : readBucket .any ((c.eraseTasks (bs.flatMap d.doomed)).bucket jobId) = .ok left)
    (hMem : ∀ t, t ∈ left ↔ t ∈ had ∧ t ∉ d.doomed had) :
    left.countP d.covers = min d.keep (had.countP d.covers) := by
  have hc' := hc.eraseTasks (bs.flatMap d.doomed)
  have hPerm := Deletion.perm_left hStates (hc.nodup_readBucket hHad)
    ((hc'.nodup_readBucket hLeft).of_map _) hMem
  rw [List.countP_eq_length_filter, hPerm.length_eq, List.length_take, Deletion.length_ranked]

/-- A deletion by states keeps the newest ones. -/
theorem outranks_of_left (hStates : d.ids = []) {k g : Task}
    (hk : (c.eraseTasks (bs.flatMap d.doomed)).Has k) (hCovers : d.covers k = true)
    (hg : g ∈ bs.flatMap d.doomed) (hJob : k.jobId = g.jobId) : k.Outranks g := by
  have hc' := hc.eraseTasks (bs.flatMap d.doomed)
  obtain ⟨-, hIn⟩ := has_of_mem_chosen hc h hg
  obtain ⟨-, -, hLefts⟩ := exists_left hc h
  obtain ⟨had, left, hHad, hLeft, hMem⟩ := hLefts g.jobId hIn
  have hKeys := hc.nodup_readBucket hHad
  -- both are in the ranking of their job, the one before the place where it is cut
  have hKept : k ∈ (d.ranked had).take d.keep := by
    have hPerm := Deletion.perm_left hStates hKeys ((hc'.nodup_readBucket hLeft).of_map _) hMem
    rw [← hPerm.mem_iff, List.mem_filter, hc'.mem_readBucket_iff hLeft]
    exact ⟨⟨hJob, hk⟩, hCovers⟩
  have hGone : g ∈ (d.ranked had).drop d.keep := by
    rw [← Deletion.doomed_of_states hStates]
    exact (hc.mem_chosen_iff h hIn hHad rfl).mp hg
  have hRanked : (d.ranked had).Pairwise Task.Outranks :=
    Deletion.pairwise_ranked hKeys fun t ht => hc.jobId_of_mem_readBucket hHad ht
  exact hRanked.rel_of_mem_take_of_mem_drop hKept hGone

/-- The rankings of the jobs, one after another. -/
theorem pairwise_rankings : (bs.flatMap d.ranked).Pairwise Task.Leads := by
  rw [List.pairwise_flatMap]
  refine ⟨fun ts hts => ?_, (hc.pairwise_readBuckets h).imp fun {ts ts'} hLess t ht t' ht' => ?_⟩
  · obtain ⟨jobId, -, hRead⟩ := (readBuckets_ok h).1 ts hts
    have hJob : ∀ t ∈ ts, t.jobId = jobId := fun t ht => hc.jobId_of_mem_readBucket hRead ht
    refine (Deletion.pairwise_ranked (hc.nodup_readBucket hRead) hJob).imp_of_mem
      fun {t t'} ht ht' hOutranks => .inr ⟨?_, hOutranks⟩
    rw [hJob t (Deletion.mem_ranked.mp ht).1, hJob t' (Deletion.mem_ranked.mp ht').1]
  · exact .inl (hLess t (Deletion.mem_ranked.mp ht).1 t' (Deletion.mem_ranked.mp ht').1)

/-- The tasks of a reply come by job, and newest first within a job. -/
theorem pairwise_chosen (hStates : d.ids = []) : (bs.flatMap d.doomed).Pairwise Task.Leads := by
  refine (pairwise_rankings hc h).sublist (List.Sublist.flatMap_right bs fun ts _ => ?_)
  rw [Deletion.doomed_of_states hStates]
  exact List.drop_sublist d.keep _

theorem has_of_mem_rankings {t : Task} (ht : t ∈ bs.flatMap d.ranked) : c.Has t := by
  obtain ⟨ts, hts, ht⟩ := List.mem_flatMap.mp ht
  obtain ⟨jobId, -, hRead⟩ := (readBuckets_ok h).1 ts hts
  exact ((hc.mem_readBucket_iff hRead).mp (Deletion.mem_ranked.mp ht).1).2

/-- The tasks of all jobs, sorted together, are the rankings. -/
theorem mergeSort_flatten :
    (bs.flatten.filter d.covers).mergeSort Task.before = bs.flatMap d.ranked := by
  have hPerm :
      ((bs.flatten.filter d.covers).mergeSort Task.before).Perm (bs.flatMap d.ranked) := by
    refine (List.mergeSort_perm _ _).trans ?_
    rw [List.filter_flatten, ← List.flatMap_def]
    exact List.Perm.flatMap_left bs fun ts _ => (List.mergeSort_perm _ _).symm
  refine hPerm.eq_of_pairwise (fun t t' ht ht' hBefore hAfter => ?_)
    (List.pairwise_mergeSort Task.before_trans Task.before_total _)
    ((pairwise_rankings hc h).imp Task.Leads.before)
  -- two tasks that come before each other are the same
  have hHas : c.Has t := has_of_mem_rankings hc h (hPerm.mem_iff.mp ht)
  exact hHas.eq_of_keyOf (has_of_mem_rankings hc h ht') (Task.keyOf_eq_of_before hBefore hAfter)

/-- One sweep over the rankings laid end to end drops the first `keep` of each job anew. -/
theorem sweep_rankings :
    Deletion.sweep d.keep none 0 (bs.flatMap d.ranked) =
      bs.flatMap fun ts => (d.ranked ts).drop d.keep := by
  rw [List.flatMap_def, ← List.flatMap_map]
  refine Deletion.sweep_flatten ?_ (List.pairwise_map.mpr ?_)
  · rw [List.forall_mem_map]
    intro ts hts
    obtain ⟨jobId, -, hRead⟩ := (readBuckets_ok h).1 ts hts
    exact ⟨jobId, fun t ht => hc.jobId_of_mem_readBucket hRead (Deletion.mem_ranked.mp ht).1⟩
  · refine (hc.pairwise_readBuckets h).imp fun {ts ts'} hLess t ht t' ht' hSame => ?_
    have hJob := hLess t (Deletion.mem_ranked.mp ht).1 t' (Deletion.mem_ranked.mp ht').1
    rw [hSame] at hJob
    exact String.lt_irrefl _ hJob

/-- The tasks of all jobs can as well be sorted together and looked at one after another. -/
theorem chosen_eq_sweep (hStates : d.ids = []) :
    bs.flatMap d.doomed =
      Deletion.sweep d.keep none 0 ((bs.flatten.filter d.covers).mergeSort Task.before) := by
  rw [mergeSort_flatten hc h, sweep_rankings hc h]
  exact congrArg bs.flatMap (funext (Deletion.doomed_of_states hStates))

omit h in
/-- What is left of a bucket is not to be deleted. -/
theorem doomed_left {jobId : String} {had left : List Task}
    (hHad : readBucket .any (c.bucket jobId) = .ok had)
    (hLeft : readBucket .any ((c.eraseTasks (bs.flatMap d.doomed)).bucket jobId) = .ok left)
    (hMem : ∀ t, t ∈ left ↔ t ∈ had ∧ t ∉ d.doomed had) : d.doomed left = [] := by
  by_cases hStates : d.ids = []
  · have hCount := countP_left hc hStates hHad hLeft hMem
    rw [Deletion.doomed_of_states hStates]
    refine List.drop_eq_nil_of_le ?_
    rw [Deletion.length_ranked, hCount]
    exact Nat.min_le_left _ _
  · refine List.eq_nil_iff_forall_not_mem.mpr fun t ht => ?_
    obtain ⟨hStays, hNamed⟩ := (Deletion.mem_doomed_of_ids hStates).mp ht
    obtain ⟨hHas, hNot⟩ := (hMem t).mp hStays
    exact hNot ((Deletion.mem_doomed_of_ids hStates).mpr ⟨hHas, hNamed⟩)

/-- The same deletion a second time finds nothing more to delete. -/
theorem deleteTasks_again (hVoid : d.isVoid = false) :
    (c.eraseTasks (bs.flatMap d.doomed)).deleteTasks d =
      .ok (c.eraseTasks (bs.flatMap d.doomed), []) := by
  obtain ⟨bs', hbs', hLefts⟩ := exists_left hc h
  have hNone : bs'.flatMap d.doomed = [] := by
    refine List.flatMap_eq_nil_iff.mpr fun left hLeft => ?_
    obtain ⟨jobId, hIn, hRead⟩ := (readBuckets_ok hbs').1 left hLeft
    obtain ⟨had, left', hHad, hLeft', hMem⟩ := hLefts jobId hIn
    obtain rfl := Except.ok.inj (hRead.symm.trans hLeft')
    exact doomed_left hc hHad hRead hMem
  rw [deleteTasks_of_readBuckets hbs' hVoid, hNone]
  rfl

/-- **A deletion takes the right tasks.** -/
theorem pruned_of_readBuckets (hVoid : d.isVoid = false) :
    Pruned c d (c.eraseTasks (bs.flatMap d.doomed)) (bs.flatMap d.doomed) where
  jobs := jobs_eraseTasks c _
  rows jobId id := get?_eraseTasks _ jobId id
  stored t ht := has_of_mem_chosen hc h ht
  once := (hc.keys_of_deleteTasks (deleteTasks_of_readBuckets h hVoid)).1
  named hNamed t := by
    constructor
    · intro ht
      obtain ⟨ts, -, htd⟩ := List.mem_flatMap.mp ht
      exact ⟨has_of_mem_chosen hc h ht, ((Deletion.mem_doomed_of_ids hNamed).mp htd).2⟩
    -- a task that is there and named is in a bucket of the scope, so it is chosen from there
    · rintro ⟨⟨hHas, hIn⟩, hId⟩
      obtain ⟨had, hHad, -⟩ := (readBuckets_ok h).2 t.jobId hIn
      rw [hc.mem_chosen_iff h hIn hHad rfl, Deletion.mem_doomed_of_ids hNamed,
        hc.mem_readBucket_iff hHad]
      exact ⟨⟨rfl, hHas⟩, hId⟩
  covered hStates t ht := by
    obtain ⟨ts, -, htd⟩ := List.mem_flatMap.mp ht
    rw [Deletion.doomed_of_states hStates] at htd
    exact (Deletion.mem_ranked.mp (List.mem_of_mem_drop htd)).2
  counted hStates jobId hIn := by
    obtain ⟨-, -, hLefts⟩ := exists_left hc h
    obtain ⟨had, left, hHad, hLeft, hMem⟩ := hLefts jobId hIn
    exact ⟨had, left, hHad, hLeft, countP_left hc hStates hHad hLeft hMem⟩
  newest hStates _ _ hk hCovers hg hJob := outranks_of_left hc h hStates hk hCovers hg hJob
  ordered hStates := pairwise_chosen hc h hStates
  swept hStates := ⟨bs.flatten, by rw [listTasks, h]; rfl, chosen_eq_sweep hc h hStates⟩
  again := deleteTasks_again hc h hVoid

end Pruned

/-- A task in scope that cannot be read stands in the way of a deletion. -/
theorem Faithful.deleteTasks_of_not_storable (hc : c.Faithful) {d : Deletion}
    (hVoid : d.isVoid = false) {t : Task} (hIn : d.Reaches t.jobId)
    (hGet : (c.bucket t.jobId).get? t.id = some t.row) (hNot : ¬t.Storable) :
    c.deleteTasks d = .error (.serialization "a stored value cannot be read") := by
  rw [deleteTasks, chooseTasks, if_neg (Bool.eq_false_iff.mp hVoid)]
  cases hRead : c.readBuckets d.scope .any with
  | ok bs => exact absurd (hc.exists_readBuckets_any_iff.mp ⟨bs, hRead⟩ t hIn hGet) hNot
  | error e =>
    rw [readBuckets_error hRead]
    rfl

/-- A deletion that fails leaves the catalog as it was. -/
theorem apply_of_deleteTasks_error {d : Deletion} {e : Fault} (h : c.deleteTasks d = .error e) :
    Change.apply c (.deleteTasks d) = c := by
  rw [Change.apply, h]

/-- **Deletion of tasks.** After any sequence of changes, `delete_tasks` takes of each job in its
scope the tasks in its states but the newest ones, or the tasks that it names, and says which these
were; only if one of the tasks in scope cannot be read it takes nothing. -/
theorem deletes_after (changes : List Change) (d : Deletion) : Deletes (after changes) d := by
  have hc := Faithful.after changes
  refine ⟨fun hVoid => ?_, fun hVoid hStorable => ?_, fun hVoid t hIn hGet hNot => ?_⟩
  -- a request that names nothing is refused before anything is read
  · have hRefused : (after changes).deleteTasks d =
        .error (.badRequest "delete tasks needs task ids or statuses") := by
      rw [deleteTasks, chooseTasks, if_pos hVoid]
      rfl
    exact ⟨hRefused, apply_of_deleteTasks_error hRefused⟩
  -- every task in scope can be read, so the doomed ones are found
  · obtain ⟨bs, hbs⟩ := hc.exists_readBuckets_any_iff.mpr hStorable
    have hDone := deleteTasks_of_readBuckets hbs hVoid
    have hApply : Change.apply (after changes) (.deleteTasks d) =
        (after changes).eraseTasks (bs.flatMap d.doomed) := by
      rw [Change.apply, hDone]
    rw [hApply]
    exact ⟨bs.flatMap d.doomed, hDone, pruned_of_readBuckets hc hbs hVoid⟩
  -- one that cannot be read stops the choice
  · have hFailed := hc.deleteTasks_of_not_storable hVoid hIn hGet hNot
    exact ⟨hFailed, apply_of_deleteTasks_error hFailed⟩

/-- A finished task with a progress without bounds. -/
def boundlessTask : Task := { doneTask "a" "t" with progress := .infinity .single false }

/-- Two finished tasks of a job, one of which cannot be read: a `delete_tasks` that should take both
takes none. -/
theorem not_deleted :
    let c := after [.putTask boundlessTask, .putTask (doneTask "a" "u")]
    let d : Deletion := { scope := "a", statuses := [.finished] }
    c.deleteTasks d = .error (.serialization "a stored value cannot be read") ∧
      (Change.apply c (.deleteTasks d)).Has (doneTask "a" "u") := by
  intro c d
  -- an infinite progress is written as `null`, which is no number
  have hNot : ¬boundlessTask.Storable := by
    intro hStorable
    have hFinite : (Decimal.Binary.infinity .single false).isFinite = true := hStorable.1.1
    exact absurd hFinite (by decide)
  have hFailed : c.deleteTasks d = .error (.serialization "a stored value cannot be read") :=
    (Faithful.after _).deleteTasks_of_not_storable (t := boundlessTask) rfl (.inr rfl) rfl hNot
  refine ⟨hFailed, ?_⟩
  rw [apply_of_deleteTasks_error hFailed]
  exact ⟨(doneTask "a" "u").row, rfl, exact_putTask (by decide +kernel) rfl rfl⟩

end Catalog

end Taskyard
