import Taskyard.Proofs.Catalog.Calls

/-!
# Catalog — whose tasks are read and deleted

An identifier of a job is also a scope, and there the empty one stands for all jobs. So the tasks
that are attached to a job, and those that a deletion in its scope takes, are its own unless its
identifier is empty. To a job without an identifier the tasks of all jobs are attached, and a
deletion in its scope reaches them all.

Main definitions and results:

* `Catalog.Yields` — a choice among the tasks of each bucket takes some of one job.
* `Catalog.Faithful.own_iff` — when all that is chosen in a scope is of the job that it names.
* `Catalog.Apart` — when what is read and deleted for a job is its own; `Faithful.apart` for all
  catalogs.
-/

namespace Taskyard

namespace Catalog

/-- A choice among the tasks of a bucket in a state takes some from the bucket of a job. -/
def Yields (c : Catalog) (status : TaskStatus) (f : List Task → List Task) (jobId : String) :
    Prop :=
  ∃ ts, readBucket status (c.bucket jobId) = .ok ts ∧ f ts ≠ []

variable {c : Catalog}

/-! ## Buckets -/

namespace Faithful

variable (hc : c.Faithful)
include hc

/-- Every task of a bucket belongs to the job the bucket is for. -/
theorem jobId_of_mem_readBucket {jobId : String} {status : TaskStatus} {ts : List Task} {t : Task}
    (h : readBucket status (c.bucket jobId) = .ok ts) (ht : t ∈ ts) : t.jobId = jobId := by
  obtain ⟨r, hr, hRead⟩ := (mapM_ok h).1 t ht
  obtain ⟨id, hGet⟩ := (Dict.mem_values_iff _ _).mp (List.mem_of_mem_filter hr)
  -- the row is that of a task of the job, and is read as one
  obtain ⟨t', rfl, rfl, rfl⟩ := hc.task hGet
  exact (Task.of_read_row hRead).1

end Faithful

/-- The buckets that are read in a scope are those of its jobs, as far as there is something in
them. -/
theorem readBuckets_ok {scope : String} {status : TaskStatus} {bs : List (List Task)}
    (h : c.readBuckets scope status = .ok bs) :
    (∀ ts ∈ bs, ∃ jobId, (scope = "" ∨ jobId = scope) ∧
      readBucket status (c.bucket jobId) = .ok ts) ∧
    ∀ jobId, (scope = "" ∨ jobId = scope) →
      ∃ ts, readBucket status (c.bucket jobId) = .ok ts ∧ (ts ≠ [] → ts ∈ bs) := by
  rw [readBuckets, bucketsIn] at h
  obtain ⟨hFrom, hTo⟩ := mapM_ok h
  by_cases hScope : scope = ""
  · rw [if_pos hScope] at hFrom hTo
    refine ⟨fun ts hts => ?_, fun jobId _ => ?_⟩
    · obtain ⟨b, hb, hRead⟩ := hFrom ts hts
      obtain ⟨jobId, hGet⟩ := (Dict.mem_values_iff _ _).mp hb
      exact ⟨jobId, .inl hScope, (bucket_of_get? hGet).symm ▸ hRead⟩
    · cases hGet : c.buckets.get? jobId with
      | some b =>
        obtain ⟨ts, hts, hRead⟩ := hTo b ((Dict.mem_values_iff _ _).mpr ⟨jobId, hGet⟩)
        exact ⟨ts, (bucket_of_get? hGet).symm ▸ hRead, fun _ => hts⟩
      -- a job that has no bucket has no tasks
      | none =>
        refine ⟨[], ?_, fun hSome => absurd rfl hSome⟩
        rw [bucket, hGet]
        rfl
  · rw [if_neg hScope] at hFrom hTo
    refine ⟨fun ts hts => ?_, fun jobId hIn => ?_⟩
    · obtain ⟨b, hb, hRead⟩ := hFrom ts hts
      rw [List.mem_singleton.mp hb] at hRead
      exact ⟨scope, .inr rfl, hRead⟩
    · obtain rfl := hIn.resolve_left hScope
      obtain ⟨ts, hts, hRead⟩ := hTo _ (List.mem_singleton_self _)
      exact ⟨ts, hRead, fun _ => hts⟩

/-- A choice that succeeds has read every bucket within its scope. -/
theorem chooseTasks_ok {d : Deletion} {ts : List Task} (h : c.chooseTasks d = .ok ts) :
    ∃ bs, c.readBuckets d.scope .any = .ok bs ∧ ts = bs.flatMap d.doomed := by
  rw [chooseTasks] at h
  split at h
  · cases h
  · cases hRead : c.readBuckets d.scope .any with
    | error e =>
      rw [hRead] at h
      cases h
    | ok bs =>
      rw [hRead] at h
      exact ⟨bs, rfl, (Except.ok.inj h).symm⟩

/-- A deletion where one task is in scope, and is to be deleted. -/
theorem deleteTasks_of_one {d : Deletion} {b : Dict TaskRow} {t : Task} (hNamed : d.isVoid = false)
    (hScope : c.bucketsIn d.scope = [b]) (hRead : readBucket .any b = .ok [t])
    (hDoomed : d.doomed [t] = [t]) : c.deleteTasks d = .ok (c.eraseTasks [t], [t]) := by
  have hBuckets : c.readBuckets d.scope .any = .ok [[t]] := by
    rw [readBuckets, hScope, List.mapM_cons, hRead]
    rfl
  rw [deleteTasks, chooseTasks, if_neg (Bool.eq_false_iff.mp hNamed), hBuckets]
  show Except.ok (c.eraseTasks (d.doomed [t] ++ []), d.doomed [t] ++ []) = _
  rw [hDoomed, List.append_nil]

namespace Faithful

variable (hc : c.Faithful) {scope : String} {status : TaskStatus} {bs : List (List Task)}
  {f : List Task → List Task}
include hc

/-- What is taken from the buckets holds a task of a job exactly if the scope reaches the job
and its bucket yields one. -/
theorem exists_chosen_iff (hSub : ∀ ts, ∀ t ∈ f ts, t ∈ ts)
    (h : c.readBuckets scope status = .ok bs) (jobId : String) :
    (∃ t ∈ bs.flatMap f, t.jobId = jobId) ↔
      (scope = "" ∨ jobId = scope) ∧ c.Yields status f jobId := by
  obtain ⟨hFrom, hTo⟩ := readBuckets_ok h
  constructor
  · rintro ⟨t, ht, rfl⟩
    obtain ⟨ts, hts, ht⟩ := List.mem_flatMap.mp ht
    -- the bucket that the task was read from is that of its job
    obtain ⟨jobId, hIn, hRead⟩ := hFrom ts hts
    obtain rfl := hc.jobId_of_mem_readBucket hRead (hSub ts t ht)
    exact ⟨hIn, ts, hRead, List.ne_nil_of_mem ht⟩
  · rintro ⟨hIn, ts, hRead, hSome⟩
    obtain ⟨t, ht⟩ := List.exists_mem_of_ne_nil _ hSome
    obtain ⟨ts', hRead', hMem⟩ := hTo jobId hIn
    obtain rfl := Except.ok.inj (hRead.symm.trans hRead')
    have hts : ts ∈ bs := hMem (List.ne_nil_of_mem (hSub ts t ht))
    exact ⟨t, List.mem_flatMap.mpr ⟨ts, hts, ht⟩, hc.jobId_of_mem_readBucket hRead (hSub ts t ht)⟩

/-- **All that is chosen in the scope of a job is its own**, unless its identifier is empty and
something is chosen of another job. -/
theorem own_iff (hSub : ∀ ts, ∀ t ∈ f ts, t ∈ ts)
    (h : c.readBuckets scope status = .ok bs) :
    (∀ t ∈ bs.flatMap f, t.jobId = scope) ↔
      scope ≠ "" ∨ ∀ jobId ≠ "", ¬c.Yields status f jobId := by
  have hChosen := hc.exists_chosen_iff hSub h
  constructor
  · intro hOwn
    by_cases hScope : scope = ""
    · refine .inr fun jobId hOther hYields => hOther ?_
      obtain ⟨t, ht, hJob⟩ := (hChosen jobId).mpr ⟨.inl hScope, hYields⟩
      rw [← hJob, hOwn t ht, hScope]
    · exact .inl hScope
  · intro hCase t ht
    obtain ⟨hIn, hYields⟩ := (hChosen t.jobId).mp ⟨t, ht, rfl⟩
    rcases hIn with hEmpty | hOwn
    · -- in the scope of all jobs, only tasks without a job can have been chosen
      by_contra hOther
      exact hCase.resolve_left (not_not_intro hEmpty) t.jobId (hEmpty ▸ hOther) hYields
    · exact hOwn

/-- A deletion leaves the bucket of a job exactly if it takes no task of this job. -/
theorem bucket_eq_iff {d : Deletion} {c' : Catalog} {ts : List Task}
    (h : c.deleteTasks d = .ok (c', ts)) (jobId : String) :
    c'.bucket jobId = c.bucket jobId ↔ ∀ t ∈ ts, t.jobId ≠ jobId := by
  obtain ⟨hChosen, rfl⟩ := deleteTasks_eq_ok h
  constructor
  · rintro hSame t ht rfl
    -- a task that was deleted was there, and is there no more
    have hGone : ((c.eraseTasks ts).bucket t.jobId).get? t.id = none := by
      rw [get?_eraseTasks, if_pos ⟨t, ht, rfl, rfl⟩]
    obtain ⟨⟨row, hRow, -⟩, -⟩ := row_of_chosen hc hChosen ht
    rw [hSame, hRow] at hGone
    cases hGone
  · intro hNone
    refine Dict.ext_get? fun id => ?_
    rw [get?_eraseTasks, if_neg]
    rintro ⟨t, ht, hJob, -⟩
    exact hNone t ht hJob

end Faithful

/-! ## Each task once -/

/-- A relation between the results of two elements holds throughout a `mapM`. -/
theorem pairwise_of_mapM {α β : Type} {R : β → β → Prop} {f : α → Except Fault β} {l : List α}
    {bs : List β} (h : l.mapM f = .ok bs)
    (hl : l.Pairwise fun a a' => ∀ b b', f a = .ok b → f a' = .ok b' → R b b') : bs.Pairwise R := by
  induction l generalizing bs with
  | nil =>
    cases h
    exact .nil
  | cons a l ih =>
    obtain ⟨hHead, hTail⟩ := List.pairwise_cons.mp hl
    obtain ⟨b, bs', hFirst, hRest, rfl⟩ := mapM_cons_eq_ok_iff.mp h
    refine List.pairwise_cons.mpr ⟨fun b' hb' => ?_, ih hRest hTail⟩
    obtain ⟨a', ha', hOf⟩ := (mapM_ok hRest).1 b' hb'
    exact hHead a' ha' b b' hFirst hOf

/-- The job and the identifier of a task, which name its row. -/
def keyOf (t : Task) : String × String := (t.jobId, t.id)

theorem nodup_doomed {d : Deletion} {ts : List Task} (h : (ts.map keyOf).Nodup) :
    ((d.doomed ts).map keyOf).Nodup := by
  rw [Deletion.doomed]
  split
  · have hCovered : ((ts.filter d.covers).map keyOf).Nodup := h.sublist (List.filter_sublist.map _)
    -- sorting and dropping the first ones keep every task apart
    have hSorted := ((List.mergeSort_perm (ts.filter d.covers) Task.newerThan).map keyOf).nodup_iff
    exact (hSorted.mpr hCovered).sublist ((List.drop_sublist _ _).map _)
  · exact h.sublist (List.filter_sublist.map _)

namespace Faithful

variable (hc : c.Faithful)
include hc

theorem nodup_readBucket {jobId : String} {status : TaskStatus} {ts : List Task}
    (h : readBucket status (c.bucket jobId) = .ok ts) : (ts.map keyOf).Nodup := by
  rw [List.Nodup, List.pairwise_map]
  refine pairwise_of_mapM h (List.Pairwise.filter _ ?_)
  rw [Dict.values, List.pairwise_map]
  -- rows under different identifiers hold tasks with these
  refine (c.bucket jobId).sorted.imp_of_mem fun {e e'} he he' hLess t t' ht ht' hSame => ?_
  obtain ⟨t₀, -, hId, hRow⟩ := hc.task (Dict.lookup_of_mem (c.bucket jobId).sorted he)
  obtain ⟨t₀', -, hId', hRow'⟩ := hc.task (Dict.lookup_of_mem (c.bucket jobId).sorted he')
  rw [← hRow] at ht
  rw [← hRow'] at ht'
  have hEq : t.id = t'.id := congrArg Prod.snd hSame
  rw [(Task.of_read_row ht).2, (Task.of_read_row ht').2, hId, hId'] at hEq
  rw [hEq] at hLess
  exact String.lt_irrefl _ hLess

/-- The buckets are read in the order of their jobs. -/
theorem pairwise_readBuckets {scope : String} {status : TaskStatus} {bs : List (List Task)}
    (h : c.readBuckets scope status = .ok bs) :
    bs.Pairwise fun ts ts' => ∀ t ∈ ts, ∀ t' ∈ ts', t.jobId < t'.jobId := by
  refine pairwise_of_mapM h ?_
  rw [bucketsIn]
  -- all buckets are in the order of their keys, and with a scope there is only one
  split
  · rw [Dict.values, List.pairwise_map]
    refine c.buckets.sorted.imp_of_mem fun {e e'} he he' hLess ts ts' hts hts' t ht t' ht' => ?_
    have hBucket : ∀ e ∈ c.buckets.entries, e.2 = c.bucket e.1 := by
      intro e he
      exact (bucket_of_get? (Dict.lookup_of_mem c.buckets.sorted he)).symm
    rw [hBucket e he] at hts
    rw [hBucket e' he'] at hts'
    rw [hc.jobId_of_mem_readBucket hts ht, hc.jobId_of_mem_readBucket hts' ht']
    exact hLess
  · exact List.pairwise_singleton _ _

/-- **A deletion takes each task once**, and what it takes is what was there before and is not there
after it. -/
theorem keys_of_deleteTasks {d : Deletion} {c' : Catalog} {ts : List Task}
    (h : c.deleteTasks d = .ok (c', ts)) :
    (ts.map keyOf).Nodup ∧ ∀ jobId id, (jobId, id) ∈ ts.map keyOf ↔
      (c.bucket jobId).get? id ≠ none ∧ (c'.bucket jobId).get? id = none := by
  obtain ⟨hChosen, rfl⟩ := deleteTasks_eq_ok h
  constructor
  · -- tasks of one bucket differ in their identifiers, those of two in their jobs
    obtain ⟨bs, hRead, rfl⟩ := chooseTasks_ok hChosen
    rw [List.map_flatMap, List.Nodup, List.pairwise_flatMap]
    have hBuckets := hc.pairwise_readBuckets hRead
    refine ⟨fun ts hts => ?_, hBuckets.imp fun {ts ts'} hOther k hk k' hk' => ?_⟩
    · obtain ⟨jobId, -, hBucket⟩ := (readBuckets_ok hRead).1 ts hts
      exact nodup_doomed (hc.nodup_readBucket hBucket)
    · obtain ⟨t, ht, rfl⟩ := List.mem_map.mp hk
      obtain ⟨t', ht', rfl⟩ := List.mem_map.mp hk'
      have hLess := hOther t (Deletion.mem_of_mem_doomed ht) t' (Deletion.mem_of_mem_doomed ht')
      intro hSame
      have hJob : t.jobId = t'.jobId := congrArg Prod.fst hSame
      rw [hJob] at hLess
      exact String.lt_irrefl _ hLess
  · intro jobId id
    rw [get?_eraseTasks, List.mem_map]
    constructor
    -- what is taken was in the bucket, and what is gone was taken
    · rintro ⟨t, ht, hKey⟩
      obtain ⟨rfl, rfl⟩ := Prod.mk.inj hKey
      obtain ⟨⟨row, hRow, -⟩, -⟩ := row_of_chosen hc hChosen ht
      exact ⟨by simp [hRow], if_pos ⟨t, ht, rfl, rfl⟩⟩
    · rintro ⟨hThere, hGone⟩
      by_contra hNone
      rw [if_neg fun ⟨t, ht, hJob, hId⟩ => hNone ⟨t, ht, Prod.ext hJob hId⟩] at hGone
      exact hThere hGone

end Faithful

/-! ## Attached tasks -/

/-- The tasks attached to a job are those of the buckets its id reaches, or none. -/
theorem tasks_of_attach {load : TaskStatus} {j j' : Job} (hTasks : j.tasks = [])
    (h : c.attach load j = .ok j') :
    j'.id = j.id ∧ ((load = .unknown ∧ j'.tasks = []) ∨
      ∃ bs, c.readBuckets j.id load = .ok bs ∧ j'.tasks = bs.flatMap fun ts => ts) := by
  rw [attach] at h
  split at h
  -- `unknown` reads nothing
  · next hNone =>
    cases h
    exact ⟨rfl, .inl ⟨hNone, hTasks⟩⟩
  · rw [listTasks] at h
    cases hRead : c.readBuckets j.id load with
    | error e =>
      rw [hRead] at h
      cases h
    | ok bs =>
      rw [hRead] at h
      cases h
      exact ⟨rfl, .inr ⟨bs, rfl, List.flatMap_id.symm⟩⟩

/-- A job of a listing was read from a row, and its tasks were attached. -/
theorem exists_attach_of_mem_listJobs {l : JobListing} {js : List Job} {j : Job}
    (h : c.listJobs l = .ok js) (hj : j ∈ js) :
    ∃ r ∈ c.jobs.values, ∃ j₀, r.read = .ok j₀ ∧ c.attach l.load j₀ = .ok j := by
  rw [listJobs] at h
  cases hRows : (c.jobRows l.owner).mapM (c.listed l) with
  | error e =>
    rw [hRows] at h
    cases h
  | ok os =>
    rw [hRows] at h
    cases h
    -- a job that is shown comes from a row that was read and admitted
    obtain ⟨o, ho, hSome⟩ := List.mem_filterMap.mp hj
    obtain ⟨r, hr, hListed⟩ := (mapM_ok hRows).1 o ho
    obtain rfl : o = some j := hSome
    refine ⟨r, List.mem_of_mem_filter hr, ?_⟩
    cases hRead : r.read with
    | error e =>
      rw [listed, hRead] at hListed
      cases hListed
    | ok j₀ =>
      refine ⟨j₀, rfl, ?_⟩
      rw [listed_of_read hRead] at hListed
      split at hListed
      · cases hAttach : c.attach l.load j₀ with
        | error e =>
          rw [hAttach] at hListed
          cases hListed
        | ok j' =>
          rw [hAttach] at hListed
          have hShown : (if (l.skipsEmpty && j'.tasks.isEmpty) = true then none else some j') =
              some j := Except.ok.inj hListed
          split at hShown
          · cases hShown
          · rw [Option.some.inj hShown]
      · cases hListed

/-! ## Jobs apart -/

/-- When what is read and deleted for a job is its own. -/
structure Apart (c : Catalog) : Prop where
  /-- The tasks that are read with a job. -/
  getJob {id : String} {load : TaskStatus} {j : Job} (h : c.getJob id load = .ok j) :
    j.id = id ∧ ((∀ t ∈ j.tasks, t.jobId = id) ↔
      id ≠ "" ∨ load = .unknown ∨ ∀ jobId ≠ "", ¬c.Yields load (fun ts => ts) jobId)
  /-- The tasks that are read with the jobs of a listing. -/
  listJobs {l : JobListing} {js : List Job} (h : c.listJobs l = .ok js) {j : Job} (hj : j ∈ js) :
    (∀ t ∈ j.tasks, t.jobId = j.id) ↔
      j.id ≠ "" ∨ l.load = .unknown ∨ ∀ jobId ≠ "", ¬c.Yields l.load (fun ts => ts) jobId
  /-- The tasks that a deletion in the scope of a job takes. -/
  deleteTasks {d : Deletion} {c' : Catalog} {ts : List Task} (h : c.deleteTasks d = .ok (c', ts)) :
    (∀ jobId ≠ d.scope, c'.bucket jobId = c.bucket jobId) ↔
      d.scope ≠ "" ∨ ∀ jobId ≠ "", ¬c.Yields .any d.doomed jobId

namespace Faithful

variable (hc : c.Faithful)
include hc

/-- A job has only tasks of its own attached unless its id is the wildcard and another job has
some. -/
theorem own_attached_iff {load : TaskStatus} {j j' : Job} (hTasks : j.tasks = [])
    (h : c.attach load j = .ok j') :
    (∀ t ∈ j'.tasks, t.jobId = j.id) ↔
      j.id ≠ "" ∨ load = .unknown ∨ ∀ jobId ≠ "", ¬c.Yields load (fun ts => ts) jobId := by
  rcases (tasks_of_attach hTasks h).2 with ⟨hNone, hEmpty⟩ | ⟨bs, hRead, hAll⟩
  · rw [hEmpty]
    exact ⟨fun _ => .inr (.inl hNone), fun _ _ ht => nomatch ht⟩
  · rw [hAll]
    by_cases hLoad : load = .unknown
    · -- the state in which nothing is attached is not read
      rw [attach, if_pos hLoad] at h
      cases h
      rw [hTasks] at hAll
      rw [← hAll]
      exact ⟨fun _ => .inr (.inl hLoad), fun _ _ ht => nomatch ht⟩
    · simp only [hLoad, false_or]
      exact hc.own_iff (f := fun ts => ts) (fun _ _ ht => ht) hRead

/-- **Jobs with an identifier have their tasks to themselves**, and a job without one has them
exactly while no other job has any. -/
theorem apart : c.Apart where
  getJob {id load j} h := by
    rw [getJob, findJob] at h
    cases hGet : c.jobs.get? id with
    | none =>
      rw [hGet] at h
      cases h
    | some r =>
      rw [hGet] at h
      obtain ⟨j₁, rfl, rfl⟩ := hc.job hGet
      cases hRead : j₁.row.read with
      | error e =>
        dsimp only at h
        rw [hRead] at h
        cases h
      | ok j₀ =>
        dsimp only at h
        rw [hRead] at h
        -- the row of a job holds no tasks, so all that it is answered with are attached
        obtain ⟨hId, hTasks⟩ := Job.of_read_row hRead
        rw [← hId]
        exact ⟨(tasks_of_attach hTasks h).1, hc.own_attached_iff hTasks h⟩
  listJobs {l js} h j hj := by
    obtain ⟨r, hr, j₀, hRead, hAttach⟩ := exists_attach_of_mem_listJobs h hj
    obtain ⟨id, hGet⟩ := (Dict.mem_values_iff _ _).mp hr
    obtain ⟨j₁, rfl, rfl⟩ := hc.job hGet
    have hTasks := (Job.of_read_row hRead).2
    rw [(tasks_of_attach hTasks hAttach).1]
    exact hc.own_attached_iff hTasks hAttach
  deleteTasks {d c' ts} h := by
    have hBuckets := hc.bucket_eq_iff h
    obtain ⟨bs, hRead, rfl⟩ := chooseTasks_ok (deleteTasks_eq_ok h).1
    rw [← hc.own_iff (fun _ _ ht => Deletion.mem_of_mem_doomed ht) hRead]
    constructor
    · intro hSame t ht
      by_contra hOther
      exact (hBuckets t.jobId).mp (hSame t.jobId hOther) t ht rfl
    · intro hOwn jobId hOther
      exact (hBuckets jobId).mpr fun t ht hJob => hOther (hJob.symm.trans (hOwn t ht))

end Faithful

end Catalog

end Taskyard
