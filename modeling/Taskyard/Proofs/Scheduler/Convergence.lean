import Taskyard.Proofs.Catalog.Readable
import Taskyard.Proofs.Scheduler.Changes
import Taskyard.Proofs.Scheduler.References

/-!
# Scheduler — the loaded jobs follow the catalog

The loaded jobs are a copy of the catalog that is brought up to date by changes that are told after
they were written, and added to by triggers for jobs that are not loaded. Changes carry no number,
so the one that was told last decides. The copy of a job is that of the catalog whenever every
change of it was heard of and the one that was told last is the newest. For that it is enough that
since the job was last written its newest change was told after those before it. Whatever went wrong
before is mended then.

One thing has to be asked for: a listener that has read a definition for a trigger and is about to
load it may do so after a newer change was heard of. Where that happens, or where changes cross, the
copy may stay wrong until the job is written again.

Main definitions and results:

* `Current` — a loaded job is the one that a row holds.
* `Machine.LoadsInTime`, `Machine.TellsInOrder` — the two provisos.
* `Machine.toldOf`, `Machine.Decided` — the changes of a job that a run tells, and that the last of
  them has decided.
* `Machine.Followed`, `Machine.Newest`, `Machine.Tracked` — what one step after another keeps.
* `Machine.job_current` — the change that was told last decides, and in order it is the newest.
* `Machine.job_outdated` — two runs without the provisos.
-/

namespace Taskyard

/-- A loaded job is the one that a row holds: the row was made from it by `put_job`, or it was read
from the row; or there is neither. -/
inductive Current : Option Job → Option JobRow → Prop
  | absent : Current none none
  | saved (j : Job) : Current (some j) (some j.row)
  | read {j : Job} {r : JobRow} (h : r.read = .ok j) : Current (some j) (some r)

namespace JobChange

/-- What a change says of its job: that it is gone, or how it is loaded. -/
def outcome (c : JobChange) : Option Job :=
  match c.removed with
  | some _ => none
  | none => c.updated.map Job.withoutTasks

/-- A change makes of the loaded job what it says. -/
theorem get?_applied {c : JobChange} {id : String} (hSubject : c.subject = some id)
    (jobs : Dict Job) : (c.applied jobs).get? id = c.outcome := by
  rw [applied, outcome]
  cases hRemoved : c.removed with
  | some removed =>
    rw [subject, hRemoved] at hSubject
    -- gone: the job is dropped
    obtain rfl : removed = id := Option.some.inj hSubject
    show (jobs.erase removed).get? removed = none
    rw [Dict.get?_erase, if_pos rfl]
  | none =>
    cases hUpdated : c.updated with
    | some j =>
      rw [subject, hRemoved, hUpdated] at hSubject
      -- saved: the job told takes its place
      have hId : j.id = id := Option.some.inj hSubject
      show (jobs.insert j.id j.withoutTasks).get? id = some j.withoutTasks
      rw [Dict.get?_insert, if_pos hId]
    | none =>
      rw [subject, hRemoved, hUpdated] at hSubject
      cases hSubject

/-- What a change says is what the catalog holds, if the change tells that. -/
theorem current_outcome {c : JobChange} {row : Option JobRow} (h : c.Describes row) :
    Current c.outcome row := by
  rcases h with ⟨hSome, rfl⟩ | ⟨hRemoved, j, hUpdated, rfl⟩
  · obtain ⟨removed, hRemoved⟩ := Option.isSome_iff_exists.mp hSome
    rw [outcome, hRemoved]
    exact .absent
  · rw [outcome, hRemoved, hUpdated]
    exact .saved j.withoutTasks

end JobChange

namespace Catalog

variable {c : Catalog}

/-- Without tasks, reading a job is reading its row. -/
theorem getJob_unknown {id : String} {j : Job} (h : c.getJob id .unknown = .ok j) :
    ∃ r, c.jobs.get? id = some r ∧ r.read = .ok j := by
  rw [getJob, findJob] at h
  cases hRow : c.jobs.get? id with
  | none =>
    rw [hRow] at h
    cases h
  | some r =>
    rw [hRow] at h
    cases hRead : r.read with
    | error e =>
      dsimp only at h
      rw [hRead] at h
      cases h
    | ok j' =>
      dsimp only at h
      rw [hRead] at h
      exact ⟨r, rfl, by rw [hRead]; exact h⟩

/-- A job that is read has the identifier that its row is kept under. -/
theorem id_of_read {id : String} {r : JobRow} {j : Job} (h : ∃ j : Job, j.id = id ∧ j.row = r)
    (hRead : r.read = .ok j) : j.id = id := by
  obtain ⟨j', rfl, rfl⟩ := h
  exact (Job.of_read_row hRead).1

/-- A faithful catalog answers with a job of the identifier that was asked for. -/
theorem Faithful.id_of_getJob {id : String} {j : Job} (h : c.Faithful)
    (hRead : c.getJob id .unknown = .ok j) : j.id = id := by
  obtain ⟨r, hRow, hRow'⟩ := getJob_unknown hRead
  exact id_of_read (h.job hRow) hRow'

end Catalog

namespace Machine

/-! ## What is still to be heard -/

/-- The changes of a job that the listener has still to hear of: those on the topic, and behind them
those that are still to be told. -/
def pending (m : Machine) (id : String) : List JobChange :=
  (m.changes.unread listener).filter (fun c => c.subject = some id) ++ owing id m.floor.calls

/-- Nothing that is out of date is loaded over the last change of a job: when the only one that is
left is heard of, no listener has read a definition of the job for a trigger that is not the one in
the catalog any more. -/
def LoadsInTime (id : String) (m : Machine) : MachineStep → Prop
  | .listen .jobs => ∀ t c, m.changes.receive listener = (t, .message c) → m.pending id = [c] →
      ∀ ch trigger j, m.ears.get ch = .loading trigger j → j.id = id →
        Current (some j) (m.row? id)
  | _ => True

/-- The newest change of a job is told when those before it were. -/
def TellsInOrder (id : String) (m : Machine) : MachineStep → Prop
  | .announce n => ∀ c rest, m.floor.calls[n]? = some (.job c :: rest) → c.subject = some id →
      owing id (m.floor.calls.take n) = [] ∨ owing id (rest :: m.floor.calls.drop (n + 1)) ≠ []
  | _ => True

/-- The changes of a job that are published in a run, the earliest first. -/
abbrev toldOf (u : Setup) (id : String) (m : Machine) (ss : List MachineStep) : List JobChange :=
  m.trace u (tellsOf id) ss

section Told

variable {id : String} {m m' : Machine} {n : Nat} {c : JobChange} {rest : List Announcement}

theorem tellsOf_announce (hCall : m.floor.calls[n]? = some (.job c :: rest)) :
    m.tellsOf id (.announce n) = if c.subject = some id then [c] else [] := by
  simp only [tellsOf, posts, hCall]
  by_cases hSubject : c.subject = some id <;> simp [Post.about, hSubject]

/-- A change that is told goes to the end of the topic. -/
theorem unread_of_told (id : String) (hTopic : m.changes.Serves listener)
    (hServes : m.serves (.announce n) = true)
    (hCall : m.floor.calls[n]? = some (.job c :: rest))
    (hChanges : m'.changes = (m.changes.publish c).1) :
    m'.changes.Serves listener ∧
      (m'.changes.unread listener).filter (fun c => c.subject = some id) =
        (m.changes.unread listener).filter (fun c => c.subject = some id) ++
          m.tellsOf id (.announce n) := by
  have hFree : (m.changes.unread listener).length < m.changes.slots := by
    simpa [serves, hCall] using hServes
  have hOne : [c].filter (fun c => c.subject = some id) =
      if c.subject = some id then [c] else [] := by
    by_cases hSubject : c.subject = some id <;> simp [hSubject]
  rw [hChanges]
  refine ⟨hTopic.publish c, ?_⟩
  rw [Topic.unread_publish hTopic hFree, List.filter_append, hOne, tellsOf_announce hCall]

/-- A change that is heard of was the first on the topic. -/
theorem unread_of_heard (id : String) (hTopic : m.changes.Serves listener)
    (hHeard : m.changes.receive listener = (m'.changes, .message c)) :
    m'.changes.Serves listener ∧
      (m.changes.unread listener).filter (fun c => c.subject = some id) =
        (if c.subject = some id then [c] else []) ++
          (m'.changes.unread listener).filter (fun c => c.subject = some id) := by
  obtain ⟨hUnread, hServes⟩ := Topic.unread_receive hTopic hHeard
  refine ⟨hServes, ?_⟩
  rw [hUnread, List.filter_cons]
  by_cases hSubject : c.subject = some id <;> simp [hSubject]

end Told

/-! ## The order of what is told -/

/-- What is kept from step to step, in whatever order changes are told. -/
structure Followed (id : String) (told : List JobChange) (m : Machine) : Prop where
  /-- Every row is that of a job with the identifier it is kept under. -/
  faithful : ∀ k r, m.row? k = some r → ∃ j : Job, j.id = k ∧ j.row = r
  /-- The listener on changes is live. -/
  topic : m.changes.Serves listener
  /-- What it has still to hear of the job was told last. -/
  waiting : (m.changes.unread listener).filter (fun c => c.subject = some id) <:+ told

/-- The newest change of a job, told or still to be told, tells what the catalog holds. -/
def Newest (id : String) (told : List JobChange) (m : Machine) : Prop :=
  ∀ c, (told ++ owing id m.floor.calls).getLast? = some c → c.Describes (m.row? id)

/-- The loaded job is that of the catalog, or what the change says that was told last. -/
def Decided (id : String) (told : List JobChange) (m : Machine) : Prop :=
  Current (m.jobs.get? id) (m.row? id) ∨
    ∃ c, told.getLast? = some c ∧ m.jobs.get? id = c.outcome

/-- What is kept besides while nothing that is out of date is loaded: once every change of a job was
heard of, the one that was told last has decided. -/
structure Tracked (id : String) (told : List JobChange) (m : Machine) : Prop
    extends Followed id told m where
  /-- The loaded job. -/
  loaded : m.pending id = [] → Decided id told m
  /-- A job that is about to be loaded is that of the catalog. -/
  loading : m.pending id = [] → ∀ ch t j, m.ears.get ch = .loading t j → j.id = id →
    Current (some j) (m.row? id)

variable {u : Setup} {id : String} {told : List JobChange} {m m' : Machine} {s : MachineStep}

/-- If the change that was told last tells what the catalog holds, then the loaded job is that of
the catalog. -/
theorem Decided.current (h : Decided id told m)
    (hLast : ∀ c, told.getLast? = some c → c.Describes (m.row? id)) :
    Current (m.jobs.get? id) (m.row? id) := by
  rcases h with hCurrent | ⟨c, hTold, hLoaded⟩
  · exact hCurrent
  · rw [hLoaded]
    exact c.current_outcome (hLast c hTold)

/-- When nothing is still to be told, the change that was told last is the newest. -/
theorem Newest.last (h : Newest id told m) (hHeard : m.pending id = []) {c : JobChange}
    (hLast : told.getLast? = some c) : c.Describes (m.row? id) := by
  obtain ⟨-, hOwed⟩ := List.append_eq_nil_iff.mp hHeard
  exact h c (by rw [hOwed, List.append_nil, hLast])

/-- Every step keeps what does not depend on the order. -/
theorem Followed.step (h : Followed id told m) (hServes : m.serves s = true)
    (hStep : m.step u s = some m') : Followed id (told ++ m.tellsOf id s) m' := by
  have hSame (hRows : ∀ k, m'.row? k = m.row? k) :
      ∀ k r, m'.row? k = some r → ∃ j : Job, j.id = k ∧ j.row = r :=
    fun k r hr => h.faithful k r (hRows k ▸ hr)
  cases step_shift hServes hStep with
  | spares hTells _ hSpares =>
    rw [hTells, List.append_nil]
    refine ⟨hSame fun k => ?_, hSpares.changes ▸ h.topic, hSpares.changes ▸ h.waiting⟩
    rw [row?, hSpares.floor.rows]
    rfl
  | @wrote _ _ _ k hTells _ _ _ hFaithful hRows _ _ hChanges _ =>
    rw [hTells, List.append_nil]
    refine ⟨fun k' r hr => ?_, hChanges ▸ h.topic, hChanges ▸ h.waiting⟩
    by_cases hk : k' = k
    · subst hk
      exact hFaithful r hr
    · exact h.faithful k' r (hRows k' hk ▸ hr)
  | told hCall _ hChanges hRows _ _ =>
    obtain ⟨hTopic, hUnread⟩ := unread_of_told id h.topic hServes hCall hChanges
    refine ⟨hSame hRows, hTopic, ?_⟩
    -- on the topic and among what was told, the change is the last
    rw [hUnread]
    obtain ⟨front, hFront⟩ := h.waiting
    exact ⟨front, by rw [← List.append_assoc, hFront]⟩
  | heard hHeard _ hFloor _ =>
    obtain ⟨hTopic, hUnread⟩ := unread_of_heard id h.topic hHeard
    refine ⟨hSame fun k => by rw [row?, row?, hFloor], hTopic, ?_⟩
    rw [show m.tellsOf id (.listen .jobs) = [] from rfl, List.append_nil]
    exact (List.suffix_append _ _).trans (hUnread ▸ h.waiting)
  | fetched | loaded =>
    rw [show m.tellsOf id (.listen _) = [] from rfl, List.append_nil]
    exact ⟨h.faithful, h.topic, h.waiting⟩

/-- The newest change stays the newest, unless it is told before another one. -/
theorem Newest.step (h : Newest id told m) (hServes : m.serves s = true)
    (hOrder : m.TellsInOrder id s) (hStep : m.step u s = some m') :
    Newest id (told ++ m.tellsOf id s) m' := by
  have hSame (hTells : m.tellsOf id s = []) (hRow : m'.row? id = m.row? id)
      (hOwed : owing id m'.floor.calls = owing id m.floor.calls) :
      Newest id (told ++ m.tellsOf id s) m' := by
    rw [hTells, List.append_nil, Newest, hOwed, hRow]
    exact h
  cases step_shift hServes hStep with
  | spares hTells _ hSpares =>
    exact hSame (hTells id) (by rw [row?, hSpares.floor.rows]; rfl) (hSpares.floor.owed id)
  | @wrote _ _ c k hTells _ _ hDescribes _ hRows hOwed _ _ _ =>
    by_cases hk : k = id
    -- what was written is the newest
    · subst hk
      intro c' hc'
      rw [hOwed, if_pos rfl, ← List.append_assoc, List.getLast?_concat] at hc'
      obtain rfl := Option.some.inj hc'
      exact hDescribes
    · exact hSame (hTells id) (hRows id (Ne.symm hk)) (by rw [hOwed, if_neg hk, List.append_nil])
  | @told n _ c rest hCall hOwed _ hRows _ _ =>
    intro c' hc'
    rw [hRows]
    refine h c' ?_
    rw [owing_call hCall, ← hc', hOwed, tellsOf_announce hCall]
    by_cases hSubject : c.subject = some id
    · rw [if_pos hSubject]
      -- either nothing was owed before it, or it is not the newest
      rcases hOrder c rest hCall hSubject with hFirst | hLater
      · rw [hFirst, List.nil_append, List.nil_append, List.append_assoc]
      · have hNewest := List.getLast?_eq_some_getLast hLater
        simp only [List.getLast?_append, hNewest, Option.some_or]
    · rw [if_neg hSubject, List.nil_append, List.append_nil]
  | heard _ _ hFloor _ => exact hSame rfl (by rw [row?, row?, hFloor]) (by rw [hFloor])
  | fetched | loaded => exact hSame rfl rfl rfl

/-- A write is the newest change of its job, whatever was before it. -/
theorem Followed.tracked_of_written (h : Followed id told m) (hServes : m.serves s = true)
    (hWritten : s.written? = some id) (hStep : m.step u s = some m') :
    Tracked id (told ++ m.tellsOf id s) m' ∧ Newest id (told ++ m.tellsOf id s) m' := by
  have hFollowed := h.step hServes hStep
  cases step_shift hServes hStep with
  | @wrote _ _ c k hTells hKey _ hDescribes _ _ hOwed _ _ _ =>
    obtain rfl : id = k := Option.some.inj (hWritten.symm.trans hKey)
    -- the change that was written is still to be told, so there is nothing to show yet
    have hSome : m'.pending id ≠ [] := by
      rw [pending, hOwed, if_pos rfl]
      simp
    refine ⟨⟨hFollowed, fun hNone => absurd hNone hSome, fun hNone => absurd hNone hSome⟩,
      fun c' hc' => ?_⟩
    rw [hOwed, if_pos rfl, ← List.append_assoc, List.getLast?_concat] at hc'
    obtain rfl := Option.some.inj hc'
    exact hDescribes
  | spares _ hNone _ =>
    rw [hNone] at hWritten
    cases hWritten
  | told | heard | fetched | loaded => cases hWritten

namespace Tracked

/-- The same changes are still to be heard of, and the catalog holds the same of the job. -/
theorem of_same (h : Tracked id told m) (hFollowed : Followed id told m')
    (hPending : m'.pending id = m.pending id) (hRow : m'.row? id = m.row? id)
    (hJobs : m'.jobs.get? id = m.jobs.get? id)
    (hEars : ∀ ch t j, m'.ears.get ch = .loading t j → m.ears.get ch = .loading t j) :
    Tracked id told m' where
  toFollowed := hFollowed
  loaded hNone := by
    rw [Decided, hJobs, hRow]
    exact h.loaded (hPending ▸ hNone)
  loading hNone ch t j hEar := by
    rw [hRow]
    exact h.loading (hPending ▸ hNone) ch t j (hEars ch t j hEar)

/-- A listener reads the definition that the catalog holds. -/
theorem fetched {ch : Channel} {t : JobTrigger} {j : Job} (h : Tracked id told m)
    (hRead : m.floor.catalog.getJob t.jobId .unknown = .ok j) :
    Tracked id told (m.setEar ch (.loading t j)) := by
  refine ⟨⟨h.faithful, h.topic, h.waiting⟩, h.loaded, fun hNone ch' t' j' hEar hId => ?_⟩
  rcases Ears.get_set_of_loading hEar with ⟨-, hLoading⟩ | hKept
  · cases hLoading
    -- what is read now is what the catalog holds now
    obtain ⟨r, hRow, hRow'⟩ := Catalog.getJob_unknown hRead
    have hJob : j.id = t.jobId := Catalog.id_of_read (h.faithful t.jobId r hRow) hRow'
    rw [hId] at hJob
    subst hJob
    show Current (some j) (m.floor.catalog.jobs.get? t.jobId)
    rw [hRow]
    exact .read hRow'
  · exact h.loading hNone ch' t' j' hKept hId

/-- The definition that was read is loaded. -/
theorem load {ch : Channel} {t : JobTrigger} {j : Job} (h : Tracked id told m)
    (hEar : m.ears.get ch = .loading t j) :
    Tracked id told ({ m with jobs := m.jobs.insert j.id j }.setEar ch (triggered t j)) := by
  refine ⟨⟨h.faithful, h.topic, h.waiting⟩, fun hNone => ?_, fun hNone ch' t' j' hEar' hId => ?_⟩
  -- with nothing left to hear of, what was read still stands in the catalog
  · have hJob : ({ m with jobs := m.jobs.insert j.id j }.setEar ch (triggered t j)).jobs.get? id =
        if j.id = id then some j else m.jobs.get? id := Dict.get?_insert _ _ _ _
    rw [Decided, hJob]
    split
    · next hId => exact Or.inl (h.loading hNone ch t j hEar hId)
    · exact h.loaded hNone
  · rcases Ears.get_set_of_loading hEar' with ⟨-, hLoading⟩ | hKept
    · exact absurd hLoading (Spares.triggered_ne _ _ _ _)
    · exact h.loading hNone ch' t' j' hKept hId

/-- The first change on the topic is heard of. -/
theorem heard {c : JobChange} (h : Tracked id told m) (hFollowed : Followed id told m')
    (hTime : m.LoadsInTime id (.listen .jobs))
    (hHeard : m.changes.receive listener = (m'.changes, .message c))
    (hJobs : m'.jobs = c.applied m.jobs) (hFloor : m'.floor = m.floor) (hEars : m'.ears = m.ears) :
    Tracked id told m' := by
  obtain ⟨-, hUnread⟩ := unread_of_heard id h.topic hHeard
  have hRow : m'.row? id = m.row? id := by rw [row?, row?, hFloor]
  have hPending : m.pending id = (if c.subject = some id then [c] else []) ++ m'.pending id := by
    rw [pending, pending, hUnread, hFloor, List.append_assoc]
  by_cases hSubject : c.subject = some id
  · rw [if_pos hSubject] at hPending hUnread
    refine ⟨hFollowed, fun hNone => Or.inr ⟨c, ?_, ?_⟩, fun hNone ch t j hEar hId => ?_⟩
    -- the change was the only one that was left, so it was told last
    · obtain ⟨hOver, -⟩ := List.append_eq_nil_iff.mp hNone
      rw [hOver, List.append_nil] at hUnread
      obtain ⟨front, rfl⟩ := hUnread ▸ h.waiting
      exact List.getLast?_concat
    · rw [hJobs]
      exact c.get?_applied hSubject m.jobs
    · rw [hNone] at hPending
      rw [hEars] at hEar
      rw [hRow]
      exact hTime _ c hHeard hPending ch t j hEar hId
  · rw [if_neg hSubject, List.nil_append] at hPending
    refine h.of_same hFollowed hPending.symm hRow ?_ fun ch t j hEar => hEars ▸ hEar
    rw [hJobs, c.get?_applied_of_ne hSubject]

/-- One step keeps track of a job. -/
theorem step (h : Tracked id told m) (hServes : m.serves s = true) (hTime : m.LoadsInTime id s)
    (hStep : m.step u s = some m') : Tracked id (told ++ m.tellsOf id s) m' := by
  have hFollowed := h.toFollowed.step hServes hStep
  cases step_shift hServes hStep with
  | spares hTells _ hSpares =>
    rw [hTells, List.append_nil] at hFollowed ⊢
    refine h.of_same hFollowed ?_ ?_ (by rw [hSpares.jobs]) hSpares.loading
    · rw [pending, pending, hSpares.changes, hSpares.floor.owed]
    · rw [row?, hSpares.floor.rows]
      rfl
  | @wrote _ _ c k hTells hKey _ _ _ hRows hOwed hJobs hChanges hEars =>
    by_cases hk : k = id
    · exact (h.toFollowed.tracked_of_written hServes (hk ▸ hKey) hStep).1
    -- a write of another job leaves what was to be heard of this one
    · rw [hTells, List.append_nil] at hFollowed ⊢
      refine h.of_same hFollowed ?_ (hRows id (Ne.symm hk)) (by rw [hJobs])
        fun ch t j hEar => hEars ▸ hEar
      rw [pending, pending, hChanges, hOwed, if_neg hk, List.append_nil]
  | @told n _ c rest hCall hOwed hChanges hRows hJobs hEars =>
    obtain ⟨-, hUnread⟩ := unread_of_told id h.topic hServes hCall hChanges
    rw [tellsOf_announce hCall] at hFollowed hUnread ⊢
    by_cases hSubject : c.subject = some id
    -- a change of the job that was told is still to be heard of
    · rw [if_pos hSubject] at hFollowed hUnread ⊢
      have hSome : m'.pending id ≠ [] := by
        rw [pending, hUnread]
        simp
      exact ⟨hFollowed, fun hNone => absurd hNone hSome, fun hNone => absurd hNone hSome⟩
    · rw [if_neg hSubject, List.append_nil] at hFollowed hUnread ⊢
      refine h.of_same hFollowed ?_ (hRows id) (by rw [hJobs]) fun ch t j hEar => hEars ▸ hEar
      rw [pending, pending, hUnread, hOwed, owing_call hCall, if_neg hSubject, List.nil_append]
  | heard hHeard hJobs hFloor hEars =>
    rw [show m.tellsOf id (.listen .jobs) = [] from rfl, List.append_nil] at hFollowed ⊢
    exact h.heard hFollowed hTime hHeard hJobs hFloor hEars
  | fetched hRead =>
    rw [show m.tellsOf id (.listen _) = [] from rfl, List.append_nil]
    exact h.fetched hRead
  | loaded hEar =>
    rw [show m.tellsOf id (.listen _) = [] from rfl, List.append_nil]
    exact h.load hEar

end Tracked

/-! ## The start -/

/-- The listing of all jobs is that of what is read from the rows. -/
theorem mem_listJobs {c : Catalog} {js : List Job} (h : c.listJobs {} = .ok js) :
    (∀ j ∈ js, ∃ r ∈ c.jobs.values, r.read = .ok j) ∧
      ∀ r ∈ c.jobs.values, ∃ j ∈ js, r.read = .ok j := by
  -- without a query every row is listed, and reading is all that can fail
  have hListed : ∀ r : JobRow, c.listed {} r = r.read.map some := by
    intro r
    rw [Catalog.listed]
    cases r.read <;> rfl
  have hAll : c.jobRows "" = c.jobs.values := List.filter_eq_self.mpr fun _ _ => rfl
  rw [Catalog.listJobs] at h
  cases hRead : (c.jobRows "").mapM (c.listed {}) with
  | error e =>
    rw [hRead] at h
    cases h
  | ok os =>
    rw [hRead] at h
    cases h
    rw [hAll] at hRead
    obtain ⟨hFrom, hTo⟩ := mapM_ok hRead
    constructor
    · intro j hj
      obtain ⟨o, ho, hSome⟩ := List.mem_filterMap.mp hj
      obtain ⟨r, hr, hEq⟩ := hFrom o ho
      rw [hListed, show o = some j from hSome] at hEq
      refine ⟨r, hr, ?_⟩
      cases hRow : r.read with
      | error e =>
        rw [hRow] at hEq
        cases hEq
      | ok j' =>
        rw [hRow] at hEq
        cases hEq
        rfl
    · intro r hr
      obtain ⟨o, ho, hEq⟩ := hTo r hr
      rw [hListed] at hEq
      cases hRow : r.read with
      | error e =>
        rw [hRow] at hEq
        cases hEq
      | ok j =>
        rw [hRow] at hEq
        cases hEq
        exact ⟨j, List.mem_filterMap.mpr ⟨some j, ho, rfl⟩, rfl⟩

/-- Of the jobs that are inserted under one identifier, one is found. -/
theorem get?_foldl_insert (js : List Job) (d : Dict Job) (id : String) :
    (∃ j ∈ js, j.id = id ∧ (js.foldl (fun d j => d.insert j.id j) d).get? id = some j) ∨
      ((∀ j ∈ js, j.id ≠ id) ∧
        (js.foldl (fun d j => d.insert j.id j) d).get? id = d.get? id) := by
  induction js generalizing d with
  | nil => exact Or.inr ⟨fun _ hj => (nomatch hj), rfl⟩
  | cons j js ih =>
    rw [List.foldl_cons]
    -- a later job of the same id counts, and else this one
    rcases ih (d.insert j.id j) with ⟨j', hj', hId, hGet⟩ | ⟨hNone, hGet⟩
    · exact Or.inl ⟨j', List.mem_cons_of_mem _ hj', hId, hGet⟩
    · rw [hGet, Dict.get?_insert]
      by_cases hId : j.id = id
      · rw [if_pos hId]
        exact Or.inl ⟨j, List.mem_cons_self, hId, rfl⟩
      · rw [if_neg hId]
        refine Or.inr ⟨fun j' hj' => ?_, rfl⟩
        rcases List.mem_cons.mp hj' with rfl | hj'
        · exact hId
        · exact hNone j' hj'

/-- A scheduler starts with the jobs of the catalog. -/
theorem tracked_of_start {u : Setup} {now : Int64} {catalog : Catalog} {capacity : Nat}
    {m : Machine} (hFaithful : catalog.Faithful) (hStart : start u now catalog capacity = .ok m)
    (id : String) : Tracked id [] m ∧ Newest id [] m := by
  obtain ⟨js, hJobs, rfl⟩ := exists_of_start hStart
  obtain ⟨hFrom, hTo⟩ := mem_listJobs hJobs
  -- of the rows that were read, the one under this identifier is the only one of this job
  have hCurrent : Current ((js.foldl (fun d j => d.insert j.id j) Dict.empty).get? id)
      (catalog.jobs.get? id) := by
    rcases get?_foldl_insert js Dict.empty id with ⟨j, hj, hId, hGet⟩ | ⟨hNone, hGet⟩
    · obtain ⟨r, hr, hRead⟩ := hFrom j hj
      obtain ⟨k, hRow⟩ := (Dict.mem_values_iff _ _).mp hr
      have hKey : j.id = k := Catalog.id_of_read (hFaithful.job hRow) hRead
      rw [hGet, ← hId, hKey, hRow]
      exact .read hRead
    · rw [hGet]
      cases hRow : catalog.jobs.get? id with
      | none => exact .absent
      | some r =>
        obtain ⟨j, hj, hRead⟩ := hTo r ((Dict.mem_values_iff _ _).mpr ⟨id, hRow⟩)
        exact absurd (Catalog.id_of_read (hFaithful.job hRow) hRead) (hNone j hj)
  refine ⟨⟨⟨fun k r hr => hFaithful.job hr, Topic.serves_create capacity, List.suffix_rfl⟩,
    fun _ => Or.inl hCurrent, fun _ ch t j hEar => ?_⟩, fun c hc => ?_⟩
  · cases ch <;> cases hEar
  · cases hc

/-! ## Every run -/

/-- The run lemma of `Followed`, in whatever order changes are told. -/
theorem Course.followed {ss : List MachineStep}
    (h : Course u (fun m s => m.serves s = true) m ss m') (hm : Followed id told m) :
    Followed id (told ++ toldOf u id m ss) m' :=
  h.trace_invariant (fun _ _ _ _ hFollowed hServes hStep => hFollowed.step hServes hStep) hm

/-- The run lemma of `Tracked`, as long as nothing outdated is loaded. -/
theorem Course.tracked {ss : List MachineStep}
    (h : Course u (fun m s => m.serves s = true ∧ m.LoadsInTime id s) m ss m')
    (hm : Tracked id told m) : Tracked id (told ++ toldOf u id m ss) m' :=
  h.trace_invariant (fun _ _ _ _ hTracked hBoth hStep => hTracked.step hBoth.1 hBoth.2 hStep) hm

/-- The run lemma of `Newest`, as long as changes are told in order. -/
theorem Course.newest {ss : List MachineStep}
    (h : Course u (fun m s => m.serves s = true ∧ m.TellsInOrder id s) m ss m')
    (hm : Newest id told m) : Newest id (told ++ toldOf u id m ss) m' :=
  h.trace_invariant (fun _ _ _ _ hNewest hBoth hStep => hNewest.step hBoth.1 hBoth.2 hStep) hm

/-- From a write of a job on, or from the start, the job is tracked, whatever was before. -/
theorem tracked_since {now : Int64} {changes : List Catalog.Change} {capacity : Nat}
    {m₀ : Machine} {before : List MachineStep}
    (hStart : start u now (Catalog.after changes) capacity = .ok m₀)
    (hBefore : Course u (fun m s => m.serves s = true) m₀ before m)
    (hWritten : ∀ s, before.getLast? = some s → s.written? = some id) :
    Tracked id (toldOf u id m₀ before) m ∧ Newest id (toldOf u id m₀ before) m := by
  have hFirst := tracked_of_start (Catalog.Faithful.after changes) hStart id
  rcases List.eq_nil_or_concat before with rfl | ⟨ss, s, rfl⟩
  -- nothing has happened: the start
  · cases hBefore
    exact hFirst
  · rw [List.concat_eq_append] at hBefore hWritten ⊢
    -- the last step is the write, and up to it the order did not matter
    obtain ⟨m₁, hRun, hLast⟩ := hBefore.exists_of_append
    have hFollowed := hRun.followed hFirst.1.toFollowed
    rw [List.nil_append] at hFollowed
    cases hLast with
    | step hServes hStep hRest =>
      cases hRest
      have hTold : m₁.trace u (tellsOf id) [s] = m₁.tellsOf id s := by
        rw [trace_cons hStep]
        exact List.append_nil _
      rw [toldOf, hRun.trace_append, hTold]
      exact hFollowed.tracked_of_written hServes (hWritten s List.getLast?_concat) hStep

/-- **The change of a job that was told last decides**, in every state that a scheduler can reach
from a catalog that it loaded and in which `handle_job_change` has seen every change of the job, as
long as jobs are changed through the service and the listener keeps up: the loaded job is what that
change says, unless `handle_timer` has loaded it from the catalog. So it is that of the catalog if
that change is the newest, and it is the newest if since the job was last written changes were told
in order. Of the loading for triggers too no more is asked than since the last write. -/
theorem job_current {now : Int64} {changes : List Catalog.Change} {capacity : Nat}
    {m₀ m₁ : Machine} {before since : List MachineStep}
    (hStart : start u now (Catalog.after changes) capacity = .ok m₀)
    (hBefore : Course u (fun m s => m.serves s = true) m₀ before m₁)
    (hWritten : ∀ s, before.getLast? = some s → s.written? = some id)
    (hSince : Course u (fun m s => m.serves s = true ∧ m.LoadsInTime id s) m₁ since m)
    (hHeard : m.pending id = []) :
    Decided id (toldOf u id m₀ (before ++ since)) m ∧
      ((∀ c, (toldOf u id m₀ (before ++ since)).getLast? = some c → c.Describes (m.row? id)) →
        Current (m.jobs.get? id) (m.floor.catalog.jobs.get? id)) ∧
      (Course u (fun m s => m.TellsInOrder id s) m₁ since m →
        Current (m.jobs.get? id) (m.floor.catalog.jobs.get? id)) := by
  obtain ⟨hTracked, hNewest⟩ := tracked_since hStart hBefore hWritten
  have hDecided : Decided id (toldOf u id m₀ (before ++ since)) m := by
    rw [toldOf, hBefore.trace_append]
    exact (hSince.tracked hTracked).loaded hHeard
  refine ⟨hDecided, hDecided.current, fun hOrder => hDecided.current fun c hLast => ?_⟩
  -- in order, the change that was told last is the newest
  have hServes : Course u (fun m s => m.serves s = true ∧ m.TellsInOrder id s) m₁ since m :=
    (hSince.both hOrder).imp fun _ _ hAll => ⟨hAll.1.1, hAll.2⟩
  rw [toldOf, hBefore.trace_append] at hLast
  exact (hServes.newest hNewest).last hHeard hLast

/-! ## One run -/

/-- A job before it is changed. -/
def oldJob : Job := { id := "j", owner := "a", inactive := true }

/-- The job after it was changed. -/
def newJob : Job := { id := "j", owner := "b", inactive := true }

/-- A job is saved, and before that is told of, a trigger asks for it. -/
def askingSteps : List MachineStep :=
  [.saveJob oldJob, .publish (.trigger { jobId := "j" }), .listen .timers, .listen .timers]

theorem getJob_oldJob : (Catalog.empty.putJob oldJob).getJob "j" .unknown = .ok oldJob := by
  have hRow : (Catalog.empty.putJob oldJob).jobs.get? "j" = some oldJob.row := rfl
  have hStorable : oldJob.Storable := by decide
  rw [Catalog.getJob, Catalog.findJob, hRow]
  show oldJob.row.read.bind _ = _
  rw [Job.read_row, if_pos hStorable]
  rfl

/-- The job of a trigger is read. -/
theorem step_fetch {u : Setup} {m : Machine} {t : JobTrigger} {j : Job}
    (hEar : m.ears.timers = .fetching t)
    (hRead : m.floor.catalog.getJob t.jobId .unknown = .ok j) :
    m.step u (.listen .timers) = some (m.setEar .timers (.loading t j)) := by
  have hGet : m.ears.get .timers = .fetching t := hEar
  show m.listen u .timers = _
  rw [listen, hGet]
  simp only [hRead]

/-- Whether the oldest change is told first, and no change is heard of while a job is being
loaded. -/
def calm (m : Machine) : MachineStep → Bool
  | .announce n => n == 0
  | .listen .jobs => [Channel.tree, .attributes, .timers, .jobs].all fun ch =>
    match m.ears.get ch with
    | .loading _ _ => false
    | _ => true
  | _ => true

/-- Calm steps are in order, for every job. -/
theorem inOrder_of_calm {m : Machine} {s : MachineStep} (h : m.calm s = true) (id : String) :
    m.LoadsInTime id s ∧ m.TellsInOrder id s := by
  cases s with
  | announce n =>
    have hFirst : n = 0 := by simpa [calm] using h
    subst hFirst
    exact ⟨trivial, fun _ _ _ _ => Or.inl rfl⟩
  | listen c =>
    cases c with
    | jobs =>
      refine ⟨fun _ _ _ _ ch t j hEar _ => ?_, trivial⟩
      -- in calm no listener is about to load a job
      have hMem : ch ∈ [Channel.tree, .attributes, .timers, .jobs] := by cases ch <;> decide
      have hAll := List.all_eq_true.mp h ch hMem
      rw [hEar] at hAll
      cases hAll
    | tree | attributes | timers => exact ⟨trivial, trivial⟩
  | _ => exact ⟨trivial, trivial⟩

/-- The job is loaded for the trigger; then it is changed, and both changes are told in the other
order and heard of, so that the old job stays loaded. In the end it is saved once more. -/
def crossingSteps : List MachineStep := [
  .listen .timers, .saveJob newJob, .announce 1, .announce 0, .listen .jobs, .listen .jobs,
  .saveJob newJob]

/-- The last change is told and heard of. -/
def settlingSteps : List MachineStep := [.announce 0, .listen .jobs]

/-- At the end of that run the changed job is loaded, and it is that of the catalog. -/
theorem job_current_settlingSteps :
    ∃ m₀ m₁ m, start bareSetup 0 (Catalog.after []) 8 = .ok m₀ ∧
      Course bareSetup (fun m s => m.serves s = true) m₀
        (askingSteps ++ .listen .timers :: crossingSteps) m₁ ∧
      m₁.jobs.get? "j" = some oldJob ∧
      Course bareSetup (fun m s => m.serves s = true ∧ m.LoadsInTime "j" s) m₁ settlingSteps m ∧
      Course bareSetup (fun m s => m.TellsInOrder "j" s) m₁ settlingSteps m ∧
      m.pending "j" = [] ∧ m.jobs.get? "j" = some newJob ∧
      Current (m.jobs.get? "j") (m.floor.catalog.jobs.get? "j") := by
  -- the reading of the job is a step by itself: it is proved, and the others are computed
  obtain ⟨m₀, m', m'', m₁, hStart, hAsked, hFetched, hCrossed, hOld, hEnd⟩ : ∃ m₀ m' m'' m₁,
      start bareSetup 0 (Catalog.after []) 8 = .ok m₀ ∧
      m₀.run bareSetup serves askingSteps = some m' ∧
      m'.step bareSetup (.listen .timers) = some m'' ∧
      m''.run bareSetup serves crossingSteps = some m₁ ∧ m₁.jobs.get? "j" = some oldJob ∧
      (m₁.run bareSetup (fun m s => m.serves s && m.calm s) settlingSteps).map
        (fun m => (m.pending "j", m.jobs.get? "j")) = some ([], some newJob) :=
    ⟨_, _, _, _, rfl, rfl, step_fetch rfl getJob_oldJob, rfl, rfl, rfl⟩
  obtain ⟨m, hSettled, hView⟩ := Option.map_eq_some_iff.mp hEnd
  obtain ⟨hPending, hLoaded⟩ := Prod.mk.inj hView
  have hServes : m'.serves (.listen .timers) = true := rfl
  have hBefore := (Course.of_run (fun _ _ h => h) hAsked).append
    (.step hServes hFetched (Course.of_run (fun _ _ h => h) hCrossed))
  have hSince : Course bareSetup (fun m s => m.serves s = true ∧ m.LoadsInTime "j" s) m₁
      settlingSteps m := Course.of_run (fun m s h => by
    rw [Bool.and_eq_true] at h
    exact ⟨h.1, (inOrder_of_calm h.2 "j").1⟩) hSettled
  have hOrder : Course bareSetup (fun m s => m.TellsInOrder "j" s) m₁ settlingSteps m :=
    Course.of_run (fun m s h => by
      rw [Bool.and_eq_true] at h
      exact (inOrder_of_calm h.2 "j").2) hSettled
  have hWritten : ∀ s, (askingSteps ++ .listen .timers :: crossingSteps).getLast? = some s →
      s.written? = some "j" := fun s hLast => by
    cases hLast
    rfl
  exact ⟨m₀, m₁, m, hStart, hBefore, hOld, hSince, hOrder, hPending, hLoaded,
    (job_current hStart hBefore hWritten hSince hPending).2.2 hOrder⟩

/-! ## Two races -/

/-- Two changes of a job are told in the other order than they were written. -/
def crossedSteps : List MachineStep :=
  [.saveJob oldJob, .saveJob newJob, .announce 1, .announce 0, .listen .jobs, .listen .jobs]

/-- A job that was read for a trigger is removed, which is heard of before it is loaded. -/
def overtakenSteps : List MachineStep :=
  [.removeJob "j", .announce 0, .announce 0, .listen .jobs, .listen .jobs, .listen .timers]

/-- The old job is not the one that the row of the changed job holds. -/
theorem not_current_oldJob : ¬Current (some oldJob) (some newJob.row) := by
  have hOwner : newJob.row.owner ≠ oldJob.row.owner := by decide
  intro h
  generalize hRow : newJob.row = r at h
  -- neither was the row made from the old job nor is the old job read from it
  cases h with
  | saved j => exact hOwner (by rw [hRow])
  | read hRead =>
    have hStorable : newJob.Storable := by decide
    rw [← hRow, Job.read_row, if_pos hStorable] at hRead
    have hEq : newJob.owner = oldJob.owner := congrArg Job.owner (Except.ok.inj hRead)
    exact absurd hEq (by decide)

/-- **Without order, the loaded job may stay wrong**: after either of two runs nothing is left to be
told or heard of and no job is being loaded, and yet the loaded job is not that of the catalog. In
the first, two calls of `put_job` publish in the other order than they wrote; in the second,
`handle_timer` loads what it has read before `handle_job_change` has seen the removal. -/
theorem job_outdated :
    (∃ m₀ m, start bareSetup 0 (Catalog.after []) 8 = .ok m₀ ∧
      Course bareSetup (fun m s => m.serves s = true) m₀ crossedSteps m ∧
      m.changes.unread listener = [] ∧ m.floor.calls = [] ∧ m.ears.timers = .listening ∧
      ¬Current (m.jobs.get? "j") (m.floor.catalog.jobs.get? "j")) ∧
    ∃ m₀ m, start bareSetup 0 (Catalog.after []) 8 = .ok m₀ ∧
      Course bareSetup (fun m s => m.serves s = true) m₀
        (askingSteps ++ .listen .timers :: overtakenSteps) m ∧
      m.changes.unread listener = [] ∧ m.floor.calls = [] ∧ m.ears.timers = .listening ∧
      ¬Current (m.jobs.get? "j") (m.floor.catalog.jobs.get? "j") := by
  constructor
  -- the changes of two writes cross
  · obtain ⟨m₀, m, hStart, hRun, hUnread, hCalls, hEar, hJob, hRow⟩ : ∃ m₀ m,
        start bareSetup 0 (Catalog.after []) 8 = .ok m₀ ∧
        m₀.run bareSetup serves crossedSteps = some m ∧
        m.changes.unread listener = [] ∧ m.floor.calls = [] ∧ m.ears.timers = .listening ∧
        m.jobs.get? "j" = some oldJob ∧ m.floor.catalog.jobs.get? "j" = some newJob.row :=
      ⟨_, _, rfl, rfl, rfl, rfl, rfl, rfl, rfl⟩
    refine ⟨m₀, m, hStart, Course.of_run (fun _ _ h => h) hRun, hUnread, hCalls, hEar, ?_⟩
    rw [hJob, hRow]
    exact not_current_oldJob
  -- a removal comes between reading and loading; the reading is a step by itself
  · obtain ⟨m₀, m₁, m₂, m, hStart, hAsked, hFetched, hRun, hUnread, hCalls, hEar, hJob, hRow⟩ :
        ∃ m₀ m₁ m₂ m, start bareSetup 0 (Catalog.after []) 8 = .ok m₀ ∧
        m₀.run bareSetup serves askingSteps = some m₁ ∧
        m₁.step bareSetup (.listen .timers) = some m₂ ∧
        m₂.run bareSetup serves overtakenSteps = some m ∧
        m.changes.unread listener = [] ∧ m.floor.calls = [] ∧ m.ears.timers = .listening ∧
        m.jobs.get? "j" = some oldJob ∧ m.floor.catalog.jobs.get? "j" = none :=
      ⟨_, _, _, _, rfl, rfl, step_fetch rfl getJob_oldJob, rfl, rfl, rfl, rfl, rfl, rfl⟩
    refine ⟨m₀, m, hStart, ?_, hUnread, hCalls, hEar, ?_⟩
    · have hServes : m₁.serves (.listen .timers) = true := rfl
      exact (Course.of_run (fun _ _ h => h) hAsked).append
        (.step hServes hFetched (Course.of_run (fun _ _ h => h) hRun))
    · rw [hJob, hRow]
      exact fun h => nomatch h

end Machine

end Taskyard
