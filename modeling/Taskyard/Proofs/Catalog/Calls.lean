import Taskyard.Proofs.Catalog.History

/-!
# Catalog — calls of several callers

A catalog that is shared is behind a lock. A call that saves something or lists tasks takes it once;
a job is first found and then given its tasks, the jobs of a listing are given theirs one by one,
and tasks are first chosen and then deleted, with the lock given back each time. So the catalog may
have changed in between: a version is deleted that was not chosen, a job is answered with tasks that
never belonged to this version of it. Where what a call is about is left alone between its turns,
the call is as if it had taken one.

Main definitions:

* `Request`, `Phase`, `Phase.turn` — calls, what is left of them, and what is done under the lock;
  `exists_turns` shows that a call alone does what the catalog's own operation does.
* `Traffic` — the callers of a catalog and its moments so far, whoever takes the lock when.
* `Ran` — a call that got where it is by its turns; `sound_run` has it for each caller.
* `Caller.Atomic`, `Caller.Undisturbed` — a call that behaves as one turn, and one whose rows were
  left alone.
* `atomic_of_undisturbed` — what calls answer, and that the latter are the former.
* `not_atomic` — three calls that do not behave as one turn.
-/

namespace Taskyard

namespace Catalog

/-! ## Turns under the lock -/

/-- A call of the job service. Each of its turns is one acquisition of the lock of the store. -/
inductive Request where
  | putJob (j : Job)
  | deleteJob (id : String)
  | putTask (t : Task)
  | listTasks (scope : String) (status : TaskStatus)
  | getJob (id : String) (load : TaskStatus)
  | listJobs (l : JobListing)
  | deleteTasks (d : Deletion)

/-- What a call is answered. -/
inductive Reply where
  | done
  | tasks (ts : List Task)
  | job (j : Job)
  | jobs (js : List Job)

/-- How far a call has come. -/
inductive Phase where
  /-- Nothing was done so far. -/
  | asked (r : Request)
  /-- A job was found and is still without its tasks. -/
  | attaching (load : TaskStatus) (j : Job)
  /-- The rows of jobs were read; of these, a job is still without its tasks, others were not looked
  at, and some are shown. -/
  | listing (l : JobListing) (j : Job) (rest : List JobRow) (shown : List Job)
  /-- Tasks were chosen and are still there. -/
  | erasing (ts : List Task)
  /-- All is done. -/
  | answered (a : Except Fault Reply)

/-- What is left of a listing of jobs until the tasks of one are needed. -/
def browse (l : JobListing) : List JobRow → List Job → Phase
  | [], shown => .answered (.ok (.jobs shown))
  | r :: rest, shown =>
    match r.read with
    | .error e => .answered (.error e)
    | .ok j =>
      if !l.admits j then browse l rest shown
      else if l.load = .unknown then browse l rest (shown ++ [j])
      else .listing l j rest shown

/-- What a call does while it has the lock once. -/
def Phase.turn (c : Catalog) : Phase → Catalog × Phase
  | .asked (.putJob j) => (c.putJob j, .answered (.ok .done))
  | .asked (.deleteJob id) => (c.deleteJob id, .answered (.ok .done))
  | .asked (.putTask t) => (c.putTask t, .answered (.ok .done))
  | .asked (.listTasks scope status) => (c, .answered ((c.listTasks scope status).map .tasks))
  | .asked (.getJob id load) =>
    (c, match c.findJob id with
      | .error e => .answered (.error e)
      | .ok j => if load = .unknown then .answered (.ok (.job j)) else .attaching load j)
  | .asked (.listJobs l) => (c, browse l (c.jobRows l.owner) [])
  | .asked (.deleteTasks d) =>
    (c, match c.chooseTasks d with
      | .error e => .answered (.error e)
      | .ok ts => .erasing ts)
  | .attaching load j => (c, .answered ((c.attach load j).map .job))
  | .listing l j rest shown =>
    (c, match c.attach l.load j with
      | .error e => .answered (.error e)
      | .ok j => browse l rest (if l.skipsEmpty && j.tasks.isEmpty then shown else shown ++ [j]))
  | .erasing ts => (c.eraseTasks ts, .answered (.ok (.tasks ts)))
  | .answered a => (c, .answered a)

/-- Whether a call is answered. -/
def Phase.isOver : Phase → Bool
  | .answered _ => true
  | _ => false

/-- The catalog after a call that has it for itself, and the answer. -/
def Request.result (c : Catalog) : Request → Catalog × Except Fault Reply
  | .putJob j => (c.putJob j, .ok .done)
  | .deleteJob id => (c.deleteJob id, .ok .done)
  | .putTask t => (c.putTask t, .ok .done)
  | .listTasks scope status => (c, (c.listTasks scope status).map .tasks)
  | .getJob id load => (c, (c.getJob id load).map .job)
  | .listJobs l => (c, (c.listJobs l).map .jobs)
  | .deleteTasks d =>
    match c.deleteTasks d with
    | .error e => (c, .error e)
    | .ok (c', ts) => (c', .ok (.tasks ts))

/-- One turn after another, without any other caller. -/
def solo (s : Catalog × Phase) : Catalog × Phase := s.2.turn s.1

/-- Left alone, a listing that is under way ends with the jobs shown so far and those of the
rows it has yet to visit. -/
theorem exists_solo_browse (c : Catalog) (l : JobListing) (rows : List JobRow) (shown : List Job) :
    ∃ n, solo^[n] (c, browse l rows shown) =
      (c, .answered ((rows.mapM (c.listed l)).map fun os => .jobs (shown ++ os.filterMap id))) := by
  induction rows generalizing shown with
  | nil => exact ⟨0, by simp [browse, pure, Except.pure, Except.map]⟩
  | cons r rows ih =>
    -- what comes of the rest, once it is known whether the first row is shown
    have hRest (o : Option Job) (hListed : c.listed l r = .ok o) :
        (rows.mapM (c.listed l)).map (fun os => Reply.jobs (shown ++ o.toList ++ os.filterMap id)) =
          ((r :: rows).mapM (c.listed l)).map fun os => .jobs (shown ++ os.filterMap id) := by
      rw [List.mapM_cons, hListed]
      cases rows.mapM (c.listed l) with
      | error e => rfl
      | ok os => cases o <;> simp [bind, Except.bind, pure, Except.pure, Except.map]
    have hFail (e : Fault) (hListed : c.listed l r = .error e) :
        ((r :: rows).mapM (c.listed l)).map (fun os => Reply.jobs (shown ++ os.filterMap id)) =
          .error e := by
      rw [List.mapM_cons, hListed]
      rfl
    rw [browse]
    cases hRead : r.read with
    | error e =>
      refine ⟨0, ?_⟩
      rw [hFail e (by rw [listed, hRead]; rfl)]
      rfl
    | ok j =>
      have hListed := listed_of_read (c := c) (l := l) hRead
      by_cases hAdmits : l.admits j = true
      · rw [if_pos hAdmits] at hListed
        -- a row that is admitted is shown, or the tasks of its job are awaited
        by_cases hLoad : l.load = .unknown
        · have hSkips : l.skipsEmpty = false := by simp [JobListing.skipsEmpty, hLoad]
          rw [attach, if_pos hLoad, hSkips] at hListed
          obtain ⟨n, hn⟩ := ih (shown ++ [j])
          refine ⟨n, ?_⟩
          rw [← hRest (some j) hListed]
          simpa [hAdmits, hLoad] using hn
        · cases hAttach : c.attach l.load j with
          | error e =>
            rw [hAttach] at hListed
            refine ⟨1, ?_⟩
            rw [hFail e hListed]
            simp [hAdmits, hLoad, solo, Phase.turn, hAttach]
          | ok j' =>
            rw [hAttach] at hListed
            obtain ⟨n, hn⟩ :=
              ih (if l.skipsEmpty && j'.tasks.isEmpty then shown else shown ++ [j'])
            refine ⟨n + 1, ?_⟩
            rw [← hRest _ hListed, Function.iterate_succ_apply]
            have hTurn : solo (c, .listing l j rows shown) = (c, browse l rows
                (if l.skipsEmpty && j'.tasks.isEmpty then shown else shown ++ [j'])) := by
              simp [solo, Phase.turn, hAttach]
            simp only [hAdmits, hLoad, Bool.not_true, Bool.false_eq_true, if_false]
            rw [hTurn, hn]
            cases l.skipsEmpty && j'.tasks.isEmpty <;> simp
      · rw [if_neg hAdmits] at hListed
        obtain ⟨n, hn⟩ := ih shown
        refine ⟨n, ?_⟩
        rw [← hRest none hListed]
        simpa [hAdmits] using hn

/-- A call that has the catalog for itself does what the catalog's own operation does. -/
theorem exists_turns (c : Catalog) (r : Request) :
    ∃ n, solo^[n] (c, .asked r) = ((r.result c).1, .answered (r.result c).2) := by
  cases r with
  -- these need the catalog once
  | putJob j => exact ⟨1, rfl⟩
  | deleteJob id => exact ⟨1, rfl⟩
  | putTask t => exact ⟨1, rfl⟩
  | listTasks scope status => exact ⟨1, rfl⟩
  -- a job is found in one turn, and its tasks in another one if they are asked for
  | getJob id load =>
    show ∃ n, _ = (c, Phase.answered ((c.getJob id load).map .job))
    rw [getJob]
    cases hFind : c.findJob id with
    | error e => exact ⟨1, by simp [solo, Phase.turn, hFind, Except.bind, Except.map]⟩
    | ok j =>
      by_cases hLoad : load = .unknown
      · exact ⟨1, by simp [solo, Phase.turn, hFind, hLoad, attach, Except.bind, Except.map]⟩
      · exact ⟨2, by simp [solo, Phase.turn, hFind, hLoad, Except.bind]⟩
  -- a listing takes a turn for each job whose tasks it shows
  | listJobs l =>
    obtain ⟨n, hn⟩ := exists_solo_browse c l (c.jobRows l.owner) []
    refine ⟨n + 1, ?_⟩
    rw [Function.iterate_succ_apply]
    show solo^[n] (c, browse l (c.jobRows l.owner) []) =
      (c, Phase.answered ((c.listJobs l).map .jobs))
    rw [hn, listJobs]
    cases (c.jobRows l.owner).mapM (c.listed l) <;> rfl
  -- tasks are chosen in one turn and erased in another one, unless none can be chosen
  | deleteTasks d =>
    rw [Request.result, deleteTasks]
    cases hChosen : c.chooseTasks d with
    | error e => exact ⟨1, by simp [solo, Phase.turn, hChosen, Except.map]⟩
    | ok ts => exact ⟨2, by simp [solo, Phase.turn, hChosen, Except.map]⟩

/-! ## Several callers -/

/-- Someone who called: the call, how far it has come, and when it had the lock. -/
structure Caller where
  request : Request
  phase : Phase
  turns : List Nat := []

/-- A shared catalog with its callers. -/
structure Traffic where
  /-- What the catalog was before each turn that was taken. -/
  past : List Catalog := []
  /-- What it is. -/
  now : Catalog := empty
  callers : List Caller := []

/-- Someone calls, or a caller takes the lock. -/
inductive Traffic.Move where
  | call (r : Request)
  | turn (i : Nat)

namespace Traffic

/-- What the catalog was before and after each turn. -/
def moments (s : Traffic) : List Catalog := s.past ++ [s.now]

/-- The traffic after a caller that is not answered had the lock. -/
def grant (s : Traffic) (i : Nat) (k : Caller) : Traffic where
  past := s.past ++ [s.now]
  now := (k.phase.turn s.now).1
  callers := s.callers.set i
    { k with phase := (k.phase.turn s.now).2, turns := k.turns ++ [s.past.length] }

/-- The traffic after a move; nothing happens at the turn of someone who waits for nothing. -/
def step (s : Traffic) : Move → Traffic
  | .call r => { s with callers := s.callers ++ [{ request := r, phase := .asked r }] }
  | .turn i =>
    match s.callers[i]? with
    | none => s
    | some k => if k.phase.isOver then s else s.grant i k

/-- The traffic after a sequence of moves, from a catalog without rows. -/
def run (moves : List Move) : Traffic := moves.foldl step {}

end Traffic

/-- A call got where it is by its turns, at later and later moments. -/
inductive Ran (moments : List Catalog) (r : Request) : List Nat → Phase → Prop
  | asked : Ran moments r [] (.asked r)
  | turn {turns : List Nat} {p : Phase} {n : Nat} {c : Catalog} (before : Ran moments r turns p)
    (hOpen : p.isOver = false) (hLater : ∀ m ∈ turns, m < n) (hNow : moments[n]? = some c)
    (hNext : moments[n + 1]? = some (p.turn c).1) : Ran moments r (turns ++ [n]) (p.turn c).2

/-- Later states of the catalog do not change how a call came to where it is. -/
theorem Ran.extend {moments more : List Catalog} {r : Request} {turns : List Nat} {p : Phase}
    (h : Ran moments r turns p) : Ran (moments ++ more) r turns p := by
  have hKeeps {n : Nat} {c : Catalog} (hAt : moments[n]? = some c) :
      (moments ++ more)[n]? = some c := by
    rw [List.getElem?_append_left (List.getElem?_eq_some_iff.mp hAt).1, hAt]
  induction h with
  | asked => exact .asked
  | turn _ hOpen hLater hNow hNext ih => exact .turn ih hOpen hLater (hKeeps hNow) (hKeeps hNext)

/-- One turn keeps rows those of jobs and tasks. -/
theorem Faithful.turn {c : Catalog} (hc : c.Faithful) (p : Phase) : (p.turn c).1.Faithful := by
  -- the turns that read change nothing, and each of the others makes one change
  cases p with
  | asked r =>
    cases r with
    | putJob j => exact hc.putJob j
    | deleteJob id => exact hc.deleteJob id
    | putTask t => exact hc.putTask t
    | listTasks scope status => exact hc
    | getJob id load => exact hc
    | listJobs l => exact hc
    | deleteTasks d => exact hc
  | attaching load j => exact hc
  | listing l j rest shown => exact hc
  | erasing ts => exact hc.eraseTasks ts
  | answered a => exact hc

/-- Callers got where they are by turns that are over, and rows were always those of jobs and
tasks. -/
structure Traffic.Sound (s : Traffic) : Prop where
  ran {k : Caller} (h : k ∈ s.callers) : Ran s.moments k.request k.turns k.phase
  taken {k : Caller} (h : k ∈ s.callers) : ∀ n ∈ k.turns, n < s.past.length
  faithful {c : Catalog} (h : c ∈ s.moments) : c.Faithful

/-- One turn of one caller keeps every caller's path explained by the states it met. -/
theorem Traffic.Sound.grant {s : Traffic} (hs : s.Sound) {i : Nat} {k : Caller}
    (hk : s.callers[i]? = some k) (hOpen : k.phase.isOver = false) : (s.grant i k).Sound := by
  have hMem : k ∈ s.callers := List.mem_of_getElem? hk
  have hMoments : (s.grant i k).moments = s.moments ++ [(k.phase.turn s.now).1] := rfl
  refine ⟨fun {k'} hk' => ?_, fun {k'} hk' n hn => ?_, fun {c} hc => ?_⟩
  · rw [hMoments]
    rcases List.mem_or_eq_of_mem_set hk' with hOther | rfl
    · exact (hs.ran hOther).extend
    -- the one that had the turn has got one step further, the others are where they were
    · refine .turn (hs.ran hMem).extend hOpen (hs.taken hMem) ?_ ?_
      · simp [moments]
      · simp [moments]
  · rw [Traffic.grant, List.length_append, List.length_singleton]
    rcases List.mem_or_eq_of_mem_set hk' with hOther | rfl
    · exact Nat.lt_succ_of_lt (hs.taken hOther n hn)
    · rcases List.mem_append.mp hn with hn | hn
      · exact Nat.lt_succ_of_lt (hs.taken hMem n hn)
      · rw [List.mem_singleton.mp hn]
        exact Nat.lt_succ_self _
  · rw [hMoments] at hc
    rcases List.mem_append.mp hc with hc | hc
    -- the only new moment is the one after this turn
    · exact hs.faithful hc
    · rw [List.mem_singleton.mp hc]
      exact (hs.faithful (List.mem_append_right _ (List.mem_singleton_self _))).turn k.phase

/-- A move of the traffic, a new call or a turn, keeps it sound. -/
theorem Traffic.Sound.step {s : Traffic} (hs : s.Sound) (m : Traffic.Move) : (s.step m).Sound := by
  cases m with
  | call r =>
    refine ⟨fun {k} hk => ?_, fun {k} hk => ?_, hs.faithful⟩
    -- a new call has neither had a turn nor an answer
    · rcases List.mem_append.mp hk with hk | hk
      · exact hs.ran hk
      · rw [List.mem_singleton.mp hk]
        exact .asked
    · rcases List.mem_append.mp hk with hk | hk
      · exact hs.taken hk
      · rw [List.mem_singleton.mp hk]
        exact fun _ hn => nomatch hn
  | turn i =>
    rw [Traffic.step]
    -- a turn is granted only to a call that is there and still open
    split
    · exact hs
    · next k hk =>
      split
      · exact hs
      · next hOpen => exact hs.grant hk (Bool.eq_false_iff.mpr hOpen)

/-- Every traffic is sound: the run lemma over `step`. -/
theorem sound_run (moves : List Traffic.Move) : (Traffic.run moves).Sound := by
  have hRun : ∀ s : Traffic, s.Sound → (moves.foldl Traffic.step s).Sound := by
    induction moves with
    | nil => exact fun s hs => hs
    | cons m moves ih => exact fun s hs => ih _ (hs.step m)
  refine hRun {} ⟨fun hk => (nomatch hk), fun hk => (nomatch hk), fun hc => ?_⟩
  rw [List.mem_singleton.mp hc]
  exact Faithful.empty

/-! ## What calls answer -/

/-- The tasks that a call for jobs is to attach. -/
def Request.load? : Request → Option TaskStatus
  | .getJob _ load => some load
  | .listJobs l => some l.load
  | _ => none

/-- The jobs of an answer. -/
def Reply.jobList : Reply → List Job
  | .job j => [j]
  | .jobs js => js
  | _ => []

/-- The tasks of an answer. -/
def Reply.taskList : Reply → List Task
  | .tasks ts => ts
  | _ => []

/-- What a caller was answered, if the call succeeded. -/
def Caller.reply? (k : Caller) : Option Reply :=
  match k.phase with
  | .answered (.ok a) => some a
  | _ => none

/-- A caller that has a reply is over. -/
theorem Caller.phase_of_reply? {k : Caller} {a : Reply} (h : k.reply? = some a) :
    k.phase = .answered (.ok a) := by
  rw [reply?] at h
  split at h
  · next hPhase =>
    obtain rfl := Option.some.inj h
    exact hPhase
  · cases h

/-- A catalog has a job, whatever its tasks are. -/
def Defines (c : Catalog) (j : Job) : Prop :=
  ∃ r, c.jobs.get? j.id = some r ∧ r.read = .ok j.withoutTasks

/-- A job was there at one moment, and its tasks were listed at a later one. -/
def Assembled (moments : List Catalog) (load : TaskStatus) (n n' : Nat) (j : Job) : Prop :=
  n < n' ∧ ∃ c c', moments[n]? = some c ∧ moments[n']? = some c' ∧ c.Defines j ∧
    c'.listTasks j.id load = .ok j.tasks

/-- What a call answers: a deletion chose tasks at its first turn and deleted them at its second;
jobs were there at the first turn, and their tasks were listed at later ones. -/
structure Explained (moments : List Catalog) (r : Request) (turns : List Nat) (a : Reply) : Prop where
  deleted {d : Deletion} {ts : List Task} (hRequest : r = .deleteTasks d) (hReply : a = .tasks ts) :
    ∃ n n' c c', turns = [n, n'] ∧ n < n' ∧ moments[n]? = some c ∧ moments[n']? = some c' ∧
      c.chooseTasks d = .ok ts ∧ moments[n' + 1]? = some (c'.eraseTasks ts)
  attached {load : TaskStatus} (hLoad : r.load? = some load) (hSome : load ≠ .unknown) :
    ∃ n later, turns = n :: later ∧ ∀ j ∈ a.jobList, ∃ n' ∈ later, Assembled moments load n n' j

/-- What is known of a call on its way. -/
def OnItsWay (moments : List Catalog) (r : Request) (turns : List Nat) : Phase → Prop
  | .asked r' => r' = r ∧ turns = []
  | .attaching load j => ∃ n c, turns = [n] ∧ moments[n]? = some c ∧ c.Defines j ∧ j.tasks = [] ∧
      load ≠ .unknown ∧ ∃ id, r = .getJob id load
  | .listing l j rest shown => ∃ n later c, turns = n :: later ∧ moments[n]? = some c ∧
      c.Defines j ∧ j.tasks = [] ∧ l.load ≠ .unknown ∧ r = .listJobs l ∧
      (∀ row ∈ rest, row ∈ c.jobs.values) ∧
      ∀ j' ∈ shown, ∃ n' ∈ later, Assembled moments l.load n n' j'
  | .erasing ts => ∃ n c d, turns = [n] ∧ moments[n]? = some c ∧ c.chooseTasks d = .ok ts ∧
      r = .deleteTasks d
  | .answered a => ∀ reply, a = .ok reply → Explained moments r turns reply

variable {moments : List Catalog} {r : Request} {turns : List Nat}

/-- A row of a faithful catalog that reads back defines the job it is kept under. -/
theorem Faithful.defines {c : Catalog} (hc : c.Faithful) {id : String} {row : JobRow} {j : Job}
    (hRow : c.jobs.get? id = some row) (hRead : row.read = .ok j) :
    j.id = id ∧ c.Defines j ∧ j.tasks = [] := by
  obtain ⟨j₀, rfl, rfl⟩ := hc.job hRow
  obtain ⟨hId, hTasks⟩ := Job.of_read_row hRead
  refine ⟨hId, ⟨j₀.row, hId ▸ hRow, ?_⟩, hTasks⟩
  rw [hRead, Job.withoutTasks, ← hTasks]

/-- Finding a job in a faithful catalog gives its definition without tasks. -/
theorem defines_of_findJob {c : Catalog} (hc : c.Faithful) {id : String} {j : Job}
    (h : c.findJob id = .ok j) : j.id = id ∧ c.Defines j ∧ j.tasks = [] := by
  rw [findJob] at h
  split at h
  · cases h
  · next row hRow => exact hc.defines hRow h

/-- Attaching tasks changes nothing of a job but its tasks, which are those listed at that
moment. -/
theorem attach_eq_ok {c : Catalog} {load : TaskStatus} (hLoad : load ≠ .unknown) {j j' : Job}
    (h : c.attach load j = .ok j') :
    j'.id = j.id ∧ j'.withoutTasks = j.withoutTasks ∧ c.listTasks j.id load = .ok j'.tasks := by
  rw [attach, if_neg hLoad] at h
  cases hTasks : c.listTasks j.id load with
  | error e =>
    rw [hTasks] at h
    cases h
  | ok ts =>
    rw [hTasks] at h
    cases h
    exact ⟨rfl, rfl, rfl⟩

/-- A job that was found and given its tasks later is put together from the two moments. -/
theorem assembled_of_attach {n n' : Nat} (hLater : n < n') {c c' : Catalog}
    (hNow : moments[n]? = some c) (hNow' : moments[n']? = some c') {load : TaskStatus}
    (hLoad : load ≠ .unknown) {j j' : Job} (hDefines : c.Defines j)
    (hAttach : c'.attach load j = .ok j') : Assembled moments load n n' j' := by
  obtain ⟨hId, hSame, hTasks⟩ := attach_eq_ok hLoad hAttach
  refine ⟨hLater, c, c', hNow, hNow', ?_, hId.symm ▸ hTasks⟩
  obtain ⟨row, hRow, hRead⟩ := hDefines
  exact ⟨row, hId.symm ▸ hRow, hSame.symm ▸ hRead⟩

/-- The rest of a listing is on its way, however far it is browsed. -/
theorem onItsWay_browse {l : JobListing} {n : Nat} {later : List Nat} {c : Catalog}
    (hc : c.Faithful) (hNow : moments[n]? = some c) {rows : List JobRow}
    (hRows : ∀ row ∈ rows, row ∈ c.jobs.values) {shown : List Job}
    (hShown : l.load ≠ .unknown → ∀ j' ∈ shown, ∃ n' ∈ later, Assembled moments l.load n n' j') :
    OnItsWay moments (.listJobs l) (n :: later) (browse l rows shown) := by
  induction rows generalizing shown with
  | nil =>
    rintro reply hReply
    obtain rfl := Except.ok.inj hReply
    refine ⟨fun hRequest => (nomatch hRequest), fun {load} hLoad hSome => ⟨n, later, rfl, ?_⟩⟩
    obtain rfl := Option.some.inj hLoad
    exact hShown hSome
  | cons row rows ih =>
    have hRest : ∀ row' ∈ rows, row' ∈ c.jobs.values :=
      fun row' h => hRows row' (List.mem_cons_of_mem _ h)
    rw [browse]
    cases hRead : row.read with
    -- a row that cannot be read ends the listing with a fault
    | error e => exact fun reply hReply => nomatch hReply
    | ok j =>
      dsimp only
      split
      -- a job that is not asked for is passed over
      · exact ih hRest hShown
      · split
        · next hLoad => exact ih hRest fun hSome => absurd hLoad hSome
        · next hLoad =>
          obtain ⟨id, hRow⟩ := (Dict.mem_values_iff _ _).mp (hRows row List.mem_cons_self)
          obtain ⟨-, hDefines, hTasks⟩ := hc.defines hRow hRead
          -- for any other job the tasks are awaited, and what was shown before stays as it was
          exact ⟨n, later, c, rfl, hNow, hDefines, hTasks, hLoad, rfl, hRest, hShown hLoad⟩

/-- One turn of a call on its way. -/
theorem OnItsWay.turn {p : Phase} (h : OnItsWay moments r turns p) {n : Nat} {c : Catalog}
    (hc : c.Faithful) (hFaithful : ∀ c ∈ moments, c.Faithful) (hOpen : p.isOver = false)
    (hLater : ∀ m ∈ turns, m < n) (hNow : moments[n]? = some c)
    (hNext : moments[n + 1]? = some (p.turn c).1) :
    OnItsWay moments r (turns ++ [n]) (p.turn c).2 := by
  cases p with
  | asked r' =>
    obtain ⟨rfl, rfl⟩ := h
    have hOther (hDelete : ∀ d, r' ≠ .deleteTasks d) (hLoad : ∀ load, r'.load? = some load →
        load = .unknown) (a : Except Fault Reply) : OnItsWay moments r' ([] ++ [n]) (.answered a) :=
      fun _ _ => ⟨fun {d} {_} hRequest => absurd hRequest (hDelete d),
        fun hLoad' hSome => absurd (hLoad _ hLoad') hSome⟩
    cases r' with
    | putJob j => exact hOther (by simp) (by simp [Request.load?]) _
    | deleteJob id => exact hOther (by simp) (by simp [Request.load?]) _
    | putTask t => exact hOther (by simp) (by simp [Request.load?]) _
    | listTasks scope status => exact hOther (by simp) (by simp [Request.load?]) _
    | getJob id load =>
      rw [Phase.turn]
      cases hFind : c.findJob id with
      | error e => exact fun reply hReply => nomatch hReply
      | ok j =>
        dsimp only
        split
        · next hLoad => exact hOther (by simp) (by simpa [Request.load?] using hLoad) _
        · next hLoad =>
          obtain ⟨-, hDefines, hTasks⟩ := defines_of_findJob hc hFind
          exact ⟨n, c, rfl, hNow, hDefines, hTasks, hLoad, id, rfl⟩
    | listJobs l =>
      exact onItsWay_browse hc hNow (fun row hRow => List.mem_of_mem_filter hRow)
        fun _ _ hShown => nomatch hShown
    | deleteTasks d =>
      rw [Phase.turn]
      cases hChosen : c.chooseTasks d with
      | error e => exact fun reply hReply => nomatch hReply
      | ok ts => exact ⟨n, c, d, rfl, hNow, hChosen, rfl⟩
  | attaching load j =>
    obtain ⟨m, c₀, rfl, hFirst, hDefines, hTasks, hLoad, id, rfl⟩ := h
    intro reply hReply
    refine ⟨fun hRequest => (nomatch hRequest), fun {load'} hLoad' _ => ⟨m, [n], rfl, ?_⟩⟩
    obtain rfl := Option.some.inj hLoad'
    cases hAttach : c.attach load j with
    | error e =>
      rw [hAttach] at hReply
      cases hReply
    | ok j' =>
      rw [hAttach] at hReply
      obtain rfl := Except.ok.inj hReply
      intro j'' hj''
      obtain rfl := List.mem_singleton.mp hj''
      have hBefore : m < n := hLater m (List.mem_singleton_self m)
      exact ⟨n, List.mem_singleton_self n, assembled_of_attach hBefore hFirst hNow hLoad hDefines
        hAttach⟩
  | listing l j rest shown =>
    obtain ⟨m, later, c₀, rfl, hFirst, hDefines, hTasks, hLoad, rfl, hRest, hShown⟩ := h
    have hc₀ : c₀.Faithful := hFaithful c₀ (List.mem_of_getElem? hFirst)
    rw [Phase.turn]
    cases hAttach : c.attach l.load j with
    | error e => exact fun reply hReply => nomatch hReply
    | ok j' =>
      have hBefore : m < n := hLater m List.mem_cons_self
      have hNew := assembled_of_attach hBefore hFirst hNow hLoad hDefines hAttach
      rw [List.cons_append]
      refine onItsWay_browse hc₀ hFirst hRest fun _ j'' hj'' => ?_
      -- the jobs that were shown before, and the one that was given its tasks now
      have hCases : j'' ∈ shown ∨ j'' = j' := by
        split at hj''
        · exact Or.inl hj''
        · exact (List.mem_append.mp hj'').imp_right List.mem_singleton.mp
      rcases hCases with hOld | rfl
      · obtain ⟨n', hn', hAssembled⟩ := hShown j'' hOld
        exact ⟨n', List.mem_append_left _ hn', hAssembled⟩
      · exact ⟨n, List.mem_append_right _ (List.mem_singleton_self n), hNew⟩
  | erasing ts =>
    obtain ⟨m, c₀, d, rfl, hFirst, hChosen, rfl⟩ := h
    intro reply hReply
    obtain rfl := Except.ok.inj hReply
    refine ⟨fun {d'} {ts'} hRequest hTasks => ?_, fun hLoad => (nomatch hLoad)⟩
    obtain rfl := Request.deleteTasks.inj hRequest
    obtain rfl := Reply.tasks.inj hTasks
    exact ⟨m, n, c₀, c, rfl, hLater m (List.mem_singleton_self m), hFirst, hNow, hChosen, hNext⟩
  | answered a => cases hOpen

/-- A call that ran over faithful states is where `OnItsWay` says, by induction on its turns. -/
theorem Ran.onItsWay (hFaithful : ∀ c ∈ moments, c.Faithful) {p : Phase}
    (h : Ran moments r turns p) : OnItsWay moments r turns p := by
  induction h with
  | asked => exact ⟨rfl, rfl⟩
  | turn _ hOpen hLater hNow hNext ih =>
    exact ih.turn (hFaithful _ (List.mem_of_getElem? hNow)) hFaithful hOpen hLater hNow hNext

/-! ## Calls that behave as one turn -/

/-- A job and the tasks that are attached to it were there at one moment. -/
def Together (moments : List Catalog) (load : TaskStatus) (j : Job) : Prop :=
  ∃ c ∈ moments, c.Defines j ∧ readBucket load (c.bucket j.id) = .ok j.tasks

/-- A call behaves as if it had taken one turn: a version of a task that a deletion by states takes
away is one that it returns, and its state is asked for; the jobs that are answered were there
together with the tasks attached to them. -/
structure Caller.Atomic (moments : List Catalog) (k : Caller) : Prop where
  deleted {d : Deletion} {ts : List Task} {n : Nat} {c c' : Catalog} {jobId id : String}
    {row : TaskRow} (hRequest : k.request = .deleteTasks d) (hStates : d.ids = [])
    (hReply : k.reply? = some (.tasks ts)) (hTurn : k.turns.getLast? = some n)
    (hBefore : moments[n]? = some c) (hAfter : moments[n + 1]? = some c')
    (hRow : (c.bucket jobId).get? id = some row) (hGone : (c'.bucket jobId).get? id = none) :
    ∃ t ∈ ts, t.jobId = jobId ∧ t.id = id ∧ row.read = .ok t ∧ d.covers t = true
  attached {load : TaskStatus} {a : Reply} {j : Job} (hLoad : k.request.load? = some load)
    (hSome : load ≠ .unknown) (hReply : k.reply? = some a) (hJob : j ∈ a.jobList) :
    Together moments load j

instance : DecidableEq TaskRow := fun r r' =>
  decidable_of_iff (r.status = r'.status ∧ r.text = r'.text) (by cases r; cases r'; simp)

instance : DecidableEq JobRow := fun r r' =>
  decidable_of_iff (r.owner = r'.owner ∧ r.text = r'.text) (by cases r; cases r'; simp)

/-- What a call answers was left alone from its first turn to each later one: the rows of tasks; and
of a job its row or, instead, its tasks. And no job has the empty identifier, which stands for all
jobs when tasks are listed. -/
def Caller.Undisturbed (moments : List Catalog) (k : Caller) : Prop :=
  ∀ a ∈ k.reply?, ∀ n ∈ k.turns.head?, ∀ n' ∈ k.turns, ∀ c ∈ moments[n]?, ∀ c' ∈ moments[n']?,
    (∀ t ∈ a.taskList, (c'.bucket t.jobId).get? t.id = (c.bucket t.jobId).get? t.id) ∧
    ∀ j ∈ a.jobList, j.id ≠ "" ∧
      (c'.jobs.get? j.id = c.jobs.get? j.id ∨ c'.bucket j.id = c.bucket j.id)

instance (moments : List Catalog) (k : Caller) : Decidable (k.Undisturbed moments) :=
  inferInstanceAs (Decidable (∀ a ∈ k.reply?, ∀ n ∈ k.turns.head?, ∀ n' ∈ k.turns, _))

/-- The tasks of one job are those of its bucket. -/
theorem listTasks_eq_readBucket (c : Catalog) {id : String} (hId : id ≠ "") (status : TaskStatus) :
    c.listTasks id status = readBucket status (c.bucket id) := by
  rw [listTasks, readBuckets, bucketsIn, if_neg hId, List.mapM_cons, List.mapM_nil]
  cases readBucket status (c.bucket id) with
  | error e => rfl
  | ok ts => exact congrArg Except.ok (List.append_nil ts)

/-- A deletion chooses tasks that are there, by states only such as are asked for. -/
theorem row_of_chosen {c : Catalog} (hc : c.Faithful) {d : Deletion} {ts : List Task}
    (h : c.chooseTasks d = .ok ts) {t : Task} (ht : t ∈ ts) :
    (∃ row, (c.bucket t.jobId).get? t.id = some row ∧ row.read = .ok t) ∧
      (d.ids = [] → d.covers t = true) := by
  rw [chooseTasks] at h
  split at h
  · cases h
  · cases hRead : c.readBuckets d.scope .any with
    | error e =>
      rw [hRead] at h
      cases h
    | ok bs =>
      rw [hRead] at h
      cases h
      obtain ⟨b, hb, htb⟩ := List.mem_flatMap.mp ht
      refine ⟨?_, fun hStates => ?_⟩
      -- the row stands where the task that was written there says
      · obtain ⟨bucket, hBucket, hOf⟩ := (mapM_ok hRead).1 b hb
        obtain ⟨jobId, rfl⟩ := exists_bucket hBucket
        obtain ⟨row, hRow, hTask⟩ := (mapM_ok hOf).1 t (Deletion.mem_of_mem_doomed htb)
        obtain ⟨id, hGet⟩ := (Dict.mem_values_iff _ _).mp (List.mem_of_mem_filter hRow)
        obtain ⟨t₀, rfl, rfl, rfl⟩ := hc.task hGet
        obtain ⟨hJob, hId⟩ := Task.of_read_row hTask
        exact ⟨t₀.row, by rw [hJob, hId]; exact hGet, hTask⟩
      · rw [Deletion.doomed, hStates, List.isEmpty_nil, if_pos rfl] at htb
        exact (List.mem_filter.mp (List.mem_mergeSort.mp (List.mem_of_mem_drop htb))).2

variable {k : Caller}

/-- When no one else's move falls between a caller's turns, each explanation of its reply is a
single moment. -/
theorem atomic_of_explained (hFaithful : ∀ c ∈ moments, c.Faithful)
    (hExplained : ∀ a, k.reply? = some a → Explained moments k.request k.turns a)
    (h : k.Undisturbed moments) : k.Atomic moments where
  deleted {d ts n c c' jobId id row} hRequest hStates hReply hTurn hBefore hAfter hRow hGone := by
    obtain ⟨m, n', c₀, _, hTurns, -, hFirst, hSecond, hChosen, hErased⟩ :=
      (hExplained _ hReply).deleted hRequest rfl
    have hHead : m ∈ k.turns.head? := by rw [hTurns]; rfl
    have hLast : n' ∈ k.turns := by rw [hTurns]; simp
    rw [hTurns] at hTurn
    obtain rfl : n' = n := Option.some.inj hTurn
    obtain rfl := Option.some.inj (hBefore.symm.trans hSecond)
    obtain rfl := Option.some.inj (hAfter.symm.trans hErased)
    -- what is gone was chosen
    have hOf : ∃ t ∈ ts, t.jobId = jobId ∧ t.id = id := by
      rw [get?_eraseTasks] at hGone
      by_contra hNone
      rw [if_neg hNone, hRow] at hGone
      cases hGone
    obtain ⟨t, ht, rfl, rfl⟩ := hOf
    have hSame := (h _ hReply m hHead n' hLast c₀ hFirst c hBefore).1 t ht
    obtain ⟨⟨row', hRow', hRead⟩, hCovers⟩ :=
      row_of_chosen (hFaithful c₀ (List.mem_of_getElem? hFirst)) hChosen ht
    obtain rfl : row' = row := Option.some.inj (hRow'.symm.trans (hSame.symm.trans hRow))
    exact ⟨t, ht, rfl, rfl, hRead, hCovers hStates⟩
  attached {load a j} hLoad hSome hReply hJob := by
    obtain ⟨n, later, hTurns, hAll⟩ := (hExplained _ hReply).attached hLoad hSome
    obtain ⟨n', hn', -, c, c', hNow, hNow', ⟨row, hRow, hRead⟩, hTasks⟩ := hAll j hJob
    have hHead : n ∈ k.turns.head? := by rw [hTurns]; rfl
    have hLater : n' ∈ k.turns := by rw [hTurns]; simp [hn']
    obtain ⟨hNamed, hSame⟩ := (h a hReply n hHead n' hLater c hNow c' hNow').2 j hJob
    rw [listTasks_eq_readBucket _ hNamed] at hTasks
    -- one of the two moments has both, whichever was left alone
    rcases hSame with hSame | hSame
    · exact ⟨c', List.mem_of_getElem? hNow', ⟨row, hSame.trans hRow, hRead⟩, hTasks⟩
    · rw [hSame] at hTasks
      exact ⟨c, List.mem_of_getElem? hNow, ⟨row, hRow, hRead⟩, hTasks⟩

/-- **Calls of several callers.** However callers take the lock of the store, a call that is
answered chose or found what it answers at its first turn, and deleted it or listed its tasks at
later ones; and if what it answers was left alone in between, it behaves as if it had taken one
turn. -/
theorem atomic_of_undisturbed (moves : List Traffic.Move) (k : Caller)
    (hk : k ∈ (Traffic.run moves).callers) :
    (∀ a, k.reply? = some a → Explained (Traffic.run moves).moments k.request k.turns a) ∧
    (k.Undisturbed (Traffic.run moves).moments → k.Atomic (Traffic.run moves).moments) := by
  have hSound := sound_run moves
  have hFaithful : ∀ c ∈ (Traffic.run moves).moments, c.Faithful := fun _ => hSound.faithful
  have hExplained : ∀ a, k.reply? = some a →
      Explained (Traffic.run moves).moments k.request k.turns a := by
    intro a hReply
    have hOn := (hSound.ran hk).onItsWay hFaithful
    rw [Caller.phase_of_reply? hReply] at hOn
    exact hOn a rfl
  exact ⟨hExplained, atomic_of_explained hFaithful hExplained⟩

/-! ## A deletion and what is saved meanwhile -/

/-- The only task there is is chosen if its state is asked for. -/
theorem chooseTasks_putTask {t : Task} (hRead : t.row.read = .ok t) {status : TaskStatus}
    (hScope : t.jobId ≠ "") (hStatus : t.status = status) :
    (empty.putTask t).chooseTasks { scope := t.jobId, statuses := [status] } = .ok [t] := by
  have hRows : (empty.putTask t).readBuckets t.jobId .any = .ok [[t]] := by
    rw [readBuckets, bucketsIn, if_neg hScope, List.mapM_cons, bucket_putTask, if_pos rfl,
      readBucket_insert rfl hRead]
    rfl
  rw [chooseTasks, hRows]
  simp [Deletion.isVoid, Except.map, Deletion.doomed, Deletion.covers, TaskStatus.meets, hStatus]

/-- A task is saved, and chosen for deletion; before it is deleted, another one is saved. -/
def crossingMoves (t : Task) (d : Deletion) (t' : Task) : List Traffic.Move :=
  [.call (.putTask t), .turn 0, .call (.deleteTasks d), .turn 1, .call (.putTask t'), .turn 2,
    .turn 1]

/-- The run of `crossingMoves`: the deletion chooses a task, another caller stores it again, and
the deletion removes the new one. -/
theorem run_crossingMoves {t : Task} {d : Deletion} (t' : Task)
    (hChosen : (empty.putTask t).chooseTasks d = .ok [t]) :
    Traffic.run (crossingMoves t d t') =
      { past := [empty, empty.putTask t, empty.putTask t, (empty.putTask t).putTask t']
        now := ((empty.putTask t).putTask t').eraseTasks [t]
        callers := [⟨.putTask t, .answered (.ok .done), [0]⟩,
          ⟨.deleteTasks d, .answered (.ok (.tasks [t])), [1, 3]⟩,
          ⟨.putTask t', .answered (.ok .done), [2]⟩] } := by
  simp [Traffic.run, crossingMoves, Traffic.step, Traffic.grant, Phase.turn, Phase.isOver, hChosen]

/-- A call that answers `done` took a single turn, so nothing could come between. -/
theorem undisturbed_of_done {k : Caller} (h : k.reply? = some .done) : k.Undisturbed moments := by
  intro a ha _ _ _ _ _ _ _ _
  obtain rfl := Option.some.inj (ha.symm.trans h)
  exact ⟨fun _ ht => (nomatch ht), fun _ hj => (nomatch hj)⟩

/-- A task of another job leaves the chosen one alone. -/
theorem undisturbed_crossingMoves {t t' : Task} {d : Deletion} (hOther : t'.jobId ≠ t.jobId)
    (hChosen : (empty.putTask t).chooseTasks d = .ok [t]) :
    ∀ k ∈ (Traffic.run (crossingMoves t d t')).callers,
      k.Undisturbed (Traffic.run (crossingMoves t d t')).moments := by
  rw [run_crossingMoves t' hChosen]
  simp only [List.forall_mem_cons, List.not_mem_nil, false_implies, implies_true, and_true]
  refine ⟨undisturbed_of_done rfl, ?_, undisturbed_of_done rfl⟩
  intro a ha n hn n' hn' c hc c' hc'
  obtain rfl := Option.some.inj ha
  obtain rfl := Option.some.inj hn
  obtain rfl := Option.some.inj hc
  refine ⟨fun t₀ ht₀ => ?_, fun _ hj => (nomatch hj)⟩
  obtain rfl := List.mem_singleton.mp ht₀
  -- the second turn comes after the other task was saved
  rcases List.mem_pair.mp hn' with rfl | rfl
  · obtain rfl := Option.some.inj hc'
    rfl
  · obtain rfl := Option.some.inj hc'
    rw [bucket_putTask, if_neg hOther]

/-- The finished task of a job is deleted while a task of another one is saved. -/
theorem atomic_of_undisturbed_crossingMoves :
    let s := Traffic.run (crossingMoves (doneTask "a" "t")
      { scope := "a", statuses := [.finished] } (doneTask "b" "t"))
    (∃ k ∈ s.callers, k.reply? = some (.tasks [doneTask "a" "t"])) ∧
      ∀ k ∈ s.callers, k.Undisturbed s.moments ∧ k.Atomic s.moments := by
  have hRead : (doneTask "a" "t").row.read = .ok (doneTask "a" "t") :=
    exact_putTask (by decide +kernel) rfl rfl
  have hChosen : (empty.putTask (doneTask "a" "t")).chooseTasks
      { scope := "a", statuses := [.finished] } = .ok [doneTask "a" "t"] :=
    chooseTasks_putTask hRead (by decide) rfl
  -- the task that is stored in between is of another job
  have hOther : (doneTask "b" "t").jobId ≠ (doneTask "a" "t").jobId := by decide
  have hUndisturbed := undisturbed_crossingMoves hOther hChosen
  refine ⟨?_, fun k hk => ⟨hUndisturbed k hk, ?_⟩⟩
  -- the deletion is the second of the two callers
  · rw [run_crossingMoves _ hChosen]
    exact ⟨_, List.mem_cons_of_mem _ List.mem_cons_self, rfl⟩
  · exact (atomic_of_undisturbed _ k hk).2 (hUndisturbed k hk)

/-! ## Calls that do not behave as one turn -/

/-- A task that is saved anew between the two turns of a deletion is deleted in a version that was
not asked for. -/
theorem not_atomic_crossingMoves {t t' : Task} {d : Deletion} (hStates : d.ids = [])
    (hJob : t'.jobId = t.jobId) (hId : t'.id = t.id) (hRead : t'.row.read = .ok t')
    (hChosen : (empty.putTask t).chooseTasks d = .ok [t]) (hCovers : d.covers t' = false) :
    ∃ k ∈ (Traffic.run (crossingMoves t d t')).callers,
      ¬k.Atomic (Traffic.run (crossingMoves t d t')).moments := by
  rw [run_crossingMoves t' hChosen]
  refine ⟨⟨.deleteTasks d, .answered (.ok (.tasks [t])), [1, 3]⟩, by simp, fun hAtomic => ?_⟩
  have hRow : (((empty.putTask t).putTask t').bucket t.jobId).get? t.id = some t'.row := by
    rw [bucket_putTask, if_pos hJob, Dict.get?_insert, if_pos hId]
  have hGone : ((((empty.putTask t).putTask t').eraseTasks [t]).bucket t.jobId).get? t.id = none := by
    rw [get?_eraseTasks, if_pos ⟨t, List.mem_singleton_self t, rfl, rfl⟩]
  obtain ⟨t₀, -, -, -, hRead₀, hCovers₀⟩ := hAtomic.deleted (n := 3) rfl hStates rfl rfl rfl rfl hRow hGone
  obtain rfl := Except.ok.inj (hRead.symm.trans hRead₀)
  rw [hCovers] at hCovers₀
  cases hCovers₀

/-- A job is saved and found. Before it is given its tasks, another version of it is saved, and a
task. -/
def splitMoves (j j' : Job) (t : Task) : List Traffic.Move :=
  [.call (.putJob j), .turn 0, .call (.getJob j.id .any), .turn 1, .call (.putJob j'), .turn 2,
    .call (.putTask t), .turn 3, .turn 1]

/-- What is answered is the old version of a job with a task that only the new one had. -/
theorem not_atomic_splitMoves {j j' : Job} {t : Task} (hId : j'.id = j.id) (hJob : t.jobId = j.id)
    (hNamed : j.id ≠ "") (hRead : j.row.read = .ok j.withoutTasks)
    (hRead' : j'.row.read = .ok j'.withoutTasks) (hTask : t.row.read = .ok t)
    (hNew : j'.withoutTasks ≠ j.withoutTasks) :
    ∃ k ∈ (Traffic.run (splitMoves j j' t)).callers,
      ¬k.Atomic (Traffic.run (splitMoves j j' t)).moments := by
  have hBucket : ((((empty.putJob j).putJob j').putTask t).bucket j.id) =
      (empty.bucket j.id).insert t.id t.row := by
    rw [bucket_putTask, if_pos hJob]
    rfl
  have hTasks : (((empty.putJob j).putJob j').putTask t).listTasks j.id .any = .ok [t] := by
    rw [listTasks_eq_readBucket _ hNamed, hBucket, readBucket_insert rfl hTask]
  have hRun : Traffic.run (splitMoves j j' t) =
      { past := [empty, empty.putJob j, empty.putJob j, (empty.putJob j).putJob j',
          ((empty.putJob j).putJob j').putTask t]
        now := ((empty.putJob j).putJob j').putTask t
        callers := [⟨.putJob j, .answered (.ok .done), [0]⟩,
          ⟨.getJob j.id .any, .answered (.ok (.job { j.withoutTasks with tasks := [t] })), [1, 4]⟩,
          ⟨.putJob j', .answered (.ok .done), [2]⟩, ⟨.putTask t, .answered (.ok .done), [3]⟩] } := by
    have hAttach := attach_of_listTasks (j := j.withoutTasks) hTasks
    simp [Traffic.run, splitMoves, Traffic.step, Traffic.grant, Phase.turn, Phase.isOver,
      findJob_putJob hRead, hAttach, Except.map]
  rw [hRun]
  refine ⟨_, List.mem_cons_of_mem _ List.mem_cons_self, fun hAtomic => ?_⟩
  obtain ⟨c, hc, hDefines, hOwn⟩ :=
    hAtomic.attached (rfl : _ = some TaskStatus.any) (by decide) rfl (List.mem_singleton_self _)
  -- the old version was there before there was a task, and the new one since
  have hNone : readBucket .any (Dict.empty : Dict TaskRow) = .ok [] := rfl
  have hRows : ∀ c : Catalog, c.jobs = ((empty.putJob j).putJob j').jobs →
      ¬c.Defines { j.withoutTasks with tasks := [t] } := by
    rintro c hJobs ⟨row, hRow, hOld⟩
    have hLast : ((empty.putJob j).putJob j').jobs.get? j.id = some row := hJobs ▸ hRow
    rw [putJob, Dict.get?_insert, if_pos hId] at hLast
    obtain rfl : j'.row = row := Option.some.inj hLast
    exact hNew (Except.ok.inj (hRead'.symm.trans hOld))
  simp only [Traffic.moments, List.cons_append, List.nil_append, List.mem_cons, List.not_mem_nil,
    or_false] at hc
  rcases hc with rfl | rfl | rfl | rfl | rfl | rfl
  · cases hDefines.choose_spec.1
  · cases hNone.symm.trans hOwn
  · cases hNone.symm.trans hOwn
  · exact hRows _ rfl hDefines
  · exact hRows _ rfl hDefines
  · exact hRows _ rfl hDefines

/-- A job is saved and a task of another one, and the job is asked for. -/
def strayMoves (j : Job) (t : Task) : List Traffic.Move :=
  [.call (.putJob j), .turn 0, .call (.putTask t), .turn 1, .call (.getJob j.id .any), .turn 2,
    .turn 2]

/-- What is answered is the job with the empty identifier and a task that it never had. -/
theorem not_atomic_strayMoves {j : Job} {t : Task} (hId : j.id = "") (hJob : t.jobId ≠ "")
    (hRead : j.row.read = .ok j.withoutTasks) (hTask : t.row.read = .ok t) :
    ∃ k ∈ (Traffic.run (strayMoves j t)).callers,
      ¬k.Atomic (Traffic.run (strayMoves j t)).moments := by
  have hFind : ((empty.putJob j).putTask t).findJob j.id = .ok j.withoutTasks :=
    (findJob_putTask t j.id).trans (findJob_putJob hRead)
  have hTasks : ((empty.putJob j).putTask t).listTasks j.id .any = .ok [t] :=
    hId.symm ▸ listTasks_of_putTask hTask
  have hRun : Traffic.run (strayMoves j t) =
      { past := [empty, empty.putJob j, (empty.putJob j).putTask t, (empty.putJob j).putTask t]
        now := (empty.putJob j).putTask t
        callers := [⟨.putJob j, .answered (.ok .done), [0]⟩, ⟨.putTask t, .answered (.ok .done), [1]⟩,
          ⟨.getJob j.id .any, .answered (.ok (.job { j.withoutTasks with tasks := [t] })),
            [2, 3]⟩] } := by
    have hAttach := attach_of_listTasks (j := j.withoutTasks) hTasks
    simp [Traffic.run, strayMoves, Traffic.step, Traffic.grant, Phase.turn, Phase.isOver, hFind,
      hAttach, Except.map]
  rw [hRun]
  refine ⟨_, List.mem_cons_of_mem _ (List.mem_cons_of_mem _ List.mem_cons_self), fun hAtomic => ?_⟩
  -- at one of the moments the bucket would have to hold the task
  obtain ⟨c, hc, -, hOwn⟩ :=
    hAtomic.attached (rfl : _ = some TaskStatus.any) (by decide) rfl (List.mem_singleton_self _)
  have hBucket : c.bucket j.id = Dict.empty := by
    simp only [Traffic.moments, List.cons_append, List.nil_append, List.mem_cons, List.not_mem_nil,
      or_false] at hc
    have hOther : ((empty.putJob j).putTask t).bucket j.id = Dict.empty := by
      rw [bucket_putTask, if_neg (hId.symm ▸ hJob)]
      rfl
    -- no moment has a task in the bucket with the empty name
    rcases hc with rfl | rfl | rfl | rfl | rfl
    · rfl
    · rfl
    · exact hOther
    · exact hOther
    · exact hOther
  rw [show ({ j.withoutTasks with tasks := [t] } : Job).id = j.id from rfl, hBucket] at hOwn
  cases hOwn

/-- A `delete_tasks` of finished tasks deletes one that is running by then; `get_job` answers the
first version of a job with a task that came after the second one; and the job with the empty
identifier, with nobody else around, with a task of another job. -/
theorem not_atomic :
    (let s := Traffic.run (crossingMoves (doneTask "a" "t")
        { scope := "a", statuses := [.finished] } { doneTask "a" "t" with status := .running })
      ∃ k ∈ s.callers, ¬k.Atomic s.moments) ∧
    (let s := Traffic.run (splitMoves { busyJob with label := "old" }
        { busyJob with label := "new" } (doneTask "a" "t"))
      ∃ k ∈ s.callers, ¬k.Atomic s.moments) ∧
    let s := Traffic.run (strayMoves nameless (doneTask "a" "t"))
    ∃ k ∈ s.callers, ¬k.Atomic s.moments := by
  have hDone : (doneTask "a" "t").row.read = .ok (doneTask "a" "t") :=
    exact_putTask (by decide +kernel) rfl rfl
  have hChosen : (empty.putTask (doneTask "a" "t")).chooseTasks
      { scope := "a", statuses := [.finished] } = .ok [doneTask "a" "t"] :=
    chooseTasks_putTask hDone (by decide) rfl
  have hRunning : ({ doneTask "a" "t" with status := .running } : Task).row.read =
      .ok { doneTask "a" "t" with status := .running } := exact_putTask (by decide +kernel) rfl rfl
  -- one lemma for each scenario: all that is left are the rows, which are read back
  refine ⟨?_, ?_, ?_⟩
  · exact not_atomic_crossingMoves rfl rfl rfl hRunning hChosen (by decide)
  · exact not_atomic_splitMoves rfl rfl (by decide) (exact_putJob (by decide +kernel) rfl)
      (exact_putJob (by decide +kernel) rfl) hDone
      fun hSame => absurd (congrArg Job.label hSame) (by decide)
  · exact not_atomic_strayMoves rfl (by decide) (exact_putJob (by decide +kernel) rfl) hDone

end Catalog

end Taskyard
