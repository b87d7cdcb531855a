import Taskyard.Handler.Prune
import Taskyard.Proofs.Catalog.Separation
import Taskyard.Proofs.Scheduler.Ledger
import Taskyard.Proofs.Scheduler.Storage

/-!
# Scheduler — an action that prunes stays with its job

An action that prunes deletes tasks in the scope that it names, or else in that of the job it runs
for. Its run is a script that others come between, but the scope was fixed when the script was made:
whatever the deletion answers, the script never leaves it. So the action takes nothing from another
job, unless its own job has no identifier: then the scope is that of all jobs.

Main definitions and results:

* `Script.Within` — every deletion of a script is in one scope.
* `Machine.Confined` — the executions that prune their own job are within its scope;
  `Confined.step` keeps it.
* `Machine.tasks_apart` — whose tasks are read and pruned, for every catalog and every run.
* `Machine.pruned_elsewhere` — a job without an identifier prunes the task of another one.
-/

namespace Taskyard

/-! ## Scripts -/

/-- Every deletion of a script is in one scope, whatever was answered before. -/
inductive Script.Within (scope : String) : Script → Prop
  | finish (result : Int64 → Message) : Within scope (.finish result)
  | refuse (fault : Fault) : Within scope (.refuse fault)
  | crash (reason : String) : Within scope (.crash reason)
  | report (progress : Decimal.Single) {next : Script} (hNext : Within scope next) :
      Within scope (.report progress next)
  | wait (millis : Nat) {next : Script} (hNext : Within scope next) :
      Within scope (.wait millis next)
  | prune {d : Deletion} {next : Except Fault (List String) → Script} (hScope : d.scope = scope)
      (hNext : ∀ answer, Within scope (next answer)) : Within scope (.prune d next)

/-- What is left of the script of an execution is within a scope. -/
def Phase.Within (scope : String) : Phase → Prop
  | .running script | .asleep _ script => script.Within scope
  | .fresh | .crashed _ | .doing _ => True

/-- Whether an action prunes the tasks of the job that it runs for. -/
def Action.PrunesOwn (a : Action) : Prop :=
  a.id = Handler.pruneId ∧ (a.param "job_id").filter (· ≠ "") = none

theorem Script.within_ofExcept (scope : String) (x : Except Fault (Int64 → Message)) :
    (ofExcept x).Within scope := by
  cases x with
  | ok result => exact .finish result
  | error fault => exact .refuse fault

namespace Handler

/-- Pruning without a job named prunes the job of its own task. -/
theorem within_runPrune (keep : Nat) (statuses : List TaskStatus) (c : Context) (m : Message) :
    (runPrune none keep statuses c m).Within c.job.id :=
  .prune rfl fun _ => Script.within_ofExcept _ _

/-- An action that names no job runs in the scope of its own. -/
theorem within_of_prepare {j : Job} {a : Action} {run : Context → Message → Script}
    (hOwn : a.PrunesOwn) (h : prune.prepare j a = .ready run) (c : Context) (m : Message) :
    (run c m).Within c.job.id := by
  simp only [prune, hOwn.2] at h
  -- it runs only if both of its parameters can be read
  cases hKeep : a.numberParam "max_tasks" defaultKeep with
  | error fault =>
    rw [hKeep] at h
    cases h
  | ok keep =>
    cases hStates : pruneStates a with
    | error fault =>
      rw [hKeep, hStates] at h
      cases h
    | ok statuses =>
      rw [hKeep, hStates] at h
      cases h
      exact within_runPrune keep statuses c m

end Handler

variable {u : Setup}

/-- What an execution goes on with stays within the scope of its job, by the handler's script. -/
theorem Phase.Next.within (hPrune : u.registry.create Handler.pruneId = .ok Handler.prune) {j : Job}
    {taskId : String} {r : Runnable} {p p' : Phase} {s : Option TaskStep}
    (h : Phase.Next u j taskId r p s p') (hOwn : r.action.PrunesOwn) (hp : p.Within j.id) :
    p'.Within j.id := by
  cases h with
  | ready hCreate hPrepare =>
    -- the handler of the action is the one that prunes
    rw [hOwn.1, hPrune] at hCreate
    cases hCreate
    exact Handler.within_of_prepare hOwn hPrepare
      { job := j, taskId, site := u.site, allowance := u.allowance } r.input
  | report =>
    cases hp with
    | report _ hNext => exact hNext
  | wait | sleep =>
    cases hp with
    | wait _ hNext => exact hNext
  | wake => exact hp
  | prune _ _ answer =>
    cases hp with
    | prune _ hNext => exact hNext answer
  | unknown | refused | crashed | finish | refuse | crash | notice => trivial

namespace Machine

variable {m m' : Machine} {s : MachineStep}

/-! ## Executions -/

/-- The executions that prune their own job are within the scope of it. -/
def Confined (m : Machine) : Prop :=
  ∀ e t, .running e ∈ m.duties → m.floor.tasks[e.runnable.task]? = some t →
    e.runnable.action.PrunesOwn → e.phase.Within t.job.id

/-- What a turn puts back of an execution is within the scope, if the execution was. -/
theorem Turn.confined (hPrune : u.registry.create Handler.pruneId = .ok Handler.prune) {t : LiveTask}
    {d : Duty} {begun : Option Runnable} {record : Task} {new : Multiset Duty} {e : Execution}
    (h : Turn u m t d begun record new) (he : .running e ∈ new) (hOwn : e.runnable.action.PrunesOwn)
    (hd : ∀ e₀, d = .running e₀ → e₀.runnable.action.PrunesOwn → e₀.phase.Within t.job.id) :
    e.phase.Within t.job.id := by
  -- an execution that is left with deeds prunes nothing any more
  have hResumed : ∀ ds, .running e ∈ d.resume ds → e.phase.Within t.job.id := by
    intro ds he
    cases d with
    | waiting r => exact absurd he (Multiset.notMem_zero _)
    | running e₀ =>
      obtain rfl := Duty.running.inj (Multiset.mem_singleton.mp he)
      trivial
    | errand i _ => exact absurd (Duty.mem_ofDeeds.mp he).2 (by simp)
  cases h with
  | pick r =>
    obtain rfl := Duty.running.inj (Multiset.mem_singleton.mp he)
    trivial
  | away r => exact absurd (Duty.mem_ofDeeds.mp he).2 (by simp)
  -- only an execution that goes on can come to prune, and does so as it was prepared to
  | advance e₀ now hNext =>
    obtain rfl := Duty.running.inj (Multiset.mem_singleton.mp he)
    exact hNext.within hPrune hOwn (hd e₀ rfl hOwn)
  | ended => exact absurd he (Multiset.notMem_zero _)
  | mark => exact hResumed _ he
  | queue =>
    rcases Multiset.mem_cons.mp he with hWaits | he
    · exact absurd hWaits (by simp)
    · exact hResumed _ he
  | refuse => exact hResumed _ he

theorem Birth.not_running {n : Nat} {started : Option (Job × Event)} {t : LiveTask}
    {new : Multiset Duty} {e : Execution} (h : Birth u n started t new) : .running e ∉ new := by
  intro he
  cases h with
  | launched | declined => exact absurd (Duty.mem_ofDeeds.mp he).2 (by simp)
  | submitted => exact absurd (Multiset.mem_singleton.mp he) (by simp)

/-- **Every step keeps the executions confined.** -/
theorem Confined.step (hPrune : u.registry.create Handler.pruneId = .ok Handler.prune)
    (h : m.Confined) (hSound : m.Sound) (hStep : m.step u s = some m') : m'.Confined := by
  intro e t' he ht' hOwn
  rcases step_cases hSound hStep with ⟨hMove, -⟩ | ⟨rfl, hEnds⟩
  · have heOf : .running e ∈ m'.dutiesOf e.runnable.task := Multiset.mem_filter.mpr ⟨he, rfl⟩
    have hOld : ∀ e₀, .running e₀ ∈ m.dutiesOf e.runnable.task → ∀ t,
        m.floor.tasks[e.runnable.task]? = some t → e₀.runnable.action.PrunesOwn →
        e₀.phase.Within t.job.id := by
      intro e₀ he₀ t ht hOwn
      obtain ⟨hMem, hTask⟩ := Multiset.mem_filter.mp he₀
      have hSame : e₀.runnable.task = e.runnable.task := hTask
      exact h e₀ t hMem (hSame ▸ ht) hOwn
    -- seen from its task, the execution is an old one or was put back by the turn
    cases hMove.atTask hSound ht' with
    | idle ht hJob _ hDuties _ =>
      rw [hDuties] at heOf
      rw [hJob]
      exact hOld e heOf _ ht hOwn
    | @turn t d old new ht hJob hTask hDuties hTurn hDuties' =>
      rw [hJob]
      rw [hDuties] at hOld
      rw [hDuties'] at heOf
      rcases Multiset.mem_add.mp heOf with hNew | hKept
      · refine hTurn.confined hPrune hNew hOwn ?_
        rintro e₀ rfl hOwn₀
        exact hOld e₀ (Multiset.mem_cons_self _ _) t ht hOwn₀
      · exact hOld e (Multiset.mem_cons_of_mem hKept) t ht hOwn
    | birth _ hBirth => exact absurd heOf hBirth.not_running
  -- the end of the router leaves the executions
  · rw [hEnds.floor] at ht'
    refine h e t' ?_ ht' hOwn
    rw [hEnds.duties]
    exact Multiset.mem_add.mpr (.inr he)

/-- On every run, prunings without a job named stay within the job that runs them. -/
theorem Course.confined (hPrune : u.registry.create Handler.pruneId = .ok Handler.prune)
    {allowed : Machine → MachineStep → Prop} {now : Int64} {catalog : Catalog} {capacity : Nat}
    {m₀ : Machine} {ss : List MachineStep} (hStart : start u now catalog capacity = .ok m₀)
    (hRun : Course u allowed m₀ ss m) : m.Confined := by
  refine hRun.keeps hStart (fun _ _ _ hSound h hStep => h.step hPrune hSound hStep) fun e t he => ?_
  rw [(duties_of_start hStart).1] at he
  exact absurd he (Multiset.notMem_zero _)

/-! ## Steps of workers -/

/-- A worker executes an action that prunes its own job, for a task. -/
def PrunesFor (m : Machine) (n w : Nat) (t : LiveTask) : Prop :=
  ∃ b e, m.benches[n]? = some b ∧ b.execution? w = some e ∧
    m.floor.tasks[e.runnable.task]? = some t ∧ e.runnable.action.PrunesOwn

/-- What such a pruning writes is a deletion whose scope is its own job's id. -/
theorem Confined.scope_of_writes (h : m.Confined) {n w : Nat} {t : LiveTask}
    (hPrunes : m.PrunesFor n w t) {x : Catalog.Change} (hWrites : m.writes (.work n w) = some x) :
    ∃ d, x = .deleteTasks d ∧ d.scope = t.job.id := by
  obtain ⟨b, e, hb, he, ht, hOwn⟩ := hPrunes
  have hWithin := h e t (mem_duties_of_execution hb he) ht hOwn
  have hExecution : e.writes = some x := by
    rw [← hWrites]
    show _ = ((m.benches[n]?).bind (·.execution? w)).bind Execution.writes
    rw [hb, Option.bind_some, he, Option.bind_some]
  -- an execution writes only while it prunes
  unfold Execution.writes at hExecution
  split at hExecution
  · next d next hPhase =>
    rw [hPhase] at hWithin
    cases hWithin with
    | prune hScope => exact ⟨d, (Option.some.inj hExecution).symm, hScope⟩
  · cases hExecution

/-- **Jobs have their tasks to themselves.** Whatever was changed before, the tasks that `get_job`
and `list_jobs` attach to a job are its own; and whatever a scheduler does, an action that prunes
and names no job leaves the tasks of all jobs but its own. Both hold of a job exactly if it has an
identifier or there is nothing of another job to be read or taken. -/
theorem tasks_apart (hPrune : u.registry.create Handler.pruneId = .ok Handler.prune)
    (changes : List Catalog.Change) :
    (Catalog.after changes).Apart ∧
      ∀ {now : Int64} {capacity : Nat} {m₀ m m' : Machine} {ss : List MachineStep} {n w : Nat}
        {t : LiveTask}, start u now (Catalog.after changes) capacity = .ok m₀ →
        Course u (fun _ _ => True) m₀ ss m → m.PrunesFor n w t →
        m.step u (.work n w) = some m' →
        ((∀ jobId ≠ t.job.id, m'.floor.catalog.bucket jobId = m.floor.catalog.bucket jobId) ↔
          t.job.id ≠ "" ∨ ∀ d c ts, m.writes (.work n w) = some (.deleteTasks d) →
            m.floor.catalog.deleteTasks d = .ok (c, ts) →
            ∀ jobId ≠ "", ¬m.floor.catalog.Yields .any d.doomed jobId) := by
  have hFirst : (Catalog.after changes).Faithful := .after changes
  refine ⟨hFirst.apart, ?_⟩
  intro now capacity m₀ m m' ss n w t hStart hRun hPrunes hStep
  have hConfined : m.Confined := hRun.confined hPrune hStart
  have hCatalog : m₀.floor.catalog = Catalog.after changes := catalog_of_start hStart
  have hFaithful : m.floor.catalog.Faithful := hRun.faithful (hCatalog ▸ hFirst)
  rw [catalog_of_step hStep]
  cases hWrites : m.writes (.work n w) with
  -- a step that writes nothing leaves all buckets
  | none => exact ⟨fun _ => .inr fun _ _ _ h => (nomatch h), fun _ _ _ => rfl⟩
  | some x =>
    obtain ⟨d, rfl, hScope⟩ := hConfined.scope_of_writes hPrunes hWrites
    show (∀ jobId ≠ _, (Catalog.Change.apply _ (.deleteTasks d)).bucket jobId = _) ↔ _
    rw [← hScope, Catalog.Change.apply]
    cases hDelete : m.floor.catalog.deleteTasks d with
    -- so does a deletion that fails
    | error fault =>
      refine ⟨fun _ => .inr fun d' c ts h h' => ?_, fun _ _ _ => rfl⟩
      cases h
      rw [hDelete] at h'
      cases h'
    | ok removed =>
      obtain ⟨c', ts⟩ := removed
      refine (hFaithful.apart.deleteTasks hDelete).trans (or_congr_right ?_)
      constructor
      · intro hNone d' _ _ h _
        cases h
        exact hNone
      · intro hNone
        exact hNone d c' ts rfl hDelete

/-! ## Two jobs that prune -/

/-- A scheduler that has no handler but the one that prunes. -/
def pruningSetup : Setup :=
  { bareSetup with registry := Registry.register {} Handler.pruneId Handler.prune }

/-- A job that prunes its own tasks and keeps none. -/
def pruningJob (id : String) : Job where
  id := id
  maxConcurrency := 1
  actions := [{ id := Handler.pruneId, parameters := Dict.empty.insert "max_tasks" "0" }]

def pruningOf (id : String) : Deletion := { scope := id, statuses := Handler.defaultStates }

/-- Tasks are saved, and then a task of the job is started, up to its deletion. -/
def pruningSteps (id : String) (saved : List Task) : List MachineStep :=
  saved.map .saveTask ++
    [.publish (.job (.saved (pruningJob id))), .listen .jobs,
     .launch (pruningJob id) (.timer { jobId := id }), .call 0, .call 0, .call 0, .call 0, .route,
     .dispatch 0 (.offer 0), .dispatch 0 .take, .dispatch 0 .hand, .dispatch 0 (.pick 0),
     .work 0 0]

/-- The worker of an execution whose handler runs can go on. -/
theorem exists_step_of_running {n w : Nat} {b : Bench} {e : Execution} {script : Script}
    (hb : m.benches[n]? = some b) (he : b.execution? w = some e)
    (hPhase : e.phase = .running script) : ∃ m', m.step u (.work n w) = some m' := by
  show ∃ m', m.work u n w = some m'
  rw [work, hb]
  dsimp only
  rw [he, Option.bind_some, Execution.step, hPhase]
  exact ⟨_, rfl⟩

/-- A deletion where one task is in scope, which has ended. -/
theorem deleteTasks_doneTask {c : Catalog} {scope jobId : String}
    (hRead : (Catalog.doneTask jobId "t").row.read = .ok (Catalog.doneTask jobId "t"))
    (h : c.bucketsIn scope = [Dict.empty.insert "t" (Catalog.doneTask jobId "t").row]) :
    c.deleteTasks (pruningOf scope) =
      .ok (c.eraseTasks [Catalog.doneTask jobId "t"], [Catalog.doneTask jobId "t"]) := by
  have hBucket : Catalog.readBucket .any
      (Dict.empty.insert "t" (Catalog.doneTask jobId "t").row) =
        .ok [Catalog.doneTask jobId "t"] :=
    Catalog.readBucket_insert (b := Dict.empty) (t := Catalog.doneTask jobId "t") rfl hRead
  refine Catalog.deleteTasks_of_one rfl h hBucket ?_
  have hNoIds : (pruningOf scope).ids.isEmpty = true := rfl
  rw [Deletion.doomed, if_pos hNoIds]
  exact List.mergeSort_singleton _

/-- A worker is about to delete what an action that prunes its own job is to delete. -/
def AboutToPrune (m : Machine) (id : String) : Prop :=
  (∃ b e script t, m.benches[0]? = some b ∧ b.execution? 0 = some e ∧
    e.phase = .running script ∧ e.runnable.action.PrunesOwn ∧
    m.floor.tasks[e.runnable.task]? = some t ∧ t.job = pruningJob id) ∧
  m.writes (.work 0 0) = some (.deleteTasks (pruningOf id))

/-- A worker that is about to prune carries its deletion out with its next step. -/
theorem AboutToPrune.step {id : String} {c : Catalog} {ts : List Task} (h : m.AboutToPrune id)
    (hDelete : m.floor.catalog.deleteTasks (pruningOf id) = .ok (c, ts)) :
    ∃ t m', m.PrunesFor 0 0 t ∧ t.job.id = id ∧ m.step u (.work 0 0) = some m' ∧
      m'.floor.catalog = c := by
  obtain ⟨⟨b, e, script, t, hb, he, hPhase, hOwn, ht, hJob⟩, hWrites⟩ := h
  obtain ⟨m', hStep⟩ := exists_step_of_running (u := u) hb he hPhase
  refine ⟨t, m', ⟨b, e, hb, he, ht, hOwn⟩, ?_, hStep, ?_⟩
  · rw [hJob]
    rfl
  · rw [catalog_of_step hStep, hWrites]
    show Catalog.Change.apply _ (.deleteTasks (pruningOf id)) = c
    rw [Catalog.Change.apply, hDelete]

/-- The job deletes its own task, and that of the other job stays. -/
theorem tasks_apart_pruningSteps :
    ∃ m₀ m m' t, start pruningSetup 0 (Catalog.after []) 8 = .ok m₀ ∧
      Course pruningSetup (fun _ _ => True) m₀
        (pruningSteps "b" [Catalog.doneTask "a" "t", Catalog.doneTask "b" "t"]) m ∧
      m.PrunesFor 0 0 t ∧ t.job.id = "b" ∧ m.step pruningSetup (.work 0 0) = some m' ∧
      ((m'.floor.catalog.bucket "b").get? "t" = none ∧
        (m'.floor.catalog.bucket "a").get? "t" = some (Catalog.doneTask "a" "t").row) ∧
      (Catalog.after []).Apart ∧
      ∀ jobId ≠ "b", m'.floor.catalog.bucket jobId = m.floor.catalog.bucket jobId := by
  obtain ⟨m₀, m, hStart, hRun, hAbout, hCatalog⟩ : ∃ m₀ m,
      start pruningSetup 0 (Catalog.after []) 8 = .ok m₀ ∧
      m₀.run pruningSetup (fun _ _ => true)
        (pruningSteps "b" [Catalog.doneTask "a" "t", Catalog.doneTask "b" "t"]) = some m ∧
      m.AboutToPrune "b" ∧
      m.floor.catalog = (Catalog.empty.putTask (Catalog.doneTask "a" "t")).putTask
        (Catalog.doneTask "b" "t") :=
    ⟨_, _, rfl, rfl, ⟨⟨_, _, _, _, rfl, rfl, rfl, ⟨rfl, rfl⟩, rfl, rfl⟩, rfl⟩, rfl⟩
  have hRead : (Catalog.doneTask "b" "t").row.read = .ok (Catalog.doneTask "b" "t") :=
    Catalog.exact_putTask (by decide +kernel) rfl rfl
  -- the bucket of the job holds its own task only
  have hScope : m.floor.catalog.bucketsIn "b" =
      [Dict.empty.insert "t" (Catalog.doneTask "b" "t").row] := by
    rw [hCatalog]
    rfl
  have hDelete := deleteTasks_doneTask hRead hScope
  obtain ⟨t, m', hPrunes, hId, hStep, hAfter⟩ := hAbout.step (u := pruningSetup) hDelete
  have hCourse : Course pruningSetup (fun _ _ => True) m₀
      (pruningSteps "b" [Catalog.doneTask "a" "t", Catalog.doneTask "b" "t"]) m :=
    .of_run (fun _ _ _ => trivial) hRun
  obtain ⟨hApart, hSteps⟩ := tasks_apart (u := pruningSetup) rfl []
  refine ⟨m₀, m, m', t, hStart, hCourse, hPrunes, hId, hStep, ?_, hApart, ?_⟩
  · rw [hAfter, hCatalog]
    exact ⟨rfl, rfl⟩
  · rw [← hId]
    exact (hSteps hStart hCourse hPrunes hStep).mpr (.inl (by rw [hId]; decide))

/-- **A job without an identifier deletes the task of another job**, when it prunes what it takes
for its own: `delete_tasks` takes the empty identifier for a wildcard. -/
theorem pruned_elsewhere :
    ∃ m₀ m m' t, start pruningSetup 0 (Catalog.after []) 8 = .ok m₀ ∧
      Course pruningSetup (fun _ _ => True) m₀
        (pruningSteps "" [Catalog.doneTask "a" "t"]) m ∧
      m.PrunesFor 0 0 t ∧ t.job.id = "" ∧ m.step pruningSetup (.work 0 0) = some m' ∧
      (m.floor.catalog.bucket "a").get? "t" = some (Catalog.doneTask "a" "t").row ∧
      (m'.floor.catalog.bucket "a").get? "t" = none := by
  obtain ⟨m₀, m, hStart, hRun, hAbout, hCatalog⟩ : ∃ m₀ m,
      start pruningSetup 0 (Catalog.after []) 8 = .ok m₀ ∧
      m₀.run pruningSetup (fun _ _ => true)
        (pruningSteps "" [Catalog.doneTask "a" "t"]) = some m ∧
      m.AboutToPrune "" ∧
      m.floor.catalog = Catalog.empty.putTask (Catalog.doneTask "a" "t") :=
    ⟨_, _, rfl, rfl, ⟨⟨_, _, _, _, rfl, rfl, rfl, ⟨rfl, rfl⟩, rfl, rfl⟩, rfl⟩, rfl⟩
  have hRead : (Catalog.doneTask "a" "t").row.read = .ok (Catalog.doneTask "a" "t") :=
    Catalog.exact_putTask (by decide +kernel) rfl rfl
  -- without an identifier the scope is everything, so the one bucket there is gets pruned
  have hScope : m.floor.catalog.bucketsIn "" =
      [Dict.empty.insert "t" (Catalog.doneTask "a" "t").row] := by
    rw [hCatalog]
    rfl
  have hDelete := deleteTasks_doneTask hRead hScope
  obtain ⟨t, m', hPrunes, hId, hStep, hAfter⟩ := hAbout.step (u := pruningSetup) hDelete
  refine ⟨m₀, m, m', t, hStart, .of_run (fun _ _ _ => trivial) hRun, hPrunes, hId, hStep, ?_, ?_⟩
  · rw [hCatalog]
    rfl
  · rw [hAfter, hCatalog]
    rfl

end Machine

end Taskyard
