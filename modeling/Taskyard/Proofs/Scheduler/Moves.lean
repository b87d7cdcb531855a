import Taskyard.Proofs.Scheduler.Duties

/-!
# Scheduler — turns at duties

A step of the machine passes, takes a turn at one duty, or starts one task. A turn takes one duty
out of the heap, changes the record of its task, and puts back what is left of the duty; nothing
else about any task changes.

Main definitions and results:

* `Phase.Next`, `Execution.step_cases` — an execution ends, performs a deed, or goes on by itself.
* `Machine.Turn`, `Machine.Birth`, `Machine.Move` — what a step can do.
* `Machine.Move.sound` — it keeps the dispatchers staffed and the numbers of tasks valid.
* `Machine.Move.atTask` — what it does to one task.
-/

namespace Taskyard

/-! ## Records -/

/-- What a change of one record leaves of everything else. The snapshots that are new are of the
changed record. -/
structure Floor.Marks (f : Floor) (i : Nat) (t : LiveTask) (record : Task) (f' : Floor) : Prop where
  tasks     : ∃ outlet, f'.tasks = f.tasks.set i { t with record, outlet }
  main      : f'.main = f.main
  accepting : f'.accepting = f.accepting
  snapshots : ∀ x ∈ f'.snapshots, x ∈ f.snapshots ∨ x = record

namespace Floor

variable {f f' : Floor} {i : Nat} {t : LiveTask}

/-- A snapshot is in the pipeline of the writer, or was kept aside by a task. -/
theorem mem_snapshots {x : Task} :
    x ∈ f.snapshots ↔ x ∈ f.writer.backlog ∨
      ∃ t ∈ f.tasks, ∃ kept, t.outlet = .aside kept ∧ x ∈ kept := by
  unfold snapshots
  rw [List.mem_append, List.mem_flatMap]
  -- only an outlet that keeps snapshots aside has any
  refine or_congr Iff.rfl (exists_congr fun t => and_congr Iff.rfl ?_)
  cases t.outlet with
  | writer => simp
  | aside kept => simp

/-- Nothing has changed, as far as tasks and runnables go. -/
theorem marks_self (ht : f.tasks[i]? = some t) (hTasks : f'.tasks = f.tasks)
    (hMain : f'.main = f.main) (hOpen : f'.accepting = f.accepting) (hWriter : f'.writer = f.writer) :
    f.Marks i t t.record f' where
  tasks := by
    obtain ⟨hLt, rfl⟩ := List.getElem?_eq_some_iff.mp ht
    exact ⟨f.tasks[i].outlet, hTasks.trans (List.set_getElem_self hLt).symm⟩
  main := hMain
  accepting := hOpen
  snapshots x hx := by
    rw [mem_snapshots, hTasks, hWriter, ← mem_snapshots] at hx
    exact Or.inl hx

theorem marks_refl (ht : f.tasks[i]? = some t) : f.Marks i t t.record f :=
  marks_self ht rfl rfl rfl rfl

/-- A step of a task changes the record of the task. -/
theorem marks_mark (ht : f.tasks[i]? = some t) (s : TaskStep) :
    f.Marks i t (s.apply f.now t.record) (f.mark i s) := by
  have hLt : i < f.tasks.length := (List.getElem?_eq_some_iff.mp ht).1
  have hMem : t ∈ f.tasks := List.mem_of_getElem? ht
  simp only [mark, ht, deliver]
  -- the new snapshot goes to the writer or is put with those of the task, as its outlet says
  cases hOutlet : t.outlet with
  | writer =>
    refine ⟨⟨.writer, ?_⟩, rfl, rfl, fun x hx => ?_⟩
    · simp
    · simp only [mem_snapshots] at hx ⊢
      rcases hx with hx | ⟨t', ht', kept, hAside, hx⟩
      · split at hx
        · simp only [Writer.backlog, Writer.send, List.mem_append, List.mem_singleton] at hx ⊢
          tauto
        · exact Or.inl (Or.inl hx)
      · rcases List.mem_or_eq_of_mem_set ht' with ht' | rfl
        · exact Or.inl (Or.inr ⟨t', ht', kept, hAside, hx⟩)
        · simp at hAside
  | aside snapshots =>
    refine ⟨⟨_, rfl⟩, rfl, rfl, fun x hx => ?_⟩
    simp only [mem_snapshots] at hx ⊢
    rcases hx with hx | ⟨t', ht', kept, hAside, hx⟩
    · exact Or.inl (Or.inl hx)
    · rcases List.mem_or_eq_of_mem_set ht' with ht' | rfl
      · exact Or.inl (Or.inr ⟨t', ht', kept, hAside, hx⟩)
      · obtain rfl := Outlet.aside.inj hAside
        split at hx
        · rcases List.mem_append.mp hx with hx | hx
          · exact Or.inl (Or.inr ⟨t, hMem, snapshots, hOutlet, hx⟩)
          · exact Or.inr (List.mem_singleton.mp hx)
        · exact Or.inl (Or.inr ⟨t, hMem, snapshots, hOutlet, hx⟩)

end Floor

/-! ## Executions -/

/-- How an execution goes on by itself, for a task of a job: the step of the task that `execute`
takes, if any, and the next phase. The answer to a deletion of tasks may be any, and the time
too. -/
inductive Phase.Next (u : Setup) (j : Job) (taskId : String) (r : Runnable) :
    Phase → Option TaskStep → Phase → Prop
  | unknown (now : Int64) {fault : Fault} (hCreate : u.registry.create r.action.id = .error fault) :
      Next u j taskId r .fresh none (.doing (r.afterFault now fault.message))
  | refused (now : Int64) {h : Handler} {fault : Fault}
      (hCreate : u.registry.create r.action.id = .ok h)
      (hPrepare : h.prepare j r.action = .refused fault) :
      Next u j taskId r .fresh none
        (.doing (r.afterFault now ("init " ++ r.action.id ++ ": " ++ fault.message)))
  | crashed {h : Handler} {reason : String} (hCreate : u.registry.create r.action.id = .ok h)
      (hPrepare : h.prepare j r.action = .crashed reason) :
      Next u j taskId r .fresh none (.crashed reason)
  | ready {h : Handler} {run : Context → Message → Script}
      (hCreate : u.registry.create r.action.id = .ok h)
      (hPrepare : h.prepare j r.action = .ready run) :
      Next u j taskId r .fresh (some .setRunning)
        (.running (run { job := j, taskId, site := u.site, allowance := u.allowance } r.input))
  | finish (result : Int64 → Message) (now : Int64) :
      Next u j taskId r (.running (.finish result)) none
        (.doing (r.afterOutput u.site.backend u.selectionBuffer (result now)))
  | refuse (fault : Fault) (now : Int64) :
      Next u j taskId r (.running (.refuse fault)) none (.doing (r.afterFault now fault.message))
  | crash (reason : String) (now : Int64) :
      Next u j taskId r (.running (.crash reason)) none
        (.doing (r.afterFault now ("action " ++ r.action.id ++ " panicked: " ++ reason)))
  | report (progress : Decimal.Single) (next : Script) :
      Next u j taskId r (.running (.report progress next)) (some (.setProgress progress))
        (.running next)
  | wait (millis : Nat) (next : Script) :
      Next u j taskId r (.running (.wait millis next)) none (.running next)
  | sleep (millis due : Nat) (next : Script) :
      Next u j taskId r (.running (.wait millis next)) none (.asleep due next)
  | wake (due : Nat) (next : Script) : Next u j taskId r (.asleep due next) none (.running next)
  | prune (deletion : Deletion) (next : Except Fault (List String) → Script)
      (answer : Except Fault (List String)) :
      Next u j taskId r (.running (.prune deletion next)) none (.running (next answer))
  | notice (reason : String) :
      Next u j taskId r (.crashed reason) none (.doing (r.afterCrash reason))

namespace Execution

variable {u : Setup} {f f' : Floor} {t : LiveTask} {e : Execution} {next : Option Execution}

theorem telling_eq (f : Floor) (told : List Announcement) :
    (f.telling told).tasks = f.tasks ∧ (f.telling told).main = f.main ∧
      (f.telling told).accepting = f.accepting ∧ (f.telling told).writer = f.writer := by
  obtain ⟨calls, hTelling⟩ := f.exists_telling told
  rw [hTelling]
  exact ⟨rfl, rfl, rfl, rfl⟩

/-- A step of a run is one of the ways in which an execution goes on by itself. -/
theorem proceed_next (ht : f.tasks[e.runnable.task]? = some t) (script : Script)
    (hStep : proceed u f e script = (f', next)) :
    ∃ now s p, Phase.Next u t.job t.record.id e.runnable (.running script) s p ∧
      next = some { e with phase := p } ∧
      f.Marks e.runnable.task t (s.elim t.record (·.apply now t.record)) f' := by
  have hSame : f.Marks e.runnable.task t t.record f := Floor.marks_refl ht
  cases script with
  | finish result =>
    obtain ⟨rfl, rfl⟩ := Prod.mk.inj hStep
    exact ⟨f.now, none, _, .finish result f.now, rfl, hSame⟩
  | refuse fault =>
    obtain ⟨rfl, rfl⟩ := Prod.mk.inj hStep
    exact ⟨f.now, none, _, .refuse fault f.now, rfl, hSame⟩
  | crash reason =>
    obtain ⟨rfl, rfl⟩ := Prod.mk.inj hStep
    exact ⟨f.now, none, _, .crash reason f.now, rfl, hSame⟩
  | report progress script =>
    obtain ⟨rfl, rfl⟩ := Prod.mk.inj hStep
    exact ⟨f.now, some (.setProgress progress), _, .report progress script, rfl,
      Floor.marks_mark ht (.setProgress progress)⟩
  -- a wait of no time is over at once, any other puts the execution to sleep
  | wait millis script =>
    obtain ⟨rfl, rfl⟩ := Prod.mk.inj hStep
    by_cases hZero : millis = 0
    · refine ⟨f.now, none, _, .wait millis script, ?_, hSame⟩
      rw [if_pos hZero, turn]
    · refine ⟨f.now, none, _, .sleep millis (f.clock + millis) script, ?_, hSame⟩
      rw [if_neg hZero, turn]
  -- a deletion may fail, and what is told of it is not of this task
  | prune deletion script =>
    simp only [proceed] at hStep
    split at hStep
    · next catalog ids told _ =>
      obtain ⟨rfl, rfl⟩ := Prod.mk.inj hStep
      obtain ⟨hTasks, hMain, hOpen, hWriter⟩ := telling_eq { f with catalog } told
      exact ⟨f.now, none, _, .prune deletion script (.ok ids), rfl,
        Floor.marks_self ht hTasks hMain hOpen hWriter⟩
    · next fault _ =>
      obtain ⟨rfl, rfl⟩ := Prod.mk.inj hStep
      exact ⟨f.now, none, _, .prune deletion script (.error fault), rfl, hSame⟩

/-- The first step is one of the ways in which an execution goes on by itself. -/
theorem begin_next (ht : f.tasks[e.runnable.task]? = some t)
    (hStep : begin u f t e = (f', next)) :
    ∃ now s p, Phase.Next u t.job t.record.id e.runnable .fresh s p ∧
      next = some { e with phase := p } ∧
      f.Marks e.runnable.task t (s.elim t.record (·.apply now t.record)) f' := by
  have hSame : f.Marks e.runnable.task t t.record f := Floor.marks_refl ht
  simp only [begin] at hStep
  -- an action is looked up, then prepared, and either may fail
  cases hCreate : u.registry.create e.runnable.action.id with
  | error fault =>
    rw [hCreate] at hStep
    obtain ⟨rfl, rfl⟩ := Prod.mk.inj hStep
    exact ⟨f.now, none, _, .unknown f.now hCreate, rfl, hSame⟩
  | ok h =>
    rw [hCreate] at hStep
    cases hPrepare : h.prepare t.job e.runnable.action with
    | refused fault =>
      simp only [hPrepare] at hStep
      obtain ⟨rfl, rfl⟩ := Prod.mk.inj hStep
      exact ⟨f.now, none, _, .refused f.now hCreate hPrepare, rfl, hSame⟩
    | crashed reason =>
      simp only [hPrepare] at hStep
      obtain ⟨rfl, rfl⟩ := Prod.mk.inj hStep
      exact ⟨f.now, none, _, .crashed hCreate hPrepare, rfl, hSame⟩
    | ready run =>
      simp only [hPrepare] at hStep
      obtain ⟨rfl, rfl⟩ := Prod.mk.inj hStep
      exact ⟨f.now, some .setRunning, _, .ready hCreate hPrepare, rfl,
        Floor.marks_mark ht .setRunning⟩

/-- **A step of an execution** ends it, performs its next deed, or is one of the ways in which it
goes on by itself. -/
theorem step_cases (ht : f.tasks[e.runnable.task]? = some t) (hStep : e.step u f = some (f', next)) :
    (e.phase = .doing [] ∧ f' = f ∧ next = none) ∨
    (∃ x rest more, e.phase = .doing (x :: rest) ∧ f.perform e.runnable.task x = (f', more) ∧
      next = some { e with phase := .doing (more ++ rest) }) ∨
    ∃ now s p, Phase.Next u t.job t.record.id e.runnable e.phase s p ∧
      next = some { e with phase := p } ∧
      f.Marks e.runnable.task t (s.elim t.record (·.apply now t.record)) f' := by
  have hSame : f.Marks e.runnable.task t t.record f := Floor.marks_refl ht
  -- once there are deeds the execution performs them, before that it goes on by itself
  unfold step at hStep
  split at hStep
  · next hFresh =>
    rw [ht] at hStep
    rw [hFresh]
    exact Or.inr (Or.inr (begin_next ht (Option.some.inj hStep)))
  · next script hRunning =>
    rw [hRunning]
    exact Or.inr (Or.inr (proceed_next ht script (Option.some.inj hStep)))
  · next due script hAsleep =>
    split at hStep
    · obtain ⟨rfl, rfl⟩ := Prod.mk.inj (Option.some.inj hStep)
      rw [hAsleep]
      exact Or.inr (Or.inr ⟨f.now, none, _, .wake due script, rfl, hSame⟩)
    · exact absurd hStep (by simp)
  · next reason hCrashed =>
    obtain ⟨rfl, rfl⟩ := Prod.mk.inj (Option.some.inj hStep)
    rw [hCrashed]
    exact Or.inr (Or.inr ⟨f.now, none, _, .notice reason, rfl, hSame⟩)
  · next hOver =>
    obtain ⟨rfl, rfl⟩ := Prod.mk.inj (Option.some.inj hStep)
    exact Or.inl ⟨hOver, rfl, rfl⟩
  · next x rest hDoing =>
    rcases hPerform : f.perform e.runnable.task x with ⟨f₁, more⟩
    rw [hPerform] at hStep
    obtain ⟨rfl, rfl⟩ := Prod.mk.inj (Option.some.inj hStep)
    exact Or.inr (Or.inl ⟨x, rest, more, hDoing, hPerform, rfl⟩)

end Execution

/-! ## Turns, births and moves -/

/-- The task that an errand starts with its next step. -/
def Errand.starts (e : Errand) : Option (Job × Event) :=
  match e.deeds, e.launches with
  | [], l :: _ => some l
  | _, _ => none

namespace Machine

/-- The job and the event of the task that a step starts, if it starts one for an event. -/
def starts (m : Machine) : MachineStep → Option (Job × Event)
  | .launch j e => some (j, e)
  | .listen c =>
    match m.ears.get c with
    | .busy e => e.starts
    | _ => none
  | .route =>
    match m.router with
    | .busy e => e.starts
    | _ => none
  | .call n => (m.callers[n]?).bind Errand.starts
  | _ => none

/-- The runnable whose execution a step begins, if it begins one. -/
def begins (m : Machine) : MachineStep → Option Runnable
  | .dispatch n s => (m.benches[n]?).bind (·.begins s)
  | _ => none

/-- A turn at a duty for a live task: the runnable whose execution begins, the record of the task
after it, and what is put back. -/
inductive Turn (u : Setup) (m : Machine) (t : LiveTask) :
    Duty → Option Runnable → Task → Multiset Duty → Prop
  | pick (r : Runnable) : Turn u m t (.waiting r) (some r) t.record {.running { runnable := r }}
  | away (r : Runnable) (hJob : m.jobs.get? t.job.id = none) :
      Turn u m t (.waiting r) none t.record (Duty.ofDeeds r.task (turnAway "job removed"))
  | advance (e : Execution) (now : Int64) {s : Option TaskStep} {p : Phase}
      (hNext : Phase.Next u t.job t.record.id e.runnable e.phase s p) :
      Turn u m t (.running e) none (s.elim t.record (·.apply now t.record))
        {.running { e with phase := p }}
  | ended (e : Execution) (hOver : e.phase = .doing []) : Turn u m t (.running e) none t.record 0
  | mark (d : Duty) (now : Int64) {s : TaskStep} {rest : List Deed}
      (hDeeds : d.deeds = some (.mark s :: rest)) :
      Turn u m t d none (s.apply now t.record) (d.resume rest)
  | queue (d : Duty) {action : Action} {input : Message} {rest : List Deed}
      (hDeeds : d.deeds = some (.queue action input :: rest))
      (hOpen : m.floor.accepting = true) :
      Turn u m t d none t.record (.waiting { action, task := d.task, input } ::ₘ d.resume rest)
  | refuse (d : Duty) {action : Action} {input : Message} {rest : List Deed}
      (hDeeds : d.deeds = some (.queue action input :: rest))
      (hClosed : m.floor.accepting = false) :
      Turn u m t d none t.record (d.resume (Deed.refused ++ rest))

/-- The start of the `n`-th task by `launch` or by a caller of `route`: the job and the event that
start it, if there is an event, the live task, and the duties that come with it. A runnable that is
submitted is routed at once. -/
inductive Birth (u : Setup) (n : Nat) : Option (Job × Event) → LiveTask → Multiset Duty → Prop
  | launched (j : Job) (e : Event) {t : LiveTask} (hJob : t.job = j)
      (hRecord : t.record = j.freshTask (u.taskId n)) :
      Birth u n (some (j, e)) t (Duty.ofDeeds n
        (rootDeeds u.site.backend u.selectionBuffer (.ofEvent e) j.actions))
  | submitted (j : Job) (r : Runnable) {t : LiveTask} (hTask : r.task = n)
      (hRecord : t.record = { j.freshTask (u.taskId n) with pending := 1 }) :
      Birth u n none t {.waiting r}
  | declined (j : Job) {t : LiveTask}
      (hRecord : t.record = { j.freshTask (u.taskId n) with pending := 1 }) :
      Birth u n none t (Duty.ofDeeds n (turnAway "job removed"))

/-- What a step does: nothing to the tasks and the duties, a turn at one duty, or the start of a
task. -/
inductive Move (u : Setup) (m : Machine) (s : MachineStep) (m' : Machine) : Prop
  | pass (hStarts : m.starts s = none) (hBegins : m.begins s = none)
      (hOpen : s = .endRouter ∨ m'.floor.accepting = m.floor.accepting)
      (hTasks : m'.floor.tasks = m.floor.tasks) (hDuties : m'.duties = m.duties)
      (hSnapshots : ∀ x ∈ m'.floor.snapshots, x ∈ m.floor.snapshots)
  | turn {d : Duty} {t : LiveTask} {record : Task} {old new : Multiset Duty}
      (hStarts : m.starts s = none) (hOpen : m'.floor.accepting = m.floor.accepting)
      (ht : m.floor.tasks[d.task]? = some t) (hTurn : Turn u m t d (m.begins s) record new)
      (hTasks : ∃ outlet, m'.floor.tasks = m.floor.tasks.set d.task { t with record, outlet })
      (hDuties : m.duties = d ::ₘ old) (hDuties' : m'.duties = new + old)
      (hSnapshots : ∀ x ∈ m'.floor.snapshots, x ∈ m.floor.snapshots ∨ x = record)
  | birth {t : LiveTask} {new : Multiset Duty}
      (hBegins : m.begins s = none) (hOpen : m'.floor.accepting = m.floor.accepting)
      (hBirth : Birth u m.floor.tasks.length (m.starts s) t new)
      (hTasks : m'.floor.tasks = m.floor.tasks ++ [t]) (hDuties : m'.duties = new + m.duties)
      (hSnapshots : ∀ x ∈ m'.floor.snapshots, x ∈ m.floor.snapshots)

/-- What carries a machine from step to step: its dispatchers are staffed, and every duty is for a
task that there is. -/
structure Sound (m : Machine) : Prop where
  staffed : m.Staffed
  valid   : ∀ d ∈ m.duties, d.task < m.floor.tasks.length

/-- A duty is for a task that there is. -/
theorem Sound.exists_task {m : Machine} {d : Duty} {old : Multiset Duty} (h : m.Sound)
    (hDuties : m.duties = d ::ₘ old) : ∃ t, m.floor.tasks[d.task]? = some t :=
  ⟨_, List.getElem?_eq_getElem (h.valid d (hDuties ▸ Multiset.mem_cons_self d old))⟩

/-- A task that a turn puts something back for is the task of the duty. -/
theorem Turn.task_of_mem {u : Setup} {m : Machine} {t : LiveTask} {d d' : Duty}
    {begun : Option Runnable} {record : Task} {new : Multiset Duty}
    (h : Turn u m t d begun record new) (hd' : d' ∈ new) : d'.task = d.task := by
  cases h with
  | pick r => rw [Multiset.mem_singleton.mp hd', Duty.task, Duty.task]
  | away r => exact Duty.task_of_mem_ofDeeds hd'
  | advance e => rw [Multiset.mem_singleton.mp hd', Duty.task, Duty.task]
  | ended e => exact absurd hd' (Multiset.notMem_zero d')
  | mark => exact Duty.task_of_mem_resume hd'
  | queue =>
    rcases Multiset.mem_cons.mp hd' with rfl | hd'
    · rfl
    · exact Duty.task_of_mem_resume hd'
  | refuse => exact Duty.task_of_mem_resume hd'

theorem Birth.task_of_mem {u : Setup} {n : Nat} {started : Option (Job × Event)} {t : LiveTask}
    {new : Multiset Duty} {d : Duty} (h : Birth u n started t new) (hd : d ∈ new) : d.task = n := by
  cases h with
  | launched => exact Duty.task_of_mem_ofDeeds hd
  | submitted j r hTask => rw [Multiset.mem_singleton.mp hd, Duty.task, hTask]
  | declined => exact Duty.task_of_mem_ofDeeds hd

/-- **A move keeps the dispatchers staffed and the numbers of tasks valid.** -/
theorem Move.sound {u : Setup} {m m' : Machine} {s : MachineStep} (h : m.Sound)
    (hStep : m.step u s = some m') (hMove : Move u m s m') : m'.Sound := by
  refine ⟨step_staffed h.staffed hStep, fun d hd => ?_⟩
  cases hMove with
  | pass _ _ _ hTasks hDuties _ =>
    rw [hTasks]
    exact h.valid d (hDuties ▸ hd)
  -- what is put back is for the task of the duty
  | turn _ _ ht hTurn hTasks hDuties hDuties' _ =>
    obtain ⟨outlet, hTasks⟩ := hTasks
    rw [hTasks, List.length_set]
    rw [hDuties'] at hd
    rcases Multiset.mem_add.mp hd with hd | hd
    · rw [hTurn.task_of_mem hd]
      exact (List.getElem?_eq_some_iff.mp ht).1
    · exact h.valid d (hDuties ▸ Multiset.mem_cons_of_mem hd)
  -- and what comes with a new task is for the number that is taken now
  | birth _ _ hBirth hTasks hDuties _ =>
    rw [hTasks, List.length_append, List.length_singleton]
    rw [hDuties] at hd
    rcases Multiset.mem_add.mp hd with hd | hd
    · rw [hBirth.task_of_mem hd]
      exact Nat.lt_succ_self _
    · exact Nat.lt_succ_of_lt (h.valid d hd)

/-! ## One task -/

/-- The duties for a task. -/
def dutiesOf (m : Machine) (i : Nat) : Multiset Duty := m.duties.filter fun d => d.task = i

/-- Duties that are all for one task, seen from that task and from any other. -/
theorem filter_task {ds : Multiset Duty} {n : Nat} (h : ∀ d ∈ ds, d.task = n) (i : Nat) :
    ds.filter (fun d => d.task = i) = if n = i then ds else 0 := by
  split
  · next hEq => exact Multiset.filter_eq_self.mpr fun d hd => (h d hd).trans hEq
  · next hNe => exact Multiset.filter_eq_nil.mpr fun d hd hTask => hNe ((h d hd).symm.trans hTask)

/-- What a step does to one task, which is `t'` after it: nothing at all, a turn at one of its
duties, or its start. -/
inductive AtTask (u : Setup) (m : Machine) (s : MachineStep) (m' : Machine) (i : Nat)
    (t' : LiveTask) : Prop
  | idle {t : LiveTask} (ht : m.floor.tasks[i]? = some t) (hJob : t'.job = t.job)
      (hRecord : t'.record = t.record) (hDuties : m'.dutiesOf i = m.dutiesOf i)
      (hBegins : ∀ r, m.begins s = some r → r.task ≠ i)
  | turn {t : LiveTask} {d : Duty} {old new : Multiset Duty} (ht : m.floor.tasks[i]? = some t)
      (hJob : t'.job = t.job) (hTask : d.task = i) (hDuties : m.dutiesOf i = d ::ₘ old)
      (hTurn : Turn u m t d (m.begins s) t'.record new) (hDuties' : m'.dutiesOf i = new + old)
  | birth (hNew : i = m.floor.tasks.length)
      (hBirth : Birth u m.floor.tasks.length (m.starts s) t' (m'.dutiesOf i))

/-- A move, seen from one task. -/
theorem Move.atTask {u : Setup} {m m' : Machine} {s : MachineStep} {i : Nat} {t' : LiveTask}
    (h : Move u m s m') (hSound : m.Sound) (ht' : m'.floor.tasks[i]? = some t') :
    AtTask u m s m' i t' := by
  cases h with
  | pass _ hBegins _ hTasks hDuties _ =>
    rw [hTasks] at ht'
    refine .idle ht' rfl rfl (by rw [dutiesOf, dutiesOf, hDuties]) fun r hr => ?_
    rw [hBegins] at hr
    exact absurd hr (by simp)
  | @turn d t record old new _ _ ht hTurn hTasks hDuties hDuties' _ =>
    obtain ⟨outlet, hTasks⟩ := hTasks
    -- what is put back is all for one task, so others keep their duties
    have hNew := filter_task (fun d' hd' => hTurn.task_of_mem hd') i
    have hAfter : m'.dutiesOf i =
        (if d.task = i then new else 0) + old.filter (fun d => d.task = i) := by
      rw [dutiesOf, hDuties', Multiset.filter_add, hNew]
    have hBefore : m.dutiesOf i = (d ::ₘ old).filter (fun d => d.task = i) := by
      rw [dutiesOf, hDuties]
    rw [hTasks, List.getElem?_set] at ht'
    by_cases hTask : d.task = i
    · rw [if_pos hTask] at ht' hAfter
      rw [Multiset.filter_cons_of_pos (p := fun d : Duty => d.task = i) old hTask] at hBefore
      split at ht'
      · obtain rfl := Option.some.inj ht'
        exact .turn (t := t) (hTask ▸ ht) rfl hTask hBefore hTurn hAfter
      · exact absurd ht' (by simp)
    · rw [if_neg hTask] at ht' hAfter
      rw [Multiset.filter_cons_of_neg (p := fun d : Duty => d.task = i) old hTask] at hBefore
      refine .idle ht' rfl rfl (by rw [hAfter, hBefore, zero_add]) fun r hr => ?_
      -- only a runnable that waits for the other task can begin
      rw [hr] at hTurn
      cases hTurn with
      | pick r => exact hTask
  | @birth t new hBegins _ hBirth hTasks hDuties _ =>
    have hNew := filter_task (fun d hd => hBirth.task_of_mem hd) i
    have hAfter : m'.dutiesOf i = (if m.floor.tasks.length = i then new else 0) + m.dutiesOf i := by
      rw [dutiesOf, hDuties, Multiset.filter_add, hNew, dutiesOf]
    rw [hTasks, List.getElem?_append] at ht'
    split at ht'
    · next hLt =>
      rw [if_neg (by omega), zero_add] at hAfter
      refine .idle ht' rfl rfl hAfter fun r hr => ?_
      rw [hBegins] at hr
      exact absurd hr (by simp)
    · next hGe =>
      rw [List.getElem?_singleton] at ht'
      split at ht'
      · next hZero =>
        obtain rfl := Option.some.inj ht'
        obtain rfl : m.floor.tasks.length = i := by omega
        -- no duty was for a task that there was not
        have hOld : m.dutiesOf m.floor.tasks.length = 0 :=
          Multiset.filter_eq_nil.mpr fun d hd hTask => by
            have := hSound.valid d hd
            omega
        rw [if_pos rfl, hOld, add_zero] at hAfter
        exact .birth rfl (hAfter ▸ hBirth)
      · exact absurd ht' (by simp)

/-- The step that starts a task for an event gives it the next number, and nothing but the deeds of
its start. -/
theorem Move.started {u : Setup} {m m' : Machine} {s : MachineStep} {j : Job} {e : Event}
    (h : Move u m s m') (hSound : m.Sound) (hStarts : m.starts s = some (j, e)) :
    ∃ t, m'.floor.tasks[m.floor.tasks.length]? = some t ∧ t.job = j ∧
      t.record = j.freshTask (u.taskId m.floor.tasks.length) ∧
      m'.dutiesOf m.floor.tasks.length = Duty.ofDeeds m.floor.tasks.length
        (rootDeeds u.site.backend u.selectionBuffer (.ofEvent e) j.actions) := by
  obtain ⟨t, ht⟩ : ∃ t, m'.floor.tasks[m.floor.tasks.length]? = some t := by
    cases h with
    | pass hNone | turn hNone =>
      rw [hStarts] at hNone
      exact absurd hNone (by simp)
    | @birth t _ _ _ _ hTasks => exact ⟨t, by simp [hTasks]⟩
  refine ⟨t, ht, ?_⟩
  -- the number was free, so this is neither rest nor a turn
  cases h.atTask hSound ht with
  | idle ht₀ => exact absurd ht₀ (by simp)
  | turn ht₀ => exact absurd ht₀ (by simp)
  | birth _ hBirth =>
    rw [hStarts] at hBirth
    generalize m'.dutiesOf m.floor.tasks.length = ds at hBirth
    cases hBirth with
    | launched _ _ hJob hRecord => exact ⟨hJob, hRecord, rfl⟩

/-- A snapshot is an old one, or the record of a task. -/
theorem Move.mem_snapshots {u : Setup} {m m' : Machine} {s : MachineStep} {x : Task}
    (h : Move u m s m') (hx : x ∈ m'.floor.snapshots) :
    x ∈ m.floor.snapshots ∨
      ∃ (i : Nat) (t : LiveTask), m'.floor.tasks[i]? = some t ∧ t.record = x := by
  cases h with
  | pass _ _ _ _ _ hSnapshots => exact Or.inl (hSnapshots x hx)
  | birth _ _ _ _ _ hSnapshots => exact Or.inl (hSnapshots x hx)
  | @turn d t record old new _ _ ht _ hTasks _ _ hSnapshots =>
    rcases hSnapshots x hx with hx | rfl
    · exact Or.inl hx
    · obtain ⟨outlet, hTasks⟩ := hTasks
      have hLt : d.task < m.floor.tasks.length := (List.getElem?_eq_some_iff.mp ht).1
      exact Or.inr ⟨d.task, { t with record := x, outlet }, by simp [hTasks, hLt], rfl⟩

end Machine

end Taskyard
