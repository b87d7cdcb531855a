import Taskyard.Proofs.Scheduler.Executions

/-!
# Scheduler — what an execution leaves behind

What becomes of an action is found in the logs of its task, and only there. So an execution logs
what its action came to, whatever that is: there is no handler, the handler refuses to be prepared,
the run ends with a fault or crashes, or it returns an output. After a failure the task fails for
the same reason, and nothing is queued. Only a crash of the preparation gets past the log. The
worker notices it, and all that it does is to let the task fail.

Other executions for the same task take their steps in between, so what an execution leaves behind
is what shows in its own steps.

Main definitions and results:

* `Verdict`, `Execution.verdict?` — how an action ends, and when an execution comes to it.
* `Sign`, `Machine.signs` — what shows of an execution, step by step.
* `Leaves` — what an execution has left behind when it is over.
* `Execution.shows_step` — what one step shows, at each phase.
* `Machine.execution_logged` — what every execution leaves behind.
* `Machine.execution_not_logged` — a failure without a log.
-/

namespace Taskyard

open Deed

/-! ## How an action ends -/

/-- How the action of an execution comes to its end, by the place in `execute` where it does. -/
inductive Verdict where
  /-- It has no handler. -/
  | unknown (fault : Fault)
  /-- Its handler refused to be prepared for it. -/
  | refused (fault : Fault)
  /-- The preparation of its handler crashed. -/
  | unprepared (cause : String)
  /-- Its run ended with a fault. -/
  | faulted (fault : Fault)
  /-- Its run crashed. -/
  | crashed (cause : String)
  /-- Its run returned an output, which may tell of a failure. -/
  | returned (output : Message)

/-- What is told of an action that failed, if it failed. -/
def Verdict.failure? (a : Action) : Verdict → Option String
  | .unknown fault | .faulted fault => some fault.message
  | .refused fault => some ("init " ++ a.id ++ ": " ++ fault.message)
  | .unprepared cause | .crashed cause => some ("action " ++ a.id ++ " panicked: " ++ cause)
  | .returned output => Runnable.failureOf output

/-- The verdict to which the next step of an execution comes, if it comes to one. -/
def Execution.verdict? (u : Setup) (f : Floor) (e : Execution) : Option Verdict :=
  match e.phase with
  | .fresh =>
    match u.registry.create e.runnable.action.id with
    | .error fault => some (.unknown fault)
    | .ok handler =>
      (f.tasks[e.runnable.task]?).bind fun t =>
        match handler.prepare t.job e.runnable.action with
        | .refused fault => some (.refused fault)
        | .crashed cause => some (.unprepared cause)
        | .ready _ => none
  | .running (.finish result) => some (.returned (result f.now))
  | .running (.refuse fault) => some (.faulted fault)
  | .running (.crash cause) => some (.crashed cause)
  | _ => none

/-- What a log has to hold of an action that came to a verdict. -/
structure ActionLog.Tells (r : Runnable) (v : Verdict) (l : ActionLog) : Prop where
  /-- The action stands without its chained actions. -/
  action   : l.action = { r.action with chained := [] }
  /-- Of what the action was given there are the nodes and the users. -/
  input    : l.input = { nodes := r.input.nodes, users := r.input.users }
  /-- Of what it returned there is no event and at most one output. -/
  output   : l.output.event = none ∧ l.output.outputs.length ≤ 1
  /-- What it returned is there with the nodes, the users and the newest output. -/
  returned : ∀ o, v = .returned o →
    l.output = { nodes := o.nodes, users := o.users, outputs := o.lastOutput.toList }
  /-- Where it failed, the output is a failure for the same reason. -/
  failed   : ∀ reason, v.failure? r.action = some reason →
    ∃ o, l.output.outputs = [o] ∧ o.success = false ∧ o.errorText = reason

/-! ## What shows of an execution -/

namespace Floor

def logsOf (f : Floor) (i : Nat) : List ActionLog := (f.tasks[i]?).elim [] (·.record.logs)

def statusOf (f : Floor) (i : Nat) : TaskStatus := (f.tasks[i]?).elim .unknown (·.record.status)

end Floor

/-- The reason that a step of a task gives for its failure. -/
def TaskStep.failing? : TaskStep → Option String
  | .setStatus .error reason => some reason
  | _ => none

/-- The reason that the next step of an execution gives for the failure of its task. -/
def Execution.failing? (e : Execution) : Option String :=
  match e.phase with
  | .doing (.mark s :: _) => s.failing?
  | _ => none

/-- The state of a task after it has failed: an interruption stands. -/
def TaskStatus.failed (before : TaskStatus) : TaskStatus :=
  if before = .interrupted then .interrupted else .error

/-- Something that shows of an execution. -/
inductive Sign where
  /-- The action came to its end. -/
  | ended (v : Verdict)
  /-- This was appended to the logs of the task. -/
  | logged (l : ActionLog)
  /-- This was put into the main queue. -/
  | queued (r : Runnable)
  /-- The task failed, and went from one state to another. -/
  | failed (reason : String) (before after : TaskStatus)

/-- What shows of a step of an execution, which took one floor to another. -/
def Execution.signs (u : Setup) (e : Execution) (f f' : Floor) : List Sign :=
  let i := e.runnable.task
  (e.verdict? u f).toList.map .ended ++
    ((f'.logsOf i).drop (f.logsOf i).length).map .logged ++
    (f'.main.drop f.main.length).map .queued ++
    e.failing?.toList.map fun reason => .failed reason (f.statusOf i) (f'.statusOf i)

/-- What shows of an execution in a step, which may be a step of something else. -/
def Machine.signs (u : Setup) (n w : Nat) (m : Machine) : MachineStep → List Sign
  | .work n' w' =>
    if n' = n ∧ w' = w then
      (m.execution? n w).elim [] fun e =>
        (m.step u (.work n w)).elim [] fun m' => e.signs u m.floor m'.floor
    else []
  | _ => []

/-- Whether a sign is of what is done with an output. -/
def Sign.follows : Sign → Bool
  | .queued _ | .failed _ _ _ => true
  | .ended _ | .logged _ => false

/-- **What an execution leaves behind**, from the end of its action on. -/
inductive Leaves (r : Runnable) : List Sign → Prop
  /-- A failure is logged, and the task fails for the same reason. That is all. -/
  | failed {v : Verdict} {reason : String} {l : ActionLog} (before : TaskStatus)
      (hPrepared : ∀ cause, v ≠ .unprepared cause) (hFails : v.failure? r.action = some reason)
      (hLog : l.Tells r v) : Leaves r [.ended v, .logged l, .failed reason before before.failed]
  /-- A crash of the preparation is not logged. -/
  | unprepared {cause reason : String} (before : TaskStatus)
      (hFails : Verdict.failure? r.action (.unprepared cause) = some reason) :
      Leaves r [.ended (.unprepared cause), .failed reason before before.failed]
  /-- A success is logged, and then the chained actions follow. -/
  | succeeded {v : Verdict} {l : ActionLog} {more : List Sign}
      (hSucceeds : v.failure? r.action = none) (hLog : l.Tells r v)
      (hMore : ∀ s ∈ more, s.follows = true) : Leaves r (.ended v :: .logged l :: more)

/-! ## Logs -/

namespace ActionLog

/-- The log of a failure without an output. -/
theorem tells_failure {r : Runnable} {v : Verdict} {reason : String} (now : Int64)
    (hNone : ∀ o, v ≠ .returned o) (hFails : v.failure? r.action = some reason) :
    (r.logOf (r.input.logInput.withError now reason)).Tells r v where
  action := rfl
  input := rfl
  output := ⟨rfl, le_rfl⟩
  returned o h := absurd h (hNone o)
  failed reason' h := by
    obtain rfl := Option.some.inj (hFails.symm.trans h)
    exact ⟨_, rfl, rfl, rfl⟩

/-- The log of an output, which may be a failure. -/
theorem tells_output (r : Runnable) (output : Message) :
    (r.logOf output.logOutput).Tells r (.returned output) where
  action := rfl
  input := rfl
  output := by
    refine ⟨rfl, ?_⟩
    show output.lastOutput.toList.length ≤ 1
    cases output.lastOutput <;> simp
  returned o h := by
    obtain rfl := Verdict.returned.inj h
    rfl
  failed reason h := by
    -- a failure is told by the last output, which is all of it that is kept
    obtain ⟨o, hLast, rfl⟩ := Option.map_eq_some_iff.mp h
    obtain ⟨hSome, hFailed⟩ := Option.filter_eq_some_iff.mp hLast
    refine ⟨o, ?_, by simpa using hFailed, rfl⟩
    show output.lastOutput.toList = [o]
    rw [hSome, Option.toList_some]

end ActionLog

/-! ## Deeds -/

/-- A failure moves a task to the failed status, unless it has ended. -/
theorem Task.status_fail (now : Int64) (t : Task) (reason : String) :
    ((TaskStep.fail reason).apply now t).status = t.status.failed := by
  show (t.transition now .error reason).status = _
  rcases t.transition_cases now .error reason with ⟨hFinal, hSame⟩ | ⟨hOpen, _, _, _, hNew⟩
  · rw [hSame]
    revert hFinal
    cases t.status <;> simp [TaskStatus.isFinal, TaskStatus.failed]
  · rw [hNew]
    have hOther : t.status ≠ .interrupted := by
      intro hStatus
      rw [hStatus] at hOpen
      exact absurd hOpen (by decide)
    rw [TaskStatus.failed, if_neg hOther]
    rfl

theorem TaskStatus.isFinal_failed (s : TaskStatus) : s.failed.isFinal = true := by
  unfold failed
  split <;> rfl

/-- What is done for chained actions writes no log. -/
theorem Runnable.countP_descend (r : Runnable) (b : Backend) (buffer : Nat) (output : Message) :
    (r.descend b buffer output).countP isLog = 0 := by
  refine List.countP_eq_zero.mpr fun d hd => ?_
  have hWithin : r.action.Within [r.action] := .root (List.mem_singleton_self _)
  simp [(foreseen_descend hWithin b buffer output d hd).2]

/-! ## How an execution goes on -/

/-- Whether the action of an execution has not come to its end. -/
def Phase.isOpen : Phase → Bool
  | .fresh | .running _ | .asleep _ _ => true
  | .crashed _ | .doing _ => false

/-- The phase that follows a verdict. -/
def Verdict.next (u : Setup) (now : Int64) (r : Runnable) : Verdict → Phase
  | .unprepared cause => .crashed cause
  | .returned output => .doing (r.afterOutput u.site.backend u.selectionBuffer output)
  | .unknown fault | .faulted fault => .doing (r.afterFault now fault.message)
  | .refused fault => .doing (r.afterFault now ("init " ++ r.action.id ++ ": " ++ fault.message))
  | .crashed cause =>
    .doing (r.afterFault now ("action " ++ r.action.id ++ " panicked: " ++ cause))

namespace Execution

variable {u : Setup} {f f' : Floor} {t : LiveTask} {e : Execution} {next : Option Execution}

/-- A fresh execution that comes to a verdict does nothing else. -/
theorem begin_of_verdict {v : Verdict} (ht : f.tasks[e.runnable.task]? = some t)
    (hFresh : e.phase = .fresh) (hVerdict : e.verdict? u f = some v) :
    e.begin u f t = (f, some { e with phase := v.next u f.now e.runnable }) := by
  cases hCreate : u.registry.create e.runnable.action.id with
  | error fault =>
    simp only [verdict?, hFresh, hCreate, Option.some.injEq] at hVerdict
    subst hVerdict
    simp only [begin, hCreate]
    rfl
  | ok handler =>
    cases hPrepare : handler.prepare t.job e.runnable.action with
    | refused fault | crashed cause =>
      simp only [verdict?, hFresh, hCreate, ht, Option.bind_some, hPrepare,
        Option.some.injEq] at hVerdict
      subst hVerdict
      simp only [begin, hCreate, hPrepare]
      rfl
    -- a handler that runs comes to no verdict yet
    | ready run =>
      simp only [verdict?, hFresh, hCreate, ht, Option.bind_some, hPrepare,
        reduceCtorEq] at hVerdict

/-- A step that comes to a verdict does nothing else. -/
theorem step_of_verdict {v : Verdict} (ht : f.tasks[e.runnable.task]? = some t)
    (hVerdict : e.verdict? u f = some v) :
    e.step u f = some (f, some { e with phase := v.next u f.now e.runnable }) := by
  cases hPhase : e.phase with
  | fresh => simp only [step, hPhase, ht, Option.map_some, begin_of_verdict ht hPhase hVerdict]
  | running run =>
    cases run with
    | finish | refuse | crash =>
      simp only [verdict?, hPhase, Option.some.injEq] at hVerdict
      subst hVerdict
      simp only [step, hPhase, proceed]
      rfl
    | report | wait | prune => simp only [verdict?, hPhase, reduceCtorEq] at hVerdict
  | crashed | asleep | doing => simp only [verdict?, hPhase, reduceCtorEq] at hVerdict

/-- Without a verdict the action goes on, and the step of the task with it, if there is one, neither
logs nor fails. -/
theorem step_of_open (ht : f.tasks[e.runnable.task]? = some t) (hOpen : e.phase.isOpen = true)
    (hVerdict : e.verdict? u f = none) (hStep : e.step u f = some (f', next)) :
    ∃ now s p, p.isOpen = true ∧ next = some { e with phase := p } ∧
      (∀ x : TaskStep, s = some x → x.log? = []) ∧
      f.Marks e.runnable.task t (s.elim t.record (·.apply now t.record)) f' := by
  -- an open phase has no deeds yet, so the execution goes on by itself
  rcases step_cases ht hStep with ⟨hOver, -⟩ | ⟨x, rest, more, hDoing, -⟩ |
    ⟨now, s, p, hNext, hOn, hMarks⟩
  · rw [hOver] at hOpen
    exact absurd hOpen (by simp [Phase.isOpen])
  · rw [hDoing] at hOpen
    exact absurd hOpen (by simp [Phase.isOpen])
  · obtain ⟨hStill, hQuiet⟩ : p.isOpen = true ∧ ∀ x : TaskStep, s = some x → x.log? = [] := by
      obtain ⟨r, phase⟩ := e
      -- the ways that end the action are those with a verdict
      cases hNext with
      | unknown _ hCreate => simp [verdict?, hCreate] at hVerdict
      | refused _ hCreate hPrepare | crashed hCreate hPrepare =>
        have hTask : f.tasks[r.task]? = some t := ht
        simp [verdict?, hCreate, hPrepare, hTask] at hVerdict
      | finish | refuse | crash => simp [verdict?] at hVerdict
      | notice => exact absurd hOpen (by simp [Phase.isOpen])
      | ready | report => exact ⟨rfl, fun x hx => by rw [← Option.some.inj hx]; rfl⟩
      | wait | sleep | wake | prune => exact ⟨rfl, fun x hx => nomatch hx⟩
    exact ⟨now, s, p, hStill, hOn, hQuiet, hMarks⟩

/-! ## Signs -/

/-- An execution that is over passes no verdict any more. -/
theorem verdict?_of_closed (h : e.phase.isOpen = false) : e.verdict? u f = none := by
  obtain ⟨r, phase⟩ := e
  cases phase with
  | crashed | doing => rfl
  | fresh | running | asleep => exact absurd h (by simp [Phase.isOpen])

/-- An execution that is still open has not failed. -/
theorem failing?_of_open (h : e.phase.isOpen = true) : e.failing? = none := by
  obtain ⟨r, phase⟩ := e
  cases phase with
  | fresh | running | asleep => rfl
  | crashed | doing => exact absurd h (by simp [Phase.isOpen])

/-- What shows of a step, given what it does to the logs and to the main queue. -/
theorem signs_eq {logs : List ActionLog} {queued : List Runnable}
    (hLogs : f'.logsOf e.runnable.task = f.logsOf e.runnable.task ++ logs)
    (hMain : f'.main = f.main ++ queued) :
    e.signs u f f' = (e.verdict? u f).toList.map .ended ++ logs.map .logged ++
      queued.map .queued ++ e.failing?.toList.map fun reason =>
        .failed reason (f.statusOf e.runnable.task) (f'.statusOf e.runnable.task) := by
  rw [signs, hLogs, hMain, List.drop_left, List.drop_left]

end Execution

namespace Floor

variable {f f' : Floor} {i : Nat} {t : LiveTask} {record : Task}

theorem logsOf_eq (ht : f.tasks[i]? = some t) : f.logsOf i = t.record.logs := by
  rw [logsOf, ht, Option.elim_some]

theorem statusOf_eq (ht : f.tasks[i]? = some t) : f.statusOf i = t.record.status := by
  rw [statusOf, ht, Option.elim_some]

theorem Marks.getElem? (h : f.Marks i t record f') (ht : f.tasks[i]? = some t) :
    ∃ outlet, f'.tasks[i]? = some { t with record, outlet } := by
  obtain ⟨outlet, hTasks⟩ := h.tasks
  have hLt : i < f.tasks.length := (List.getElem?_eq_some_iff.mp ht).1
  exact ⟨outlet, by rw [hTasks, List.getElem?_set_self hLt]⟩

/-- After a mark the logs of the task are those of its new record. -/
theorem Marks.logsOf (h : f.Marks i t record f') (ht : f.tasks[i]? = some t) :
    f'.logsOf i = record.logs := by
  obtain ⟨outlet, ht'⟩ := h.getElem? ht
  exact logsOf_eq ht'

/-- After a mark the status of the task is that of its new record. -/
theorem Marks.statusOf (h : f.Marks i t record f') (ht : f.tasks[i]? = some t) :
    f'.statusOf i = record.status := by
  obtain ⟨outlet, ht'⟩ := h.getElem? ht
  exact statusOf_eq ht'

end Floor

/-! ## What shows of each step -/

/-- What is done once the end of an action is logged. -/
structure Verdict.Leads (a : Action) (v : Verdict) (ds : List Deed) : Prop where
  failed    : ∀ reason, v.failure? a = some reason → ds = [.mark (.fail reason), .mark .release]
  succeeded : v.failure? a = none → ds.countP isLog = 0

/-- What has shown of an execution that is at a phase. -/
inductive Phase.Shows (r : Runnable) : List Sign → Phase → Prop
  | ongoing {p : Phase} (hOpen : p.isOpen = true) : Shows r [] p
  | crashed (cause : String) : Shows r [.ended (.unprepared cause)] (.crashed cause)
  | unlogged {v : Verdict} {l : ActionLog} {ds : List Deed}
      (hPrepared : ∀ cause, v ≠ .unprepared cause) (hLog : l.Tells r v)
      (hRest : v.Leads r.action ds) :
      Shows r [.ended v] (.doing (.mark (.appendLog l) :: ds))
  | failing {shown : List Sign} {reason : String}
      (hSoon : ∀ before, Leaves r (shown ++ [.failed reason before before.failed])) :
      Shows r shown (.doing [.mark (.fail reason), .mark .release])
  | failed {shown : List Sign} {ds : List Deed} (hLeaves : Leaves r shown)
      (hRest : ds = [.mark .release] ∨ ds = []) : Shows r shown (.doing ds)
  | succeeded {v : Verdict} {l : ActionLog} {more : List Sign} {ds : List Deed}
      (hSucceeds : v.failure? r.action = none) (hLog : l.Tells r v)
      (hMore : ∀ s ∈ more, s.follows = true) (hRest : ds.countP isLog = 0) :
      Shows r (.ended v :: .logged l :: more) (.doing ds)

/-- A failure without an output is logged next. -/
theorem Phase.shows_afterFault {r : Runnable} {v : Verdict} {reason : String} (now : Int64)
    (hPrepared : ∀ cause, v ≠ .unprepared cause) (hNone : ∀ o, v ≠ .returned o)
    (hFails : v.failure? r.action = some reason) :
    Phase.Shows r [.ended v] (.doing (r.afterFault now reason)) := by
  refine .unlogged hPrepared (ActionLog.tells_failure now hNone hFails) ⟨fun reason' h => ?_, ?_⟩
  · obtain rfl := Option.some.inj (hFails.symm.trans h)
    rfl
  · rw [hFails]
    exact fun h => nomatch h

/-- What shows of a verdict. -/
theorem Verdict.shows_next (u : Setup) (now : Int64) (r : Runnable) (v : Verdict) :
    Phase.Shows r [.ended v] (v.next u now r) := by
  cases v with
  | unprepared cause => exact .crashed cause
  | unknown | refused | faulted | crashed =>
    exact Phase.shows_afterFault now (fun _ h => nomatch h) (fun _ h => nomatch h) rfl
  | returned output =>
    refine .unlogged (fun _ h => nomatch h) (ActionLog.tells_output r output) ⟨?_, ?_⟩
    · intro reason (hFails : Runnable.failureOf output = some reason)
      rw [hFails]
    · intro (hSucceeds : Runnable.failureOf output = none)
      rw [hSucceeds, List.countP_append, r.countP_descend]
      rfl

namespace Execution

variable {u : Setup} {f f' : Floor} {t : LiveTask} {r : Runnable} {p : Phase}
  {next : Option Execution} {shown : List Sign}

/-- What shows of a step of the task. -/
theorem signs_of_mark (ht : f.tasks[r.task]? = some t) (s : TaskStep) (rest : List Deed) :
    signs u ⟨r, .doing (.mark s :: rest)⟩ f (f.mark r.task s) =
      s.log?.map .logged ++ s.failing?.toList.map fun reason =>
        .failed reason t.record.status (s.apply f.now t.record).status := by
  have hMarks := Floor.marks_mark ht s
  have hLogs : (f.mark r.task s).logsOf r.task = f.logsOf r.task ++ s.log? := by
    rw [hMarks.logsOf ht, Floor.logsOf_eq ht, (logs_apply f.now s t.record).1]
  have hMain : (f.mark r.task s).main = f.main ++ [] := by rw [hMarks.main, List.append_nil]
  rw [signs_eq hLogs hMain, hMarks.statusOf ht, Floor.statusOf_eq ht, verdict?_of_closed rfl,
    Option.toList_none, List.map_nil, List.nil_append, List.map_nil, List.append_nil]
  rfl

/-- Nothing shows of a step that leaves logs and main queue, unless it comes to a verdict or fails
the task. -/
theorem signs_of_same {e : Execution} (hLogs : f'.logsOf e.runnable.task = f.logsOf e.runnable.task)
    (hMain : f'.main = f.main) (hFailing : e.failing? = none) :
    e.signs u f f' = (e.verdict? u f).toList.map .ended := by
  have hNoLogs : f'.logsOf e.runnable.task = f.logsOf e.runnable.task ++ [] := by
    rw [hLogs, List.append_nil]
  have hNoMore : f'.main = f.main ++ [] := by rw [hMain, List.append_nil]
  rw [signs_eq hNoLogs hNoMore, hFailing]
  simp only [List.map_nil, Option.toList_none, List.append_nil]

/-- A step on the way to the end of the action. -/
theorem shows_ongoing (ht : f.tasks[r.task]? = some t) (hOpen : p.isOpen = true)
    (hStep : step u f ⟨r, p⟩ = some (f', next)) :
    ∃ p', next = some ⟨r, p'⟩ ∧ p'.Shows r (signs u ⟨r, p⟩ f f') := by
  have hFailing : failing? ⟨r, p⟩ = none := failing?_of_open hOpen
  -- with a verdict the action ends here, and otherwise this step logs nothing
  cases hVerdict : verdict? u f ⟨r, p⟩ with
  | some v =>
    rw [step_of_verdict ht hVerdict] at hStep
    obtain ⟨rfl, rfl⟩ := Prod.mk.inj (Option.some.inj hStep)
    refine ⟨_, rfl, ?_⟩
    rw [signs_of_same rfl rfl hFailing, hVerdict]
    exact v.shows_next u f.now r
  | none =>
    obtain ⟨now, s, p', hStill, rfl, hQuiet, hMarks⟩ := step_of_open ht hOpen hVerdict hStep
    have hLogs : f'.logsOf r.task = f.logsOf r.task := by
      rw [hMarks.logsOf ht, Floor.logsOf_eq ht]
      cases s with
      | none => rfl
      | some x =>
        rw [Option.elim_some, (logs_apply now x t.record).1, hQuiet x rfl, List.append_nil]
    refine ⟨p', rfl, ?_⟩
    rw [signs_of_same hLogs hMarks.main hFailing, hVerdict]
    exact .ongoing hStill

/-- What shows of a deed that writes no log is of what follows, and so is what is left. -/
theorem follows_of_signs {ds : List Deed} (ht : f.tasks[r.task]? = some t)
    (hNone : ds.countP isLog = 0) (hStep : step u f ⟨r, .doing ds⟩ = some (f', next)) :
    (∀ s ∈ signs u ⟨r, .doing ds⟩ f f', s.follows = true) ∧
      (next = none ∨ ∃ ds', next = some ⟨r, .doing ds'⟩ ∧ ds'.countP isLog = 0) := by
  cases ds with
  | nil =>
    obtain ⟨rfl, rfl⟩ := Prod.mk.inj (Option.some.inj hStep)
    refine ⟨?_, .inl rfl⟩
    rw [signs_of_same rfl rfl rfl, verdict?_of_closed rfl]
    exact fun s hs => nomatch hs
  | cons x rest =>
    have hRest : rest.countP isLog = 0 := by
      rw [List.countP_cons] at hNone
      omega
    cases x with
    | mark x =>
      obtain ⟨rfl, rfl⟩ := Prod.mk.inj (Option.some.inj hStep)
      refine ⟨fun s hs => ?_, .inr ⟨rest, rfl, hRest⟩⟩
      have hQuiet : x.log? = [] := by
        rw [countP_mark] at hNone
        exact List.length_eq_zero_iff.mp (by omega)
      rw [signs_of_mark ht, hQuiet, List.map_nil, List.nil_append] at hs
      obtain ⟨reason, -, rfl⟩ := List.mem_map.mp hs
      rfl
    | queue action input =>
      simp only [step, Floor.perform] at hStep
      split at hStep
      · obtain ⟨rfl, rfl⟩ := Prod.mk.inj (Option.some.inj hStep)
        refine ⟨fun s hs => ?_, .inr ⟨rest, rfl, hRest⟩⟩
        have hLogs : (f.enqueue { action, task := r.task, input }).logsOf r.task =
            f.logsOf r.task ++ [] := (List.append_nil _).symm
        rw [signs_eq hLogs rfl, verdict?_of_closed rfl] at hs
        obtain rfl := List.mem_singleton.mp hs
        rfl
      -- with the main queue closed the task is interrupted in its place
      · obtain ⟨rfl, rfl⟩ := Prod.mk.inj (Option.some.inj hStep)
        refine ⟨?_, .inr ⟨refused ++ rest, rfl, hRest⟩⟩
        rw [signs_of_same rfl rfl rfl, verdict?_of_closed rfl]
        exact fun s hs => nomatch hs

/-- What shows as logged is among the logs. -/
theorem mem_logsOf_of_signs {l : ActionLog} (h : .logged l ∈ signs u ⟨r, p⟩ f f') :
    l ∈ f'.logsOf r.task := by
  simp only [signs, List.mem_append, List.mem_map, reduceCtorEq, and_false, exists_false, or_false,
    false_or] at h
  obtain ⟨l', hl, hSame⟩ := h
  rw [← Sign.logged.inj hSame]
  exact List.mem_of_mem_drop hl

/-- What shows as failed has failed, and that is final. -/
theorem isFinal_of_signs (ht : f.tasks[r.task]? = some t)
    (hStep : step u f ⟨r, p⟩ = some (f', next)) {reason : String} {before after : TaskStatus}
    (h : .failed reason before after ∈ signs u ⟨r, p⟩ f f') :
    after.isFinal = true ∧ f'.statusOf r.task = after := by
  -- of what a step can show, only a failure shows as failed
  simp only [signs, List.mem_append, List.mem_map, reduceCtorEq, and_false, exists_false, or_false,
    false_or] at h
  obtain ⟨reason', hFailing, hSame⟩ := h
  obtain ⟨-, -, rfl⟩ := Sign.failed.inj hSame
  refine ⟨?_, rfl⟩
  have hSome : failing? ⟨r, p⟩ = some reason' := Option.mem_toList.mp hFailing
  -- there is one only when the next deed is to fail the task
  unfold failing? at hSome
  split at hSome
  · next x rest hDoing =>
    obtain rfl : p = .doing (.mark x :: rest) := hDoing
    obtain ⟨rfl, -⟩ := Prod.mk.inj (Option.some.inj hStep)
    rw [(Floor.marks_mark ht x).statusOf ht]
    unfold TaskStep.failing? at hSome
    split at hSome
    · next told =>
      show ((TaskStep.fail told).apply f.now t.record).status.isFinal = true
      rw [Task.status_fail]
      exact TaskStatus.isFinal_failed _
    · exact absurd hSome (by simp)
  · exact absurd hSome (by simp)

/-- **A step of an execution** shows what is due at its phase, and the execution goes on, or it is
over and has left behind what it should. -/
theorem shows_step (ht : f.tasks[r.task]? = some t) (h : p.Shows r shown)
    (hStep : step u f ⟨r, p⟩ = some (f', next)) :
    next.elim (Leaves r (shown ++ signs u ⟨r, p⟩ f f')) fun e' =>
      e'.runnable = r ∧ e'.phase.Shows r (shown ++ signs u ⟨r, p⟩ f f') := by
  cases h with
  | ongoing hOpen =>
    obtain ⟨p', rfl, hShows⟩ := shows_ongoing ht hOpen hStep
    exact ⟨rfl, hShows⟩
  | crashed cause =>
    obtain ⟨rfl, rfl⟩ := Prod.mk.inj (Option.some.inj hStep)
    rw [signs_of_same rfl rfl rfl, verdict?_of_closed rfl]
    exact ⟨rfl, .failing fun before => .unprepared before rfl⟩
  -- the log comes first; whether a failure follows, the verdict says
  | @unlogged v l ds hPrepared hLog hRest =>
    obtain ⟨rfl, rfl⟩ := Prod.mk.inj (Option.some.inj hStep)
    rw [signs_of_mark ht]
    refine ⟨rfl, ?_⟩
    show Phase.Shows r [.ended v, .logged l] (.doing ds)
    cases hFails : v.failure? r.action with
    | some reason =>
      rw [hRest.failed reason hFails]
      exact .failing fun before => .failed before hPrepared hFails hLog
    | none => exact .succeeded hFails hLog (fun s hs => nomatch hs) (hRest.succeeded hFails)
  | @failing _ reason hSoon =>
    obtain ⟨rfl, rfl⟩ := Prod.mk.inj (Option.some.inj hStep)
    rw [signs_of_mark ht, Task.status_fail]
    exact ⟨rfl, .failed (hSoon t.record.status) (.inl rfl)⟩
  | failed hLeaves hRest =>
    -- what is left after a failure is to release the task, and then nothing
    rcases hRest with rfl | rfl
    · obtain ⟨rfl, rfl⟩ := Prod.mk.inj (Option.some.inj hStep)
      rw [signs_of_mark ht]
      refine ⟨rfl, .failed ?_ (.inr rfl)⟩
      show Leaves r (shown ++ [])
      rwa [List.append_nil]
    · obtain ⟨rfl, rfl⟩ := Prod.mk.inj (Option.some.inj hStep)
      rw [signs_of_same rfl rfl rfl, verdict?_of_closed rfl]
      show Leaves r (shown ++ [])
      rwa [List.append_nil]
  | @succeeded v l more ds hSucceeds hLog hMore hRest =>
    obtain ⟨hNew, hOn⟩ := follows_of_signs ht hRest hStep
    -- after a success nothing is shown but what may follow one
    have hAll : ∀ s ∈ more ++ signs u ⟨r, .doing ds⟩ f f', s.follows = true := by
      intro s hs
      rcases List.mem_append.mp hs with hs | hs
      · exact hMore s hs
      · exact hNew s hs
    rcases hOn with rfl | ⟨ds', rfl, hRest'⟩
    · exact .succeeded hSucceeds hLog hAll
    · exact ⟨rfl, .succeeded hSucceeds hLog hAll hRest'⟩

end Execution

namespace Machine

/-! ## Every run -/

section Steps

variable {u : Setup} {m m' : Machine}

/-- A final status is never left. -/
theorem statusOf_of_step {s : MachineStep} (hSound : m.Sound) (hStep : m.step u s = some m')
    {i : Nat} (hFinal : (m.floor.statusOf i).isFinal = true) :
    m'.floor.statusOf i = m.floor.statusOf i := by
  cases ht : m.floor.tasks[i]? with
  | none =>
    rw [Floor.statusOf, ht] at hFinal
    exact absurd hFinal (by decide)
  | some t =>
    obtain ⟨t', ht', hOnward⟩ := onward_of_step hSound hStep ht
    rw [Floor.statusOf_eq ht] at hFinal ⊢
    rw [Floor.statusOf_eq ht']
    exact (hOnward.final hFinal).1

/-- A log is never taken back. -/
theorem mem_logsOf_of_step {s : MachineStep} (hSound : m.Sound) (hStep : m.step u s = some m')
    {i : Nat} {l : ActionLog} (hl : l ∈ m.floor.logsOf i) : l ∈ m'.floor.logsOf i := by
  cases ht : m.floor.tasks[i]? with
  | none =>
    rw [Floor.logsOf, ht] at hl
    exact absurd hl (by simp)
  | some t =>
    obtain ⟨t', ht', hOnward⟩ := onward_of_step hSound hStep ht
    rw [Floor.logsOf_eq ht] at hl
    rw [Floor.logsOf_eq ht']
    exact hOnward.logs.subset hl

end Steps

/-- What has shown of the execution of a worker fits how far it is, and stands on the machine. -/
structure Watched (n w : Nat) (r : Runnable) (shown : List Sign) (m : Machine) : Prop where
  sound : m.Sound
  shows : (m.execution? n w).elim (Leaves r shown) fun e => e.runnable = r ∧ e.phase.Shows r shown
  kept  : ∀ l, .logged l ∈ shown → l ∈ m.floor.logsOf r.task
  lasts : ∀ reason before after, .failed reason before after ∈ shown →
    after.isFinal = true ∧ m.floor.statusOf r.task = after

section Runs

variable {u : Setup} {m m' : Machine} {n w : Nat} {r : Runnable} {shown : List Sign}

/-- Nothing shows of an execution in a step of something else. -/
theorem signs_of_other {s : MachineStep} (hOther : s ≠ .work n w) (m : Machine) :
    m.signs u n w s = [] := by
  cases s with
  | work n' w' =>
    refine if_neg fun hSame => hOther ?_
    rw [hSame.1, hSame.2]
  | _ => rfl

theorem signs_of_own {e : Execution} (he : m.execution? n w = some e)
    (hStep : m.step u (.work n w) = some m') :
    m.signs u n w (.work n w) = e.signs u m.floor m'.floor := by
  rw [signs, if_pos ⟨rfl, rfl⟩, he, Option.elim_some, hStep, Option.elim_some]

/-- A step of the machine shows of an execution what it signs, and nothing if it is not its own. -/
theorem Watched.step {s : MachineStep} (h : Watched n w r shown m)
    (hExecutes : (m.execution? n w).isSome = true) (hStep : m.step u s = some m') :
    Watched n w r (shown ++ m.signs u n w s) m' := by
  have hSound := h.sound.step hStep
  have hKept : ∀ l, .logged l ∈ shown → l ∈ m'.floor.logsOf r.task :=
    fun l hl => mem_logsOf_of_step h.sound hStep (h.kept l hl)
  have hLasts : ∀ reason before after, .failed reason before after ∈ shown →
      after.isFinal = true ∧ m'.floor.statusOf r.task = after := by
    intro reason before after hFailed
    obtain ⟨hFinal, hStatus⟩ := h.lasts reason before after hFailed
    refine ⟨hFinal, ?_⟩
    rw [statusOf_of_step h.sound hStep (hStatus ▸ hFinal), hStatus]
  -- only a step of this worker shows anything, or moves the execution on
  by_cases hOwn : s = .work n w
  · subst hOwn
    obtain ⟨⟨r', p⟩, t, he, ht, hMoved⟩ := exists_of_work h.sound hStep
    have hShows := h.shows
    rw [he, Option.elim_some] at hShows
    obtain ⟨rfl, hPhase⟩ := hShows
    rw [signs_of_own he hStep]
    refine ⟨hSound, Execution.shows_step ht hPhase hMoved, fun l hl => ?_, ?_⟩
    · rcases List.mem_append.mp hl with hl | hl
      · exact hKept l hl
      · exact Execution.mem_logsOf_of_signs hl
    · intro reason before after hFailed
      rcases List.mem_append.mp hFailed with hFailed | hFailed
      · exact hLasts reason before after hFailed
      · exact Execution.isFinal_of_signs ht hMoved hFailed
  · obtain ⟨e, he⟩ := Option.isSome_iff_exists.mp hExecutes
    have hShows := h.shows
    rw [he] at hShows
    rw [signs_of_other hOwn, List.append_nil]
    refine ⟨hSound, ?_, hKept, hLasts⟩
    rw [execution?_of_step h.sound.staffed hStep hOwn he]
    exact hShows

end Runs

/-! ## What every execution leaves behind -/

/-- What is true of the execution of a runnable, which a worker has picked up on the machine `m`,
after any steps up to the end of the execution. -/
structure Executed (u : Setup) (n w : Nat) (r : Runnable) (m : Machine) (ss : List MachineStep)
    (m' : Machine) : Prop where
  /-- Once it is over, this is what it has left behind. -/
  leaves : m'.execution? n w = none → Leaves r (m.trace u (signs u n w) ss)
  /-- What was logged is in the logs of the task. -/
  kept   : ∀ l, .logged l ∈ m.trace u (signs u n w) ss → l ∈ m'.floor.logsOf r.task
  /-- The state that a failure led to is the state of the task. -/
  lasts  : ∀ reason before after, .failed reason before after ∈ m.trace u (signs u n w) ss →
    m'.floor.statusOf r.task = after
  /-- Until it is over, its worker can bring it to its end. -/
  ends   : (m'.execution? n w).isSome = true → Finishes u n w m'

/-- **Every execution of a runnable is logged once, however its action ends**, unless `init` of its
handler crashes: then it is not logged. If the action has failed, the log tells of a failure for the
reason for which the task fails, and nothing is queued. -/
theorem execution_logged {u : Setup} {now : Int64} {catalog : Catalog} {capacity : Nat}
    {m₀ m m₁ m' : Machine} {past ss : List MachineStep} {n w : Nat} {r : Runnable}
    (hStart : start u now catalog capacity = .ok m₀) (hPast : Course u (fun _ _ => True) m₀ past m)
    (hBegins : m.begins (.dispatch n (.pick w)) = some r)
    (hPick : m.step u (.dispatch n (.pick w)) = some m₁)
    (hRun : Course u (fun m _ => (m.execution? n w).isSome = true) m₁ ss m') :
    Executed u n w r m₁ ss m' := by
  have hSound : m.Sound := hPast.keeps hStart (fun _ _ _ h _ hStep => h.step hStep)
    (sound_of_start hStart)
  -- nothing has shown of an execution that has just begun
  have hFirst : Watched n w r [] m₁ := by
    refine ⟨hSound.step hPick, ?_, (fun _ h => nomatch h), (fun _ _ _ h => nomatch h)⟩
    rw [execution?_of_begins hSound.staffed hBegins hPick]
    exact ⟨rfl, .ongoing rfl⟩
  have hLast : Watched n w r ([] ++ m₁.trace u (signs u n w) ss) m' :=
    hRun.trace_invariant (P := Watched n w r) (fun _ _ _ _ h hExecutes hStep =>
      h.step hExecutes hStep) hFirst
  rw [List.nil_append] at hLast
  refine ⟨fun hOver => ?_, hLast.kept, fun reason before after h => ?_, finishes hLast.sound⟩
  · have hShows := hLast.shows
    rwa [hOver] at hShows
  · exact (hLast.lasts reason before after h).2

/-! ## Two executions -/

/-- An action without a handler fails, and its execution leaves one log. -/
theorem execution_logged_plainSteps :
    ∃ m₀ m m₁ m' r, start bareSetup 0 {} 8 = .ok m₀ ∧
      Course bareSetup (fun _ _ => True) m₀ (plainSteps.take 11) m ∧
      m.begins (.dispatch 0 (.pick 0)) = some r ∧
      m.step bareSetup (.dispatch 0 (.pick 0)) = some m₁ ∧
      Course bareSetup (fun m _ => (m.execution? 0 0).isSome = true) m₁ (plainSteps.drop 12) m' ∧
      m'.execution? 0 0 = none ∧ (m'.floor.logsOf r.task).length = 1 ∧
      m'.floor.statusOf r.task = .error ∧
      Executed bareSetup 0 0 r m₁ (plainSteps.drop 12) m' := by
  obtain ⟨m₀, m, m₁, m', r, hStart, hPast, hBegins, hPick, hRun, hOver, hLogs, hStatus⟩ :
      ∃ m₀ m m₁ m' r, start bareSetup 0 {} 8 = .ok m₀ ∧
        m₀.run bareSetup (fun _ _ => true) (plainSteps.take 11) = some m ∧
        m.begins (.dispatch 0 (.pick 0)) = some r ∧
        m.step bareSetup (.dispatch 0 (.pick 0)) = some m₁ ∧
        m₁.run bareSetup (fun m _ => (m.execution? 0 0).isSome) (plainSteps.drop 12) = some m' ∧
        m'.execution? 0 0 = none ∧ (m'.floor.logsOf r.task).length = 1 ∧
        m'.floor.statusOf r.task = .error :=
    ⟨_, _, _, _, _, rfl, rfl, rfl, rfl, rfl, rfl, rfl, rfl⟩
  have hCourse : Course bareSetup (fun _ _ => True) m₀ (plainSteps.take 11) m :=
    .of_run (fun _ _ _ => trivial) hPast
  -- the execution goes on from the pick to its end
  have hStint : Course bareSetup (fun m _ => (m.execution? 0 0).isSome = true) m₁
      (plainSteps.drop 12) m' := .of_run (fun _ _ h => h) hRun
  exact ⟨m₀, m, m₁, m', r, hStart, hCourse, hBegins, hPick, hStint, hOver, hLogs, hStatus,
    execution_logged hStart hCourse hBegins hPick hStint⟩

/-- A handler that cannot be prepared. -/
def crashing : Handler where
  name := "crashing"
  prepare _ _ := .crashed "x"

def crashingSetup : Setup :=
  { bareSetup with registry := Registry.register {} "a" crashing }

/-- **A failure without a log**: `init` of a handler crashes, the worker calls `fail` and `release`,
and nothing is in the logs of the task. -/
theorem execution_not_logged :
    ∃ m₀ m m₁ m' r, start crashingSetup 0 {} 8 = .ok m₀ ∧
      Course crashingSetup (fun _ _ => True) m₀ (plainSteps.take 11) m ∧
      m.begins (.dispatch 0 (.pick 0)) = some r ∧
      m.step crashingSetup (.dispatch 0 (.pick 0)) = some m₁ ∧
      Course crashingSetup (fun m _ => (m.execution? 0 0).isSome = true) m₁
        (plainSteps.drop 12) m' ∧
      m'.execution? 0 0 = none ∧ m'.floor.logsOf r.task = [] ∧
      m'.floor.statusOf r.task = .error ∧
      m₁.trace crashingSetup (signs crashingSetup 0 0) (plainSteps.drop 12) =
        [.ended (.unprepared "x"),
         .failed ("action " ++ "a" ++ " panicked: " ++ "x") .idle .error] := by
  obtain ⟨m₀, m, m₁, m', r, hStart, hPast, hBegins, hPick, hRun, hOver, hSigns⟩ :
      ∃ m₀ m m₁ m' r, start crashingSetup 0 {} 8 = .ok m₀ ∧
        m₀.run crashingSetup (fun _ _ => true) (plainSteps.take 11) = some m ∧
        m.begins (.dispatch 0 (.pick 0)) = some r ∧
        m.step crashingSetup (.dispatch 0 (.pick 0)) = some m₁ ∧
        m₁.run crashingSetup (fun m _ => (m.execution? 0 0).isSome) (plainSteps.drop 12) =
          some m' ∧
        m'.execution? 0 0 = none ∧ m'.floor.logsOf r.task = [] ∧
        m'.floor.statusOf r.task = .error ∧
        m₁.trace crashingSetup (signs crashingSetup 0 0) (plainSteps.drop 12) =
          [.ended (.unprepared "x"),
           .failed ("action " ++ "a" ++ " panicked: " ++ "x") .idle .error] :=
    ⟨_, _, _, _, _, rfl, rfl, rfl, rfl, rfl, rfl, rfl, rfl, rfl⟩
  exact ⟨m₀, m, m₁, m', r, hStart, .of_run (fun _ _ _ => trivial) hPast, hBegins, hPick,
    .of_run (fun _ _ h => h) hRun, hOver, hSigns⟩

end Machine

end Taskyard
