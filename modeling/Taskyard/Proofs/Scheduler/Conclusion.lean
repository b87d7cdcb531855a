import Taskyard.Proofs.Job.Progress
import Taskyard.Proofs.Scheduler.Recording

/-!
# Scheduler — how a task ends

A task fails in many places: an action has no handler, a run ends with a fault or crashes, an output
tells of a failure, or the messages that a chained action is to be run on cannot be made. Meanwhile
other executions for the task go on, in whatever order, and let it run or finish. None of them can
undo a failure, and only the last of them can let it finish. So the state in which a task comes to
rest is no matter of order: it has failed if the recursion meets a failure, and is finished if it
does not.

Nothing is said of a scheduler that stops, or of a job that is removed: there tasks are interrupted.

Main definitions and results:

* `fails`, `anyFails` — whether the recursion meets a failure.
* `Ending` — a task has failed, or something that is left of it will fail, exactly if the recursion
  does.
* `Ending.turn`, `Machine.Heading.step` — every turn at a duty and every step keep that.
* `Machine.status_eq_of_idle` — the state in which a task comes to rest.
-/

namespace Taskyard

open Deed

/-! ## Failures of the recursion -/

/-- Whether the messages that an action is run on cannot be made, or one of them passes a test. -/
def Action.anyInput (a : Action) (b : Backend) (buffer : Nat) (m : Message)
    (test : Message → Bool) : Bool :=
  match a.expand b buffer m with
  | .error _ => true
  | .ok inputs => inputs.any test

section Failures

variable (b : Backend) (buffer : Nat) (oracle : Action → Message → Outcome)

mutual

/-- Whether an action that is run on a message fails, or anything that follows from its output,
where an oracle tells the outcomes. -/
def fails : Action → Message → Bool
  | ⟨id, label, parameters, nodesSelector, usersSelector, nodesFilter, usersFilter, sourceFilter,
      chained⟩, m =>
    let a : Action := ⟨id, label, parameters, nodesSelector, usersSelector, nodesFilter, usersFilter,
      sourceFilter, chained⟩
    match oracle a m with
    | .failed _ => true
    | .returned output =>
      match Runnable.failureOf output with
      | some _ => true
      | none => anyFails chained output

/-- Whether one of several actions fails on a message that it makes of one message, or cannot make
any. -/
def anyFails : List Action → Message → Bool
  | [], _ => false
  | a :: rest, m => a.anyInput b buffer m (fails a) || anyFails rest m

end

/-- Whether an action fails, by the outcome of its handler: it reports a failure, its output is
one, or something below it fails. -/
theorem fails_eq (a : Action) (m : Message) :
    fails b buffer oracle a m =
      match oracle a m with
      | .failed _ => true
      | .returned output =>
        match Runnable.failureOf output with
        | some _ => true
        | none => anyFails b buffer oracle a.chained output := by
  cases a
  rw [fails]

/-- Some action fails on some of its inputs. -/
theorem anyFails_eq_any (actions : List Action) (m : Message) :
    anyFails b buffer oracle actions m =
      actions.any fun a => a.anyInput b buffer m (fails b buffer oracle a) := by
  induction actions with
  | nil => rw [anyFails, List.any_nil]
  | cons a rest ih => rw [anyFails, ih, List.any_cons]

/-- Whether a deed lets the task fail, or leads to a failure. -/
def Deed.fails : Deed → Bool
  | .mark s => s.failing?.isSome
  | .queue a m => Taskyard.fails b buffer oracle a m.untimed

/-- Whether a duty leads to a failure. -/
def Duty.fails : Duty → Bool
  | .waiting r => Taskyard.fails b buffer oracle r.action r.input.untimed
  | .running ⟨_, .doing ds⟩ => ds.any (Deed.fails b buffer oracle)
  | .running ⟨r, _⟩ => Taskyard.fails b buffer oracle r.action r.input.untimed
  | .errand _ ds => ds.any (Deed.fails b buffer oracle)

end Failures

theorem Action.anyInput_untimed (a : Action) (b : Backend) (buffer : Nat) (m : Message)
    (test : Message → Bool) :
    a.anyInput b buffer m.untimed test = a.anyInput b buffer m fun m => test m.untimed := by
  unfold anyInput
  rw [expand_untimed]
  cases a.expand b buffer m with
  | error e => rfl
  | ok inputs => exact List.any_map

/-! ## Deeds that interrupt nothing -/

/-- Whether a step ends the task from outside. -/
def TaskStep.interrupts : TaskStep → Bool
  | .setStatus .interrupted _ => true
  | _ => false

/-- Whether a deed ends the task from outside. -/
def Deed.interrupts : Deed → Bool
  | .mark s => s.interrupts
  | .queue _ _ => false

/-- Whether none of the deeds that are left ends the task from outside. -/
def Duty.Mild (d : Duty) : Prop := ∀ ds, d.deeds = some ds → ∀ x ∈ ds, x.interrupts = false

namespace Duty

/-- As long as something else is left than deeds, nothing ends the task from outside. -/
theorem mild_of_none {d : Duty} (h : d.deeds = none) : d.Mild := by
  intro ds hDeeds
  rw [h] at hDeeds
  exact absurd hDeeds (by simp)

/-- A duty is mild whose deeds interrupt nothing. -/
theorem mild_of_deeds {d : Duty} {ds : List Deed} (h : d.deeds = some ds)
    (hNone : ∀ x ∈ ds, x.interrupts = false) : d.Mild := by
  intro ds' hDeeds
  obtain rfl := Option.some.inj (h.symm.trans hDeeds)
  exact hNone

end Duty

/-- A step that does not end a task from outside leaves it failed exactly if it was failed before or
fails with the step. -/
theorem TaskStep.status_apply {s : TaskStep} {t : Task} (now : Int64) (hMild : s.interrupts = false)
    (hOpen : t.status ≠ .interrupted) :
    (s.apply now t).status ≠ .interrupted ∧
      ((s.apply now t).status = .error ↔ t.status = .error ∨ s.failing?.isSome = true) := by
  have hFinal : t.status.isFinal = true ↔ t.status = .error :=
    TaskStatus.isFinal_iff.trans (or_iff_right hOpen)
  cases s with
  | setStatus status remark =>
    show (t.transition now status remark).status ≠ .interrupted ∧
      ((t.transition now status remark).status = .error ↔ _)
    rw [Task.status_transition]
    by_cases hError : t.status = .error
    · simp [hError, TaskStatus.isFinal]
    -- what is to finish may go on running, and any other state is taken as it is
    · rw [if_neg (mt hFinal.mp hError), Task.admitted]
      split
      · next hFinish => simp [hFinish.1, hError, failing?]
      · cases status <;> simp_all [interrupts, failing?]
  | release =>
    show (t.release now).status ≠ .interrupted ∧ ((t.release now).status = .error ↔ _)
    by_cases hLast : t.pending ≤ 1
    · rw [Task.status_release now hLast]
      by_cases hError : t.status = .error
      · simp [hError, TaskStatus.isFinal]
      · rw [if_neg (mt hFinal.mp hError)]
        simp [hError, failing?]
    · rw [Task.release_of_more now (not_le.mp hLast)]
      exact ⟨hOpen, by simp [failing?]⟩
  | retain | appendLog | setProgress | flush => exact ⟨hOpen, by simp [apply, failing?]⟩

section Endings

variable (b : Backend) (buffer : Nat) (oracle : Action → Message → Outcome)

/-! ## What deeds lead to -/

namespace Runnable

/-- What is done for a chained action leads to a failure exactly if the action does. -/
theorem fails_childDeeds (c : Action) (output : Message) :
    (childDeeds c (c.expand b buffer output)).any (Deed.fails b buffer oracle) =
        c.anyInput b buffer output.untimed (Taskyard.fails b buffer oracle c) ∧
      ∀ d ∈ childDeeds c (c.expand b buffer output), d.interrupts = false := by
  rw [Action.anyInput_untimed, Action.anyInput]
  cases c.expand b buffer output with
  | error e => exact ⟨rfl, by simp [childDeeds, Deed.interrupts, TaskStep.fail, TaskStep.interrupts]⟩
  | ok inputs =>
    refine ⟨?_, fun d hd => ?_⟩
    · simp only [childDeeds, List.any_flatMap]
      -- each input is retained and then queued, and only what is queued may fail
      exact congrArg inputs.any (funext fun m => Bool.or_false _)
    · obtain ⟨m, -, hd⟩ := List.mem_flatMap.mp hd
      rcases List.mem_cons.mp hd with rfl | hd
      · rfl
      · rw [List.mem_singleton.mp hd]
        rfl

/-- What a run leaves to do fails exactly if something below its action fails. -/
theorem fails_descend (r : Runnable) (output : Message) :
    (r.descend b buffer output).any (Deed.fails b buffer oracle) =
        anyFails b buffer oracle r.action.chained output.untimed ∧
      ∀ d ∈ r.descend b buffer output, d.interrupts = false := by
  refine ⟨?_, fun d hd => ?_⟩
  · rw [anyFails_eq_any, descend, List.any_flatMap]
    exact congrArg _ (funext fun c => (fails_childDeeds b buffer oracle c output).1)
  · obtain ⟨c, -, hd⟩ := List.mem_flatMap.mp hd
    exact (fails_childDeeds b buffer oracle c output).2 d hd

/-- What is done after a failure lets the task fail. -/
theorem fails_afterFault {oracle : Action → Message → Outcome} (r : Runnable) (now : Int64)
    (reason : String) (hOracle : oracle r.action r.input.untimed = .failed reason) :
    (r.afterFault now reason).any (Deed.fails b buffer oracle) =
        Taskyard.fails b buffer oracle r.action r.input.untimed ∧
      ∀ d ∈ r.afterFault now reason, d.interrupts = false := by
  rw [fails_eq, hOracle]
  refine ⟨rfl, fun d hd => ?_⟩
  simp only [afterFault, recordFailure, List.cons_append, List.nil_append, List.mem_cons,
    List.not_mem_nil, or_false] at hd
  rcases hd with rfl | rfl | rfl <;> rfl

/-- What is done after an output leads to a failure exactly if the oracle tells of one. -/
theorem fails_afterOutput {oracle : Action → Message → Outcome} (r : Runnable) (output : Message)
    (hOracle : oracle r.action r.input.untimed = .returned output.untimed) :
    (r.afterOutput b buffer output).any (Deed.fails b buffer oracle) =
        Taskyard.fails b buffer oracle r.action r.input.untimed ∧
      ∀ d ∈ r.afterOutput b buffer output, d.interrupts = false := by
  rw [fails_eq, hOracle]
  simp only [Message.failureOf_untimed, afterOutput]
  cases failureOf output with
  | some reason =>
    -- the failure of the task is the second of three deeds
    refine ⟨rfl, fun d hd => ?_⟩
    simp only [List.mem_cons, List.not_mem_nil, or_false] at hd
    rcases hd with rfl | rfl | rfl <;> rfl
  | none =>
    obtain ⟨hFails, hMild⟩ := fails_descend b buffer oracle r output
    -- only the chained actions can fail: the deeds around them do not
    have hTail : [Deed.mark .flush, .mark .release].any (Deed.fails b buffer oracle) = false := rfl
    refine ⟨?_, fun d hd => ?_⟩
    · rw [List.any_cons, List.any_append, hFails, hTail, Bool.or_false]
      exact Bool.false_or _
    · simp only [List.mem_cons, List.mem_append, List.not_mem_nil, or_false] at hd
      rcases hd with rfl | hd | rfl | rfl
      · rfl
      · exact hMild d hd
      · rfl
      · rfl

end Runnable

/-- A task starts with a failure, or with a runnable that leads to one, exactly if one of its root
actions fails. -/
theorem anyFails_eq_roots (root : Message) (actions : List Action) :
    anyFails b buffer oracle actions root.untimed =
      (!(rootFailures b buffer root actions).isEmpty ||
        (rootInputs b buffer root actions).any fun (a, m) =>
          Taskyard.fails b buffer oracle a m.untimed) := by
  rw [anyFails_eq_any]
  induction actions with
  | nil => rfl
  | cons a rest ih =>
    rw [List.any_cons, ih, Action.anyInput_untimed, Action.anyInput]
    simp only [rootFailures, rootInputs, List.filterMap_cons, List.flatMap_cons]
    cases a.expand b buffer root with
    -- an action that fails here comes before all that is run
    | error e => rfl
    | ok inputs =>
      simp only [List.any_append, List.any_map, Function.comp_def]
      exact Bool.or_left_comm ..

/-- The deeds with which a task starts lead to a failure exactly if one of its root actions does. -/
theorem fails_rootDeeds (root : Message) (actions : List Action) :
    (rootDeeds b buffer root actions).any (Deed.fails b buffer oracle) =
        anyFails b buffer oracle actions root.untimed ∧
      ∀ d ∈ rootDeeds b buffer root actions, d.interrupts = false := by
  rw [anyFails_eq_roots]
  refine ⟨?_, fun d hd => ?_⟩
  · have hFailures : ∀ reasons : List String,
        (reasons.map fun reason => Deed.mark (.fail reason)).any (Deed.fails b buffer oracle) =
          !reasons.isEmpty := by
      intro reasons
      cases reasons <;> rfl
    rw [rootDeeds, List.any_append, hFailures]
    refine congrArg _ ?_
    -- after the failures there are the runnables, and a task without any does not fail for that
    cases rootInputs b buffer root actions with
    | nil =>
      simp only [List.isEmpty_nil, if_true]
      split <;> rfl
    | cons x rest =>
      have hRetains : ((x :: rest).map fun _ => Deed.mark .retain).any
          (Deed.fails b buffer oracle) = false := by
        simp [Deed.fails, TaskStep.failing?]
      rw [List.isEmpty_cons, if_neg Bool.false_ne_true, List.any_append, hRetains, Bool.false_or,
        List.any_cons, List.any_map]
      exact Bool.false_or _
  · simp only [rootDeeds, List.mem_append, List.mem_map] at hd
    rcases hd with ⟨reason, -, rfl⟩ | hd
    · rfl
    · split at hd
      · split at hd
        · rw [List.mem_singleton.mp hd]
          rfl
        · exact absurd hd (by simp)
      · simp only [List.mem_append, List.mem_map, List.mem_cons] at hd
        rcases hd with ⟨x, -, rfl⟩ | rfl | ⟨⟨a, m⟩, -, rfl⟩ <;> rfl

/-! ## Duties -/

namespace Duty

/-- A duty of deeds leads to what its deeds lead to. -/
theorem fails_of_deeds {d : Duty} {ds : List Deed} (h : d.deeds = some ds) :
    d.fails b buffer oracle = ds.any (Deed.fails b buffer oracle) := by
  cases d with
  | waiting r => exact absurd h (by simp [Duty.deeds])
  | running e =>
    obtain ⟨r, p⟩ := e
    cases p with
    | doing ds' =>
      obtain rfl : ds' = ds := Option.some.inj h
      rfl
    | _ => exact absurd h (by simp [Duty.deeds])
  | errand i ds' =>
    obtain rfl : ds' = ds := Option.some.inj h
    rfl

/-- An execution that is not at its deeds leads to what its action leads to. -/
theorem fails_running (r : Runnable) {p : Phase} (h : ∀ ds, p ≠ .doing ds) :
    Duty.fails b buffer oracle (.running ⟨r, p⟩) =
      Taskyard.fails b buffer oracle r.action r.input.untimed := by
  cases p with
  | doing ds => exact absurd rfl (h ds)
  | _ => rfl

/-- A duty fails exactly if one of its deeds does. -/
theorem fails_ofDeeds (i : Nat) (ds : List Deed) :
    ((∃ d ∈ ofDeeds i ds, d.fails b buffer oracle = true) ↔
        ds.any (Deed.fails b buffer oracle) = true) ∧
      ((∀ x ∈ ds, x.interrupts = false) → ∀ d ∈ ofDeeds i ds, d.Mild) := by
  cases ds with
  | nil => simp [ofDeeds]
  | cons x rest =>
    refine ⟨by simp [ofDeeds, Duty.fails], fun hNone d hd => ?_⟩
    rw [Multiset.mem_singleton.mp hd]
    exact mild_of_deeds rfl hNone

/-- What is left of a duty of deeds leads to what these lead to. -/
theorem fails_resume {d : Duty} {ds : List Deed} (h : d.deeds = some ds) (rest : List Deed) :
    ((∃ d' ∈ d.resume rest, d'.fails b buffer oracle = true) ↔
        rest.any (Deed.fails b buffer oracle) = true) ∧
      ((∀ x ∈ rest, x.interrupts = false) → ∀ d' ∈ d.resume rest, d'.Mild) := by
  cases d with
  | waiting r => exact absurd h (by simp [Duty.deeds])
  | running e =>
    refine ⟨by simp [resume, Duty.fails], fun hNone d' hd' => ?_⟩
    rw [Multiset.mem_singleton.mp hd']
    exact mild_of_deeds rfl hNone
  | errand i ds' => exact fails_ofDeeds b buffer oracle i rest

end Duty

variable {b buffer oracle}

/-- An execution that goes on by itself leads to a failure exactly if it did before. -/
theorem next_fails {u : Setup} {j : Job} {taskId : String} {r : Runnable} {p p' : Phase}
    {s : Option TaskStep} (hOracle : Foretells u j taskId oracle)
    (h : Phase.Next u j taskId r p s p')
    (hForeseen : Duty.Foreseen j.actions oracle (.running ⟨r, p⟩)) :
    Duty.Mild (.running ⟨r, p'⟩) ∧
      Duty.fails u.site.backend u.selectionBuffer oracle (.running ⟨r, p'⟩) =
        Duty.fails u.site.backend u.selectionBuffer oracle (.running ⟨r, p⟩) ∧
      ∀ x : TaskStep, s = some x → x.interrupts = false ∧ x.failing? = none := by
  rw [Duty.fails_running u.site.backend u.selectionBuffer oracle r h.ne_doing]
  rcases next_foretold hOracle h hForeseen with ⟨rfl, now, reason, rfl, hTold⟩ |
    ⟨rfl, output, rfl, hTold⟩ | ⟨hGoing, hPhase, hStep⟩
  · obtain ⟨hFails, hNone⟩ := Runnable.fails_afterFault u.site.backend u.selectionBuffer r now
      reason hTold
    exact ⟨Duty.mild_of_deeds rfl hNone, hFails, by simp⟩
  · obtain ⟨hFails, hNone⟩ := Runnable.fails_afterOutput u.site.backend u.selectionBuffer r
      output hTold
    exact ⟨Duty.mild_of_deeds rfl hNone, hFails, by simp⟩
  -- on its way an execution has no deeds yet, and its steps are of no consequence for the end
  · refine ⟨Duty.mild_of_none ?_, Duty.fails_running _ _ _ r hGoing, fun x hx => ?_⟩
    · cases p' with
      | doing ds => exact absurd rfl (hGoing ds)
      | _ => rfl
    · rcases hStep x hx with rfl | ⟨progress, rfl⟩ <;> exact ⟨rfl, rfl⟩

/-! ## Every turn keeps the end -/

/-- A task that goes towards its end: nothing ends it from outside, and it has failed, or a duty
leads to a failure, exactly if the recursion fails. -/
structure Ending (b : Backend) (buffer : Nat) (oracle : Action → Message → Outcome) (total : Bool)
    (t : Task) (ds : Multiset Duty) : Prop where
  mild  : ∀ d ∈ ds, d.Mild
  kept  : t.status ≠ .interrupted
  fails : (t.status = .error ∨ ∃ d ∈ ds, d.fails b buffer oracle = true) ↔ total = true

/-- One duty is replaced by others: the end stays the same if the failures do. -/
theorem Ending.replaced {total : Bool} {t t' : Task} {d : Duty} {new old : Multiset Duty}
    (h : Ending b buffer oracle total t (d ::ₘ old)) (hMild : ∀ d' ∈ new, d'.Mild)
    (hKept : t'.status ≠ .interrupted)
    (hFails : (t'.status = .error ∨ ∃ d' ∈ new, d'.fails b buffer oracle = true) ↔
      (t.status = .error ∨ d.fails b buffer oracle = true)) :
    Ending b buffer oracle total t' (new + old) where
  mild d' hd' := by
    rcases Multiset.mem_add.mp hd' with hd' | hd'
    · exact hMild d' hd'
    · exact h.mild d' (Multiset.mem_cons_of_mem hd')
  kept := hKept
  fails := by
    have hTotal := h.fails
    simp only [Multiset.mem_cons, exists_eq_or_imp, ← or_assoc, ← hFails] at hTotal
    simp only [Multiset.mem_add, or_and_right, exists_or, ← or_assoc]
    exact hTotal

/-- **Every turn keeps the end**, as long as the job is loaded and the main queue is open. -/
theorem Ending.turn {u : Setup} {m : Machine} {live : LiveTask} {d : Duty}
    {begins : Option Runnable} {record : Task} {new old : Multiset Duty} {total : Bool}
    (h : Ending u.site.backend u.selectionBuffer oracle total live.record (d ::ₘ old))
    (hForeseen : d.Foreseen live.job.actions oracle)
    (hTurn : Machine.Turn u m live d begins record new)
    (hOracle : Foretells u live.job live.record.id oracle)
    (hLoaded : (m.jobs.get? live.job.id).isSome = true) (hOpen : m.floor.accepting = true) :
    Ending u.site.backend u.selectionBuffer oracle total record (new + old) := by
  have hHead := h.mild d (Multiset.mem_cons_self d old)
  cases hTurn with
  | pick r =>
    refine h.replaced (fun d' hd' => ?_) h.kept ?_
    · rw [Multiset.mem_singleton.mp hd']
      exact Duty.mild_of_none rfl
    · simp [Duty.fails]
  | away r hJob =>
    rw [hJob] at hLoaded
    exact absurd hLoaded (by simp)
  | @advance e now s p hNext =>
    -- the execution lets the task neither fail nor end, that is left to the deeds after it
    obtain ⟨hMild, hSame, hStep⟩ := next_fails hOracle hNext hForeseen
    refine h.replaced (fun d' hd' => ?_) ?_ ?_
    · rw [Multiset.mem_singleton.mp hd']
      exact hMild
    · cases s with
      | none => exact h.kept
      | some x => exact (TaskStep.status_apply now (hStep x rfl).1 h.kept).1
    · simp only [Multiset.mem_singleton, exists_eq_left, hSame]
      refine or_congr ?_ Iff.rfl
      cases s with
      | none => exact Iff.rfl
      | some x =>
        rw [Option.elim_some, (TaskStep.status_apply now (hStep x rfl).1 h.kept).2,
          (hStep x rfl).2]
        simp
  | ended e hOver =>
    obtain ⟨r, p⟩ := e
    obtain rfl : p = .doing [] := hOver
    refine h.replaced (fun d' hd' => absurd hd' (Multiset.notMem_zero d')) h.kept ?_
    simp [Duty.fails]
  | @mark d now s rest hDeeds =>
    obtain ⟨hLeft, hMild⟩ := Duty.fails_resume u.site.backend u.selectionBuffer oracle hDeeds rest
    obtain ⟨hStep, hRest⟩ := List.forall_mem_cons.mp (hHead _ hDeeds)
    -- a failure that was to come has come, or the step is not one
    obtain ⟨hKept, hFailed⟩ := TaskStep.status_apply now hStep h.kept
    refine h.replaced (hMild hRest) hKept ?_
    rw [hLeft, hFailed, Duty.fails_of_deeds _ _ _ hDeeds, List.any_cons, Bool.or_eq_true, or_assoc]
    rfl
  | @queue d a input rest hDeeds =>
    obtain ⟨hLeft, hMild⟩ := Duty.fails_resume u.site.backend u.selectionBuffer oracle hDeeds rest
    -- a runnable that is queued leads to the failure that its queueing led to
    obtain ⟨-, hRest⟩ := List.forall_mem_cons.mp (hHead _ hDeeds)
    refine h.replaced (fun d' hd' => ?_) h.kept ?_
    · rcases Multiset.mem_cons.mp hd' with rfl | hd'
      · exact Duty.mild_of_none rfl
      · exact hMild hRest d' hd'
    · simp only [Multiset.mem_cons, exists_eq_or_imp]
      rw [hLeft, Duty.fails_of_deeds _ _ _ hDeeds, List.any_cons, Bool.or_eq_true]
      rfl
  | refuse d hDeeds hClosed =>
    rw [hClosed] at hOpen
    exact absurd hOpen (by simp)

end Endings

/-! ## The end of a run -/

namespace Machine

/-- A machine with a task that goes towards the end of the recursion. -/
def Heading (u : Setup) (i : Nat) (oracle : Action → Message → Outcome) (total : Bool)
    (m : Machine) : Prop :=
  ∃ t, m.floor.tasks[i]? = some t ∧
    Ending u.site.backend u.selectionBuffer oracle total t.record (m.dutiesOf i)

section Runs

variable {u : Setup} {j : Job} {i : Nat} {oracle : Action → Message → Outcome} {total : Bool}
  {logs : List ActionLog} {begun : Nat} {m m' : Machine}

/-- **Every step of a scheduler in operation** keeps the end of a task. -/
theorem Heading.step {s : MachineStep} (h : Heading u i oracle total m)
    (hFollowing : Following u j i oracle logs begun m)
    (hOracle : Foretells u j (u.taskId i) oracle) (hServes : Serves j.id m s)
    (hStep : m.step u s = some m') : Heading u i oracle total m' := by
  obtain ⟨hRouter, hLoaded⟩ := hServes
  obtain ⟨t, ht, rfl, hId, hPromised⟩ := hFollowing.task
  obtain ⟨t₁, ht₁, hEnding⟩ := h
  obtain rfl := Option.some.inj (ht.symm.trans ht₁)
  have hSound := hFollowing.accounted.sound
  have hMove := step_move hSound (fun hEnd => absurd hEnd hRouter) hStep
  have hLt : i < m.floor.tasks.length := (List.getElem?_eq_some_iff.mp ht).1
  obtain ⟨t', ht'⟩ := hMove.exists_task hLt
  refine ⟨t', ht', ?_⟩
  cases hMove.atTask hSound ht' with
  | idle ht₀ _ hRecord hDuties _ =>
    obtain rfl := Option.some.inj (ht.symm.trans ht₀)
    rw [hRecord, hDuties]
    exact hEnding
  | turn ht₀ _ _ hDuties hTurn hDuties' =>
    obtain rfl := Option.some.inj (ht.symm.trans ht₀)
    rw [hDuties] at hPromised hEnding
    rw [hDuties']
    exact hEnding.turn (hPromised.foreseen _ (Multiset.mem_cons_self _ _)) hTurn (hId ▸ hOracle)
      hLoaded hFollowing.accepting
  -- a new task has a number that no task had before
  | birth hNew => exact absurd hNew (Nat.ne_of_lt hLt)

/-- What a run of a scheduler in operation leaves of the end of a task. -/
theorem Heading.course {ss : List MachineStep} (h : Heading u i oracle total m)
    (hFollowing : Following u j i oracle logs begun m)
    (hOracle : Foretells u j (u.taskId i) oracle) (hRun : Course u (Serves j.id) m ss m') :
    Heading u i oracle total m' := by
  induction hRun generalizing begun with
  | rest => exact h
  | step hServes hStep _ ih =>
    exact ih (h.step hFollowing hOracle hServes hStep) (hFollowing.step hOracle hServes hStep)

end Runs

/-- The step that starts a task sends it towards the end of the recursion. -/
theorem heading_of_starts {u : Setup} {j : Job} {e : Event}
    (oracle : Action → Message → Outcome) {m m' : Machine} {s : MachineStep} (h : m.Sound)
    (hStarts : m.starts s = some (j, e)) (hRouter : s ≠ .endRouter) (hStep : m.step u s = some m') :
    Heading u m.floor.tasks.length oracle
      (anyFails u.site.backend u.selectionBuffer oracle j.actions (.ofEvent e)) m' := by
  have hMove := step_move h (fun hEnd => absurd hEnd hRouter) hStep
  obtain ⟨t, ht, -, hRecord, hDuties⟩ := hMove.started h hStarts
  obtain ⟨hFails, hMild⟩ := fails_rootDeeds u.site.backend u.selectionBuffer oracle (.ofEvent e)
    j.actions
  obtain ⟨hLeft, hNew⟩ := Duty.fails_ofDeeds u.site.backend u.selectionBuffer oracle
    m.floor.tasks.length (rootDeeds u.site.backend u.selectionBuffer (.ofEvent e) j.actions)
  refine ⟨t, ht, ?_⟩
  rw [hRecord, hDuties]
  -- a new task is idle, so only its deeds can lead to a failure
  refine ⟨hNew hMild, by simp [Job.freshTask], ?_⟩
  rw [hLeft, hFails]
  exact or_iff_right (by simp [Job.freshTask])

/-- **A task ends as the recursion tells.** Let a scheduler start a task at any time, for any event,
and let it go on in any order of its steps, while the router goes on and the job is loaded, in
whatever definition. If the outcome of an action depends on the action, the job and the message
only, the task fails only if the recursion meets a failure, and it is never interrupted; and when
nothing of the task is left, it has failed if the recursion does, and is finished if not. -/
theorem status_eq_of_idle {u : Setup} {now : Int64} {catalog : Catalog} {capacity : Nat}
    {m₀ m₁ m₂ m₃ : Machine} {before after : List MachineStep} {s : MachineStep} {j : Job} {e : Event}
    {oracle : Action → Message → Outcome} (hStart : start u now catalog capacity = .ok m₀)
    (hBefore : Course u (fun _ s => s ≠ .endRouter) m₀ before m₁)
    (hStarts : m₁.starts s = some (j, e)) (hStep : m₁.step u s = some m₂)
    (hAfter : Course u (Serves j.id) m₂ after m₃)
    (hOracle : Foretells u j (u.taskId m₁.floor.tasks.length) oracle) :
    ∃ t, m₃.floor.tasks[m₁.floor.tasks.length]? = some t ∧ t.record.status ≠ .interrupted ∧
      (t.record.status = .error →
        anyFails u.site.backend u.selectionBuffer oracle j.actions (.ofEvent e) = true) ∧
      (m₃.Idle m₁.floor.tasks.length → t.record.status =
        if anyFails u.site.backend u.selectionBuffer oracle j.actions (.ofEvent e) = true then .error
        else .finished) := by
  obtain ⟨hAccounted, hOpen⟩ := accounted_of_course hStart hBefore
  have hRouter : s ≠ .endRouter := by
    rintro rfl
    exact absurd hStarts (by simp [starts])
  have hFollowing : Following u j m₁.floor.tasks.length oracle _ 0 m₂ :=
    following_of_starts hAccounted hOpen hStarts hRouter hStep
  obtain ⟨t, ht, hEnding⟩ :=
    (heading_of_starts oracle hAccounted.sound hStarts hRouter hStep).course hFollowing hOracle hAfter
  refine ⟨t, ht, hEnding.kept, fun hError => hEnding.fails.mp (Or.inl hError), fun hIdle => ?_⟩
  have hDone := hFollowing.course hOracle hAfter
  -- what is left of a task at rest leads to nothing, so it has failed if it ever does
  have hError : t.record.status = .error ↔ anyFails u.site.backend u.selectionBuffer oracle
      j.actions (.ofEvent e) = true := by
    refine (or_iff_left ?_).symm.trans hEnding.fails
    rintro ⟨d, hd, hFails⟩
    obtain ⟨⟨r, p⟩, rfl, hPhase⟩ :=
      hIdle.ended (Multiset.mem_filter.mp hd).1 (Multiset.mem_filter.mp hd).2
    obtain rfl : p = .doing [] := hPhase
    exact absurd hFails (by simp [Duty.fails])
  have hTerminal := (hDone.accounted.balanced.ended _ t ht hIdle).2
  split
  · next hTotal => exact hError.mpr hTotal
  -- of the states that are ends only one is left
  · next hTotal =>
    have hNoError : t.record.status ≠ .error := fun h => hTotal (hError.mp h)
    have hKept := hEnding.kept
    revert hTerminal hNoError hKept
    cases t.record.status <;> simp [TaskStatus.isTerminal]

end Machine

/-- The second of two actions fails, and with it the recursion. -/
example : anyFails Backend.empty 64
    (fun a m => if a.id = "a" then .returned m else .failed ("no action " ++ a.id))
    [{ id := "a", chained := [{ id := "b" }] }] (.ofEvent (.timer { jobId := "j" })) = true := rfl

end Taskyard
