import Taskyard.Proofs.Scheduler.References

/-!
# Scheduler — a task evaluates the tree of actions

Executed one after another, a tree of actions is a plain recursion: an action is run on a message,
and if it succeeds each chained action is run on every message that it makes of the output. The
scheduler does the same through queues, dispatchers and workers, in whatever order these happen to
take their steps. When the outcome of an action depends on nothing else, the logs of a task are
those of the recursion, and no more runnables are executed than the recursion has logs.

Times differ from run to run. They stand in outputs only, and everything here is compared without
them.

Main definitions and results:

* `evaluate`, `evaluateAll` — the recursion.
* `Foretells` — an oracle that tells the outcomes of all actions of a job.
* `Promised.turn` — what is logged and what duties still promise stay the same together.
* `Machine.logs_eq_evaluation` — a task that has come to rest has the logs of the recursion.
-/

namespace Taskyard

/-! ## Without times -/

/-- An output without its time. -/
def Output.untimed (o : Output) : Output := { o with time := 0 }

/-- A message without times. -/
def Message.untimed (m : Message) : Message := { m with outputs := m.outputs.map Output.untimed }

/-- A log without times. -/
def ActionLog.untimed (l : ActionLog) : ActionLog :=
  { l with input := l.input.untimed, output := l.output.untimed }

namespace Message

theorem lastOutput_untimed (m : Message) :
    m.untimed.lastOutput = m.lastOutput.map Output.untimed := by
  simp [untimed, lastOutput]

theorem untimed_logInput (m : Message) : m.logInput.untimed = m.untimed.logInput := rfl

theorem untimed_logOutput (m : Message) : m.logOutput.untimed = m.untimed.logOutput := by
  unfold logOutput
  rw [lastOutput_untimed]
  cases hLast : m.lastOutput <;> simp [untimed]

theorem untimed_withError (m : Message) (now : Int64) (error : String) :
    (m.withError now error).untimed = m.untimed.withError 0 error := by
  simp [withError, withOutput, untimed, Output.failed, Output.untimed]

/-- Whether an output tells of a failure does not depend on times. -/
theorem failureOf_untimed (m : Message) :
    Runnable.failureOf m.untimed = Runnable.failureOf m := by
  simp only [Runnable.failureOf, lastOutput_untimed]
  cases m.lastOutput with
  | none => rfl
  | some o => cases hSuccess : o.success <;> simp [Output.untimed, Option.filter, hSuccess]

/-- A test of sources does not look at times. -/
theorem acceptsSource_untimed (q : Query SourceTest) (m : Message) :
    q.acceptsSource m.untimed.source = q.acceptsSource m.source := by
  have hAccepts : ∀ t : SourceTest, t.accepts m.untimed.source = t.accepts m.source := by
    intro t
    -- a test looks at the newest output for its success and its text only
    have hLast : m.untimed.source.lastOutput = m.source.lastOutput.map Output.untimed :=
      lastOutput_untimed m
    have hEvent : ∀ key, m.untimed.source.metadata key = m.source.metadata key := fun _ => rfl
    have hSuccess : m.untimed.source.lastOutput.map (·.success) =
        m.source.lastOutput.map (·.success) := by
      rw [hLast, Option.map_map]
      rfl
    have hText : m.untimed.source.lastOutput.map (·.text) = m.source.lastOutput.map (·.text) := by
      rw [hLast, Option.map_map]
      rfl
    simp only [SourceTest.accepts, hEvent, hSuccess, hText]
  simp only [Query.acceptsSource, hAccepts]

end Message

namespace Action

/-- No filter looks at the time of an output. -/
theorem filterSource_untimed (q : Query SourceTest) (m : Message) :
    m.untimed.filterSource q = ((m.filterSource q).1.untimed, (m.filterSource q).2) := by
  unfold Message.filterSource
  rw [Message.acceptsSource_untimed]
  split <;> rfl

/-- Filters do not look at times. -/
theorem applyFilters_untimed (a : Action) (m : Message) :
    a.applyFilters m.untimed = (a.applyFilters m).map Message.untimed := by
  have hNodes : ∀ q, m.untimed.filterNodes q =
      ((m.filterNodes q).1.untimed, (m.filterNodes q).2) := fun _ => rfl
  have hUsers : ∀ (m : Message) q, m.untimed.filterUsers q =
      ((m.filterUsers q).1.untimed, (m.filterUsers q).2) := fun _ _ => rfl
  have hEmpty : ∀ m : Message, m.untimed.isEmpty = m.isEmpty := fun _ => rfl
  unfold applyFilters
  -- whatever the filters of nodes and users leave goes through the filter of sources
  cases a.sourceFilter with
  | none => cases a.nodesFilter <;> cases a.usersFilter <;> rfl
  | some q =>
    cases a.nodesFilter <;> cases a.usersFilter <;>
      simp only [hNodes, hUsers, filterSource_untimed, hEmpty] <;> split <;> rfl

/-- Spreading objects over messages, seen through a change of each message. -/
theorem map_spread {α : Type} (f : Message → Message) (collect : Bool) (objects : List α)
    (give : List α → Message) :
    (spread collect objects give).map f = spread collect objects (f ∘ give) := by
  unfold spread
  split
  · split <;> rfl
  · simp [Function.comp_def]

/-- The messages for the selected nodes do not depend on times. -/
theorem spreadNodes_untimed (a : Action) (b : Backend) (buffer : Nat) (m : Message) :
    a.spreadNodes b buffer m.untimed = (a.spreadNodes b buffer m).map (List.map Message.untimed) := by
  unfold spreadNodes
  cases a.nodesSelector with
  | none => rfl
  | some s =>
    cases hSelect : selectNodes b s with
    | error e => simp [Except.map, hSelect]
    | ok nodes =>
      simp only [Except.map, hSelect, map_spread]
      rfl

theorem spreadUsers_untimed (a : Action) (b : Backend) (buffer : Nat) (m : Message) :
    a.spreadUsers b buffer m.untimed = (a.spreadUsers b buffer m).map (List.map Message.untimed) := by
  unfold spreadUsers
  cases a.usersSelector with
  | none => rfl
  | some s =>
    cases hSelect : selectUsers b s with
    | error e => simp [Except.map, hSelect]
    | ok users =>
      simp only [Except.map, hSelect, map_spread]
      rfl

theorem mapM_untimed {f : Message → Except Fault (List Message)}
    (hf : ∀ m, f m.untimed = (f m).map (List.map Message.untimed)) (ms : List Message) :
    (ms.map Message.untimed).mapM f = (ms.mapM f).map (List.map (List.map Message.untimed)) := by
  induction ms with
  | nil => rfl
  | cons m rest ih =>
    simp only [List.map_cons, List.mapM_cons, ih, hf]
    cases f m with
    | error e => rfl
    | ok outs => cases rest.mapM f <;> rfl

/-- So an expansion is the same up to the times of the outputs. -/
theorem expand_untimed (a : Action) (b : Backend) (buffer : Nat) (m : Message) :
    a.expand b buffer m.untimed = (a.expand b buffer m).map (List.map Message.untimed) := by
  unfold expand
  rw [applyFilters_untimed]
  cases a.applyFilters m with
  | none => rfl
  | some m =>
    simp only [Option.map_some, spreadNodes_untimed]
    cases a.spreadNodes b buffer m with
    | error e => rfl
    | ok perNodes =>
      -- the users are selected for each message that was made for the nodes
      have hUsers := mapM_untimed (a.spreadUsers_untimed b buffer) perNodes
      simp only [Except.map, bind, Except.bind] at hUsers ⊢
      rw [hUsers]
      cases perNodes.mapM (a.spreadUsers b buffer) with
      | error e => rfl
      | ok perUsers =>
        simp only [pure, Except.pure, List.map_flatten]

end Action

/-! ## The recursion -/

/-- What comes of an action on a message. -/
inductive Outcome where
  /-- It failed before there was an output, for a reason. -/
  | failed (reason : String)
  /-- It returned an output, which may tell of a failure. -/
  | returned (output : Message)

/-- An outcome without times. -/
def Outcome.untimed : Outcome → Outcome
  | .failed reason => .failed reason
  | .returned output => .returned output.untimed

/-- The messages that an action is run on when it is given a message, and none if they cannot be
made. -/
def Action.inputs (a : Action) (b : Backend) (buffer : Nat) (m : Message) : List Message :=
  match a.expand b buffer m with
  | .ok inputs => inputs
  | .error _ => []

section Evaluation

variable (b : Backend) (buffer : Nat) (oracle : Action → Message → Outcome)

mutual

/-- The logs of an action that is run on a message, and of everything that follows from its output,
where an oracle tells the outcomes. -/
def evaluate : Action → Message → List ActionLog
  | ⟨id, label, parameters, nodesSelector, usersSelector, nodesFilter, usersFilter, sourceFilter,
      chained⟩, m =>
    let a : Action := ⟨id, label, parameters, nodesSelector, usersSelector, nodesFilter, usersFilter,
      sourceFilter, chained⟩
    match oracle a m with
    | .failed reason => [⟨a.withoutChain, m.logInput, m.logInput.withError 0 reason⟩]
    | .returned output =>
      ⟨a.withoutChain, m.logInput, output.logOutput⟩ ::
        match Runnable.failureOf output with
        | some _ => []
        | none => evaluateAll chained output

/-- The logs of actions, each run on every message that it makes of one message. -/
def evaluateAll : List Action → Message → List ActionLog
  | [], _ => []
  | a :: rest, m => (a.inputs b buffer m).flatMap (evaluate a) ++ evaluateAll rest m

end

/-- The recursion on an action: its own log, and below it those of the chained actions, unless
the handler or its output has failed. -/
theorem evaluate_eq (a : Action) (m : Message) :
    evaluate b buffer oracle a m =
      match oracle a m with
      | .failed reason => [⟨a.withoutChain, m.logInput, m.logInput.withError 0 reason⟩]
      | .returned output =>
        ⟨a.withoutChain, m.logInput, output.logOutput⟩ ::
          match Runnable.failureOf output with
          | some _ => []
          | none => evaluateAll b buffer oracle a.chained output := by
  cases a
  rw [evaluate]

/-- Every evaluation has a log. -/
theorem evaluate_ne_nil (a : Action) (m : Message) : 1 ≤ (evaluate b buffer oracle a m).length := by
  rw [evaluate_eq]
  split <;> simp

/-- The logs of several actions, action by action. -/
theorem evaluateAll_eq_flatMap (actions : List Action) (m : Message) :
    evaluateAll b buffer oracle actions m =
      actions.flatMap fun a => (a.inputs b buffer m).flatMap (evaluate b buffer oracle a) := by
  induction actions with
  | nil => rw [evaluateAll, List.flatMap_nil]
  | cons a rest ih => rw [evaluateAll, ih, List.flatMap_cons]

end Evaluation

theorem Action.inputs_untimed (a : Action) (b : Backend) (buffer : Nat) (m : Message) :
    a.inputs b buffer m.untimed = (a.inputs b buffer m).map Message.untimed := by
  unfold inputs
  rw [expand_untimed]
  cases a.expand b buffer m <;> rfl

/-! ## Oracles -/

/-- The actions of trees. -/
inductive Action.Within (roots : List Action) : Action → Prop
  | root {a : Action} (h : a ∈ roots) : Within roots a
  | chained {a c : Action} (h : Within roots a) (hc : c ∈ a.chained) : Within roots c

/-- The outcomes of a script of an action, whatever the time at its end and the answers to deletions
of tasks. -/
inductive Script.MayEnd (actionId : String) : Script → Outcome → Prop
  | finish (result : Int64 → Message) (now : Int64) :
      MayEnd actionId (.finish result) (.returned (result now))
  | refuse (fault : Fault) : MayEnd actionId (.refuse fault) (.failed fault.message)
  | crash (reason : String) :
      MayEnd actionId (.crash reason) (.failed ("action " ++ actionId ++ " panicked: " ++ reason))
  | report {progress : Decimal.Single} {next : Script} {o : Outcome} (h : MayEnd actionId next o) :
      MayEnd actionId (.report progress next) o
  | wait {millis : Nat} {next : Script} {o : Outcome} (h : MayEnd actionId next o) :
      MayEnd actionId (.wait millis next) o
  | prune {deletion : Deletion} {next : Except Fault (List String) → Script}
      (answer : Except Fault (List String)) {o : Outcome} (h : MayEnd actionId (next answer) o) :
      MayEnd actionId (.prune deletion next) o

/-- The outcomes that an action can have on a message, for a task of a job. -/
inductive Action.MayHave (u : Setup) (j : Job) (taskId : String) (a : Action) (m : Message) :
    Outcome → Prop
  | unknown {fault : Fault} (hCreate : u.registry.create a.id = .error fault) :
      MayHave u j taskId a m (.failed fault.message)
  | refused {h : Handler} {fault : Fault} (hCreate : u.registry.create a.id = .ok h)
      (hPrepare : h.prepare j a = .refused fault) :
      MayHave u j taskId a m (.failed ("init " ++ a.id ++ ": " ++ fault.message))
  | ran {h : Handler} {run : Context → Message → Script} {o : Outcome}
      (hCreate : u.registry.create a.id = .ok h) (hPrepare : h.prepare j a = .ready run)
      (hEnd : (run { job := j, taskId, site := u.site, allowance := u.allowance } m).MayEnd a.id o) :
      MayHave u j taskId a m o

/-- An oracle tells the outcomes of all actions of a job, times aside, and none of the actions
crashes before it runs. So what comes of an action depends on the action, the job and the message
only. -/
structure Foretells (u : Setup) (j : Job) (taskId : String)
    (oracle : Action → Message → Outcome) : Prop where
  tells  : ∀ a m o, a.Within j.actions → a.MayHave u j taskId m o → o.untimed = oracle a m.untimed
  stands : ∀ a h reason, a.Within j.actions → u.registry.create a.id = .ok h →
    h.prepare j a ≠ .crashed reason

/-! ## What deeds and duties promise -/

section Promises

variable (b : Backend) (buffer : Nat) (oracle : Action → Message → Outcome)

/-- The logs that a deed leads to in the end. -/
def Deed.promised : Deed → Multiset ActionLog
  | .mark (.appendLog l) => {l.untimed}
  | .queue a m => evaluate b buffer oracle a m.untimed
  | _ => 0

/-- The logs that deeds lead to in the end. -/
def Deed.allPromised (ds : List Deed) : Multiset ActionLog :=
  (ds.map (Deed.promised b buffer oracle)).sum

/-- The logs that a duty leads to in the end. -/
def Duty.promised : Duty → Multiset ActionLog
  | .waiting r => evaluate b buffer oracle r.action r.input.untimed
  | .running ⟨_, .doing ds⟩ => Deed.allPromised b buffer oracle ds
  | .running ⟨r, _⟩ => evaluate b buffer oracle r.action r.input.untimed
  | .errand _ ds => Deed.allPromised b buffer oracle ds

end Promises

/-- Whether a deed writes a log. -/
def Deed.isLog : Deed → Bool
  | .mark (.appendLog _) => true
  | _ => false

/-- The executions of a duty that have begun and have not yet written their log. -/
def Duty.unlogged : Duty → Nat
  | .waiting _ => 0
  | .running ⟨_, .doing ds⟩ => ds.countP Deed.isLog
  | .running _ => 1
  | .errand _ ds => ds.countP Deed.isLog

/-- Whether a deed queues actions of trees only. -/
def Deed.Foreseen (roots : List Action) : Deed → Prop
  | .queue a _ => a.Within roots
  | _ => True

/-- Whether a script ends as an oracle tells. -/
def Script.EndsAs (oracle : Action → Message → Outcome) (r : Runnable) (s : Script) : Prop :=
  ∀ o, s.MayEnd r.action.id o → o.untimed = oracle r.action r.input.untimed

/-- Whether an execution goes as an oracle tells. -/
def Phase.Foreseen (roots : List Action) (oracle : Action → Message → Outcome) (r : Runnable) :
    Phase → Prop
  | .fresh => True
  | .running s | .asleep _ s => s.EndsAs oracle r
  | .crashed _ => False
  | .doing ds => ∀ d ∈ ds, d.Foreseen roots

/-- Whether a duty goes as an oracle tells, with actions of trees only. -/
def Duty.Foreseen (roots : List Action) (oracle : Action → Message → Outcome) : Duty → Prop
  | .waiting r => r.action.Within roots
  | .running e => e.runnable.action.Within roots ∧ e.phase.Foreseen roots oracle e.runnable
  | .errand _ ds => ∀ d ∈ ds, d.Foreseen roots

section Promises

variable {b : Backend} {buffer : Nat} {oracle : Action → Message → Outcome} {roots : List Action}

namespace Deed

@[simp]
theorem allPromised_cons (d : Deed) (ds : List Deed) :
    allPromised b buffer oracle (d :: ds) =
      d.promised b buffer oracle + allPromised b buffer oracle ds := rfl

/-- What deeds promise adds up. -/
@[simp]
theorem allPromised_append (ds ds' : List Deed) :
    allPromised b buffer oracle (ds ++ ds') =
      allPromised b buffer oracle ds + allPromised b buffer oracle ds' := by
  simp [allPromised]

/-- Deeds that neither log nor queue lead to no logs. -/
theorem allPromised_eq_zero {ds : List Deed} (h : ∀ d ∈ ds, d.promised b buffer oracle = 0) :
    allPromised b buffer oracle ds = 0 := by
  induction ds with
  | nil => rfl
  | cons d rest ih =>
    rw [allPromised_cons, h d (by simp), ih fun d' hd' => h d' (by simp [hd']), add_zero]

/-- Runnables that are queued one after another lead to the logs of their evaluations. -/
theorem allPromised_queue (inputs : List (Action × Message)) :
    allPromised b buffer oracle (inputs.map fun (a, m) => .queue a m) =
      (inputs.flatMap fun (a, m) => evaluate b buffer oracle a m.untimed : List ActionLog) := by
  induction inputs with
  | nil => rfl
  | cons x rest ih =>
    rw [List.map_cons, allPromised_cons, ih, List.flatMap_cons, ← Multiset.coe_add]
    rfl

end Deed

open Deed

namespace Runnable

/-- The deeds for a chained action lead to the logs of its evaluations. -/
theorem promised_childDeeds (c : Action) (output : Message) :
    allPromised b buffer oracle (childDeeds c (c.expand b buffer output)) =
      ((c.inputs b buffer output.untimed).flatMap (evaluate b buffer oracle c) :
        List ActionLog) := by
  rw [Action.inputs_untimed, Action.inputs]
  cases c.expand b buffer output with
  | error e => rfl
  | ok inputs =>
    -- each input is retained and then queued, and only the queueing promises anything
    induction inputs with
    | nil => rfl
    | cons m rest ih =>
      simp only [childDeeds, List.flatMap_cons, List.cons_append, List.nil_append,
        allPromised_cons, List.map_cons, ← Multiset.coe_add] at ih ⊢
      rw [ih]
      exact zero_add _

/-- What a run leaves to do promises the logs of the chained actions on its output. -/
theorem promised_descend (r : Runnable) (output : Message) :
    allPromised b buffer oracle (r.descend b buffer output) =
      (evaluateAll b buffer oracle r.action.chained output.untimed : List ActionLog) := by
  rw [evaluateAll_eq_flatMap, descend]
  induction r.action.chained with
  | nil => rfl
  | cons c rest ih =>
    rw [List.flatMap_cons, allPromised_append, ih, promised_childDeeds, List.flatMap_cons,
      Multiset.coe_add]

theorem untimed_logOf (r : Runnable) (output : Message) :
    (r.logOf output).untimed =
      ⟨r.action.withoutChain, r.input.untimed.logInput, output.untimed⟩ := rfl

/-- What is done after a failure leads to the logs that the oracle tells. -/
theorem promised_afterFault (r : Runnable) (now : Int64) (reason : String)
    (hOracle : oracle r.action r.input.untimed = .failed reason) :
    allPromised b buffer oracle (r.afterFault now reason) =
      (evaluate b buffer oracle r.action r.input.untimed : List ActionLog) := by
  rw [evaluate_eq, hOracle]
  simp only [afterFault, recordFailure, List.cons_append, List.nil_append, allPromised_cons,
    Deed.promised, untimed_logOf, Message.untimed_withError, Message.untimed_logInput]
  rfl

/-- What is done after an output leads to the logs that the oracle tells. -/
theorem promised_afterOutput (r : Runnable) (output : Message)
    (hOracle : oracle r.action r.input.untimed = .returned output.untimed) :
    allPromised b buffer oracle (r.afterOutput b buffer output) =
      (evaluate b buffer oracle r.action r.input.untimed : List ActionLog) := by
  rw [evaluate_eq, hOracle]
  simp only [afterOutput, allPromised_cons, Deed.promised, untimed_logOf,
    Message.untimed_logOutput, Message.failureOf_untimed]
  cases failureOf output with
  | some reason => rfl
  | none =>
    have hTail : allPromised b buffer oracle [.mark .flush, .mark .release] = 0 := rfl
    simp only [allPromised_append, promised_descend, hTail, add_zero, Multiset.singleton_add,
      Multiset.cons_coe]

end Runnable

/-- The deeds with which a task starts lead to the logs of the evaluation of all root actions. -/
theorem promised_rootDeeds (root : Message) (actions : List Action) :
    allPromised b buffer oracle (rootDeeds b buffer root actions) =
      (evaluateAll b buffer oracle actions root.untimed : List ActionLog) := by
  -- the inputs of the root actions are the messages of the recursion
  have hInputs : ((rootInputs b buffer root actions).flatMap fun (a, m) =>
      evaluate b buffer oracle a m.untimed) = evaluateAll b buffer oracle actions root.untimed := by
    rw [evaluateAll_eq_flatMap, rootInputs, List.flatMap_assoc]
    refine List.flatMap_congr fun a _ => ?_
    rw [Action.inputs_untimed, Action.inputs]
    cases a.expand b buffer root with
    | error e => rfl
    | ok inputs => simp only [List.flatMap_map]
  -- what failed before it could run was never promised
  have hFailures : allPromised b buffer oracle
      ((rootFailures b buffer root actions).map fun reason => .mark (.fail reason)) = 0 :=
    allPromised_eq_zero fun d hd => by
      obtain ⟨reason, -, rfl⟩ := List.mem_map.mp hd
      rfl
  rw [rootDeeds, allPromised_append, hFailures, zero_add, ← hInputs]
  -- either there is nothing to run, or all inputs are retained before the first is queued
  cases hSome : rootInputs b buffer root actions with
  | nil =>
    simp only [List.isEmpty_nil, if_true, List.flatMap_nil]
    split <;> rfl
  | cons x rest =>
    have hRetains : allPromised b buffer oracle ((x :: rest).map fun _ => .mark .retain) = 0 :=
      allPromised_eq_zero fun d hd => by
        obtain ⟨y, -, rfl⟩ := List.mem_map.mp hd
        rfl
    rw [List.isEmpty_cons, if_neg Bool.false_ne_true, allPromised_append, hRetains, zero_add,
      allPromised_cons, allPromised_queue]
    exact zero_add _

/-! ## Deeds that are foreseen -/

/-- What is done for chained actions queues these only, and logs nothing. -/
theorem Runnable.foreseen_descend {r : Runnable} (hWithin : r.action.Within roots) (b : Backend)
    (buffer : Nat) (output : Message) :
    ∀ d ∈ r.descend b buffer output, d.Foreseen roots ∧ d.isLog = false := by
  intro d hd
  obtain ⟨c, hc, hd⟩ := List.mem_flatMap.mp hd
  cases hExpand : c.expand b buffer output with
  | error e =>
    -- no input could be made: the failure of the child is recorded instead
    rw [hExpand, childDeeds, List.mem_singleton] at hd
    rw [hd]
    exact ⟨trivial, rfl⟩
  | ok inputs =>
    rw [hExpand, childDeeds] at hd
    obtain ⟨m, -, hd⟩ := List.mem_flatMap.mp hd
    rcases List.mem_cons.mp hd with rfl | hd
    · exact ⟨trivial, rfl⟩
    · rw [List.mem_singleton.mp hd]
      exact ⟨hWithin.chained hc, rfl⟩

/-- What is done after a failure logs once. -/
theorem Runnable.foreseen_afterFault (roots : List Action) (r : Runnable) (now : Int64)
    (reason : String) :
    (∀ d ∈ r.afterFault now reason, d.Foreseen roots) ∧
      (r.afterFault now reason).countP Deed.isLog = 1 := by
  refine ⟨fun d hd => ?_, rfl⟩
  simp only [afterFault, recordFailure, List.cons_append, List.nil_append, List.mem_cons,
    List.not_mem_nil, or_false] at hd
  rcases hd with rfl | rfl | rfl <;> trivial

/-- What is done after an output queues chained actions only, and logs once. -/
theorem Runnable.foreseen_afterOutput {r : Runnable} (hWithin : r.action.Within roots)
    (b : Backend) (buffer : Nat) (output : Message) :
    (∀ d ∈ r.afterOutput b buffer output, d.Foreseen roots) ∧
      (r.afterOutput b buffer output).countP Deed.isLog = 1 := by
  unfold afterOutput
  split
  · refine ⟨fun d hd => ?_, rfl⟩
    simp only [List.mem_cons, List.not_mem_nil, or_false] at hd
    rcases hd with rfl | rfl | rfl <;> trivial
  -- the own log comes first, and the chained actions write theirs later
  · have hDescend := foreseen_descend hWithin b buffer output
    have hNone : (r.descend b buffer output).countP Deed.isLog = 0 :=
      List.countP_eq_zero.mpr fun d hd => by simp [(hDescend d hd).2]
    refine ⟨fun d hd => ?_, ?_⟩
    · simp only [List.mem_cons, List.mem_append, List.not_mem_nil, or_false] at hd
      rcases hd with rfl | hd | rfl | rfl
      · trivial
      · exact (hDescend d hd).1
      · trivial
      · trivial
    · rw [List.countP_cons_of_pos rfl, List.countP_append, hNone]
      rfl

/-- A task starts with root actions only, and logs nothing by itself. -/
theorem foreseen_rootDeeds (b : Backend) (buffer : Nat) (root : Message) (actions : List Action) :
    (∀ d ∈ rootDeeds b buffer root actions, d.Foreseen actions) ∧
      (rootDeeds b buffer root actions).countP Deed.isLog = 0 := by
  have hBoth : ∀ d ∈ rootDeeds b buffer root actions, d.Foreseen actions ∧ d.isLog = false := by
    intro d hd
    simp only [rootDeeds, List.mem_append, List.mem_map] at hd
    -- the failures come first, then the end of a task without inputs or its runnables
    rcases hd with ⟨reason, -, rfl⟩ | hd
    · exact ⟨trivial, rfl⟩
    · split at hd
      · split at hd
        · rw [List.mem_singleton.mp hd]
          exact ⟨trivial, rfl⟩
        · exact absurd hd (by simp)
      · simp only [List.mem_append, List.mem_map, List.mem_cons] at hd
        rcases hd with ⟨x, -, rfl⟩ | rfl | ⟨⟨a, m⟩, hMem, rfl⟩
        · exact ⟨trivial, rfl⟩
        · exact ⟨trivial, rfl⟩
        · obtain ⟨a', ha', hMem⟩ := List.mem_flatMap.mp hMem
          split at hMem
          · obtain ⟨m', -, hEq⟩ := List.mem_map.mp hMem
            obtain ⟨rfl, rfl⟩ := Prod.mk.inj hEq
            exact ⟨.root ha', rfl⟩
          · exact absurd hMem (by simp)
  exact ⟨fun d hd => (hBoth d hd).1,
    List.countP_eq_zero.mpr fun d hd => by simp [(hBoth d hd).2]⟩

/-! ## Every turn keeps the promise -/

/-- A task that keeps the promise of a recursion: what it has logged and what its duties lead to are
the logs of the recursion, and every execution that has begun has logged or will. -/
structure Promised (b : Backend) (buffer : Nat) (oracle : Action → Message → Outcome)
    (roots : List Action) (total : List ActionLog) (begun : Nat) (t : Task) (ds : Multiset Duty) :
    Prop where
  foreseen : ∀ d ∈ ds, d.Foreseen roots oracle
  logs     : ((t.logs.map ActionLog.untimed : List ActionLog) : Multiset ActionLog) +
    (ds.map (Duty.promised b buffer oracle)).sum = total
  begun    : begun = t.logs.length + (ds.map Duty.unlogged).sum

/-- What an execution that is not at its deeds promises is the evaluation of its runnable, and its
log is still to be written. -/
theorem promised_running (b : Backend) (buffer : Nat) (oracle : Action → Message → Outcome)
    (r : Runnable) {p : Phase} (h : ∀ ds, p ≠ .doing ds) :
    Duty.promised b buffer oracle (.running ⟨r, p⟩) =
        evaluate b buffer oracle r.action r.input.untimed ∧
      Duty.unlogged (.running ⟨r, p⟩) = 1 := by
  cases p with
  | doing ds => exact absurd rfl (h ds)
  | _ => exact ⟨rfl, rfl⟩

/-- An execution that is at its deeds does not go on by itself. -/
theorem Phase.Next.ne_doing {u : Setup} {j : Job} {taskId : String} {r : Runnable} {p p' : Phase}
    {s : Option TaskStep} (h : Phase.Next u j taskId r p s p') (ds : List Deed) :
    p ≠ .doing ds := by
  cases h <;> exact nofun

/-- An execution that goes on by itself fails for the reason that the oracle tells, comes to the
output that the oracle tells, or is still on its way there. Only on its way it changes the record:
the task runs, or has come so far. -/
theorem next_foretold {u : Setup} {j : Job} {taskId : String} {r : Runnable} {p p' : Phase}
    {s : Option TaskStep} (hOracle : Foretells u j taskId oracle)
    (h : Phase.Next u j taskId r p s p')
    (hForeseen : Duty.Foreseen j.actions oracle (.running ⟨r, p⟩)) :
    (s = none ∧ ∃ now reason, p' = .doing (r.afterFault now reason) ∧
      oracle r.action r.input.untimed = .failed reason) ∨
    (s = none ∧ ∃ output, p' = .doing (r.afterOutput u.site.backend u.selectionBuffer output) ∧
      oracle r.action r.input.untimed = .returned output.untimed) ∨
    ((∀ ds, p' ≠ .doing ds) ∧ p'.Foreseen j.actions oracle r ∧
      ∀ x, s = some x → x = .setRunning ∨ ∃ progress, x = .setProgress progress) := by
  obtain ⟨hWithin, hPhase⟩ := hForeseen
  have hTells : ∀ o, Action.MayHave u j taskId r.action r.input o →
      o.untimed = oracle r.action r.input.untimed :=
    fun o ho => hOracle.tells _ _ o hWithin ho
  -- in every way to fail, the reason is the one that the oracle tells for this outcome
  cases h with
  | unknown now hCreate => exact Or.inl ⟨rfl, now, _, rfl, (hTells _ (.unknown hCreate)).symm⟩
  | refused now hCreate hPrepare =>
    exact Or.inl ⟨rfl, now, _, rfl, (hTells _ (.refused hCreate hPrepare)).symm⟩
  | refuse fault now => exact Or.inl ⟨rfl, now, _, rfl, (hPhase _ (.refuse fault)).symm⟩
  | crash reason now => exact Or.inl ⟨rfl, now, _, rfl, (hPhase _ (.crash reason)).symm⟩
  | finish result now =>
    exact Or.inr (Or.inl ⟨rfl, _, rfl, (hPhase _ (.finish result now)).symm⟩)
  -- nothing that is foretold crashes before it runs
  | crashed hCreate hPrepare => exact absurd hPrepare (hOracle.stands _ _ _ hWithin hCreate)
  | notice reason => exact absurd hPhase id
  -- the script may end as the action may, and stays so while it is run
  | ready hCreate hPrepare =>
    refine Or.inr (Or.inr ⟨by simp, fun o ho => hTells o (.ran hCreate hPrepare ho), fun x hx => ?_⟩)
    exact Or.inl (Option.some.inj hx).symm
  | report progress next =>
    refine Or.inr (Or.inr ⟨by simp, fun o ho => hPhase o (.report ho), fun x hx => ?_⟩)
    exact Or.inr ⟨progress, (Option.some.inj hx).symm⟩
  | wait millis next => exact Or.inr (Or.inr ⟨by simp, fun o ho => hPhase o (.wait ho), by simp⟩)
  | sleep millis due next => exact Or.inr (Or.inr ⟨by simp, fun o ho => hPhase o (.wait ho), by simp⟩)
  | wake due next => exact Or.inr (Or.inr ⟨by simp, hPhase, by simp⟩)
  | prune deletion next answer =>
    exact Or.inr (Or.inr ⟨by simp, fun o ho => hPhase o (.prune answer ho), by simp⟩)

/-- An execution that goes on by itself goes on as the oracle tells. -/
theorem next_promised {u : Setup} {j : Job} {taskId : String} {r : Runnable} {p p' : Phase}
    {s : Option TaskStep} (hOracle : Foretells u j taskId oracle)
    (h : Phase.Next u j taskId r p s p')
    (hForeseen : Duty.Foreseen j.actions oracle (.running ⟨r, p⟩)) :
    Duty.Foreseen j.actions oracle (.running ⟨r, p'⟩) ∧
      Duty.promised u.site.backend u.selectionBuffer oracle (.running ⟨r, p'⟩) =
        Duty.promised u.site.backend u.selectionBuffer oracle (.running ⟨r, p⟩) ∧
      Duty.unlogged (.running ⟨r, p'⟩) = Duty.unlogged (.running ⟨r, p⟩) ∧
      ∀ x, s = some x → ∀ l, x ≠ .appendLog l := by
  have hWithin : r.action.Within j.actions := hForeseen.1
  obtain ⟨hPromised, hOwed⟩ :=
    promised_running u.site.backend u.selectionBuffer oracle r h.ne_doing
  rw [hPromised, hOwed]
  rcases next_foretold hOracle h hForeseen with ⟨rfl, now, reason, rfl, hTold⟩ |
    ⟨rfl, output, rfl, hTold⟩ | ⟨hGoing, hPhase, hStep⟩
  -- the verdict is a failure, a result, or still to come
  · obtain ⟨hDeeds, hOnce⟩ := r.foreseen_afterFault j.actions now reason
    exact ⟨⟨hWithin, hDeeds⟩, r.promised_afterFault now reason hTold, hOnce, by simp⟩
  · obtain ⟨hDeeds, hOnce⟩ := Runnable.foreseen_afterOutput hWithin u.site.backend
      u.selectionBuffer output
    exact ⟨⟨hWithin, hDeeds⟩, r.promised_afterOutput output hTold, hOnce, by simp⟩
  · obtain ⟨hStill, hOwes⟩ := promised_running u.site.backend u.selectionBuffer oracle r hGoing
    refine ⟨⟨hWithin, hPhase⟩, hStill, hOwes, fun x hx l => ?_⟩
    rcases hStep x hx with rfl | ⟨progress, rfl⟩ <;> simp [TaskStep.setRunning]

/-- The log that a step of a task writes. -/
def TaskStep.log? : TaskStep → List ActionLog
  | .appendLog l => [l]
  | _ => []

/-- A step of a task writes its log, if it has one, and leaves the identifier. -/
theorem logs_apply (now : Int64) (s : TaskStep) (t : Task) :
    (s.apply now t).logs = t.logs ++ s.log? ∧ (s.apply now t).id = t.id := by
  -- a transition changes neither, whether or not it is allowed
  have hTransition : ∀ (t : Task) status remark, (t.transition now status remark).logs = t.logs ∧
      (t.transition now status remark).id = t.id := by
    intro t status remark
    rcases t.transition_cases now status remark with ⟨-, hSame⟩ | ⟨-, _, _, _, hNew⟩
    · rw [hSame]
      exact ⟨rfl, rfl⟩
    · rw [hNew]
      exact ⟨rfl, rfl⟩
  cases s with
  | appendLog l => exact ⟨rfl, rfl⟩
  | setStatus status remark =>
    simp only [TaskStep.apply, TaskStep.log?, List.append_nil]
    exact hTransition t status remark
  | release =>
    simp only [TaskStep.apply, TaskStep.log?, List.append_nil, Task.release, Task.conclude]
    split
    · split
      · exact hTransition _ _ _
      · exact hTransition _ _ _
    · exact ⟨rfl, rfl⟩
  | _ => exact ⟨(List.append_nil _).symm, rfl⟩

/-- The deed that changes the record leads to the log that the change writes. -/
theorem promised_mark (s : TaskStep) :
    (Deed.mark s).promised b buffer oracle = (s.log?.map ActionLog.untimed : List ActionLog) := by
  cases s <;> rfl

/-- A mark is still to be logged if it carries a log. -/
theorem countP_mark (s : TaskStep) (rest : List Deed) :
    (.mark s :: rest : List Deed).countP Deed.isLog = s.log?.length + rest.countP Deed.isLog := by
  cases s <;> simp [List.countP_cons, Deed.isLog, TaskStep.log?, add_comm]

namespace Duty

/-- What a duty of deeds promises, has to log and queues is what its deeds do. -/
theorem of_deeds (b : Backend) (buffer : Nat) (roots : List Action) {d : Duty} {ds : List Deed}
    (h : d.deeds = some ds) :
    d.promised b buffer oracle = allPromised b buffer oracle ds ∧
      d.unlogged = ds.countP Deed.isLog ∧
      (d.Foreseen roots oracle → ∀ x ∈ ds, x.Foreseen roots) := by
  cases d with
  | waiting r => exact absurd h (by simp [Duty.deeds])
  | running e =>
    obtain ⟨r, p⟩ := e
    cases p with
    | doing ds' =>
      obtain rfl : ds' = ds := Option.some.inj h
      exact ⟨rfl, rfl, fun hForeseen => hForeseen.2⟩
    | _ => exact absurd h (by simp [Duty.deeds])
  | errand i ds' =>
    obtain rfl : ds' = ds := Option.some.inj h
    exact ⟨rfl, rfl, id⟩

/-- What is promised by a duty is promised by its deeds. -/
theorem of_ofDeeds (b : Backend) (buffer : Nat) (oracle : Action → Message → Outcome)
    (roots : List Action) (i : Nat) (ds : List Deed) :
    ((ofDeeds i ds).map (Duty.promised b buffer oracle)).sum = allPromised b buffer oracle ds ∧
      ((ofDeeds i ds).map Duty.unlogged).sum = ds.countP Deed.isLog ∧
      ((∀ x ∈ ds, x.Foreseen roots) → ∀ d ∈ ofDeeds i ds, d.Foreseen roots oracle) := by
  cases ds with
  | nil => exact ⟨rfl, rfl, fun _ d hd => absurd hd (Multiset.notMem_zero d)⟩
  | cons x rest =>
    refine ⟨by simp [ofDeeds, Duty.promised], by simp [ofDeeds, Duty.unlogged], ?_⟩
    intro hForeseen d hd
    rw [Multiset.mem_singleton.mp hd]
    exact hForeseen

/-- The same for what is left of a duty. -/
theorem of_resume (b : Backend) (buffer : Nat) (roots : List Action) {d : Duty} {ds : List Deed}
    (h : d.deeds = some ds) (rest : List Deed) :
    ((d.resume rest).map (Duty.promised b buffer oracle)).sum = allPromised b buffer oracle rest ∧
      ((d.resume rest).map Duty.unlogged).sum = rest.countP Deed.isLog ∧
      (d.Foreseen roots oracle → (∀ x ∈ rest, x.Foreseen roots) →
        ∀ d' ∈ d.resume rest, d'.Foreseen roots oracle) := by
  cases d with
  | waiting r => exact absurd h (by simp [Duty.deeds])
  | running e =>
    refine ⟨by simp [resume, Duty.promised], by simp [resume, Duty.unlogged], ?_⟩
    intro hDuty hForeseen d' hd'
    rw [Multiset.mem_singleton.mp hd']
    exact ⟨hDuty.1, hForeseen⟩
  | errand i ds' =>
    obtain ⟨hPromised, hUnlogged, hForeseen⟩ := of_ofDeeds b buffer oracle roots i rest
    exact ⟨hPromised, hUnlogged, fun _ => hForeseen⟩

end Duty

/-- One duty is replaced by others: the promise is kept if these lead to the logs that the duty led
to, apart from those that were written meanwhile. -/
theorem Promised.replaced {total : List ActionLog} {begun begun' : Nat} {t t' : Task} {d : Duty}
    {new old : Multiset Duty} (h : Promised b buffer oracle roots total begun t (d ::ₘ old))
    (hNew : ∀ d' ∈ new, d'.Foreseen roots oracle)
    (hLogs : ((t'.logs.map ActionLog.untimed : List ActionLog) : Multiset ActionLog) +
        (new.map (Duty.promised b buffer oracle)).sum =
      ((t.logs.map ActionLog.untimed : List ActionLog) : Multiset ActionLog) +
        d.promised b buffer oracle)
    (hBegun : begun' + (t.logs.length + d.unlogged) =
      begun + (t'.logs.length + (new.map Duty.unlogged).sum)) :
    Promised b buffer oracle roots total begun' t' (new + old) where
  foreseen d' hd' := by
    rcases Multiset.mem_add.mp hd' with hd' | hd'
    · exact hNew d' hd'
    · exact h.foreseen d' (Multiset.mem_cons_of_mem hd')
  logs := by
    -- only the share of the one duty is exchanged; that of the others stands
    have hTotal := h.logs
    rw [Multiset.map_cons, Multiset.sum_cons, ← add_assoc, ← hLogs, add_assoc] at hTotal
    rw [Multiset.map_add, Multiset.sum_add]
    exact hTotal
  begun := by
    have hCount := h.begun
    rw [Multiset.map_cons, Multiset.sum_cons] at hCount
    rw [Multiset.map_add, Multiset.sum_add]
    omega

/-- **Every turn keeps the promise**, as long as the job is loaded and the main queue is open. -/
theorem Promised.turn {u : Setup} {m : Machine} {live : LiveTask} {d : Duty}
    {begins : Option Runnable} {record : Task} {new old : Multiset Duty} {total : List ActionLog}
    {begun : Nat}
    (h : Promised u.site.backend u.selectionBuffer oracle live.job.actions total begun live.record
      (d ::ₘ old))
    (hTurn : Machine.Turn u m live d begins record new)
    (hOracle : Foretells u live.job live.record.id oracle)
    (hLoaded : (m.jobs.get? live.job.id).isSome = true) (hOpen : m.floor.accepting = true) :
    Promised u.site.backend u.selectionBuffer oracle live.job.actions total
      (begun + begins.toList.length) record (new + old) := by
  have hHead := h.foreseen d (Multiset.mem_cons_self d old)
  cases hTurn with
  | pick r =>
    -- what was only waiting has begun, and owes one more log
    refine h.replaced (fun d' hd' => ?_) ?_ ?_
    · rw [Multiset.mem_singleton.mp hd']
      exact ⟨hHead, trivial⟩
    · rw [Multiset.map_singleton, Multiset.sum_singleton]
      rfl
    · rw [Multiset.map_singleton, Multiset.sum_singleton]
      simp only [Option.toList_some, List.length_singleton, Duty.unlogged]
      omega
  | away r hJob =>
    rw [hJob] at hLoaded
    exact absurd hLoaded (by simp)
  | @advance e now s p hNext =>
    obtain ⟨hNew, hPromise, hOnce, hSilent⟩ := next_promised hOracle hNext hHead
    -- the execution itself writes no log, that is left to the deeds after it
    have hSame : (s.elim live.record (·.apply now live.record)).logs = live.record.logs := by
      cases s with
      | none => rfl
      | some x =>
        rw [Option.elim_some, (logs_apply now x live.record).1]
        cases x with
        | appendLog l => exact absurd rfl (hSilent _ rfl l)
        | _ => exact List.append_nil _
    refine h.replaced (fun d' hd' => ?_) ?_ ?_
    · rw [Multiset.mem_singleton.mp hd']
      exact hNew
    · rw [Multiset.map_singleton, Multiset.sum_singleton, hSame, hPromise]
    · rw [Multiset.map_singleton, Multiset.sum_singleton, hSame, hOnce]
      rfl
  | ended e hOver =>
    obtain ⟨r, p⟩ := e
    obtain rfl : p = .doing [] := hOver
    exact h.replaced (fun d' hd' => absurd hd' (Multiset.notMem_zero d')) rfl rfl
  | @mark d now s rest hDeeds =>
    obtain ⟨hPromised, hUnlogged, hDeed⟩ :=
      Duty.of_deeds u.site.backend u.selectionBuffer live.job.actions hDeeds
    obtain ⟨hLeft, hOwes, hNew⟩ :=
      Duty.of_resume u.site.backend u.selectionBuffer live.job.actions hDeeds rest
    -- a log that is written moves from what is promised to the record
    refine h.replaced (hNew hHead fun x hx => hDeed hHead x (by simp [hx])) ?_ ?_
    · rw [hLeft, (logs_apply now s live.record).1, List.map_append, ← Multiset.coe_add, hPromised,
        allPromised_cons, promised_mark, add_assoc]
    · rw [hOwes, (logs_apply now s live.record).1, List.length_append, hUnlogged, countP_mark,
        Option.toList_none, List.length_nil]
      omega
  | @queue d a input rest hDeeds =>
    obtain ⟨hPromised, hUnlogged, hDeed⟩ :=
      Duty.of_deeds u.site.backend u.selectionBuffer live.job.actions hDeeds
    obtain ⟨hLeft, hOwes, hNew⟩ :=
      Duty.of_resume u.site.backend u.selectionBuffer live.job.actions hDeeds rest
    -- a runnable that is queued leads to the logs that its queueing led to
    refine h.replaced (fun d' hd' => ?_) ?_ ?_
    · rcases Multiset.mem_cons.mp hd' with rfl | hd'
      · exact hDeed hHead (.queue a input) (by simp)
      · exact hNew hHead (fun x hx => hDeed hHead x (by simp [hx])) d' hd'
    · rw [Multiset.map_cons, Multiset.sum_cons, hLeft, hPromised, allPromised_cons]
      rfl
    · rw [Multiset.map_cons, Multiset.sum_cons, hOwes, hUnlogged,
        List.countP_cons_of_neg (by simp [Deed.isLog])]
      simp only [Duty.unlogged, Option.toList_none, List.length_nil]
      omega
  | refuse d hDeeds hClosed =>
    rw [hClosed] at hOpen
    exact absurd hOpen (by simp)

end Promises

/-! ## A run after the start of a task -/

namespace Machine

/-- Steps of a scheduler that stays in operation: the router goes on, and a job is loaded. -/
def Serves (jobId : String) (m : Machine) (s : MachineStep) : Prop :=
  s ≠ .endRouter ∧ (m.jobs.get? jobId).isSome = true

/-- The number of runnables of a task whose execution begins in a run. -/
def begunIn (u : Setup) (i : Nat) (m : Machine) : List MachineStep → Nat
  | [] => 0
  | s :: ss => ((m.begins s).toList.countP fun r => r.task = i) +
      match m.step u s with
      | some m' => begunIn u i m' ss
      | none => 0

/-- A scheduler in operation, with a task of a job that keeps the promise of the recursion. -/
structure Following (u : Setup) (j : Job) (i : Nat) (oracle : Action → Message → Outcome)
    (total : List ActionLog) (begun : Nat) (m : Machine) : Prop where
  accounted : m.Accounted
  accepting : m.floor.accepting = true
  task      : ∃ t, m.floor.tasks[i]? = some t ∧ t.job = j ∧ t.record.id = u.taskId i ∧
    Promised u.site.backend u.selectionBuffer oracle j.actions total begun t.record (m.dutiesOf i)

/-- Only the end of the router closes the main queue. -/
theorem Move.accepting_eq {u : Setup} {m m' : Machine} {s : MachineStep} (h : Move u m s m')
    (hs : s ≠ .endRouter) : m'.floor.accepting = m.floor.accepting := by
  cases h with
  | pass _ _ hOpen => exact hOpen.resolve_left hs
  | turn _ hOpen => exact hOpen
  | birth _ hOpen => exact hOpen

/-- No task is lost. -/
theorem Move.exists_task {u : Setup} {m m' : Machine} {s : MachineStep} (h : Move u m s m')
    {i : Nat} (hi : i < m.floor.tasks.length) : ∃ t, m'.floor.tasks[i]? = some t := by
  refine ⟨_, List.getElem?_eq_getElem ?_⟩
  cases h with
  | pass _ _ _ hTasks =>
    rw [hTasks]
    exact hi
  | turn _ _ _ _ hTasks =>
    obtain ⟨outlet, hTasks⟩ := hTasks
    rw [hTasks, List.length_set]
    exact hi
  | birth _ _ _ hTasks =>
    rw [hTasks, List.length_append]
    omega

/-- The record of a task keeps its identifier in a turn. -/
theorem Turn.id_eq {u : Setup} {m : Machine} {t : LiveTask} {d : Duty} {begun : Option Runnable}
    {record : Task} {new : Multiset Duty} (h : Turn u m t d begun record new) :
    record.id = t.record.id := by
  cases h with
  | mark d now => exact (logs_apply now _ _).2
  | @advance e now s p =>
    cases s with
    | none => rfl
    | some x => exact (logs_apply now x _).2
  | _ => rfl

/-- A runnable that begins in a turn is one of the task of the duty. -/
theorem Turn.countP_begun {u : Setup} {m : Machine} {t : LiveTask} {d : Duty}
    {begun : Option Runnable} {record : Task} {new : Multiset Duty}
    (h : Turn u m t d begun record new) :
    (begun.toList.countP fun r => r.task = d.task) = begun.toList.length := by
  cases h with
  | pick r => simp [Duty.task]
  | _ => rfl

/-- **Every step of a scheduler in operation** keeps the promise of the recursion. -/
theorem Following.step {u : Setup} {j : Job} {i : Nat} {oracle : Action → Message → Outcome}
    {total : List ActionLog} {begun : Nat} {m m' : Machine} {s : MachineStep}
    (h : Following u j i oracle total begun m) (hOracle : Foretells u j (u.taskId i) oracle)
    (hServes : Serves j.id m s) (hStep : m.step u s = some m') :
    Following u j i oracle total
      (begun + (m.begins s).toList.countP fun r => r.task = i) m' := by
  obtain ⟨hRouter, hLoaded⟩ := hServes
  obtain ⟨t, ht, rfl, hId, hPromised⟩ := h.task
  have hSpares : SparesQueue m s := fun hEnd => absurd hEnd hRouter
  have hMove := step_move h.accounted.sound hSpares hStep
  refine ⟨h.accounted.step hSpares hStep, (hMove.accepting_eq hRouter).trans h.accepting, ?_⟩
  -- the task is still there, and the step is one of its turns or leaves it
  have hLt : i < m.floor.tasks.length := (List.getElem?_eq_some_iff.mp ht).1
  obtain ⟨t', ht'⟩ := hMove.exists_task hLt
  refine ⟨t', ht', ?_⟩
  cases hMove.atTask h.accounted.sound ht' with
  | idle ht₀ hJob hRecord hDuties hBegins =>
    obtain rfl := Option.some.inj (ht.symm.trans ht₀)
    -- a step elsewhere begins no runnable of the task
    have hNone : ((m.begins s).toList.countP fun r => r.task = i) = 0 :=
      List.countP_eq_zero.mpr fun r hr => by
        simpa using hBegins r (Option.mem_toList.mp hr)
    rw [hRecord, hDuties, hNone]
    exact ⟨hJob, hId, hPromised⟩
  | turn ht₀ hJob hTask hDuties hTurn hDuties' =>
    obtain rfl := Option.some.inj (ht.symm.trans ht₀)
    rw [hDuties] at hPromised
    have hNext := hPromised.turn hTurn (hId ▸ hOracle) hLoaded h.accepting
    rw [← hTask, hTurn.countP_begun, hTask, hDuties']
    exact ⟨hJob, hTurn.id_eq.trans hId, hNext⟩
  -- a new task has a number that no task had before
  | birth hNew => exact absurd hNew (Nat.ne_of_lt hLt)

/-- The step that starts a task gives the promise of the recursion. -/
theorem following_of_starts {u : Setup} {j : Job} {e : Event}
    {oracle : Action → Message → Outcome} {m m' : Machine} {s : MachineStep} (h : m.Accounted)
    (hOpen : m.floor.accepting = true) (hStarts : m.starts s = some (j, e))
    (hRouter : s ≠ .endRouter) (hStep : m.step u s = some m') :
    Following u j m.floor.tasks.length oracle
      (evaluateAll u.site.backend u.selectionBuffer oracle j.actions (.ofEvent e)) 0 m' := by
  have hSpares : SparesQueue m s := fun hEnd => absurd hEnd hRouter
  have hMove := step_move h.sound hSpares hStep
  refine ⟨h.step hSpares hStep, (hMove.accepting_eq hRouter).trans hOpen, ?_⟩
  -- all that the task has are the deeds of its start, which nothing has logged yet
  obtain ⟨t, ht, hJob, hRecord, hDuties⟩ := hMove.started h.sound hStarts
  obtain ⟨hForeseen, hSilent⟩ := foreseen_rootDeeds u.site.backend u.selectionBuffer
    (.ofEvent e) j.actions
  obtain ⟨hLeft, hOwes, hNew⟩ := Duty.of_ofDeeds u.site.backend u.selectionBuffer
    oracle j.actions m.floor.tasks.length
    (rootDeeds u.site.backend u.selectionBuffer (.ofEvent e) j.actions)
  refine ⟨t, ht, hJob, ?_⟩
  rw [hRecord, hDuties]
  refine ⟨rfl, hNew hForeseen, ?_, ?_⟩
  · rw [hLeft, promised_rootDeeds]
    exact zero_add _
  · rw [hOwes, hSilent]
    rfl

/-- What a run of a scheduler in operation begins, and what it leaves of the promise. -/
theorem Following.course {u : Setup} {j : Job} {i : Nat} {oracle : Action → Message → Outcome}
    {total : List ActionLog} {begun : Nat} {m m' : Machine} {ss : List MachineStep}
    (h : Following u j i oracle total begun m) (hOracle : Foretells u j (u.taskId i) oracle)
    (hRun : Course u (Serves j.id) m ss m') :
    Following u j i oracle total (begun + begunIn u i m ss) m' := by
  induction hRun generalizing begun with
  | rest => exact h
  | step hServes hStep hRest ih =>
    have hNext := ih (h.step hOracle hServes hStep)
    rw [begunIn, hStep, ← Nat.add_assoc]
    exact hNext

end Machine

/-! ## What a kept promise comes to -/

/-- What a duty has still to log, it promises. -/
theorem unlogged_le (b : Backend) (buffer : Nat) (oracle : Action → Message → Outcome) (d : Duty) :
    d.unlogged ≤ (d.promised b buffer oracle).card := by
  -- among deeds only logs are counted, and each promises itself
  have hDeeds : ∀ ds : List Deed,
      ds.countP Deed.isLog ≤ (Deed.allPromised b buffer oracle ds).card := by
    intro ds
    induction ds with
    | nil => exact Nat.le_refl 0
    | cons x rest ih =>
      rw [Deed.allPromised_cons, Multiset.card_add, List.countP_cons]
      split
      · next hLog =>
        have hOne : (x.promised b buffer oracle).card = 1 := by
          unfold Deed.isLog at hLog
          split at hLog
          · rfl
          · exact absurd hLog (by simp)
        omega
      · omega
  cases d with
  | waiting r => exact Nat.zero_le _
  | errand i ds => exact hDeeds ds
  | running e =>
    obtain ⟨r, p⟩ := e
    cases p with
    | doing ds => exact hDeeds ds
    -- before its end, an execution promises its own log at least
    | _ => exact evaluate_ne_nil b buffer oracle r.action r.input.untimed

/-- There are no more logs to come than are promised. -/
theorem sum_unlogged_le (b : Backend) (buffer : Nat) (oracle : Action → Message → Outcome)
    (ds : Multiset Duty) :
    (ds.map Duty.unlogged).sum ≤ (ds.map (Duty.promised b buffer oracle)).sum.card := by
  induction ds using Multiset.induction_on with
  | empty => exact Nat.le_refl 0
  | cons d ds ih =>
    have hHead := unlogged_le b buffer oracle d
    rw [Multiset.map_cons, Multiset.sum_cons, Multiset.map_cons, Multiset.sum_cons,
      Multiset.card_add]
    omega

namespace Promised

variable {b : Backend} {buffer : Nat} {oracle : Action → Message → Outcome} {roots : List Action}
  {total : List ActionLog} {begun : Nat} {t : Task} {ds : Multiset Duty}

/-- No more executions have begun than there are logs in the recursion. -/
theorem begun_le (h : Promised b buffer oracle roots total begun t ds) : begun ≤ total.length := by
  have hDuties := sum_unlogged_le b buffer oracle ds
  have hTotal := congrArg Multiset.card h.logs
  rw [Multiset.card_add, Multiset.coe_card, Multiset.coe_card, List.length_map] at hTotal
  have hBegun := h.begun
  omega

/-- When only executions that are over are left, everything that was promised has been logged. -/
theorem kept (h : Promised b buffer oracle roots total begun t ds)
    (hOver : ∀ d ∈ ds, ∃ e, d = .running e ∧ e.phase = .doing []) :
    (t.logs.map ActionLog.untimed).Perm total ∧ begun = total.length := by
  -- an execution that is over neither promises nor owes a log
  have hNothing : ∀ d ∈ ds, d.promised b buffer oracle = 0 ∧ d.unlogged = 0 := by
    intro d hd
    obtain ⟨⟨r, p⟩, rfl, hPhase⟩ := hOver d hd
    obtain rfl : p = .doing [] := hPhase
    exact ⟨rfl, rfl⟩
  have hPromised : (ds.map (Duty.promised b buffer oracle)).sum = 0 :=
    Multiset.sum_eq_zero fun x hx => by
      obtain ⟨d, hd, rfl⟩ := Multiset.mem_map.mp hx
      exact (hNothing d hd).1
  have hUnlogged : (ds.map Duty.unlogged).sum = 0 :=
    Multiset.sum_eq_zero fun x hx => by
      obtain ⟨d, hd, rfl⟩ := Multiset.mem_map.mp hx
      exact (hNothing d hd).2
  have hLogs := h.logs
  rw [hPromised, add_zero] at hLogs
  have hPerm := Multiset.coe_eq_coe.mp hLogs
  refine ⟨hPerm, ?_⟩
  rw [h.begun, hUnlogged, Nat.add_zero, ← hPerm.length_eq, List.length_map]

end Promised

namespace Machine

/-- As long as the router goes on, the books of all tasks are kept and the main queue is open. -/
theorem accounted_of_course {u : Setup} {now : Int64} {catalog : Catalog} {capacity : Nat}
    {m₀ m : Machine} {ss : List MachineStep} (hStart : start u now catalog capacity = .ok m₀)
    (hRun : Course u (fun _ s => s ≠ .endRouter) m₀ ss m) :
    m.Accounted ∧ m.floor.accepting = true := by
  refine hRun.invariant (P := fun m => m.Accounted ∧ m.floor.accepting = true)
    (fun m m' s h hRouter hStep => ?_) ⟨accounted_of_start hStart, (duties_of_start hStart).2.2.2⟩
  have hSpares : SparesQueue m s := fun hEnd => absurd hEnd hRouter
  exact ⟨h.1.step hSpares hStep,
    ((step_move h.1.sound hSpares hStep).accepting_eq hRouter).trans h.2⟩

/-- **A task evaluates the tree of actions of its job.** Let `launch` start a task at any time, for
any event, and let the scheduler go on in any order of its steps, while the router goes on and the
job is loaded, in whatever definition. If the outcome of an action depends on the action, the job
and the message only, no more executions begin than the recursion has logs; and when nothing of the
task is left, it has no pending actions, as many executions have begun, and its `action_logs` are
those of the recursion, times aside. -/
theorem logs_eq_evaluation {u : Setup} {now : Int64} {catalog : Catalog} {capacity : Nat}
    {m₀ m₁ m₂ m₃ : Machine} {before after : List MachineStep} {s : MachineStep} {j : Job} {e : Event}
    {oracle : Action → Message → Outcome} (hStart : start u now catalog capacity = .ok m₀)
    (hBefore : Course u (fun _ s => s ≠ .endRouter) m₀ before m₁)
    (hStarts : m₁.starts s = some (j, e)) (hStep : m₁.step u s = some m₂)
    (hAfter : Course u (Serves j.id) m₂ after m₃)
    (hOracle : Foretells u j (u.taskId m₁.floor.tasks.length) oracle) :
    begunIn u m₁.floor.tasks.length m₂ after ≤
      (evaluateAll u.site.backend u.selectionBuffer oracle j.actions (.ofEvent e)).length ∧
    ∃ t, m₃.floor.tasks[m₁.floor.tasks.length]? = some t ∧ (m₃.Idle m₁.floor.tasks.length →
      t.record.pending = 0 ∧
      begunIn u m₁.floor.tasks.length m₂ after =
        (evaluateAll u.site.backend u.selectionBuffer oracle j.actions (.ofEvent e)).length ∧
      (t.record.logs.map ActionLog.untimed).Perm
        (evaluateAll u.site.backend u.selectionBuffer oracle j.actions (.ofEvent e))) := by
  -- before the start only the books matter, and that the main queue stays open
  obtain ⟨hAccounted, hOpen⟩ := accounted_of_course hStart hBefore
  have hRouter : s ≠ .endRouter := by
    rintro rfl
    exact absurd hStarts (by simp [starts])
  have hFollowing := (following_of_starts hAccounted hOpen hStarts hRouter hStep).course hOracle hAfter
  rw [Nat.zero_add] at hFollowing
  -- at rest only executions that are over are left, so nothing is promised any more
  obtain ⟨t, ht, -, -, hPromised⟩ := hFollowing.task
  refine ⟨hPromised.begun_le, t, ht, fun hIdle => ?_⟩
  have hEnded := hFollowing.accounted.balanced.ended _ t ht hIdle
  obtain ⟨hLogs, hBegun⟩ := hPromised.kept fun d hd =>
    hIdle.ended (Multiset.mem_filter.mp hd).1 (Multiset.mem_filter.mp hd).2
  exact ⟨hEnded.1, hBegun, hLogs⟩

/-! ## One run -/

/-- A handler that returns what it is given. -/
def echo : Handler where
  name := "echo"
  prepare _ _ := .ready fun _ m => .finish fun now => m.withOutput (.succeeded now)

/-- A scheduler with one handler. -/
def echoSetup : Setup := { bareSetup with registry := Registry.register {} "a" echo }

/-- A job with an action that succeeds, and a chained action without a handler. -/
def chainJob : Job where
  id := "j"
  maxConcurrency := 1
  actions := [{ id := "a", chained := [{ id := "b" }] }]

/-- What comes of the actions: those with a handler return what they are given. -/
def echoOracle (a : Action) (m : Message) : Outcome :=
  match echoSetup.registry.create a.id with
  | .error fault => .failed fault.message
  | .ok _ => .returned (m.withOutput (.succeeded 0))

/-- The only handler is the one that returns what it is given. -/
theorem eq_echo {id : String} {h : Handler} (hCreate : echoSetup.registry.create id = .ok h) :
    h = echo := by
  have hGet : echoSetup.registry.handlers.get? id = if "a" = id then some echo else none :=
    Dict.get?_insert ..
  unfold Registry.create at hCreate
  rw [hGet] at hCreate
  split at hCreate
  · next h' hSome =>
    obtain rfl := Except.ok.inj hCreate
    split at hSome
    · exact (Option.some.inj hSome).symm
    · exact absurd hSome (by simp)
  · exact absurd hCreate (by simp)

/-- The oracle tells what comes of the actions of any job. -/
theorem foretells_echoOracle (j : Job) (taskId : String) :
    Foretells echoSetup j taskId echoOracle where
  tells a m o _ ho := by
    cases ho with
    | unknown hCreate => simp only [echoOracle, hCreate, Outcome.untimed]
    | refused hCreate hPrepare =>
      rw [eq_echo hCreate] at hPrepare
      exact absurd hPrepare (by simp [echo])
    | @ran h run o hCreate hPrepare hEnd =>
      -- there is one handler, and its run is a single `finish`
      have hRun : run = fun _ m => .finish fun now => m.withOutput (.succeeded now) := by
        rw [eq_echo hCreate] at hPrepare
        exact (Start.ready.inj hPrepare).symm
      rw [hRun] at hEnd
      cases hEnd with
      | finish _ now =>
        simp [echoOracle, hCreate, Outcome.untimed, Message.untimed, Message.withOutput,
          Output.succeeded, Output.untimed]
  stands a h reason _ hCreate := by
    rw [eq_echo hCreate]
    simp [echo]

/-- A run of a started task of that job to its end. -/
def chainSteps : List MachineStep :=
  [.call 0, .call 0, .call 0, .call 0, .route, .dispatch 0 (.offer 0), .dispatch 0 .take,
   .dispatch 0 .hand, .dispatch 0 (.pick 0), .work 0 0, .work 0 0, .work 0 0, .work 0 0, .work 0 0,
   .work 0 0, .work 0 0, .work 0 0, .route, .dispatch 0 (.offer 0), .dispatch 0 .take,
   .dispatch 0 .hand, .dispatch 0 (.pick 0), .work 0 0, .work 0 0, .work 0 0, .work 0 0, .work 0 0]

/-- That run executes both actions and logs both, the second of them as a failure. -/
theorem logs_eq_evaluation_chainSteps :
    ∃ m₀ m₁ m₂ m₃, start echoSetup 0 {} 8 = .ok m₀ ∧
      m₀.run echoSetup (fun _ => keepsRouter)
        [.publish (.job { updated := some chainJob }), .listen .jobs] = some m₁ ∧
      m₁.step echoSetup (.launch chainJob (.timer { jobId := "j" })) = some m₂ ∧
      m₂.run echoSetup (fun m s => keepsRouter s && (m.jobs.get? "j").isSome) chainSteps = some m₃ ∧
      m₃.Idle 0 ∧ begunIn echoSetup 0 m₂ chainSteps = 2 ∧
      ∃ t, m₃.floor.tasks[0]? = some t ∧ t.record.pending = 0 ∧
        (t.record.logs.map ActionLog.untimed).Perm (evaluateAll Backend.empty 64 echoOracle
          chainJob.actions (.ofEvent (.timer { jobId := "j" }))) := by
  -- the run is computed, and looked at through the counts of what is left of the task
  obtain ⟨m₀, m₁, m₂, hStart, hBefore, hStep, hTasks, hAfter⟩ :
      ∃ m₀ m₁ m₂, start echoSetup 0 {} 8 = .ok m₀ ∧
        m₀.run echoSetup (fun _ => keepsRouter)
          [.publish (.job { updated := some chainJob }), .listen .jobs] = some m₁ ∧
        m₁.step echoSetup (.launch chainJob (.timer { jobId := "j" })) = some m₂ ∧
        m₁.floor.tasks.length = 0 ∧
        (m₂.run echoSetup (fun m s => keepsRouter s && (m.jobs.get? "j").isSome) chainSteps).map
          (fun m => (m.queuedOf 0, m.dispatchedOf 0, m.handsOf 0, m.errands.length)) =
            some (0, 0, 0, 0) := ⟨_, _, _, rfl, rfl, rfl, rfl, rfl⟩
  obtain ⟨m₃, hRun, hNothing⟩ := Option.map_eq_some_iff.mp hAfter
  simp only [Prod.mk.injEq] at hNothing
  obtain ⟨hQueued, hDispatched, hHands, hErrands⟩ := hNothing
  have hIdle : m₃.Idle 0 := ⟨hQueued, hDispatched, hHands, fun e he => by
    rw [List.length_eq_zero_iff.mp hErrands] at he
    exact absurd he (by simp)⟩
  have hServes : ∀ (m : Machine) s, (keepsRouter s && (m.jobs.get? "j").isSome) = true →
      Serves "j" m s := fun m s hBoth =>
    ⟨ne_endRouter (Bool.and_eq_true_iff.mp hBoth).1, (Bool.and_eq_true_iff.mp hBoth).2⟩
  have hMain := logs_eq_evaluation hStart
    (Course.of_run (fun _ _ hKeeps => ne_endRouter hKeeps) hBefore) rfl hStep
    (Course.of_run hServes hRun) (foretells_echoOracle chainJob _)
  rw [hTasks] at hMain
  obtain ⟨-, t, ht, hEnd⟩ := hMain
  obtain ⟨hPending, hBegun, hLogs⟩ := hEnd hIdle
  exact ⟨m₀, m₁, m₂, m₃, hStart, hBefore, hStep, hRun, hIdle, hBegun, t, ht, hPending, hLogs⟩

end Machine

end Taskyard
