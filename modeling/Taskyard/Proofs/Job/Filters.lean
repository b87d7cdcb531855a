import Mathlib.Data.List.Perm.Basic
import Taskyard.Job.Action

/-!
# Jobs — the laws of filters

The filters of an action are applied one after another, and each of them looks at the message that
the one before has left. Yet none of them sees what the others change: a filter of nodes only looks
at nodes, one of users at users, and one of sources at the event and the newest output, which all
filters leave alone. So a message can be filtered in any order, and filtering it once is enough.

Main definitions and results:

* `FilterStage`, `Action.runFilters` — filters in an order of one's own.
* `Action.runFilters_perm` — the order does not matter.
* `Action.FilterLaws` — what can be said of the filters of an action; `Action.filterLaws` for every
  action and every message.
-/

namespace Taskyard

/-! ## Sources -/

/-- What a query says of a source depends on the metadata of the request and on the newest output,
and on nothing else of the event. -/
theorem Query.acceptsSource_congr {s s' : Source}
    (hMetadata : ∀ key, s.metadata key = s'.metadata key)
    (hOutput : s.lastOutput = s'.lastOutput) (q : Query SourceTest) :
    q.acceptsSource s = q.acceptsSource s' := by
  have hTests : (fun t : SourceTest => t.accepts s) = fun t => t.accepts s' := by
    funext t
    simp only [SourceTest.accepts, hMetadata, hOutput]
  rw [acceptsSource, acceptsSource, hTests]

/-! ## One filter -/

namespace Message

variable (m : Message)

/-- Filtering nodes twice is filtering them once. -/
theorem filterNodes_twice (q : Query NodeTest) :
    ((m.filterNodes q).1.filterNodes q).1 = (m.filterNodes q).1 := by
  simp only [filterNodes, List.filter_filter, Bool.and_self]

/-- Filtering users twice is filtering them once. -/
theorem filterUsers_twice (q : Query UserTest) :
    ((m.filterUsers q).1.filterUsers q).1 = (m.filterUsers q).1 := by
  simp only [filterUsers, List.filter_filter, Bool.and_self]

/-- Filtering by source twice is filtering once. -/
theorem filterSource_twice (q : Query SourceTest) :
    ((m.filterSource q).1.filterSource q).1 = (m.filterSource q).1 := by
  by_cases hAccepted : q.acceptsSource m.source = true
  · have hOnce : m.filterSource q = (m, true) := if_pos hAccepted
    rw [hOnce]
    exact congrArg Prod.fst hOnce
  · have hOnce : m.filterSource q = ({ m with nodes := [], users := [] }, false) :=
      if_neg hAccepted
    rw [hOnce]
    -- a message that has lost its nodes and users still has its source
    exact congrArg Prod.fst (if_neg hAccepted)

theorem source_setNodes (nodes : List Node) : { m with nodes : Message }.source = m.source := rfl

theorem source_setUsers (users : List User) : { m with users : Message }.source = m.source := rfl

end Message

/-! ## Filters one after another -/

/-- One of the filters of an action. -/
inductive FilterStage where
  /-- The filter of nodes. -/
  | nodes
  /-- The filter of users. -/
  | users
  /-- The filter of sources. -/
  | source
  deriving DecidableEq, Repr

namespace Action

variable (a : Action)

/-- What one of the filters leaves of a message, or nothing when the message is rejected and nothing
is left of it. A filter that is not set leaves the message as it is. -/
def runFilter (m : Message) : FilterStage → Option Message
  | .nodes => some (a.nodesFilter.elim m fun q => (m.filterNodes q).1)
  | .users => some (a.usersFilter.elim m fun q => (m.filterUsers q).1)
  | .source => a.sourceFilter.elim (some m) fun q =>
    if !(m.filterSource q).2 && (m.filterSource q).1.isEmpty then none
    else some (m.filterSource q).1

/-- What filters that are applied in an order leave of a message. -/
def runFilters (order : List FilterStage) (m : Message) : Option Message :=
  order.foldl (fun left stage => left.bind fun m => a.runFilter m stage) (some m)

/-- Whether the filter of sources lets a source through. -/
def letsThrough (s : Source) : Bool := a.sourceFilter.all (·.acceptsSource s)

variable {a} {m : Message}

theorem runFilter_nodes :
    a.runFilter m .nodes = some { m with nodes := a.pruneNodes m.nodes } := by
  rw [runFilter, pruneNodes]
  cases a.nodesFilter <;> rfl

theorem runFilter_users :
    a.runFilter m .users = some { m with users := a.pruneUsers m.users } := by
  rw [runFilter, pruneUsers]
  cases a.usersFilter <;> rfl

/-- A message that is rejected has nothing left, so a rejection is never passed over. -/
theorem runFilter_source :
    a.runFilter m .source = if a.letsThrough m.source then some m else none := by
  rw [runFilter, letsThrough]
  cases a.sourceFilter with
  | none => rfl
  | some q =>
    rw [Option.elim_some, Option.all_some, Message.filterSource]
    cases q.acceptsSource m.source <;> rfl

/-- Two filters can change places. -/
theorem runFilter_comm (m : Message) (s s' : FilterStage) :
    ((a.runFilter m s).bind fun m => a.runFilter m s') =
      (a.runFilter m s').bind fun m => a.runFilter m s := by
  -- what one filter changes, no other looks at
  have hNodesUsers : ((a.runFilter m .nodes).bind fun m => a.runFilter m .users) =
      (a.runFilter m .users).bind fun m => a.runFilter m .nodes := by
    simp only [runFilter_nodes, runFilter_users, Option.bind_some]
  have hNodesSource : ((a.runFilter m .nodes).bind fun m => a.runFilter m .source) =
      (a.runFilter m .source).bind fun m => a.runFilter m .nodes := by
    simp only [runFilter_nodes, runFilter_source, Option.bind_some, Message.source_setNodes]
    by_cases hThrough : a.letsThrough m.source = true <;> simp [hThrough]
  have hUsersSource : ((a.runFilter m .users).bind fun m => a.runFilter m .source) =
      (a.runFilter m .source).bind fun m => a.runFilter m .users := by
    simp only [runFilter_users, runFilter_source, Option.bind_some, Message.source_setUsers]
    by_cases hThrough : a.letsThrough m.source = true <;> simp [hThrough]
  match s, s' with
  | .nodes, .nodes | .users, .users | .source, .source => rfl
  | .nodes, .users => exact hNodesUsers
  | .users, .nodes => exact hNodesUsers.symm
  | .nodes, .source => exact hNodesSource
  | .source, .nodes => exact hNodesSource.symm
  | .users, .source => exact hUsersSource
  | .source, .users => exact hUsersSource.symm

/-- **The order of filters does not matter.** -/
theorem runFilters_perm {order order' : List FilterStage} (h : order.Perm order') (m : Message) :
    a.runFilters order m = a.runFilters order' m := by
  refine h.foldl_eq' (fun s _ s' _ left => ?_) (some m)
  cases left with
  | none => rfl
  | some m => exact runFilter_comm m s s'

/-- The filters are applied to the nodes, then to the users, then to the source. -/
theorem runFilters_eq_applyFilters :
    a.runFilters [.nodes, .users, .source] m = a.applyFilters m := by
  simp only [runFilters, runFilter, applyFilters, List.foldl_cons, List.foldl_nil,
    Option.bind_some]
  cases a.nodesFilter <;> cases a.usersFilter <;> cases a.sourceFilter <;> rfl

/-- The three filters in closed form: the source decides, nodes and users are thinned out. -/
theorem applyFilters_eq :
    a.applyFilters m = if a.letsThrough m.source then
      some { m with nodes := a.pruneNodes m.nodes, users := a.pruneUsers m.users } else none := by
  rw [← runFilters_eq_applyFilters]
  simp only [runFilters, runFilter_nodes, runFilter_users, runFilter_source, List.foldl_cons,
    List.foldl_nil, Option.bind_some]
  rfl

/-- The nodes kept are those the filter accepts, in their order. -/
theorem pruneNodes_eq (nodes : List Node) :
    a.pruneNodes nodes = nodes.filter fun n => a.nodesFilter.all (·.acceptsNode n) := by
  rw [pruneNodes]
  cases a.nodesFilter with
  | none => exact (List.filter_true nodes).symm
  | some q => rfl

/-- The users kept are those the filter accepts, in their order. -/
theorem pruneUsers_eq (users : List User) :
    a.pruneUsers users = users.filter fun u => a.usersFilter.all (·.acceptsUser u) := by
  rw [pruneUsers]
  cases a.usersFilter with
  | none => exact (List.filter_true users).symm
  | some q => rfl

theorem pruneNodes_twice (nodes : List Node) :
    a.pruneNodes (a.pruneNodes nodes) = a.pruneNodes nodes := by
  simp only [pruneNodes_eq, List.filter_filter, Bool.and_self]

theorem pruneUsers_twice (users : List User) :
    a.pruneUsers (a.pruneUsers users) = a.pruneUsers users := by
  simp only [pruneUsers_eq, List.filter_filter, Bool.and_self]

/-! ## The laws -/

variable (a m) in
/-- What can be said of the filters of an action on a message. A filter that is not set accepts
everything. -/
structure FilterLaws : Prop where
  /-- Nothing is left exactly if the filter of sources rejects where the message comes from. -/
  skipped : a.applyFilters m = none ↔ ∃ q, a.sourceFilter = some q ∧
    q.acceptsSource { event := m.event, lastOutput := m.lastOutput } = false
  /-- This is up to the metadata of the event and the newest output alone. -/
  decided : ∀ m' : Message, (∀ key, m'.source.metadata key = m.source.metadata key) →
    m'.lastOutput = m.lastOutput → (a.applyFilters m' = none ↔ a.applyFilters m = none)
  /-- Otherwise the message keeps the nodes and users that the filters accept, in their order, and
  all the rest. -/
  kept    : ∀ left, a.applyFilters m = some left → left.event = m.event ∧
    left.outputs = m.outputs ∧
    left.nodes = m.nodes.filter (fun n => a.nodesFilter.all (·.acceptsNode n)) ∧
    left.users = m.users.filter fun u => a.usersFilter.all (·.acceptsUser u)
  /-- What is left is left by the filters once more. -/
  again   : ∀ left, a.applyFilters m = some left → a.applyFilters left = some left
  /-- Each filter alone leaves the same when it is applied twice. -/
  nodes   : ∀ q, ((m.filterNodes q).1.filterNodes q).1 = (m.filterNodes q).1
  users   : ∀ q, ((m.filterUsers q).1.filterUsers q).1 = (m.filterUsers q).1
  source  : ∀ q, ((m.filterSource q).1.filterSource q).1 = (m.filterSource q).1
  /-- The order in which they are applied does not matter. -/
  order   : ∀ order : List FilterStage, order.Perm [.nodes, .users, .source] →
    a.runFilters order m = a.applyFilters m

/-- An action is skipped exactly if its source filter does not let the message through. -/
theorem applyFilters_eq_none_iff : a.applyFilters m = none ↔ a.letsThrough m.source = false := by
  rw [applyFilters_eq]
  cases a.letsThrough m.source <;> simp

/-- What the filters let through, read off their result. -/
theorem eq_of_applyFilters {left : Message} (h : a.applyFilters m = some left) :
    a.letsThrough m.source = true ∧
      left = { m with nodes := a.pruneNodes m.nodes, users := a.pruneUsers m.users } := by
  rw [applyFilters_eq] at h
  split at h
  · next hThrough => exact ⟨hThrough, (Option.some.inj h).symm⟩
  · exact absurd h (by simp)

variable (a m) in
/-- **The laws of filters** hold of `apply_filters` for every action, whichever of its filters are
set, and for every message. -/
theorem filterLaws : FilterLaws a m where
  skipped := by
    rw [applyFilters_eq_none_iff, letsThrough]
    cases a.sourceFilter with
    | none => simp
    | some q => simp [Message.source]
  decided m' hMetadata hOutput := by
    have hSame : a.letsThrough m'.source = a.letsThrough m.source := by
      rw [letsThrough, letsThrough]
      cases a.sourceFilter with
      | none => rfl
      | some q => exact q.acceptsSource_congr hMetadata hOutput
    rw [applyFilters_eq_none_iff, applyFilters_eq_none_iff, hSame]
  kept left h := by
    obtain ⟨-, rfl⟩ := eq_of_applyFilters h
    exact ⟨rfl, rfl, pruneNodes_eq m.nodes, pruneUsers_eq m.users⟩
  again left h := by
    obtain ⟨hThrough, rfl⟩ := eq_of_applyFilters h
    -- what is left has the source that was let through before
    have hStill : a.letsThrough (Message.source
        { m with nodes := a.pruneNodes m.nodes, users := a.pruneUsers m.users }) = true := hThrough
    rw [applyFilters_eq, if_pos hStill]
    simp only [pruneNodes_twice, pruneUsers_twice]
  nodes := m.filterNodes_twice
  users := m.filterUsers_twice
  source := m.filterSource_twice
  order order hPerm := (runFilters_perm hPerm m).trans runFilters_eq_applyFilters

end Action

end Taskyard
