import Taskyard.Job.Action
import Taskyard.Proofs.Catalog.Readable

/-!
# Jobs — the messages that an action is run on

Filters, selectors for nodes and users, literal names and queries, single and collected objects, and
channels of any capacity all have a part in what an action is run on. Together they come to a plain
comprehension: each share of the selected nodes with each share of the selected users.

Main definitions and results:

* `Selector.named`, `Action.nodesOf`, `Action.usersOf` — what selectors select, said at once.
* `StandsFor` — what literal names stand for.
* `Action.comprehension` — the messages of all shares of nodes with all shares of users.
* `Action.expand_eq` — the expansion is the comprehension, unless a selector that is reached says
  nothing.
* `Passage` — what travels through a bounded channel, however its ends take turns.
* `Action.expand_expanded` — all that can be said of an expansion.
-/

namespace Taskyard

/-! ## What a selector names -/

namespace Selector

variable {α β : Type}

/-- Whether a selector says nothing of what it selects. -/
def isBlank (s : Selector α) : Bool := s.literals.isEmpty && (!s.all && s.query.isEmpty)

/-- What a selector names: the objects of its literal names in their order, as often as they are
named, or without names everything that is listed. -/
def named (s : Selector α) (resolve : String → β) (listed : List β) : List β :=
  if s.literals = [] then listed else s.literals.map resolve

/-- A selector selects what it names, as far as its query accepts it, or fails if it is blank. -/
theorem items_eq (s : Selector α) (accepts : Query α → β → Bool) (resolve : String → β)
    (listed : List β) (fault : Fault) :
    s.items accepts resolve listed fault =
      if s.isBlank then .error fault
      else .ok ((s.named resolve listed).filter (accepts s.query)) := by
  unfold items isBlank named
  cases hLiterals : s.literals with
  | nil => simp
  | cons name names => simp

end Selector

/-- The values of a dictionary in which each stands under its own key: they come in the order of
their keys, and they are what look-ups find. -/
theorem Dict.values_keyed {α : Type} {d : Dict α} {key : α → String}
    (h : ∀ e ∈ d.entries, e.1 = key e.2) :
    (d.values.Pairwise fun v w => key v < key w) ∧
      ∀ v, v ∈ d.values ↔ d.get? (key v) = some v := by
  constructor
  · rw [values, List.pairwise_map]
    refine d.sorted.imp_of_mem fun {e e'} he he' hLess => ?_
    rw [← h e he, ← h e' he']
    exact hLess
  · intro v
    refine ⟨fun hMem => ?_, fun hGet => (mem_values_iff d v).mpr ⟨_, hGet⟩⟩
    obtain ⟨e, he, rfl⟩ := List.mem_map.mp hMem
    rw [← h e he]
    exact lookup_of_mem d.sorted he

/-- Names stand for the objects that are stored under them, and where nothing is stored, for objects
of which only the name is known. -/
def StandsFor {β : Type} (resolve : String → β) (stored : List β) (key : β → String)
    (bare : String → β) : Prop :=
  ∀ name, (∀ o ∈ stored, key o = name → resolve name = o) ∧
    ((∀ o ∈ stored, key o ≠ name) → resolve name = bare name)

/-- A look-up in such a dictionary finds what is stored under a name. -/
theorem Dict.standsFor_get? {α : Type} {d : Dict α} {key : α → String}
    (h : ∀ e ∈ d.entries, e.1 = key e.2) (bare : String → α) :
    StandsFor (fun name => (d.get? name).getD (bare name)) d.values key bare := by
  intro name
  constructor
  · rintro v hStored rfl
    show (d.get? (key v)).getD _ = v
    rw [((values_keyed h).2 v).mp hStored, Option.getD_some]
  · intro hNone
    show (d.get? name).getD _ = _
    cases hGet : d.get? name with
    | none => rfl
    | some v =>
      -- what is found under the name would be stored under it
      exact absurd (h (name, v) (mem_of_lookup hGet)).symm
        (hNone v ((mem_values_iff d v).mpr ⟨name, hGet⟩))

/-- Everything there is stands at or below the root. -/
theorem Tree.list_root (t : Tree) : t.list "/" = t.nodes.values :=
  List.filter_eq_self.mpr fun _ _ => rfl

/-- In the directory of the users of a list each user stands under its login. -/
theorem Directory.keyed_ofList (us : List User) :
    ∀ e ∈ (ofList us).users.entries, e.1 = e.2.login := by
  suffices h : ∀ d : Directory, (∀ e ∈ d.users.entries, e.1 = e.2.login) →
      ∀ e ∈ (us.foldl insert d).users.entries, e.1 = e.2.login from
    h empty fun e he => by cases he
  induction us with
  | nil => exact fun _ h => h
  | cons u us ih =>
    refine fun d h => ih (d.insert u) fun e he => ?_
    rcases Dict.mem_insertEntry he with rfl | hOld
    · rfl
    · exact h e hOld

/-! ## Passage through a channel -/

/-- A channel between two ends: what one end has still to send, what is inside, and what has arrived
at the other. -/
structure Passage (α : Type) where
  waiting : List α
  inside  : List α := []
  arrived : List α := []

namespace Passage

variable {α : Type} {capacity turns : Nat} {items : List α} {p q : Passage α}

/-- One of the ends takes its turn: something is sent if there is room for it, or received. -/
inductive Turn (capacity : Nat) : Passage α → Passage α → Prop
  | send {x : α} {waiting inside arrived : List α} (hRoom : inside.length < capacity) :
      Turn capacity ⟨x :: waiting, inside, arrived⟩ ⟨waiting, inside ++ [x], arrived⟩
  | receive {x : α} {waiting inside arrived : List α} :
      Turn capacity ⟨waiting, x :: inside, arrived⟩ ⟨waiting, inside, arrived ++ [x]⟩

/-- What so many turns, in any order, have made of a list that is to be sent. -/
inductive After (capacity : Nat) (items : List α) : Nat → Passage α → Prop
  | start : After capacity items 0 { waiting := items }
  | turn {turns : Nat} {p q : Passage α} (h : After capacity items turns p)
      (hTurn : Turn capacity p q) : After capacity items (turns + 1) q

/-- Nothing is lost, repeated or reordered on the way, and every turn brings something on. -/
theorem After.conserved (h : After capacity items turns p) :
    p.arrived ++ p.inside ++ p.waiting = items ∧
      turns + 2 * p.waiting.length + p.inside.length = 2 * items.length := by
  induction h with
  | start => exact ⟨rfl, by simp⟩
  | turn _ hTurn ih =>
    obtain ⟨hOrder, hTurns⟩ := ih
    cases hTurn with
    | send =>
      simp only [List.length_cons, List.length_append, List.length_nil] at hTurns ⊢
      exact ⟨by simpa using hOrder, by omega⟩
    | receive =>
      simp only [List.length_cons] at hTurns ⊢
      exact ⟨by simpa using hOrder, by omega⟩

/-- As long as not everything has arrived, one of the ends can take a turn. -/
theorem exists_turn (hRoom : 0 < capacity) (h : p.waiting ≠ [] ∨ p.inside ≠ []) :
    ∃ q, Turn capacity p q := by
  obtain ⟨waiting, inside, arrived⟩ := p
  cases inside with
  | cons x inside => exact ⟨_, .receive⟩
  | nil =>
    cases waiting with
    | cons x waiting => exact ⟨_, .send hRoom⟩
    | nil => exact absurd rfl (h.resolve_right fun hNone => hNone rfl)

/-- **However the ends take turns, the list arrives as `drain` has it**, after two turns for each of
its members. -/
theorem After.delivered {buffer : Nat} (h : After (max buffer 1) items turns p) :
    p.arrived <+: drain buffer items ∧ turns ≤ 2 * items.length ∧
      ((∀ q, ¬Turn (max buffer 1) p q) → p.arrived = drain buffer items) := by
  obtain ⟨hOrder, hTurns⟩ := h.conserved
  rw [drain_eq_self]
  refine ⟨⟨p.inside ++ p.waiting, by rw [← List.append_assoc]; exact hOrder⟩, by omega,
    fun hStuck => ?_⟩
  have hAll : p.waiting = [] ∧ p.inside = [] := by
    by_contra hLeft
    have hRoom : 0 < max buffer 1 := by omega
    obtain ⟨q, hTurn⟩ := exists_turn hRoom (not_and_or.mp hLeft)
    exact hStuck q hTurn
  rw [hAll.1, hAll.2, List.append_nil, List.append_nil] at hOrder
  exact hOrder

end Passage

/-! ## The comprehension -/

/-- A message has the event and the outputs of another one; its nodes and users may differ. -/
def Message.Kin (m' m : Message) : Prop := m'.event = m.event ∧ m'.outputs = m.outputs

theorem Message.Kin.trans {m₁ m₂ m₃ : Message} (h : m₁.Kin m₂) (h' : m₂.Kin m₃) : m₁.Kin m₃ :=
  ⟨h.1.trans h'.1, h.2.trans h'.2⟩

namespace Action

/-- What is said of a selector for nodes that says nothing. -/
def unnamedNodes : Fault := .badRequest "nodes selector needs paths, a query or all"

/-- What is said of a selector for users that says nothing. -/
def unnamedUsers : Fault := .badRequest "users selector needs logins, a query or all"

/-- The nodes that a selector gives to an action: those that it names, as far as both its query and
the filter of the action accept them. -/
def nodesOf (a : Action) (b : Backend) (s : Selector NodeTest) : List Node :=
  (s.named b.resolveNode b.tree.nodes.values).filter fun n =>
    s.query.acceptsNode n && a.nodesFilter.all (·.acceptsNode n)

/-- The users that a selector gives to an action. -/
def usersOf (a : Action) (b : Backend) (s : Selector UserTest) : List User :=
  (s.named b.resolveUser b.users.users.values).filter fun u =>
    s.query.acceptsUser u && a.usersFilter.all (·.acceptsUser u)

/-- The shares in which objects travel: all together, unless there are none, or each alone. -/
def shares {α : Type} (collect : Bool) (objects : List α) : List (List α) :=
  if collect then [objects].filter (!·.isEmpty) else objects.map ([·])

/-- The shares of nodes that an action is run on; without a selector, the nodes at hand. -/
def nodeShares (a : Action) (b : Backend) (m : Message) : List (List Node) :=
  match a.nodesSelector with
  | none => [m.nodes]
  | some s => shares s.collect (a.nodesOf b s)

/-- The shares of users that an action is run on; without a selector, the users at hand. -/
def userShares (a : Action) (b : Backend) (m : Message) : List (List User) :=
  match a.usersSelector with
  | none => [m.users]
  | some s => shares s.collect (a.usersOf b s)

/-- The message with each share of nodes and, for each of these, with each share of users. -/
def comprehension (a : Action) (b : Backend) (m : Message) : List Message :=
  (a.nodeShares b m).flatMap fun nodes =>
    (a.userShares b m).map fun users => { m with nodes, users }

/-- Whether the action has a selector for nodes that says nothing. -/
def blankNodes (a : Action) : Bool := a.nodesSelector.any (·.isBlank)

/-- Whether the action has a selector for users that says nothing. -/
def blankUsers (a : Action) : Bool := a.usersSelector.any (·.isBlank)

variable {a : Action} {b : Backend} {buffer : Nat} {m kept x : Message}

/-- Spreading makes one message for each share of the objects. -/
theorem spread_eq {α : Type} (collect : Bool) (objects : List α) (give : List α → Message) :
    spread collect objects give = (shares collect objects).map give := by
  cases collect with
  | true => cases objects <;> rfl
  | false => simp [spread, shares]

/-- What is selected and then pruned is accepted by the query and by the filter. -/
theorem pruneNodes_filter (a : Action) (accepts : Node → Bool) (nodes : List Node) :
    a.pruneNodes (nodes.filter accepts) =
      nodes.filter fun n => accepts n && a.nodesFilter.all (·.acceptsNode n) := by
  unfold pruneNodes
  cases a.nodesFilter with
  | none => simp
  | some q => simp [List.filter_filter, Bool.and_comm]

/-- Filtering first narrows what the filters of the action let through. -/
theorem pruneUsers_filter (a : Action) (accepts : User → Bool) (users : List User) :
    a.pruneUsers (users.filter accepts) =
      users.filter fun u => accepts u && a.usersFilter.all (·.acceptsUser u) := by
  unfold pruneUsers
  cases a.usersFilter with
  | none => simp
  | some q => simp [List.filter_filter, Bool.and_comm]

/-- Spreading over nodes fails on a blank name, and else makes a message for each share. -/
theorem spreadNodes_eq (a : Action) (b : Backend) (buffer : Nat) (m : Message) :
    a.spreadNodes b buffer m =
      if a.blankNodes then .error unnamedNodes else .ok ((a.nodeShares b m).map m.withNodes) := by
  unfold spreadNodes blankNodes nodeShares
  cases a.nodesSelector with
  | none => rfl
  | some s =>
    simp only [selectNodes, Selector.items_eq, Tree.list_root, Option.any_some]
    split
    · rfl
    · simp only [Except.map, drain_eq_self, pruneNodes_filter, spread_eq]
      rfl

/-- The same for users. -/
theorem spreadUsers_eq (a : Action) (b : Backend) (buffer : Nat) (m : Message) :
    a.spreadUsers b buffer m =
      if a.blankUsers then .error unnamedUsers else .ok ((a.userShares b m).map m.withUsers) := by
  unfold spreadUsers blankUsers userShares
  cases a.usersSelector with
  | none => rfl
  | some s =>
    simp only [selectUsers, Selector.items_eq, Directory.list, Option.any_some]
    split
    · rfl
    · simp only [Except.map, drain_eq_self, pruneUsers_filter, spread_eq]
      rfl

/-- **The expansion is the comprehension**, unless a selector that is reached says nothing. That for
users is reached if there is a share of nodes. -/
theorem expand_eq (hKept : a.applyFilters m = some kept) :
    a.expand b buffer m =
      if a.blankNodes then .error unnamedNodes
      else if a.blankUsers ∧ a.nodeShares b kept ≠ [] then .error unnamedUsers
      else .ok (a.comprehension b kept) := by
  unfold expand
  rw [hKept]
  dsimp only
  rw [spreadNodes_eq]
  split
  · rfl
  · show (((a.nodeShares b kept).map kept.withNodes).mapM (a.spreadUsers b buffer)).bind
      (fun perUsers => .ok perUsers.flatten) = _
    simp only [funext (spreadUsers_eq a b buffer)]
    cases hBlank : a.blankUsers with
    | false =>
      simp only [Bool.false_eq_true, if_false, false_and]
      -- each message gets the same shares of users
      have hAll := List.mapM_pure (m := Except Fault)
        (l := (a.nodeShares b kept).map kept.withNodes)
        (f := fun m => (a.userShares b m).map m.withUsers)
      rw [show (fun m => Except.ok ((a.userShares b m).map m.withUsers)) =
        fun m => (pure ((a.userShares b m).map m.withUsers) : Except Fault _) from rfl, hAll]
      show Except.ok _ = _
      rw [List.map_map, ← List.flatMap_def]
      rfl
    | true =>
      cases hShares : a.nodeShares b kept with
      | nil => simp [comprehension, hShares, Except.bind, pure, Except.pure]
      | cons nodes rest => simp [List.mapM_cons, bind, Except.bind]

/-! ## What a comprehension is made of -/

/-- Filtering by source keeps the event and the outputs of a message. -/
theorem kin_of_filterSource {q : Query SourceTest} (hKept : kept.Kin m)
    (h : (if !(kept.filterSource q).2 && (kept.filterSource q).1.isEmpty then none
      else some (kept.filterSource q).1) = some x) : x.Kin m := by
  have hSource : (kept.filterSource q).1.Kin kept := by
    unfold Message.filterSource
    split <;> exact ⟨rfl, rfl⟩
  split at h
  · exact absurd h (by simp)
  · exact Option.some.inj h ▸ hSource.trans hKept

/-- The three filters keep the event and the outputs of a message. -/
theorem applyFilters_kin (h : a.applyFilters m = some kept) : kept.Kin m := by
  revert h
  unfold applyFilters
  -- whatever the filters of nodes and users leave goes through the filter of sources
  cases a.sourceFilter with
  | none =>
    cases a.nodesFilter <;> cases a.usersFilter <;>
    · intro h
      exact Option.some.inj h ▸ ⟨rfl, rfl⟩
  | some q => cases a.nodesFilter <;> cases a.usersFilter <;> exact kin_of_filterSource ⟨rfl, rfl⟩

/-- The comprehension is the product: a share of nodes with a share of users. -/
theorem mem_comprehension : x ∈ a.comprehension b m ↔
    ∃ nodes ∈ a.nodeShares b m, ∃ users ∈ a.userShares b m, { m with nodes, users } = x := by
  simp only [comprehension, List.mem_flatMap, List.mem_map]

/-- No share is empty. -/
theorem ne_nil_of_mem_shares {α : Type} {collect : Bool} {objects share : List α}
    (h : share ∈ shares collect objects) : share ≠ [] := by
  unfold shares at h
  split at h
  · simpa using (List.mem_filter.mp h).2
  · obtain ⟨o, -, rfl⟩ := List.mem_map.mp h
    exact List.cons_ne_nil o []

/-- The members of a product, the first factor leading. -/
theorem getElem?_product {α β γ : Type} (f : α → β → γ) (ys : List β) {xs : List α} {i j : Nat}
    {x : α} {y : β} (hx : xs[i]? = some x) (hy : ys[j]? = some y) :
    (xs.flatMap fun x => ys.map (f x))[i * ys.length + j]? = some (f x y) := by
  have hLt : j < ys.length := (List.getElem?_eq_some_iff.mp hy).1
  -- each member of the first factor takes up one row, as long as the second factor
  induction xs generalizing i with
  | nil => cases hx
  | cons x' xs ih =>
    rw [List.flatMap_cons]
    cases i with
    | zero =>
      obtain rfl := Option.some.inj hx
      rw [Nat.zero_mul, Nat.zero_add, List.getElem?_append_left (by simpa using hLt),
        List.getElem?_map, hy]
      rfl
    | succ i =>
      have hIndex : (i + 1) * ys.length + j - (ys.map (f x')).length = i * ys.length + j := by
        rw [List.length_map, Nat.succ_mul]
        omega
      rw [List.getElem?_append_right (by rw [List.length_map, Nat.succ_mul]; omega), hIndex]
      exact ih hx

/-- Single nodes and single users make a product of messages. -/
theorem comprehension_single {s : Selector NodeTest} {s' : Selector UserTest}
    (hNodes : a.nodesSelector = some s) (hUsers : a.usersSelector = some s')
    (hEach : s.collect = false) (hEach' : s'.collect = false) :
    a.comprehension b m = (a.nodesOf b s).flatMap fun n =>
      (a.usersOf b s').map fun u => { m with nodes := [n], users := [u] } := by
  simp only [comprehension, nodeShares, userShares, shares, hNodes, hUsers, hEach, hEach',
    Bool.false_eq_true, if_false, List.flatMap_map, List.map_map]
  rfl

/-! ## Expansions -/

/-- All that can be said of the expansion of a message. -/
structure Expanded (a : Action) (b : Backend) (m : Message)
    (result : Except Fault (List Message)) : Prop where
  /-- A message that the filters reject is run on nowhere. -/
  rejected     : a.applyFilters m = none → result = .ok []
  /-- Of any other the filters leave a message, and the action is run on its comprehension. -/
  comprehended : ∀ kept ms, a.applyFilters m = some kept → result = .ok ms →
    ms = a.comprehension b kept
  /-- It fails exactly if a selector that is reached says nothing: that for nodes first, and that
  for users as soon as there is a share of nodes. -/
  refused      : ∀ fault, result = .error fault ↔ ∃ kept, a.applyFilters m = some kept ∧
    (a.blankNodes = true ∧ fault = unnamedNodes ∨ a.blankNodes = false ∧ a.blankUsers = true ∧
      a.nodeShares b kept ≠ [] ∧ fault = unnamedUsers)
  /-- Single nodes and single users make one message for each node and user, the nodes leading. -/
  product      : ∀ kept s s' ms, a.applyFilters m = some kept → a.nodesSelector = some s →
    a.usersSelector = some s' → s.collect = false → s'.collect = false → result = .ok ms →
    ms.length = (a.nodesOf b s).length * (a.usersOf b s').length ∧
      ∀ i j n u, (a.nodesOf b s)[i]? = some n → (a.usersOf b s')[j]? = some u →
        ms[i * (a.usersOf b s').length + j]? = some { kept with nodes := [n], users := [u] }
  /-- What a selector selects is never empty in a message. -/
  filled       : ∀ ms, result = .ok ms → ∀ x ∈ ms,
    (a.nodesSelector ≠ none → x.nodes ≠ []) ∧ (a.usersSelector ≠ none → x.users ≠ [])
  /-- The event and the outputs are those of the message, and nodes and users for which there is no
  selector are those that the filters left; users are given to the shares of nodes as they are. -/
  unchanged    : ∀ kept ms, a.applyFilters m = some kept → result = .ok ms → ∀ x ∈ ms,
    x.event = m.event ∧ x.outputs = m.outputs ∧ x.nodes ∈ a.nodeShares b kept ∧
      (a.nodesSelector = none → x.nodes = kept.nodes) ∧
      (a.usersSelector = none → x.users = kept.users)
  /-- A literal path stands for the node that is stored at it, and where none is stored, for a node
  of which no more than the path is known. -/
  paths        : StandsFor b.resolveNode b.tree.nodes.values Node.path fun path =>
    { uuid := "", path, kind := .unknown, size := 0, mtime := 0, etag := "", attributes := .empty }
  /-- A literal login stands for the user who is stored under it, and where nobody is, for a user of
  whom no more than the login is known. -/
  logins       : StandsFor b.resolveUser b.users.users.values User.login fun login =>
    { uuid := "", login, groupPath := "", profile := "", roles := [], attributes := .empty }
  /-- A name counts as often as it is given. -/
  repeated     : (∀ s : Selector NodeTest, s.literals ≠ [] → (a.nodesOf b s).length =
      s.literals.countP fun path => s.query.acceptsNode (b.resolveNode path) &&
        a.nodesFilter.all (·.acceptsNode (b.resolveNode path))) ∧
    ∀ s : Selector UserTest, s.literals ≠ [] → (a.usersOf b s).length =
      s.literals.countP fun login => s.query.acceptsUser (b.resolveUser login) &&
        a.usersFilter.all (·.acceptsUser (b.resolveUser login))
  /-- Without names, every node of the tree is selected from in the order of the paths, and every
  user in the order of the logins. -/
  listed       : ((b.tree.nodes.values.Pairwise fun n n' => n.path < n'.path) ∧
      ∀ n, n ∈ b.tree.nodes.values ↔ b.tree.find? n.path = some n) ∧
    (b.users.users.values.Pairwise fun u u' => u.login < u'.login) ∧
      ∀ u, u ∈ b.users.users.values ↔ b.users.find? u.login = some u

/-- What the expansion comes to when it does not fail. -/
theorem eq_comprehension {ms : List Message} (hKept : a.applyFilters m = some kept)
    (h : a.expand b buffer m = .ok ms) : ms = a.comprehension b kept := by
  rw [expand_eq hKept] at h
  split at h
  · cases h
  · split at h
    · cases h
    · exact (Except.ok.inj h).symm

/-- A message of an expansion goes back to what the filters left. -/
theorem exists_of_mem_expand {ms : List Message} (h : a.expand b buffer m = .ok ms)
    (hMem : x ∈ ms) : ∃ kept, a.applyFilters m = some kept ∧ x ∈ a.comprehension b kept := by
  cases hKept : a.applyFilters m with
  | none =>
    rw [expand, hKept] at h
    obtain rfl := Except.ok.inj h
    cases hMem
  | some kept => exact ⟨kept, rfl, eq_comprehension hKept h ▸ hMem⟩

/-- **An action is run on messages with the event and the outputs that it was given.** -/
theorem expand_kin {ms : List Message} (h : a.expand b buffer m = .ok ms) (hMem : x ∈ ms) :
    x.Kin m := by
  obtain ⟨kept, hKept, hIn⟩ := exists_of_mem_expand h hMem
  obtain ⟨nodes, -, users, -, rfl⟩ := mem_comprehension.mp hIn
  have hShares : Message.Kin { kept with nodes, users } kept := ⟨rfl, rfl⟩
  exact hShares.trans (applyFilters_kin hKept)

/-- When an expansion fails, and with which fault: a blank name among the nodes is seen first,
one among the users only if there is a share of nodes. -/
theorem expand_error_iff {fault : Fault} : a.expand b buffer m = .error fault ↔
    ∃ kept, a.applyFilters m = some kept ∧
      (a.blankNodes = true ∧ fault = unnamedNodes ∨ a.blankNodes = false ∧ a.blankUsers = true ∧
        a.nodeShares b kept ≠ [] ∧ fault = unnamedUsers) := by
  cases hKept : a.applyFilters m with
  | none => simp [expand, hKept]
  | some kept =>
    rw [expand_eq hKept]
    simp only [Option.some.injEq, exists_eq_left']
    -- nodes are looked at before users, and users only if there are shares to be given
    cases a.blankNodes with
    | true => simpa using eq_comm
    | false =>
      simp only [Bool.false_eq_true, if_false, false_and, true_and, false_or]
      split
      · next hUsers => simpa [hUsers.1, hUsers.2] using eq_comm
      · next hUsers =>
        simp only [reduceCtorEq, false_iff]
        exact fun h => hUsers ⟨h.1, h.2.1⟩

/-- **What an action is run on is the comprehension of its selectors**: the answer of `expand`, for
every content of the tree and of the directory, and for every capacity of the channels between
`select` and its consumers: however the ends of such a channel take turns, what is sent arrives as
it was sent. -/
theorem expand_expanded (a : Action) (tree : Tree) (us : List User) (buffer : Nat) (m : Message) :
    Expanded a ⟨tree, .ofList us⟩ m (a.expand ⟨tree, .ofList us⟩ buffer m) ∧
      ∀ (α : Type) (items : List α) (turns : Nat) (p : Passage α),
        Passage.After (max buffer 1) items turns p →
          turns ≤ 2 * items.length ∧
            ((∀ q, ¬Passage.Turn (max buffer 1) p q) → p.arrived = drain buffer items) := by
  refine ⟨⟨fun hNone => ?_, fun kept ms => eq_comprehension, fun fault => expand_error_iff,
    fun kept s s' ms hKept hNodes hUsers hEach hEach' hOk => ?_, fun ms hOk x hx => ?_,
    fun kept ms hKept hOk x hx => ?_, Dict.standsFor_get? tree.keyed _,
    Dict.standsFor_get? (Directory.keyed_ofList us) _, ⟨fun s hNames => ?_, fun s hNames => ?_⟩,
    Dict.values_keyed tree.keyed, Dict.values_keyed (Directory.keyed_ofList us)⟩,
    fun α items turns p hAfter => hAfter.delivered.2⟩
  -- the filters leave nothing
  · rw [expand, hNone]
  -- one node and one user at a time
  · rw [eq_comprehension hKept hOk, comprehension_single hNodes hUsers hEach hEach']
    refine ⟨by simp [List.length_flatMap], fun i j n u hn hu => ?_⟩
    exact getElem?_product (fun n u => { kept with nodes := [n], users := [u] }) _ hn hu
  -- where there is a selector, no message is without what it selects
  · obtain ⟨kept, hKept, hIn⟩ := exists_of_mem_expand hOk hx
    obtain ⟨nodes, hNodes, users, hUsers, rfl⟩ := mem_comprehension.mp hIn
    refine ⟨fun hSome => ?_, fun hSome => ?_⟩
    · obtain ⟨s, hs⟩ := Option.ne_none_iff_exists'.mp hSome
      simp only [nodeShares, hs] at hNodes
      exact ne_nil_of_mem_shares hNodes
    · obtain ⟨s, hs⟩ := Option.ne_none_iff_exists'.mp hSome
      simp only [userShares, hs] at hUsers
      exact ne_nil_of_mem_shares hUsers
  -- where there is none, the message keeps what it had
  · have hKin := expand_kin hOk hx
    rw [eq_comprehension hKept hOk] at hx
    obtain ⟨nodes, hNodes, users, hUsers, rfl⟩ := mem_comprehension.mp hx
    refine ⟨hKin.1, hKin.2, hNodes, fun hNone => ?_, fun hNone => ?_⟩
    · simp only [nodeShares, hNone] at hNodes
      exact List.mem_singleton.mp hNodes
    · simp only [userShares, hNone] at hUsers
      exact List.mem_singleton.mp hUsers
  · simp only [nodesOf, Selector.named, if_neg hNames, ← List.countP_eq_length_filter,
      List.countP_map]
    rfl
  · simp only [usersOf, Selector.named, if_neg hNames, ← List.countP_eq_length_filter,
      List.countP_map]
    rfl

end Action

end Taskyard
