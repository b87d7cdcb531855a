import Taskyard.Query.Match
import Taskyard.Tree.Listing

/-!
# Selectors

A selector names objects: by literal names, or as everything that a query accepts. The selected
objects pass through a channel of bounded capacity from the one who finds them to the one who uses
them.

Main definitions:

* `Backend` — the tree and the users that selectors choose from.
* `Selector` — the description of a selection, for nodes and for users alike.
* `selectNodes`, `selectUsers` — the selected objects.
* `drain` — passage through a bounded channel.
-/

namespace Taskyard

/-- The services that selectors and actions look things up in: the `Clients`. -/
structure Backend where
  /-- The tree. -/
  tree : Tree
  /-- The users. -/
  users : Directory

/-- The services without content. -/
def Backend.empty : Backend := ⟨Tree.empty, Directory.empty⟩

/-- The description of a selection with tests of type `α`: a `NodesSelector` or a
`UsersSelector`. -/
structure Selector (α : Type) where
  /-- Everything there is, as far as the query accepts it. -/
  all : Bool := false
  /-- The names of single objects. -/
  literals : List String := []
  /-- What the selected objects have to satisfy. -/
  query : Query α := {}
  /-- Whether all selected objects travel in one message. -/
  collect : Bool := false

namespace Selector

variable {α β : Type}

/-- The selector of named objects. -/
def ofLiterals (names : List String) : Selector α := { literals := names }

/-- The selector of what a query accepts. -/
def ofQuery (query : Query α) : Selector α := { query }

/-- The selector with its objects in one message. -/
def collected (s : Selector α) : Selector α := { s with collect := true }

/-- The selected objects, as `select` sends them: the named ones in the given order, or else
everything listed, as far as the query accepts them. A selector without names has to have a query or
to ask for everything. -/
def items (s : Selector α) (accepts : Query α → β → Bool) (resolve : String → β) (listed : List β)
    (fault : Fault) : Except Fault (List β) :=
  if !s.literals.isEmpty then .ok ((s.literals.map resolve).filter (accepts s.query))
  else if !s.all && s.query.isEmpty then .error fault
  else .ok (listed.filter (accepts s.query))

end Selector

/-- The node at a path, or a bare node of that path where `read_node` finds none. -/
def Backend.resolveNode (b : Backend) (path : String) : Node :=
  (b.tree.find? path).getD (Node.ofPath path)

/-- The user with a login, or a bare user of that login where `read_user` finds none. -/
def Backend.resolveUser (b : Backend) (login : String) : User :=
  (b.users.find? login).getD { login }

/-- The nodes that a selector selects. -/
def selectNodes (b : Backend) (s : Selector NodeTest) : Except Fault (List Node) :=
  s.items Query.acceptsNode b.resolveNode (b.tree.list "/")
    (.badRequest "nodes selector needs paths, a query or all")

/-- The users that a selector selects. -/
def selectUsers (b : Backend) (s : Selector UserTest) : Except Fault (List User) :=
  s.items Query.acceptsUser b.resolveUser b.users.list
    (.badRequest "users selector needs logins, a query or all")

/-- What arrives when a list passes through a channel in portions of at most `capacity`. The number
bounds the portions. -/
def drainWithin {α : Type} (capacity : Nat) : Nat → List α → List α
  | 0, _ => []
  | portions + 1, items =>
    if items.isEmpty then []
    else items.take capacity ++ drainWithin capacity portions (items.drop capacity)

/-- What arrives when a list passes through a channel of a capacity, which is at least one:
`drain`. -/
def drain {α : Type} (capacity : Nat) (items : List α) : List α :=
  drainWithin (max capacity 1) items.length items

/-- A bounded channel loses, repeats and reorders nothing. -/
theorem drainWithin_eq_self {α : Type} {capacity : Nat} (hPos : 0 < capacity) :
    ∀ (portions : Nat) (items : List α), items.length ≤ portions →
      drainWithin capacity portions items = items
  | 0, items, h => by
    rw [drainWithin, List.length_eq_zero_iff.1 (Nat.le_zero.1 h)]
  | portions + 1, items, h => by
    rw [drainWithin]
    split
    · next hEmpty => rw [List.isEmpty_iff.1 hEmpty]
    · rw [drainWithin_eq_self hPos portions _ (by rw [List.length_drop]; omega),
        List.take_append_drop]

/-- What passes through a channel arrives as it was sent, whatever the capacity. -/
theorem drain_eq_self {α : Type} (capacity : Nat) (items : List α) : drain capacity items = items :=
  drainWithin_eq_self (by omega) _ _ (Nat.le_refl _)

end Taskyard
