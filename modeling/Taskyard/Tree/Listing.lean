import Taskyard.Fault
import Taskyard.Tree.Node

/-!
# Tree — a tree in memory

The nodes of a tree by path, with reading of one node and listing of everything at or below a path.

Main definitions:

* `Tree` — the nodes, each under its own path.
* `Tree.insert`, `Tree.remove` — changes.
* `Tree.read` — the node at a path.
* `Tree.list` — the nodes at or below a path, ordered by path.
-/

namespace Taskyard

/-- A tree, in which every node stands under its own path: a `MemoryTree`. -/
structure Tree where
  /-- The nodes by path. -/
  nodes : Dict Node
  /-- Each node stands under its own path. -/
  keyed : ∀ e ∈ nodes.entries, e.1 = e.2.path

namespace Tree

/-- The tree without nodes. -/
def empty : Tree := ⟨Dict.empty, by simp [Dict.empty]⟩

/-- The tree with a node at its path, in place of what was there. -/
def insert (t : Tree) (n : Node) : Tree where
  nodes := t.nodes.insert n.path n
  keyed e he := by
    rcases Dict.mem_insertEntry he with rfl | he
    · rfl
    · exact t.keyed e he

/-- The tree without the node at a path. -/
def remove (t : Tree) (path : String) : Tree where
  nodes := t.nodes.erase path
  keyed e he := t.keyed e ((List.mem_filter.1 he).1)

/-- The tree of the nodes of a list, a later one in place of an earlier one at the same path. -/
def ofList (ns : List Node) : Tree := ns.foldl insert empty

/-- The number of nodes. -/
def size (t : Tree) : Nat := t.nodes.size

/-- The node at a path, if there is one. -/
def find? (t : Tree) (path : String) : Option Node := t.nodes.get? path

/-- The node at a path: `read_node`. -/
def read (t : Tree) (path : String) : Except Fault Node :=
  match t.find? path with
  | some n => .ok n
  | none => .error (.notFound ("node " ++ path))

/-- Whether a path is the root or continues it after a slash. An empty root is above everything. -/
def isAtOrBelow (root path : List Char) : Bool :=
  root.isEmpty || path == root || (root ++ ['/']).isPrefixOf path

/-- The nodes at or below a path, ordered by path: `list_nodes`. Slashes at the end of the path do
not count. -/
def list (t : Tree) (path : String) : List Node :=
  t.nodes.values.filter fun n =>
    isAtOrBelow (Node.trimSlashes path.toList) n.path.toList

end Tree

end Taskyard
