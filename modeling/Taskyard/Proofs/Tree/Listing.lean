import Mathlib.Data.List.Infix
import Taskyard.Proofs.Split
import Taskyard.Proofs.Text.Ends
import Taskyard.Tree.Listing

/-!
# Tree — listings and the changes that led to them

The changes of a tree tell what is in it: at every path the node that was inserted last, unless the
path was removed since. A listing shows what lies at or below a path. Where that is can be said by
segments: those of the path, slashes at its end aside, are the first ones of what lies below it.
So nothing is listed only because its path begins with the same characters.

Main definitions and results:

* `Tree.Change`, `Tree.after` — sequences of changes.
* `Tree.Standing` — an insertion that no later change undoes; `Tree.find?_after` for what is found.
* `Tree.isAtOrBelow_iff` — what lies at or below a path, by segments.
* `Tree.Listed` — what listings and readings show after changes; `Tree.listed_after` for all
  sequences of changes.
-/

namespace Taskyard.Tree

/-! ## Changes -/

/-- A change of a tree. -/
inductive Change where
  /-- A node is put at its path. -/
  | insert (n : Node)
  /-- What is at a path is removed. -/
  | remove (path : String)

/-- The path that a change is about. -/
def Change.path : Change → String
  | .insert n => n.path
  | .remove path => path

/-- The tree after a change. -/
def Change.apply (t : Tree) : Change → Tree
  | .insert n => t.insert n
  | .remove path => t.remove path

/-- The tree after a sequence of changes. -/
def after (changes : List Change) : Tree := changes.foldl Change.apply empty

/-- A node was inserted, and no later change is about its path. -/
def Standing (n : Node) (changes : List Change) : Prop :=
  ∃ before later, changes = before ++ .insert n :: later ∧ ∀ c ∈ later, c.path ≠ n.path

/-- With one more change, what stands is what it inserts and what stood at all other paths. -/
theorem standing_concat {n : Node} {changes : List Change} {c : Change} :
    Standing n (changes ++ [c]) ↔ c = .insert n ∨ Standing n changes ∧ c.path ≠ n.path := by
  constructor
  -- the last change is the insertion itself, or comes after it
  · rintro ⟨before, later, hSplit, hLater⟩
    rcases concat_eq_append_cons_iff.mp hSplit with ⟨-, hLast, -⟩ | ⟨rest, hBefore, rfl⟩
    · exact .inl hLast
    · exact .inr ⟨⟨before, rest, hBefore, fun c' hc' => hLater c' (by simp [hc'])⟩,
        hLater c (by simp)⟩
  · rintro (rfl | ⟨⟨before, later, rfl, hLater⟩, hOther⟩)
    · exact ⟨changes, [], rfl, by simp⟩
    · refine ⟨before, later ++ [c], by simp, fun c' hc' => ?_⟩
      rcases List.mem_append.mp hc' with hc' | hc'
      · exact hLater c' hc'
      · rw [List.mem_singleton.mp hc']
        exact hOther

/-! ## What is found -/

variable {t : Tree} {n : Node}

/-- A node that was put is found under its path, and the others as before. -/
theorem find?_insert (n : Node) (path : String) :
    (t.insert n).find? path = if n.path = path then some n else t.find? path :=
  Dict.get?_insert t.nodes n.path n path

/-- A node that was removed is not found, and the others as before. -/
theorem find?_remove (removed path : String) :
    (t.remove removed).find? path = if removed = path then none else t.find? path :=
  Dict.get?_erase t.nodes removed path

/-- What is found at a path has that path. -/
theorem path_of_find? {path : String} (h : t.find? path = some n) : n.path = path :=
  (t.keyed _ (Dict.mem_of_lookup h)).symm

theorem mem_values_iff : n ∈ t.nodes.values ↔ t.find? n.path = some n := by
  rw [Dict.mem_values_iff]
  constructor
  · rintro ⟨path, hFind⟩
    rwa [path_of_find? hFind]
  · exact fun hFind => ⟨n.path, hFind⟩

/-- **What is found** is what stands. -/
theorem find?_after (changes : List Change) (n : Node) :
    (after changes).find? n.path = some n ↔ Standing n changes := by
  -- by the last change: at its own path it decides alone, elsewhere it changes nothing
  induction changes using List.reverseRecOn with
  | nil => exact ⟨fun h => (nomatch h), fun ⟨before, later, hEq, _⟩ => by simp at hEq⟩
  | append_singleton changes c ih =>
    have hStep : after (changes ++ [c]) = c.apply (after changes) := by
      rw [after, List.foldl_append]
      rfl
    rw [hStep, standing_concat, ← ih]
    cases c with
    | insert m =>
      rw [Change.apply, find?_insert, Change.path, Change.insert.injEq]
      by_cases hPath : m.path = n.path
      · simp [hPath]
      · have hOther : m ≠ n := fun hSame => hPath (congrArg Node.path hSame)
        simp [hPath, hOther]
    | remove path =>
      rw [Change.apply, find?_remove, Change.path]
      by_cases hPath : path = n.path
      · simp [hPath]
      · simp [hPath]

/-! ## What lies below a path -/

/-- A separator after the segments of a path and before further ones. -/
theorem intercalate_append {α : Type} {sep : List α} {ls ls' : List (List α)} (h : ls ≠ [])
    (h' : ls' ≠ []) :
    sep.intercalate (ls ++ ls') = sep.intercalate ls ++ sep ++ sep.intercalate ls' := by
  induction ls with
  | nil => exact absurd rfl h
  | cons l ls ih =>
    by_cases hLast : ls = []
    · subst hLast
      rw [List.singleton_append, List.intercalate_cons_of_ne_nil h', List.intercalate_singleton]
    · have hMore : ls ++ ls' ≠ [] := by simp [h']
      rw [List.cons_append, List.intercalate_cons_of_ne_nil hMore,
        List.intercalate_cons_of_ne_nil hLast, ih hLast]
      simp

/-- The segments of a path are the first ones of another path if that is the same path or goes on
after a slash, and only then. -/
theorem segments_prefix_iff (root path : List Char) :
    root.splitOn '/' <+: path.splitOn '/' ↔ path = root ∨ root ++ ['/'] <+: path := by
  constructor
  · rintro ⟨rest, hSegments⟩
    -- put together again, the segments are the path, and the first of them are `root`
    have hPath := congrArg (['/'].intercalate ·) hSegments
    by_cases hSame : rest = []
    · left
      simpa [hSame] using hPath.symm
    · right
      simp only [intercalate_append (List.splitOn_ne_nil _ _) hSame,
        List.intercalate_splitOn] at hPath
      exact ⟨_, hPath⟩
  · rintro (rfl | ⟨rest, rfl⟩)
    · exact List.prefix_refl _
    · rw [List.append_assoc, List.singleton_append, List.splitOn_append_cons_self]
      exact List.prefix_append _ _

/-- **At or below a path** lies what has its segments first. -/
theorem isAtOrBelow_iff {root path : List Char} :
    isAtOrBelow root path = true ↔ root = [] ∨ root.splitOn '/' <+: path.splitOn '/' := by
  rw [segments_prefix_iff, isAtOrBelow, Bool.or_eq_true, Bool.or_eq_true, List.isEmpty_iff,
    beq_iff_eq, List.isPrefixOf_iff_prefix, or_assoc]

/-! ## Listings -/

/-- A listing has the nodes at or below its path. -/
theorem mem_list {path : String} : n ∈ t.list path ↔ t.find? n.path = some n ∧
    isAtOrBelow (Node.trimSlashes path.toList) n.path.toList = true := by
  rw [list, List.mem_filter, mem_values_iff]

theorem mem_list_root : n ∈ t.list "" ↔ t.find? n.path = some n := by
  rw [mem_list]
  exact and_iff_left rfl

/-- A listing is in the order of paths. -/
theorem pairwise_list (t : Tree) (path : String) :
    (t.list path).Pairwise fun n n' => n.path < n'.path := by
  refine List.Pairwise.filter _ (List.pairwise_map.mpr ?_)
  refine t.nodes.sorted.imp_of_mem fun {e e'} he he' hLess => ?_
  rwa [t.keyed e he, t.keyed e' he'] at hLess

/-- Slashes at the end of a path do not matter. -/
theorem trimSlashes_slashes (path : List Char) (k : Nat) :
    Node.trimSlashes (path ++ List.replicate k '/') = Node.trimSlashes path :=
  Text.rdropWhile_append_replicate path k

/-- A path that does not end in a slash, and one that goes on without one. -/
theorem not_isAtOrBelow {root rest : List Char} (hRoot : root ≠ []) (hRest : rest ≠ [])
    (hSlash : rest.head? ≠ some '/') : isAtOrBelow root (root ++ rest) = false := by
  rw [← Bool.not_eq_true, isAtOrBelow_iff, segments_prefix_iff]
  rintro (hEmpty | hSame | ⟨further, hSplit⟩)
  · exact hRoot hEmpty
  · exact hRest (by simpa using hSame)
  · rw [List.append_assoc, List.append_right_inj] at hSplit
    rw [← hSplit] at hSlash
    exact hSlash rfl

/-- What listings and readings show after changes. -/
structure Listed (changes : List Change) : Prop where
  /-- A listing is in the strict order of the paths. -/
  ordered : ∀ path, ((after changes).list path).Pairwise fun n n' => n.path < n'.path
  /-- It shows what was inserted last at its path and not removed since, as far as the path to list
  is empty without the slashes at its end, or its segments are the first ones. -/
  exact   : ∀ path n, n ∈ (after changes).list path ↔ Standing n changes ∧
    (path.toList.rdropWhile (· = '/') = [] ∨
      (path.toList.rdropWhile (· = '/')).splitOn '/' <+: n.path.toList.splitOn '/')
  /-- Slashes at the end make no difference, however many. -/
  slashes : ∀ path k, (after changes).list (path ++ String.ofList (List.replicate k '/')) =
    (after changes).list path
  /-- What goes on otherwise than by a slash is not shown. -/
  apart   : ∀ path rest, path.toList ≠ [] → path.toList.getLast? ≠ some '/' →
    rest.toList ≠ [] → rest.toList.head? ≠ some '/' →
      ∀ n ∈ (after changes).list path, n.path ≠ path ++ rest
  /-- What is read at a path is what the listing of everything shows there. -/
  read    : ∀ path n, (after changes).read path = .ok n ↔
    n ∈ (after changes).list "" ∧ n.path = path
  /-- Where it shows nothing, nothing is read. -/
  missing : ∀ path, (∀ n ∈ (after changes).list "", n.path ≠ path) →
    (after changes).read path = .error (.notFound ("node " ++ path))

/-- **Listings respect segments**: `list_nodes` and `read_node` after all sequences of changes. -/
theorem listed_after (changes : List Change) : Listed changes where
  ordered path := pairwise_list _ path
  exact path n := by
    rw [mem_list, find?_after, isAtOrBelow_iff]
    rfl
  slashes path k := by
    have hTrimmed : Node.trimSlashes (path ++ String.ofList (List.replicate k '/')).toList =
        Node.trimSlashes path.toList := by
      rw [String.toList_append, String.toList_ofList, trimSlashes_slashes]
    rw [list, list, hTrimmed]
  apart path rest hPath hEnd hRest hSlash n hListed hSame := by
    -- a node below the path would be listed by its segments, which end where it goes on
    have hBelow := (mem_list.mp hListed).2
    have hTrimmed : Node.trimSlashes path.toList = path.toList := by
      refine List.rdropWhile_eq_self_iff.mpr fun hSome => ?_
      simpa [List.getLast?_eq_some_getLast hSome] using hEnd
    rw [hTrimmed, hSame, String.toList_append, not_isAtOrBelow hPath hRest hSlash] at hBelow
    cases hBelow
  read path n := by
    rw [mem_list_root, Tree.read]
    -- a node is found at its own path, and at no other
    constructor
    · intro hRead
      split at hRead
      · next m hFind =>
        obtain rfl : m = n := Except.ok.inj hRead
        have hPath := path_of_find? hFind
        exact ⟨hPath ▸ hFind, hPath⟩
      · cases hRead
    · rintro ⟨hFind, rfl⟩
      rw [hFind]
  missing path hNone := by
    rw [Tree.read]
    split
    · next n hFind =>
      have hPath := path_of_find? hFind
      exact absurd hPath (hNone n (mem_list_root.mpr (hPath ▸ hFind)))
    · rfl

end Taskyard.Tree
