/-!
# Dictionaries in key order

A finite map from texts to values, kept as the list of its entries with strictly increasing keys, so
that listing it is in key order and two dictionaries with the same look-ups are equal.

Main definitions and results:

* `Dict.insert`, `Dict.erase`, `Dict.get?` — the operations.
* `Dict.get?_insert`, `Dict.get?_erase` — what a look-up finds after a change.
* `Dict.mem_values_iff` — the values are what look-ups find.
* `Dict.sorted` — the keys increase strictly.
-/

namespace Taskyard

/-- Whether the keys of a list of entries increase strictly. -/
abbrev Ascending {α : Type} (l : List (String × α)) : Prop :=
  l.Pairwise fun a b => a.1 < b.1

/-- A finite map from texts to values in key order. -/
structure Dict (α : Type) where
  /-- The entries. -/
  entries : List (String × α)
  /-- The keys increase strictly. -/
  sorted : Ascending entries
  deriving DecidableEq

namespace Dict

variable {α β : Type}

/-! ## Operations on lists of entries -/

/-- The value of the first entry under `k`. -/
def lookup (k : String) : List (String × α) → Option α
  | [] => none
  | (k', v) :: rest => if k' = k then some v else lookup k rest

/-- The entries with `v` under `k`, at its place in the order. -/
def insertEntry (k : String) (v : α) : List (String × α) → List (String × α)
  | [] => [(k, v)]
  | (k', v') :: rest =>
    if k < k' then (k, v) :: (k', v') :: rest
    else if k' = k then (k, v) :: rest
    else (k', v') :: insertEntry k v rest

/-- The entries without those under `k`. -/
def eraseEntry (k : String) (l : List (String × α)) : List (String × α) :=
  l.filter fun e => e.1 ≠ k

/-- An entry of an insertion is the new one or an old one. -/
theorem mem_insertEntry {k : String} {v : α} {e : String × α} :
    ∀ {l : List (String × α)}, e ∈ insertEntry k v l → e = (k, v) ∨ e ∈ l
  | [], h => by simpa [insertEntry] using h
  | (k', v') :: rest, h => by
    rw [insertEntry] at h
    split at h
    · simpa using h
    · split at h
      · rcases List.mem_cons.1 h with h | h
        · exact .inl h
        · exact .inr (List.mem_cons_of_mem _ h)
      · rcases List.mem_cons.1 h with h | h
        · exact .inr (by simp [h])
        · rcases mem_insertEntry h with h | h
          · exact .inl h
          · exact .inr (List.mem_cons_of_mem _ h)

/-- Insertion keeps the order of the keys. -/
theorem ascending_insertEntry (k : String) (v : α) :
    ∀ {l : List (String × α)}, Ascending l → Ascending (insertEntry k v l)
  | [], _ => by simp [insertEntry, Ascending]
  | (k', v') :: rest, h => by
    obtain ⟨hHead, hRest⟩ := List.pairwise_cons.1 h
    rw [insertEntry]
    split
    · next hlt =>
      refine List.pairwise_cons.2 ⟨fun e he => ?_, h⟩
      rcases List.mem_cons.1 he with rfl | he
      · exact hlt
      · exact String.lt_trans hlt (hHead e he)
    · next hge =>
      split
      · next heq => exact List.pairwise_cons.2 ⟨fun e he => heq ▸ hHead e he, hRest⟩
      · next hne =>
        refine List.pairwise_cons.2 ⟨fun e he => ?_, ascending_insertEntry k v hRest⟩
        rcases mem_insertEntry he with rfl | he
        · exact Std.lt_of_le_of_ne (String.not_lt.1 hge) hne
        · exact hHead e he

/-- What a look-up finds after an insertion. -/
theorem lookup_insertEntry (k : String) (v : α) (q : String) :
    ∀ l : List (String × α), lookup q (insertEntry k v l) = if k = q then some v else lookup q l
  | [] => by simp [insertEntry, lookup]
  | (k', v') :: rest => by
    rw [insertEntry]
    split
    · simp [lookup]
    · split
      · next heq =>
        subst heq
        by_cases h : k' = q <;> simp [lookup, h]
      · next hne =>
        rw [lookup, lookup, lookup_insertEntry k v q rest]
        by_cases h : k = q
        · subst h
          simp [hne]
        · simp [h]

/-- What a look-up finds after an erasure. -/
theorem lookup_eraseEntry (k q : String) :
    ∀ l : List (String × α), lookup q (eraseEntry k l) = if k = q then none else lookup q l
  | [] => by simp [eraseEntry, lookup]
  | (k', v') :: rest => by
    have ih := lookup_eraseEntry k q rest
    rw [eraseEntry] at ih ⊢
    by_cases h : k' = k
    · subst h
      simp only [List.filter_cons, ne_eq, not_true_eq_false, decide_false, Bool.false_eq_true,
        if_false]
      rw [ih, lookup]
      by_cases h : k' = q <;> simp [h]
    · rw [List.filter_cons, if_pos (by simpa using h), lookup, lookup, ih]
      by_cases hq : k' = q
      · subst hq
        simp [Ne.symm h]
      · simp [hq]

theorem lookup_of_mem {k : String} {v : α} {l : List (String × α)} (hSorted : Ascending l)
    (h : (k, v) ∈ l) : lookup k l = some v := by
  induction l with
  | nil => cases h
  | cons e l ih =>
    obtain ⟨k', v'⟩ := e
    obtain ⟨hHead, hRest⟩ := List.pairwise_cons.mp hSorted
    rw [lookup]
    rcases List.mem_cons.mp h with hEq | hMem
    · cases hEq
      rw [if_pos rfl]
    · have hNe : k' ≠ k := by
        rintro rfl
        exact String.lt_irrefl _ (hHead (k', v) hMem)
      rw [if_neg hNe]
      exact ih hRest hMem

theorem mem_of_lookup {k : String} {v : α} {l : List (String × α)} (h : lookup k l = some v) :
    (k, v) ∈ l := by
  induction l with
  | nil => cases h
  | cons e l ih =>
    obtain ⟨k', v'⟩ := e
    rw [lookup] at h
    split at h
    · next hEq =>
      cases h
      subst hEq
      exact List.mem_cons_self
    · exact List.mem_cons_of_mem _ (ih h)

/-! ## Operations on dictionaries -/

/-- The dictionary without entries. -/
def empty : Dict α := ⟨[], List.Pairwise.nil⟩

instance : Inhabited (Dict α) := ⟨empty⟩

/-- The value under `k`. -/
def get? (d : Dict α) (k : String) : Option α := lookup k d.entries

/-- The dictionary with `v` under `k`, in place of what was there. -/
def insert (d : Dict α) (k : String) (v : α) : Dict α :=
  ⟨insertEntry k v d.entries, ascending_insertEntry k v d.sorted⟩

/-- The dictionary without what is under `k`. -/
def erase (d : Dict α) (k : String) : Dict α :=
  ⟨eraseEntry k d.entries, d.sorted.filter _⟩

/-- Whether there is a value under `k`. -/
def contains (d : Dict α) (k : String) : Bool := (d.get? k).isSome

/-- The keys in order. -/
def keys (d : Dict α) : List String := d.entries.map (·.1)

/-- The values in the order of their keys. -/
def values (d : Dict α) : List α := d.entries.map (·.2)

/-- The number of entries. -/
def size (d : Dict α) : Nat := d.entries.length

/-- Whether there are no entries. -/
def isEmpty (d : Dict α) : Bool := d.entries.isEmpty

/-- The entries of a list, a later one in place of an earlier one under the same key. -/
def ofList (l : List (String × α)) : Dict α :=
  l.foldl (fun d e => d.insert e.1 e.2) empty

/-- What a look-up finds after an insertion. -/
theorem get?_insert (d : Dict α) (k : String) (v : α) (q : String) :
    (d.insert k v).get? q = if k = q then some v else d.get? q :=
  lookup_insertEntry k v q d.entries

/-- What a look-up finds after an erasure. -/
theorem get?_erase (d : Dict α) (k q : String) :
    (d.erase k).get? q = if k = q then none else d.get? q :=
  lookup_eraseEntry k q d.entries

/-- The values are what look-ups find. -/
theorem mem_values_iff (d : Dict α) (v : α) : v ∈ d.values ↔ ∃ k, d.get? k = some v := by
  rw [values, List.mem_map]
  constructor
  · rintro ⟨⟨k, v'⟩, hMem, rfl⟩
    exact ⟨k, lookup_of_mem d.sorted hMem⟩
  · rintro ⟨k, h⟩
    exact ⟨(k, v), mem_of_lookup h, rfl⟩

end Dict

end Taskyard
