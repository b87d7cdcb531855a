import Mathlib.Data.List.Basic

/-!
# Where an element stands in a list that has grown

A history grows at its end. What stands somewhere in it is what came last, or it stood there before.

Main results:

* `concat_eq_append_cons_iff` — the splits of a list with one more element.
-/

namespace Taskyard

/-- A list with one more element is split at that one, or where it could be split before. -/
theorem concat_eq_append_cons_iff {α : Type} {xs before later : List α} {x y : α} :
    xs ++ [y] = before ++ x :: later ↔
      (xs = before ∧ y = x ∧ later = []) ∨
        ∃ rest, xs = before ++ x :: rest ∧ later = rest ++ [y] := by
  constructor
  · intro hSplit
    rcases List.eq_nil_or_concat later with rfl | ⟨rest, z, rfl⟩
    · obtain ⟨hSame, hLast⟩ := List.append_inj' hSplit rfl
      exact .inl ⟨hSame, (List.cons.inj hLast).1, rfl⟩
    · rw [List.concat_eq_append, ← List.cons_append, ← List.append_assoc] at hSplit
      obtain ⟨hBefore, hLast⟩ := List.append_inj' hSplit rfl
      obtain rfl := (List.cons.inj hLast).1
      exact .inr ⟨rest, hBefore, List.concat_eq_append ..⟩
  · rintro (⟨rfl, rfl, rfl⟩ | ⟨rest, rfl, rfl⟩)
    · rfl
    · rw [List.append_assoc, List.cons_append]

end Taskyard
