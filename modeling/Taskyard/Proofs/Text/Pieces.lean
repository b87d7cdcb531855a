import Mathlib.Data.List.TakeWhile
import Taskyard.Text.Split

/-!
# Text — separators

A text is broken at the first separator, or split at all of them. Both can be said without a reader
that goes through the text: by where the separators are.

Main results:

* `Text.breakOnce_eq_some_iff`, `Text.breakOnce_eq_none_iff` — breaking at the first separator.
* `Text.pieces_eq_splitOn` — splitting at all of them.
* `Text.getLast?_splitOn` — the last piece.
-/

namespace Taskyard.Text

variable {sep : Char} {cs before after : List Char}

/-! ## The first separator -/

/-- A text is broken at the first separator. -/
theorem breakOnce_append (h : sep ∉ before) (after : List Char) :
    breakOnce sep (before ++ sep :: after) = some (before, after) := by
  induction before with
  | nil => rw [List.nil_append, breakOnce, if_pos rfl]
  | cons c before ih =>
    rw [List.mem_cons, not_or] at h
    rw [List.cons_append, breakOnce, if_neg (Ne.symm h.1), ih h.2]
    rfl

/-- A text is whole exactly if it has no separator. -/
theorem breakOnce_eq_none_iff : breakOnce sep cs = none ↔ sep ∉ cs := by
  induction cs with
  | nil => simp [breakOnce]
  | cons c cs ih =>
    by_cases hHere : c = sep
    · simp [breakOnce, hHere]
    · rw [breakOnce, if_neg hHere, Option.map_eq_none_iff, ih, List.mem_cons, not_or]
      exact (and_iff_right (Ne.symm hHere)).symm

/-- **A text is broken** where the first separator is. -/
theorem breakOnce_eq_some_iff :
    breakOnce sep cs = some (before, after) ↔ cs = before ++ sep :: after ∧ sep ∉ before := by
  constructor
  · intro hBroken
    have hMem : sep ∈ cs := by
      by_contra hNone
      rw [breakOnce_eq_none_iff.mpr hNone] at hBroken
      cases hBroken
    -- the first separator is where the text is broken, and there is only one first
    obtain ⟨start, rest, rfl, hFirst⟩ := List.eq_append_cons_of_mem hMem
    rw [breakOnce_append hFirst, Option.some.injEq, Prod.mk.injEq] at hBroken
    obtain ⟨rfl, rfl⟩ := hBroken
    exact ⟨rfl, hFirst⟩
  · rintro ⟨rfl, hFirst⟩
    exact breakOnce_append hFirst after

/-! ## All separators -/

/-- The pieces of a text are those of `List.splitOn`. -/
theorem pieces_eq_splitOn (sep : Char) (cs : List Char) : pieces sep cs = cs.splitOn sep := by
  induction cs with
  | nil => rw [pieces, List.splitOn_nil]
  | cons c cs ih =>
    rw [pieces, List.splitOn_cons_eq_if_modifyHead, ih]
    by_cases hHere : c = sep
    · rw [if_pos hHere, if_pos (by simpa using hHere)]
    · rw [if_neg hHere, if_neg (by simpa using hHere)]
      cases hRest : cs.splitOn sep with
      | nil => exact absurd hRest (List.splitOn_ne_nil sep cs)
      | cons p ps => rfl

theorem takeWhile_ne_append (h : sep ∉ before) (after : List Char) :
    (before ++ sep :: after).takeWhile (· ≠ sep) = before := by
  rw [List.takeWhile_append_of_pos, List.takeWhile_cons_of_neg (by simp), List.append_nil]
  intro c hc
  simpa using ne_of_mem_of_not_mem hc h

/-- The last piece is what stands behind the last separator. -/
theorem getLast?_splitOn (sep : Char) (cs : List Char) :
    (cs.splitOn sep).getLast? = some (cs.reverse.takeWhile (· ≠ sep)).reverse := by
  by_cases hMem : sep ∈ cs.reverse
  · -- read from the end, the last separator is the first one
    obtain ⟨last, rest, hSplit, hFirst⟩ := List.eq_append_cons_of_mem hMem
    have hText : cs = rest.reverse ++ sep :: last.reverse := by
      rw [← List.reverse_reverse cs, hSplit, List.reverse_append, List.reverse_cons,
        List.append_assoc, List.singleton_append]
    have hLast : last.reverse.splitOn sep = [last.reverse] :=
      List.splitOn_eq_singleton (by simpa using hFirst)
    rw [hSplit, takeWhile_ne_append hFirst, hText, List.splitOn_append_cons_self, hLast,
      List.getLast?_concat]
  · have hOnly : cs.splitOn sep = [cs] := List.splitOn_eq_singleton (by simpa using hMem)
    have hAll : cs.reverse.takeWhile (· ≠ sep) = cs.reverse :=
      List.takeWhile_eq_self_iff.mpr fun c hc => by simpa using ne_of_mem_of_not_mem hc hMem
    rw [hAll, hOnly, List.reverse_reverse, List.getLast?_singleton]

end Taskyard.Text
