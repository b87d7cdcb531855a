import Mathlib.Data.List.DropRight
import Taskyard.Text.Blank

/-!
# Text — the ends of a text

A text begins with a run of a character, possibly an empty one, and what follows does not begin with
that character. In the same way it ends with a run. There is one such division at either end. With
blanks it is the same, except that they need not all be one character.

Main definitions and results:

* `Text.exists_leading`, `Text.exists_trailing` — the divisions.
* `Text.dropWhile_replicate_append`, `Text.rdropWhile_append_replicate` — they are the only ones.
* `Text.Trimmed` — what is left of a text without the blanks at its ends; `Text.trimmed_iff` for
  what is computed.
-/

namespace Taskyard.Text

variable {x : Char} {l : List Char}

/-! ## At the start -/

/-- What follows the run of a character at the start of a text. -/
theorem exists_leading (x : Char) (l : List Char) :
    ∃ k, l = List.replicate k x ++ l.dropWhile (· = x) := by
  induction l with
  | nil => exact ⟨0, rfl⟩
  | cons c l ih =>
    by_cases hRun : c = x
    · subst hRun
      obtain ⟨k, hRest⟩ := ih
      refine ⟨k + 1, ?_⟩
      rw [List.dropWhile_cons_of_pos (by simp), List.replicate_succ, List.cons_append, ← hRest]
    · exact ⟨0, by rw [List.dropWhile_cons_of_neg (by simpa using hRun)]; rfl⟩

/-- It does not begin with that character. -/
theorem head?_dropWhile_ne (x : Char) (l : List Char) : (l.dropWhile (· = x)).head? ≠ some x := by
  intro hHead
  have hNot := List.head?_dropWhile_not (· = x) l
  rw [hHead] at hNot
  simp at hNot

/-- A run in front of something else is all that is dropped. -/
theorem dropWhile_replicate_append (k : Nat) (h : l.head? ≠ some x) :
    (List.replicate k x ++ l).dropWhile (· = x) = l := by
  induction k with
  | zero =>
    rw [List.replicate_zero, List.nil_append]
    refine List.dropWhile_eq_self_iff.mpr fun hPos => ?_
    have hSome := List.ne_nil_of_length_pos hPos
    rw [List.head?_eq_some_head hSome] at h
    rw [← List.head_eq_getElem hSome]
    simpa using h
  | succ k ih =>
    rw [List.replicate_succ, List.cons_append, List.dropWhile_cons_of_pos (by simp), ih]

/-! ## At the end -/

/-- What precedes the run of a character at the end of a text. -/
theorem exists_trailing (x : Char) (l : List Char) :
    ∃ k, l = l.rdropWhile (· = x) ++ List.replicate k x := by
  obtain ⟨k, hRun⟩ := exists_leading x l.reverse
  refine ⟨k, ?_⟩
  have hBack := congrArg List.reverse hRun
  rwa [List.reverse_reverse, List.reverse_append, List.reverse_replicate] at hBack

/-- It does not end with that character. -/
theorem getLast?_rdropWhile_ne (x : Char) (l : List Char) :
    (l.rdropWhile (· = x)).getLast? ≠ some x := by
  rw [List.rdropWhile, List.getLast?_reverse]
  exact head?_dropWhile_ne x l.reverse

/-- A run at the end makes no difference to what is left. -/
theorem rdropWhile_append_replicate (l : List Char) (k : Nat) :
    (l ++ List.replicate k x).rdropWhile (· = x) = l.rdropWhile (· = x) := by
  induction k with
  | zero => rw [List.replicate_zero, List.append_nil]
  | succ k ih =>
    rw [List.replicate_succ', ← List.append_assoc, List.rdropWhile_concat_pos _ _ _ (by simp), ih]

/-! ## Blanks at both ends -/

variable {cs core after : List Char}

/-- What is left of a text without the blanks at its ends. -/
structure Trimmed (cs core : List Char) : Prop where
  /-- Around it are blanks. -/
  enclosed : ∃ before after, cs = before ++ core ++ after ∧
    (∀ c ∈ before, isBlank c) ∧ ∀ c ∈ after, isBlank c
  /-- It does not begin with a blank. -/
  begins   : ∀ c ∈ core.head?, isBlank c = false
  /-- It does not end with a blank. -/
  ends     : ∀ c ∈ core.getLast?, isBlank c = false

/-- Of a text that does not begin with a blank nothing is dropped. -/
theorem dropWhile_isBlank_eq_self (h : ∀ c ∈ l.head?, isBlank c = false) :
    l.dropWhile isBlank = l := by
  refine List.dropWhile_eq_self_iff.mpr fun hPos => ?_
  have hSome := List.ne_nil_of_length_pos hPos
  rw [← List.head_eq_getElem hSome, h _ (List.head?_eq_some_head hSome)]
  simp

theorem isBlank_head?_dropWhile (l : List Char) :
    ∀ c ∈ (l.dropWhile isBlank).head?, isBlank c = false := by
  intro c hHead
  have hNot := List.head?_dropWhile_not isBlank l
  rw [Option.mem_def.mp hHead] at hNot
  exact hNot

/-- Blanks are removed at the end as they are at the start of the text read backwards. -/
theorem dropBlanksEnd_append (hEnds : ∀ c ∈ core.getLast?, isBlank c = false)
    (hAfter : ∀ c ∈ after, isBlank c) : dropBlanksEnd (core ++ after) = core := by
  rw [dropBlanksEnd, List.reverse_append,
    List.dropWhile_append_of_pos fun c hc => hAfter c (List.mem_reverse.mp hc),
    dropWhile_isBlank_eq_self (by rwa [List.head?_reverse]), List.reverse_reverse]

theorem exists_blanksEnd (cs : List Char) :
    ∃ after, cs = dropBlanksEnd cs ++ after ∧ ∀ c ∈ after, isBlank c := by
  refine ⟨(cs.reverse.takeWhile isBlank).reverse, ?_, fun c hc => ?_⟩
  · rw [dropBlanksEnd, ← List.reverse_append, List.takeWhile_append_dropWhile,
      List.reverse_reverse]
  · exact List.mem_takeWhile_imp (List.mem_reverse.mp hc)

/-- **Trimming** leaves what has blanks around it and none at its ends. -/
theorem trimmed_iff : Trimmed cs core ↔ dropBlanksEnd (cs.dropWhile isBlank) = core := by
  constructor
  · rintro ⟨⟨before, after, rfl, hBefore, hAfter⟩, hBegins, hEnds⟩
    rw [List.append_assoc, List.dropWhile_append_of_pos hBefore]
    by_cases hNone : core = []
    · -- nothing but blanks: they are all removed at the start
      rw [hNone, List.nil_append, List.dropWhile_eq_nil_iff.mpr hAfter]
      rfl
    · have hFirst : (core ++ after).head? = core.head? := List.head?_append_of_ne_nil _ hNone
      rw [dropWhile_isBlank_eq_self (by rwa [hFirst]), dropBlanksEnd_append hEnds hAfter]
  · rintro rfl
    obtain ⟨after, hAfter, hBlanks⟩ := exists_blanksEnd (cs.dropWhile isBlank)
    refine ⟨⟨cs.takeWhile isBlank, after, ?_, fun c hc => List.mem_takeWhile_imp hc, hBlanks⟩,
      fun c hHead => ?_, fun c hLast => ?_⟩
    · rw [List.append_assoc, ← hAfter, List.takeWhile_append_dropWhile]
    · apply isBlank_head?_dropWhile cs
      rw [hAfter, List.head?_append, Option.mem_def.mp hHead]
      rfl
    · rw [dropBlanksEnd, List.getLast?_reverse] at hLast
      exact isBlank_head?_dropWhile _ c hLast

end Taskyard.Text
