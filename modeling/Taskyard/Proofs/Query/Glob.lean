import Mathlib.Data.List.Infix
import Taskyard.Proofs.Text.Ends
import Taskyard.Query.Glob

/-!
# Query — the texts that a pattern matches

A pattern is a core between two runs of stars. It matches the texts that are made of the core with
something before it and something after it, nothing where the pattern has no stars. Whether the
stars at an end are one or many makes no difference, and a star in the core is a character like all
others.

Main definitions and results:

* `Glob.matchesChars_iff` — what a pattern matches.
* `Glob.exists_core`, `Glob.core_eq` — the core of a pattern and its runs of stars.
* `Glob.Language` — what can be said of the texts that a pattern matches; `Glob.language` for every
  pattern.
-/

namespace Taskyard.Glob

variable {part pattern value : List Char}

/-! ## The core -/

/-- A pattern is its core between two runs of stars. The core has none at its ends. -/
theorem exists_core (pattern : List Char) :
    (∃ i j, pattern = List.replicate i '*' ++ core pattern ++ List.replicate j '*') ∧
      (core pattern).head? ≠ some '*' ∧ (core pattern).getLast? ≠ some '*' := by
  obtain ⟨i, hLeading⟩ := Text.exists_leading '*' pattern
  obtain ⟨j, hTrailing⟩ := Text.exists_trailing '*' (pattern.dropWhile (· = '*'))
  refine ⟨⟨i, j, ?_⟩, fun hHead => ?_, Text.getLast?_rdropWhile_ne '*' _⟩
  · rw [List.append_assoc]
    exact hLeading.trans (congrArg _ hTrailing)
  · -- what the core starts with is what the pattern goes on with after its first stars
    apply Text.head?_dropWhile_ne '*' pattern
    rw [hTrailing, List.head?_append]
    exact congrArg (Option.or · _) hHead

theorem core_replicate (k : Nat) : core (List.replicate k '*') = [] := by
  have hNone : (List.replicate k '*').dropWhile (· = '*') = [] := by simp
  rw [core, hNone]
  rfl

/-- Only the core of a pattern lies in this way between runs of stars. -/
theorem core_eq {i j : Nat} (hHead : part.head? ≠ some '*') (hLast : part.getLast? ≠ some '*') :
    core (List.replicate i '*' ++ part ++ List.replicate j '*') = part := by
  by_cases hEmpty : part = []
  · rw [hEmpty, List.append_nil, List.replicate_append_replicate, core_replicate]
  · have hRest : (part ++ List.replicate j '*').head? ≠ some '*' := by
      rwa [List.head?_append_of_ne_nil _ hEmpty]
    rw [List.append_assoc, core, Text.dropWhile_replicate_append i hRest]
    refine (Text.rdropWhile_append_replicate part j).trans ?_
    refine List.rdropWhile_eq_self_iff.mpr fun hSome => ?_
    simpa [List.getLast?_eq_some_getLast hSome] using hLast

/-- A pattern without stars at its ends is its own core. -/
theorem core_eq_self (hHead : pattern.head? ≠ some '*') (hLast : pattern.getLast? ≠ some '*') :
    core pattern = pattern := by
  simpa using core_eq (i := 0) (j := 0) hHead hLast

/-! ## What is matched -/

theorem occursIn_iff : occursIn part value = true ↔ part <:+: value := by
  induction value with
  | nil => simp [occursIn]
  | cons c value ih =>
    rw [occursIn, Bool.or_eq_true, List.isPrefixOf_iff_prefix, ih, List.infix_cons_iff]

/-- **A pattern matches** what has its core in it, with something before and after it only where the
pattern has stars. -/
theorem matchesChars_iff (pattern value : List Char) :
    matchesChars pattern value = true ↔
      ∃ before later, value = before ++ core pattern ++ later ∧
        (before = [] ∨ pattern.head? = some '*') ∧
        (later = [] ∨ pattern.getLast? = some '*') := by
  rw [matchesChars]
  split
  · next hStar =>
    subst hStar
    exact ⟨fun _ => ⟨[], value, rfl, .inl rfl, .inr rfl⟩, fun _ => rfl⟩
  · cases hHead : pattern.head? == some '*' <;> cases hLast : pattern.getLast? == some '*'
    · -- no stars: the pattern is its own core, and nothing may stand around it
      have hNoHead : pattern.head? ≠ some '*' := by simpa using hHead
      have hNoLast : pattern.getLast? ≠ some '*' := by simpa using hLast
      simp [hNoHead, hNoLast, core_eq_self hNoHead hNoLast]
    -- stars on one side: the core has to come first, or last
    · have hNoHead : pattern.head? ≠ some '*' := by simpa using hHead
      have hStars : pattern.getLast? = some '*' := by simpa using hLast
      simp [hNoHead, hStars, List.prefix_iff_exists_eq_append]
    · have hStars : pattern.head? = some '*' := by simpa using hHead
      have hNoLast : pattern.getLast? ≠ some '*' := by simpa using hLast
      simp [hStars, hNoLast, List.suffix_iff_exists_eq_append]
    -- stars on both sides: the core may stand anywhere
    · have hFirst : pattern.head? = some '*' := by simpa using hHead
      have hStars : pattern.getLast? = some '*' := by simpa using hLast
      simp only [hFirst, hStars, occursIn_iff, or_true, and_true]
      exact ⟨fun ⟨before, later, h⟩ => ⟨before, later, h.symm⟩,
        fun ⟨before, later, h⟩ => ⟨before, later, h.symm⟩⟩

/-- What can be said of the texts that a pattern matches. -/
structure Language (pattern : String) : Prop where
  /-- The pattern is its core between two runs of stars, and the core has none at its ends. -/
  core    : ∃ i j, pattern.toList =
    List.replicate i '*' ++ core pattern.toList ++ List.replicate j '*' ∧
      (core pattern.toList).head? ≠ some '*' ∧ (core pattern.toList).getLast? ≠ some '*'
  /-- No other part of the pattern is its core. -/
  unique  : ∀ i j part, pattern.toList =
    List.replicate i '*' ++ part ++ List.replicate j '*' → part.head? ≠ some '*' →
      part.getLast? ≠ some '*' → part = Glob.core pattern.toList
  /-- A text is matched exactly if it is the core, stars in it included, with something before it
  only if the pattern starts with a star, and something after it only if the pattern ends with
  one. -/
  accepts : ∀ value : String, «matches» pattern value = true ↔
    ∃ before later, value.toList = before ++ Glob.core pattern.toList ++ later ∧
      (before = [] ∨ pattern.toList.head? = some '*') ∧
      (later = [] ∨ pattern.toList.getLast? = some '*')
  /-- A pattern of nothing but stars matches every text. -/
  all     : pattern ≠ "" → (∀ c ∈ pattern.toList, c = '*') →
    ∀ value, «matches» pattern value = true

/-- **The language of a pattern** of `glob_match` is that of its core and its stars, whatever the
pattern. -/
theorem language (pattern : String) : Language pattern where
  core := by
    obtain ⟨⟨i, j, hPattern⟩, hHead, hLast⟩ := exists_core pattern.toList
    exact ⟨i, j, hPattern, hHead, hLast⟩
  unique i j part hPattern hHead hLast := by rw [hPattern, core_eq hHead hLast]
  accepts value := matchesChars_iff pattern.toList value.toList
  all hSome hStars value := by
    have hPattern : pattern.toList = List.replicate pattern.toList.length '*' :=
      List.eq_replicate_iff.mpr ⟨rfl, hStars⟩
    have hFirst : pattern.toList.head? = some '*' := by
      cases hList : pattern.toList with
      | nil => exact absurd (String.toList_eq_nil_iff.mp hList) hSome
      | cons c cs => exact congrArg some (hStars c (by simp [hList]))
    -- nothing is left between the stars, so the whole value may stand before it
    refine (matchesChars_iff pattern.toList value.toList).mpr ⟨value.toList, [], ?_, .inr hFirst,
      .inl rfl⟩
    rw [hPattern, core_replicate, List.append_nil, List.append_nil]

end Taskyard.Glob
