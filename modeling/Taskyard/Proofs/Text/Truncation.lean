import Taskyard.Text.Utf8

/-!
# Text — a text that is cut

A text is cut between two of its characters. The place is found by going back from the limit, byte
by byte. The search ends, since the start of a text is such a place; it does not end too early,
since every byte that it leaves behind is inside a character; and it is short, since a character has
at most four bytes.

Main definitions and results:

* `Text.boundaryFrom_spec` — what the search finds.
* `Text.exists_boundary` — no place is more than three bytes away from one where a text can be cut.
* `Text.Cut` — what is left of a text that is too long; `Text.truncation` for all texts and limits.
-/

namespace Taskyard.Text

variable {s : String} {i j limit : Nat}

/-- A text can be cut before its byte `i`. -/
abbrev Boundary (s : String) (i : Nat) : Prop := String.Pos.Raw.IsValid s ⟨i⟩

/-! ## Places where a text can be cut -/

/-- A text is cut after one of its leading parts. -/
theorem boundary_iff : Boundary s i ↔ ∃ start rest, s = start ++ rest ∧ start.utf8ByteSize = i := by
  rw [Boundary, String.Pos.Raw.isValid_iff_exists_append]
  constructor
  · rintro ⟨start, rest, hSplit, hPlace⟩
    exact ⟨start, rest, hSplit, (congrArg String.Pos.Raw.byteIdx hPlace).symm⟩
  · rintro ⟨start, rest, hSplit, rfl⟩
    exact ⟨start, rest, hSplit, rfl⟩

theorem boundary_zero (s : String) : Boundary s 0 :=
  boundary_iff.mpr ⟨"", s, by simp, by simp⟩

/-- **Close to every place** a text can be cut: a character has at most four bytes. -/
theorem exists_boundary (h : i ≤ s.utf8ByteSize) : ∃ j ≤ i, i < j + 4 ∧ Boundary s j := by
  -- by the characters of the text, of which the first either covers the place or is before it
  obtain ⟨cs, rfl⟩ := s.exists_eq_ofList
  induction cs generalizing i with
  | nil =>
    obtain rfl : i = 0 := by simpa using h
    exact ⟨0, Nat.le_refl _, by omega, boundary_zero _⟩
  | cons c cs ih =>
    have hSplit : String.ofList (c :: cs) = String.ofList [c] ++ String.ofList cs := by
      rw [← String.ofList_append, List.singleton_append]
    have hFirst : (String.ofList [c]).utf8ByteSize = c.utf8Size := by simp
    have hWidth := c.utf8Size_le_four
    by_cases hInside : i < c.utf8Size
    · exact ⟨0, by omega, by omega, boundary_zero _⟩
    · rw [hSplit, String.utf8ByteSize_append, hFirst] at h
      obtain ⟨j, hBefore, hNear, hBoundary⟩ := @ih (i - c.utf8Size) (by omega)
      obtain ⟨start, rest, hRest, hSize⟩ := boundary_iff.mp hBoundary
      refine ⟨c.utf8Size + j, by omega, by omega, boundary_iff.mpr ?_⟩
      refine ⟨String.ofList [c] ++ start, rest, ?_, ?_⟩
      · rw [hSplit, hRest, String.append_assoc]
      · rw [String.utf8ByteSize_append, hFirst, hSize]

/-! ## The search -/

/-- **The search ends** at the last place at or before its start where the text can be cut. -/
theorem boundaryFrom_spec (s : String) (i : Nat) :
    ∃ j ≤ i, boundaryFrom s i = .ok j ∧ Boundary s j ∧ ∀ k ≤ i, Boundary s k → k ≤ j := by
  induction i with
  | zero =>
    have hStart : String.Pos.Raw.isValid s ⟨0⟩ = true :=
      String.Pos.Raw.isValid_eq_true_iff.mpr (boundary_zero s)
    refine ⟨0, Nat.le_refl _, ?_, boundary_zero s, fun k hk _ => hk⟩
    rw [boundaryFrom, if_pos hStart]
  | succ i ih =>
    by_cases hHere : String.Pos.Raw.isValid s ⟨i + 1⟩ = true
    · refine ⟨i + 1, Nat.le_refl _, ?_, String.Pos.Raw.isValid_eq_true_iff.mp hHere,
        fun k hk _ => hk⟩
      rw [boundaryFrom, if_pos hHere]
    · obtain ⟨j, hBefore, hFound, hBoundary, hLast⟩ := ih
      refine ⟨j, by omega, ?_, hBoundary, fun k hk hCut => hLast k ?_ hCut⟩
      · rw [boundaryFrom, if_neg hHere]
        exact hFound
      · -- the place that was left behind is not one where the text can be cut
        have hOther : k ≠ i + 1 := by
          rintro rfl
          exact hHere (String.Pos.Raw.isValid_eq_true_iff.mpr hCut)
        omega

/-- Up to a place where a text can be cut there is a leading part of it, and it is found. -/
theorem leadingBytes_spec (h : Boundary s i) :
    ∃ start rest, leadingBytes s i = .ok start ∧ s = start ++ rest ∧ start.utf8ByteSize = i := by
  let place : s.Pos := ⟨⟨i⟩, h⟩
  refine ⟨(s.sliceTo place).copy, (s.sliceFrom place).copy, ?_, place.splits.eq_append, ?_⟩
  · rw [leadingBytes, dif_pos h]
  · exact (congrArg String.Pos.Raw.byteIdx place.splits.offset_eq_rawEndPos).symm

/-! ## Cut texts -/

/-- What is left of a text that has more than `limit` bytes. -/
structure Cut (limit : Nat) (s start : String) : Prop where
  /-- It is a leading part of the text: no character is cut in two. -/
  leading : ∃ rest, s = start ++ rest
  /-- It has at most `limit` bytes. -/
  fits    : start.utf8ByteSize ≤ limit
  /-- No place up to `limit` where the text can be cut is behind it. -/
  longest : ∀ i ≤ limit, Boundary s i → i ≤ start.utf8ByteSize
  /-- At most three bytes below the limit are given up. -/
  close   : limit ≤ start.utf8ByteSize + 3

/-- What can be said of a text and a limit. -/
structure Truncation (limit : Nat) (s : String) : Prop where
  /-- A text that fits is left as it is. -/
  short : s.utf8ByteSize ≤ limit → truncate limit s = .ok s
  /-- Any other text is cut, which never fails, and marked. -/
  long  : limit < s.utf8ByteSize →
    ∃ start, truncate limit s = .ok (start ++ "...[truncated]") ∧ Cut limit s start

/-- **Cutting is safe and gives up as little as possible**: `truncate`, for every text and every
limit. -/
theorem truncation (limit : Nat) (s : String) : Truncation limit s where
  short hFits := by rw [truncate, if_pos hFits]
  long hLong := by
    obtain ⟨i, hBefore, hFound, hBoundary, hLast⟩ := boundaryFrom_spec s limit
    obtain ⟨start, rest, hStart, hSplit, hSize⟩ := leadingBytes_spec hBoundary
    refine ⟨start, ?_, ⟨rest, hSplit⟩, by omega, fun k hk hCut => hSize ▸ hLast k hk hCut, ?_⟩
    · rw [truncate, if_neg (by omega), hFound]
      change (leadingBytes s i).map (· ++ cutMark) = _
      rw [hStart]
      rfl
    · -- the place close to the limit is one of those that the search cannot miss
      obtain ⟨j, hAtMost, hNear, hCut⟩ := exists_boundary (Nat.le_of_lt hLong)
      have hFar := hLast j hAtMost hCut
      omega

example : truncate 2 "héllo" = .ok "h...[truncated]" := by rfl

end Taskyard.Text
