import Taskyard.Proofs.Decimal.Rounding

/-!
# Decimal — the order of values

Magnitudes are ordered as their patterns are: a binade begins where the one below it ends, and
within a binade the fraction decides. So the tests of patterns that restrict a value to the
interval from zero to one are comparisons of rational numbers.

Main definitions and results:

* `Binary.magnitude_le_iff` — the order of magnitudes is that of patterns.
* `Binary.value` — the rational number that a finite value stands for.
* `Binary.value_clampUnit` — the restriction is to the lesser of one and the value, and not below
  zero.
* `Binary.inUnit_iff` — what it means to lie between zero and one.
-/

namespace Taskyard.Decimal.Binary

variable {f : Format} {x y : Binary f}

/-! ## Binades -/

/-- A magnitude stays below the next binade. -/
theorem magnitude_lt_binade (x : Binary f) : x.magnitude <
    2 ^ f.fractionBits * 2 ^ (f.minExponent + (x.pattern.toNat / 2 ^ f.fractionBits : Nat)) := by
  have hFraction : x.pattern.toNat % 2 ^ f.fractionBits < 2 ^ f.fractionBits :=
    Nat.mod_lt _ (Nat.two_pow_pos _)
  have hCast : ((x.pattern.toNat % 2 ^ f.fractionBits : Nat) : ℚ) < 2 ^ f.fractionBits := by
    exact_mod_cast hFraction
  rw [magnitude_eq, scaled_eq]
  split
  -- a subnormal value has no leading one, any other has one before its fraction
  · next hField =>
    rw [hField, Nat.cast_zero, add_zero]
    exact mul_lt_mul_of_pos_right hCast (zpow_pos two_pos _)
  · have hNext : (2 : ℚ) ^ (f.minExponent + (x.pattern.toNat / 2 ^ f.fractionBits : Nat)) =
        2 * 2 ^ (f.minExponent + ((x.pattern.toNat / 2 ^ f.fractionBits : Nat) - 1 : Int)) := by
      rw [← zpow_one_add₀ two_ne_zero]
      congr 1
      ring
    rw [hNext, ← mul_assoc]
    refine mul_lt_mul_of_pos_right ?_ (zpow_pos two_pos _)
    push_cast
    linarith

/-- A magnitude in a binade of normal values is at least its beginning. -/
theorem binade_le_magnitude (h : 0 < x.pattern.toNat / 2 ^ f.fractionBits) :
    2 ^ f.fractionBits *
        2 ^ (f.minExponent + ((x.pattern.toNat / 2 ^ f.fractionBits : Nat) - 1 : Int)) ≤
      x.magnitude := by
  have hFraction : (0 : ℚ) ≤ (x.pattern.toNat % 2 ^ f.fractionBits : Nat) := Nat.cast_nonneg _
  rw [magnitude_eq, scaled_eq, if_neg h.ne']
  refine mul_le_mul_of_nonneg_right ?_ (zpow_pos two_pos _).le
  push_cast
  linarith

theorem magnitude_congr (h : x.pattern.toNat = y.pattern.toNat) : x.magnitude = y.magnitude := by
  rw [magnitude_eq, magnitude_eq, scaled_eq, scaled_eq, h]

/-- **A greater pattern has a greater magnitude.** -/
theorem magnitude_lt (h : x.pattern.toNat < y.pattern.toNat) : x.magnitude < y.magnitude := by
  have hFields : x.pattern.toNat / 2 ^ f.fractionBits ≤ y.pattern.toNat / 2 ^ f.fractionBits :=
    Nat.div_le_div_right h.le
  rcases hFields.lt_or_eq with hLess | hSame
  · -- the beginning of the binade of `y` lies between them
    calc x.magnitude
        < 2 ^ f.fractionBits *
            2 ^ (f.minExponent + (x.pattern.toNat / 2 ^ f.fractionBits : Nat)) :=
          magnitude_lt_binade x
      _ ≤ 2 ^ f.fractionBits *
            2 ^ (f.minExponent + ((y.pattern.toNat / 2 ^ f.fractionBits : Nat) - 1 : Int)) := by
          gcongr
          · exact one_le_two
          · omega
      _ ≤ y.magnitude := binade_le_magnitude (Nat.zero_lt_of_lt hLess)
  · -- in one binade the fractions differ as the patterns do
    have hFractions : x.pattern.toNat % 2 ^ f.fractionBits <
        y.pattern.toNat % 2 ^ f.fractionBits := by
      have hx := Nat.div_add_mod x.pattern.toNat (2 ^ f.fractionBits)
      have hy := Nat.div_add_mod y.pattern.toNat (2 ^ f.fractionBits)
      rw [hSame] at hx
      omega
    rw [magnitude_eq, magnitude_eq, scaled_eq, scaled_eq, hSame]
    split
    · gcongr
    · dsimp only
      gcongr

/-- Magnitudes are ordered as the patterns they are stored in. -/
theorem magnitude_le_iff : x.magnitude ≤ y.magnitude ↔ x.pattern.toNat ≤ y.pattern.toNat := by
  constructor
  · intro h
    by_contra hNot
    exact absurd h (not_le.mpr (magnitude_lt (not_le.mp hNot)))
  · intro h
    rcases h.lt_or_eq with hLess | hSame
    · exact (magnitude_lt hLess).le
    · exact (magnitude_congr hSame).le

/-! ## Zero and one -/

section Unit

variable (hBits : 2 ≤ f.exponentBits)
include hBits

theorem toNat_zero : (zero f).pattern.toNat = 0 := toNat_ofPattern (infinityPattern_pos f hBits)

/-- Only the zero pattern has the magnitude 0. -/
theorem magnitude_eq_zero_iff : x.magnitude = 0 ↔ x.pattern.toNat = 0 := by
  have hZero : (ofPattern f false 0).pattern.toNat = 0 := toNat_zero hBits
  rw [← magnitude_zero false hBits]
  constructor
  · intro h
    have hLe := magnitude_le_iff.mp h.le
    omega
  · intro h
    exact magnitude_congr (h.trans hZero.symm)

/-- The pattern of 1 is that of a finite number. -/
theorem onePattern_lt : f.onePattern < f.infinityPattern := by
  have hHalf : 2 ^ f.exponentBits = 2 ^ (f.exponentBits - 1) * 2 := by
    rw [← pow_succ]
    congr 1
    omega
  have hPos : 0 < 2 ^ (f.exponentBits - 1) := Nat.two_pow_pos _
  rw [infinityPattern_eq, Format.onePattern, Nat.one_shiftLeft, Nat.shiftLeft_eq, hHalf]
  exact Nat.mul_lt_mul_of_pos_right (by omega) (Nat.two_pow_pos _)

theorem toNat_one : (one f).pattern.toNat = f.onePattern := toNat_ofPattern (onePattern_lt hBits)

/-- The pattern of 1 has the magnitude 1, in either format. -/
theorem magnitude_one : (one f).magnitude = 1 := by
  -- one is the beginning of its binade
  have hTwo : 2 ^ 1 ≤ 2 ^ (f.exponentBits - 1) := Nat.pow_le_pow_right two_pos (by omega)
  obtain ⟨k, hk⟩ : ∃ k, 2 ^ (f.exponentBits - 1) = k + 2 := ⟨_, (Nat.sub_add_cancel hTwo).symm⟩
  have hPattern : f.onePattern = k * 2 ^ f.fractionBits + 2 ^ f.fractionBits := by
    rw [Format.onePattern, Nat.one_shiftLeft, Nat.shiftLeft_eq, hk, ← Nat.succ_mul]
    rfl
  have hFits : Fits f k (2 ^ f.fractionBits) :=
    ⟨Nat.pow_le_pow_right two_pos (Nat.le_succ _), Or.inr le_rfl⟩
  have hFinite := onePattern_lt hBits
  rw [hPattern] at hFinite
  rw [one, hPattern, magnitude_ofPattern hFits hFinite, Format.minExponent, Nat.one_shiftLeft, hk]
  push_cast
  rw [← zpow_natCast (2 : ℚ) f.fractionBits, ← zpow_add₀ two_ne_zero, ← zpow_zero (2 : ℚ)]
  congr 1
  ring

theorem magnitude_le_one_iff : x.magnitude ≤ 1 ↔ x.pattern.toNat ≤ f.onePattern := by
  rw [← magnitude_one hBits, magnitude_le_iff, toNat_one hBits]

end Unit

/-! ## Values -/

/-- The rational number that a finite value stands for. An infinite one gets the next power of
two. -/
def value (x : Binary f) : ℚ := if x.negative then -x.magnitude else x.magnitude

section Values

variable (hBits : 2 ≤ f.exponentBits)
include hBits

theorem value_zero : (zero f).value = 0 := by
  rw [value, zero, magnitude_zero false hBits, neg_zero, ite_self]

theorem value_one : (one f).value = 1 := by
  rw [value, magnitude_one hBits]
  rfl

/-- A value lies between zero and one if it is a finite one and its rational number does. -/
theorem inUnit_iff : x.InUnit ↔ x.isFinite = true ∧ 0 ≤ x.value ∧ x.value ≤ 1 := by
  have hNonneg := magnitude_nonneg x
  have hOne := onePattern_lt hBits
  rw [InUnit, isFinite, decide_eq_true_eq, isNaN, decide_eq_false_iff_not, value]
  cases x.negative with
  | false =>
    simp only [Bool.false_eq_true, if_false, true_and, hNonneg, magnitude_le_one_iff hBits]
    omega
  | true =>
    -- with the sign bit set only zero lies in the interval
    simp only [Bool.true_eq_false, if_true, false_and, or_false]
    constructor
    · rintro ⟨-, hZero⟩
      rw [(magnitude_eq_zero_iff hBits).mpr hZero]
      exact ⟨by omega, by norm_num, by norm_num⟩
    · rintro ⟨hFinite, hValue, -⟩
      exact ⟨by omega, (magnitude_eq_zero_iff hBits).mp (by linarith)⟩

/-- What the restriction does: to what is below zero, to what is above one, and to the rest. -/
theorem clampUnit_cases (h : x.isNaN = false) :
    (x.value < 0 ∧ x.clampUnit = zero f) ∨ (1 < x.value ∧ x.clampUnit = one f) ∨
      (x.InUnit ∧ x.clampUnit = x) := by
  have hNonneg := magnitude_nonneg x
  rw [clampUnit, h, if_neg Bool.false_ne_true, value]
  -- below zero is a negative sign but for the two zeros; above one is a greater pattern
  cases hSign : x.negative with
  | true =>
    by_cases hZero : x.pattern.toNat = 0
    · exact .inr (.inr ⟨⟨h, .inl hZero⟩, by simp [isZero, hZero]⟩)
    · have hPos : x.magnitude ≠ 0 := mt (magnitude_eq_zero_iff hBits).mp hZero
      exact .inl ⟨neg_neg_of_pos (hNonneg.lt_of_ne' hPos), by simp [isZero, hZero]⟩
  | false =>
    by_cases hAbove : f.onePattern < x.pattern.toNat
    · have hMore : ¬x.magnitude ≤ 1 := mt (magnitude_le_one_iff hBits).mp (not_le.mpr hAbove)
      exact .inr (.inl ⟨not_le.mp hMore, by simp [hAbove]⟩)
    · exact .inr (.inr ⟨⟨h, .inr ⟨hSign, not_lt.mp hAbove⟩⟩, by simp [hAbove]⟩)

/-- The restriction of what is a number is to the lesser of one and the number, and not below
zero. -/
theorem value_clampUnit (h : x.isNaN = false) : x.clampUnit.value = max 0 (min 1 x.value) := by
  rcases clampUnit_cases hBits h with ⟨hBelow, hClamp⟩ | ⟨hAbove, hClamp⟩ | ⟨hIn, hClamp⟩
  · rw [hClamp, value_zero hBits, min_eq_right (by linarith), max_eq_left hBelow.le]
  · rw [hClamp, value_one hBits, min_eq_left hAbove.le, max_eq_right zero_le_one]
  · obtain ⟨-, hLow, hHigh⟩ := (inUnit_iff hBits).mp hIn
    rw [hClamp, min_eq_right hHigh, max_eq_right hLow]

/-- The progress of a new task is within the unit interval. -/
theorem inUnit_zero : (zero f).InUnit := by
  have hPattern := toNat_zero hBits
  exact ⟨by simp [isNaN, hPattern], .inl hPattern⟩

/-- The progress of a finished task is within the unit interval. -/
theorem inUnit_one : (one f).InUnit := by
  have hPattern := toNat_one hBits
  have hNumber := onePattern_lt hBits
  exact ⟨by simp [isNaN, hPattern, hNumber.le], .inr ⟨rfl, hPattern.le⟩⟩

/-- What is a number lies between zero and one after the restriction. -/
theorem inUnit_clampUnit (h : x.isNaN = false) : x.clampUnit.InUnit := by
  rcases clampUnit_cases hBits h with ⟨-, hClamp⟩ | ⟨-, hClamp⟩ | ⟨hIn, hClamp⟩
  · exact hClamp ▸ inUnit_zero hBits
  · exact hClamp ▸ inUnit_one hBits
  · exact hClamp.symm ▸ hIn

end Values

end Taskyard.Decimal.Binary
