import Taskyard.Decimal.Shortest
import Taskyard.Proofs.Decimal.Rounding

/-!
# Decimal — the shortest digits stay within the rounding interval

The search for the shortest digits ends with a decimal that is not zero and not above the upper end
of the interval of the numbers that round to the value.

Main results:

* `Scientific.magnitude` — the value of a decimal.
* `Binary.shortest_digits_ne` — the shortest digits are not all zero.
* `Binary.magnitude_shortest_le` — their value is at most half a step above the value.
-/

namespace Taskyard.Decimal

/-- The value of a decimal. -/
def Scientific.magnitude (d : Scientific) : ℚ := d.digits * 10 ^ d.exponent

namespace Scientific

theorem quotient_pos (d : Scientific) : 0 < d.quotient.2 := by
  rw [quotient]
  split
  · exact Nat.pow_pos (by omega)
  · exact Nat.one_pos

/-- A decimal's fraction has its magnitude. -/
theorem quotient_eq (d : Scientific) : (d.quotient.1 : ℚ) / d.quotient.2 = d.magnitude := by
  have hPow : ∀ e : Int, 0 ≤ e → ((Nat.pow 10 e.toNat : Nat) : ℚ) = 10 ^ e := by
    intro e he
    rw [Nat.pow_eq]
    push_cast
    rw [← zpow_natCast, Int.toNat_of_nonneg he]
  rw [quotient, magnitude]
  -- a negative exponent goes to the denominator
  split
  · next h =>
    dsimp only
    rw [hPow _ (by omega), zpow_neg, div_inv_eq_mul]
  · next h =>
    dsimp only
    push_cast
    rw [hPow _ (by omega), div_one]

/-- Dropping zeros at the end keeps the value. -/
theorem magnitude_trim (d : Scientific) (limit : Nat) : (d.trim limit).magnitude = d.magnitude := by
  induction limit generalizing d with
  | zero => rfl
  | succ limit ih =>
    rw [trim]
    split
    · next h =>
      -- a tenth of the digits, ten times the power
      obtain ⟨n, hn⟩ : 10 ∣ d.digits := Nat.dvd_of_mod_eq_zero h.2
      rw [ih, magnitude, magnitude, hn, Nat.mul_div_cancel_left _ (by omega)]
      dsimp only
      rw [zpow_add_one₀ (by norm_num)]
      push_cast
      ring
    · rfl

/-- Trimming zeros at the end leaves digits. -/
theorem trim_digits_ne {d : Scientific} (h : d.digits ≠ 0) (limit : Nat) :
    (d.trim limit).digits ≠ 0 := by
  induction limit generalizing d with
  | zero => exact h
  | succ limit ih =>
    rw [trim]
    split
    · next hTen =>
      refine ih ?_
      dsimp only
      omega
    · exact h

end Scientific

namespace Binary

variable {f : Format}

/-! ## Neighbours on a decimal grid -/

/-- Integer division is off by less than 1. -/
theorem div_bounds {n d : Nat} (hd : 0 < d) :
    ((n / d : Nat) : ℚ) ≤ (n : ℚ) / d ∧ (n : ℚ) / d < ((n / d : Nat) : ℚ) + 1 := by
  have hPos : (0 : ℚ) < d := by exact_mod_cast hd
  constructor
  · rw [le_div_iff₀ hPos]
    exact_mod_cast Nat.div_mul_le_self n d
  · rw [div_lt_iff₀ hPos]
    exact_mod_cast Nat.lt_mul_of_div_lt (Nat.lt_succ_self _) hd

/-- The lower neighbour is the quotient on the grid, rounded down. -/
theorem Interval.exists_below (i : Interval) (hDen : 0 < i.den) (e : Int) :
    ∃ n d, 0 < d ∧ (i.neighbours e).1 = ⟨n / d, e⟩ ∧
      (n : ℚ) / d = (i.center : ℚ) / i.den / 10 ^ e := by
  rw [neighbours]
  dsimp only
  -- the power of ten goes to the numerator or to the denominator, as its sign says
  by_cases he : e < 0
  · refine ⟨i.center * Nat.pow 10 (-e).toNat, i.den, hDen, by rw [if_pos he], ?_⟩
    obtain ⟨k, hk⟩ := Int.eq_ofNat_of_zero_le (show 0 ≤ -e by omega)
    have hPow : (10 : ℚ) ^ e = (10 ^ k)⁻¹ := by
      rw [show e = -(k : Int) by omega, zpow_neg, zpow_natCast]
    rw [hPow, hk, Int.toNat_natCast, Nat.pow_eq]
    push_cast
    field_simp
  · obtain ⟨k, rfl⟩ := Int.eq_ofNat_of_zero_le (show 0 ≤ e by omega)
    refine ⟨i.center, i.den * Nat.pow 10 k, Nat.mul_pos hDen (Nat.pow_pos (by omega)), ?_, ?_⟩
    · rw [if_neg he, Int.toNat_natCast]
    · rw [zpow_natCast, Nat.pow_eq]
      push_cast
      rw [div_div]

/-- The lower neighbour at a decimal position is not above the number. -/
theorem Interval.below_le (i : Interval) (hDen : 0 < i.den) (e : Int) :
    (i.neighbours e).1.magnitude ≤ (i.center : ℚ) / i.den := by
  obtain ⟨n, d, hd, hBelow, hQuotient⟩ := i.exists_below hDen e
  have hUnit : (0 : ℚ) < 10 ^ e := zpow_pos (by norm_num) e
  have hLe := (div_bounds (n := n) hd).1
  rw [hQuotient, le_div_iff₀ hUnit] at hLe
  rw [hBelow]
  exact hLe

/-- A grid that is not coarser than the value has a lower neighbour other than zero. -/
theorem Interval.below_digits_ne (i : Interval) (hDen : 0 < i.den) {e : Int}
    (hGrid : (10 : ℚ) ^ e ≤ (i.center : ℚ) / i.den) : (i.neighbours e).1.digits ≠ 0 := by
  obtain ⟨n, d, hd, hBelow, hQuotient⟩ := i.exists_below hDen e
  have hUnit : (0 : ℚ) < 10 ^ e := zpow_pos (by norm_num) e
  have hLt := (div_bounds (n := n) hd).2
  rw [hQuotient] at hLt
  rw [hBelow]
  intro hZero
  have hOne : 1 ≤ (i.center : ℚ) / i.den / 10 ^ e := by rwa [le_div_iff₀ hUnit, one_mul]
  rw [show n / d = 0 from hZero, Nat.cast_zero] at hLt
  linarith

/-- A decimal that an interval holds is not above its upper end. -/
theorem Interval.le_of_holds {i : Interval} (hDen : 0 < i.den) {d : Scientific}
    (h : i.holds d = true) : d.magnitude ≤ (i.high : ℚ) / i.den := by
  have hQuotient := d.quotient_pos
  have hLe : d.quotient.1 * i.den ≤ i.high * d.quotient.2 := by
    rw [holds] at h
    dsimp only at h
    split at h
    · rw [Bool.and_eq_true, decide_eq_true_eq, decide_eq_true_eq] at h
      exact h.2
    · rw [Bool.and_eq_true, decide_eq_true_eq, decide_eq_true_eq] at h
      exact h.2.le
  rw [← d.quotient_eq, div_le_div_iff₀ (by exact_mod_cast hQuotient) (by exact_mod_cast hDen)]
  exact_mod_cast hLe

/-! ## The search -/

/-- The search ends with a decimal that is not zero and not above the interval, if the last grid
that it may try is not coarser than the value. -/
theorem Interval.search_spec {i : Interval} (hDen : 0 < i.den) (hHigh : i.center ≤ i.high)
    (limit : Nat) (e : Int) (hGrid : (10 : ℚ) ^ (e - limit) ≤ (i.center : ℚ) / i.den) :
    (i.search limit e).digits ≠ 0 ∧ (i.search limit e).magnitude ≤ (i.high : ℚ) / i.den := by
  have hPos : (0 : ℚ) < i.den := by exact_mod_cast hDen
  have hCenter : (i.center : ℚ) / i.den ≤ (i.high : ℚ) / i.den := by
    rw [div_le_div_iff_of_pos_right hPos]
    exact_mod_cast hHigh
  induction limit generalizing e with
  | zero =>
    rw [Nat.cast_zero, sub_zero] at hGrid
    exact ⟨i.below_digits_ne hDen hGrid, (i.below_le hDen e).trans hCenter⟩
  | succ limit ih =>
    have hNext : (10 : ℚ) ^ (e - 1 - limit) ≤ (i.center : ℚ) / i.den := by
      have : e - 1 - (limit : Int) = e - ((limit + 1 : Nat) : Int) := by
        push_cast
        ring
      rwa [this]
    have hBelow := (i.below_le hDen e).trans hCenter
    have hAbove : (i.neighbours e).2.digits ≠ 0 := Nat.succ_ne_zero _
    rw [search]
    dsimp only
    -- a neighbour that holds ends the search, and otherwise a finer grid is tried
    split
    · next hLower hUpper =>
      rw [Bool.and_eq_true, decide_eq_true_eq] at hLower
      split
      · exact ⟨hLower.1, hBelow⟩
      · exact ⟨hAbove, le_of_holds hDen hUpper⟩
    · next hLower hUpper =>
      rw [Bool.and_eq_true, decide_eq_true_eq] at hLower
      exact ⟨hLower.1, hBelow⟩
    · next hLower hUpper => exact ⟨hAbove, le_of_holds hDen hUpper⟩
    · exact ih (e - 1) hNext

/-- A quotient is at least the power of ten one below its leading exponent. -/
theorem leadingExponent_le {num den : Nat} (hn : 0 < num) (hd : 0 < den) :
    (10 : ℚ) ^ (leadingExponent num den - 1) ≤ (num : ℚ) / den := by
  have hPos : (0 : ℚ) < den := by exact_mod_cast hd
  rw [leadingExponent]
  split
  · next h =>
    -- from one on, the digits before the point count
    have hOne : 1 ≤ num / den := (Nat.one_le_div_iff hd).mpr h
    obtain ⟨k, hk⟩ : ∃ k, (Nat.toDigits 10 (num / den)).length = k + 1 :=
      Nat.exists_eq_succ_of_ne_zero (Nat.length_toDigits_pos.ne')
    have hPow : 10 ^ k ≤ num / den := by
      rcases Nat.eq_zero_or_pos k with rfl | hkPos
      · exact hOne
      · by_contra hLess
        have := (Nat.length_toDigits_le_iff (by omega) hkPos).mpr (not_le.mp hLess)
        omega
    have hMul : 10 ^ k * den ≤ num := (Nat.le_div_iff_mul_le hd).mp hPow
    rw [hk, show ((k + 1 : Nat) : Int) - 1 = k by omega, zpow_natCast, le_div_iff₀ hPos]
    exact_mod_cast hMul
  · next h =>
    -- below one, the zeros after the point count, which are those of the inverse
    have hLength : 0 < (Nat.toDigits 10 (den / num)).length := Nat.length_toDigits_pos
    have hLess := (Nat.length_toDigits_le_iff (n := den / num) (by omega) hLength).mp (le_refl _)
    generalize (Nat.toDigits 10 (den / num)).length = k at hLess
    have hMul : den < 10 ^ k * num := (Nat.div_lt_iff_lt_mul hn).mp hLess
    have hPow : (0 : ℚ) < 10 ^ k := by positivity
    rw [show 1 - (k : Int) - 1 = -k by omega, zpow_neg, zpow_natCast, le_div_iff₀ hPos,
      inv_mul_le_iff₀ hPow]
    exact_mod_cast hMul.le

/-! ## The rounding interval -/

/-- The centre of the interval is the value, and its upper end lies half a step above. -/
theorem interval_spec (x : Binary f) :
    0 < x.interval.den ∧ (x.interval.center : ℚ) / x.interval.den = x.magnitude ∧
      (x.interval.high : ℚ) / x.interval.den = (x.scaled.1 + 1 / 2) * 2 ^ x.scaled.2 := by
  rw [magnitude_eq, interval]
  obtain ⟨m, e⟩ := x.scaled
  dsimp only
  -- two more bits make room for quarters of a step: over the denominator, or in the numerator
  by_cases he : e < 2
  · obtain ⟨k, hk⟩ := Int.eq_ofNat_of_zero_le (show 0 ≤ 2 - e by omega)
    have hPow : (2 : ℚ) ^ e = 4 / 2 ^ k := by
      rw [show e = 2 - (k : Int) by omega, zpow_sub₀ two_ne_zero, zpow_natCast]
      norm_num
    rw [if_pos he, hk, Int.toNat_natCast, Nat.one_shiftLeft, hPow]
    refine ⟨Nat.two_pow_pos _, ?_, ?_⟩
    · push_cast
      ring
    · push_cast
      ring
  · obtain ⟨k, hk⟩ := Int.eq_ofNat_of_zero_le (show 0 ≤ e - 2 by omega)
    have hPow : (2 : ℚ) ^ e = 4 * 2 ^ k := by
      rw [show e = 2 + (k : Int) by omega, zpow_add₀ two_ne_zero, zpow_natCast]
      norm_num
    rw [if_neg he, hk, Int.toNat_natCast, Nat.one_shiftLeft, hPow]
    refine ⟨Nat.one_pos, ?_, ?_⟩
    · push_cast
      ring
    · push_cast
      ring

/-- The shortest digits of a value other than zero are not all zero, and what they stand for is at
most half a step above the value. -/
theorem shortest_spec {x : Binary f} (hx : 0 < x.magnitude) :
    x.shortest.digits ≠ 0 ∧
      x.shortest.magnitude ≤ (x.scaled.1 + 1 / 2) * 2 ^ x.scaled.2 := by
  obtain ⟨hDen, hCenter, hHigh⟩ := interval_spec x
  have hPos : (0 : ℚ) < x.interval.den := by exact_mod_cast hDen
  have hNum : 0 < x.interval.center := by
    rw [← hCenter] at hx
    have := (div_pos_iff_of_pos_right hPos).mp hx
    exact_mod_cast this
  have hOrder : x.interval.center ≤ x.interval.high := by
    have : (x.interval.center : ℚ) / x.interval.den ≤ x.interval.high / x.interval.den := by
      rw [hCenter, hHigh, magnitude_eq]
      have : (0 : ℚ) < 2 ^ x.scaled.2 := zpow_pos (by norm_num) _
      nlinarith
    rw [div_le_div_iff_of_pos_right hPos] at this
    exact_mod_cast this
  -- Twenty grids below the leading digit are more than enough.
  have hGrid : (10 : ℚ) ^ (leadingExponent x.interval.center x.interval.den - (20 : Nat)) ≤
      (x.interval.center : ℚ) / x.interval.den := by
    refine le_trans ?_ (leadingExponent_le hNum hDen)
    exact zpow_le_zpow_right₀ (by norm_num) (by omega)
  obtain ⟨hNe, hLe⟩ := Interval.search_spec hDen hOrder 20 _ hGrid
  rw [shortest]
  refine ⟨Scientific.trim_digits_ne hNe 400, ?_⟩
  rw [Scientific.magnitude_trim, ← hHigh]
  exact hLe

end Binary

end Taskyard.Decimal
