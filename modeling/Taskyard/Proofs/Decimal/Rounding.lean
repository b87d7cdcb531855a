import Taskyard.Decimal.Binary
import Mathlib.Algebra.Order.Field.Power
import Mathlib.Data.Rat.Cast.Order
import Mathlib.Tactic.FieldSimp
import Mathlib.Tactic.GCongr
import Mathlib.Tactic.Linarith
import Mathlib.Tactic.Positivity
import Mathlib.Tactic.Ring

/-!
# Decimal — how far rounding goes

Rounding to a binary format moves a quotient by at most half a step of the binade it lies in, and it
gives a finite value below half a step above the greatest finite one. Magnitudes are rational
numbers here, so a bound on an operation is a bound on its exact result.

Main results:

* `Binary.magnitude` — the magnitude of a finite value; `Binary.magnitude_eq` in terms of its
  mantissa and exponent.
* `Binary.exists_rounded` — the mantissa and the binade that rounding chooses.
* `Binary.isFinite_nearest` — below `Format.limit` rounding gives a finite value.
* `Binary.magnitude_nearest_le` — the relative error in the range of normal values.
-/

namespace Taskyard.Decimal

/-- Half a step above the greatest finite value of a format. -/
def Format.limit (f : Format) : ℚ :=
  (2 ^ (f.fractionBits + 2) - 1) * 2 ^ (f.minExponent + 2 ^ f.exponentBits - 4)

namespace Binary

variable {f : Format}

/-- The magnitude of a finite value. -/
def magnitude (x : Binary f) : ℚ := x.quotient.1 / x.quotient.2

theorem zpow_toNat {e : ℤ} (h : 0 ≤ e) : (2 : ℚ) ^ e.toNat = 2 ^ e := by
  rw [← zpow_natCast, Int.toNat_of_nonneg h]

/-- The exact value of a number is a fraction with a positive denominator. -/
theorem quotient_pos (x : Binary f) : 0 < x.quotient.2 := by
  rw [quotient]
  dsimp only
  split
  · rw [Nat.one_shiftLeft]
    exact Nat.two_pow_pos _
  · exact Nat.one_pos

/-- The mantissa and the exponent, by the binade that the exponent field names. -/
theorem scaled_eq (x : Binary f) : x.scaled =
    if x.pattern.toNat / 2 ^ f.fractionBits = 0 then
      (x.pattern.toNat % 2 ^ f.fractionBits, f.minExponent)
    else (2 ^ f.fractionBits + x.pattern.toNat % 2 ^ f.fractionBits,
      f.minExponent + ((x.pattern.toNat / 2 ^ f.fractionBits : Nat) - 1)) := by
  rw [scaled, Nat.shiftRight_eq_div_pow, Nat.one_shiftLeft]

/-- The magnitude is the mantissa times a power of two. -/
theorem magnitude_eq (x : Binary f) : x.magnitude = x.scaled.1 * 2 ^ x.scaled.2 := by
  rw [magnitude, quotient]
  dsimp only
  split
  · rw [Nat.one_shiftLeft]
    push_cast
    rw [zpow_toNat (by omega), zpow_neg, div_inv_eq_mul]
  · rw [Nat.shiftLeft_eq]
    push_cast
    rw [zpow_toNat (by omega), div_one]

theorem magnitude_nonneg (x : Binary f) : 0 ≤ x.magnitude := by
  rw [magnitude]
  positivity

/-! ## Rounding to a natural number -/

/-- Rounding to an integer goes up by one half at most. -/
theorem roundDiv_le {n d : Nat} (hd : 0 < d) : 2 * (roundDiv n d * d) ≤ 2 * n + d := by
  have hSplit : d * (n / d) + n % d = n := Nat.div_add_mod n d
  have hMod : n % d < d := Nat.mod_lt n hd
  have hParity : n / d % 2 = 0 ∨ n / d % 2 = 1 := Nat.mod_two_eq_zero_or_one _
  rw [roundDiv]
  split
  · rw [Nat.mul_comm (n / d)]
    omega
  · split
    · rw [Nat.add_mul, Nat.mul_comm (n / d)]
      omega
    · rw [Nat.add_mul, Nat.mul_comm (n / d)]
      rcases hParity with h | h <;> rw [h] <;> omega

/-- Rounding to an integer goes down by one half at most. -/
theorem le_roundDiv {n d : Nat} (hd : 0 < d) : 2 * n ≤ 2 * (roundDiv n d * d) + d := by
  have hSplit : d * (n / d) + n % d = n := Nat.div_add_mod n d
  have hMod : n % d < d := Nat.mod_lt n hd
  rw [roundDiv]
  split
  · rw [Nat.mul_comm (n / d)]
    omega
  · split
    · rw [Nat.add_mul, Nat.mul_comm (n / d)]
      omega
    · rw [Nat.add_mul, Nat.mul_comm (n / d)]
      omega

/-- Rounding to a natural number moves a quotient by at most one half. -/
theorem roundDiv_close {n d : Nat} (hd : 0 < d) :
    (roundDiv n d : ℚ) ≤ n / d + 1 / 2 ∧ (n : ℚ) / d ≤ roundDiv n d + 1 / 2 := by
  have hPos : (0 : ℚ) < d := by exact_mod_cast hd
  have hUp : (2 : ℚ) * (roundDiv n d * d) ≤ 2 * n + d := by exact_mod_cast roundDiv_le hd
  have hDown : (2 : ℚ) * n ≤ 2 * (roundDiv n d * d) + d := by exact_mod_cast le_roundDiv hd
  have hQuotient : (n : ℚ) / d * d = n := div_mul_cancel₀ _ hPos.ne'
  constructor
  · by_contra hNot
    have : ((n : ℚ) / d + 1 / 2) * d < roundDiv n d * d :=
      mul_lt_mul_of_pos_right (not_le.mp hNot) hPos
    linarith
  · rw [div_le_iff₀ hPos]
    linarith

/-! ## The binade of a quotient -/

theorem unscale_pos (num : Nat) {den : Nat} (hd : 0 < den) (e : Int) : 0 < (unscale num den e).2 := by
  rw [unscale]
  split
  · exact hd
  · rw [Nat.shiftLeft_eq]
    exact Nat.mul_pos hd (Nat.two_pow_pos _)

/-- Dividing by a power of two moves it to the numerator or the denominator. -/
theorem unscale_eq (num : Nat) {den : Nat} (hd : 0 < den) (e : Int) :
    ((unscale num den e).1 : ℚ) / (unscale num den e).2 = num / den / 2 ^ e := by
  have hPos : (0 : ℚ) < den := by exact_mod_cast hd
  rw [unscale]
  -- the power of two goes to the numerator or to the denominator, as its sign says
  split
  · next h =>
    rw [Nat.shiftLeft_eq]
    push_cast
    rw [zpow_toNat (by omega), zpow_neg]
    field_simp
  · next h =>
    rw [Nat.shiftLeft_eq]
    push_cast
    rw [zpow_toNat (by omega)]
    field_simp

/-- The logarithms of numerator and denominator tell the quotient up to a factor of two. -/
theorem quotient_between {num den : Nat} (hn : 0 < num) (hd : 0 < den) :
    (2 : ℚ) ^ ((Nat.log2 num : Int) - Nat.log2 den - 1) < num / den ∧
      (num : ℚ) / den < 2 ^ ((Nat.log2 num : Int) - Nat.log2 den + 1) := by
  have hPos : (0 : ℚ) < den := by exact_mod_cast hd
  have hNum : (2 : ℚ) ^ (Nat.log2 num : ℤ) ≤ num := by
    rw [zpow_natCast]
    exact_mod_cast Nat.log2_self_le hn.ne'
  have hNum' : (num : ℚ) < 2 ^ ((Nat.log2 num : ℤ) + 1) := by
    have : num < 2 ^ (Nat.log2 num + 1) := Nat.lt_log2_self
    exact_mod_cast this
  have hDen : (2 : ℚ) ^ (Nat.log2 den : ℤ) ≤ den := by
    rw [zpow_natCast]
    exact_mod_cast Nat.log2_self_le hd.ne'
  have hDen' : (den : ℚ) < 2 ^ ((Nat.log2 den : ℤ) + 1) := by
    have : den < 2 ^ (Nat.log2 den + 1) := Nat.lt_log2_self
    exact_mod_cast this
  -- numerator and denominator lie in a binade each, and the quotient between the outer ends
  constructor
  · rw [lt_div_iff₀ hPos]
    calc (2 : ℚ) ^ ((Nat.log2 num : Int) - Nat.log2 den - 1) * den
        < 2 ^ ((Nat.log2 num : Int) - Nat.log2 den - 1) * 2 ^ ((Nat.log2 den : ℤ) + 1) := by
          gcongr
      _ = 2 ^ (Nat.log2 num : ℤ) := by
          rw [← zpow_add₀ two_ne_zero]
          congr 1
          ring
      _ ≤ num := hNum
  · rw [div_lt_iff₀ hPos]
    calc (num : ℚ) < 2 ^ ((Nat.log2 num : ℤ) + 1) := hNum'
      _ = 2 ^ ((Nat.log2 num : Int) - Nat.log2 den + 1) * 2 ^ (Nat.log2 den : ℤ) := by
          rw [← zpow_add₀ two_ne_zero]
          congr 1
          ring
      _ ≤ 2 ^ ((Nat.log2 num : Int) - Nat.log2 den + 1) * den := by gcongr

/-- The exponent that is chosen for a quotient: its mantissa fills the bits of a normal value,
unless the least exponent is reached. -/
theorem exponentFor_spec (f : Format) {num den : Nat} (hn : 0 < num) (hd : 0 < den) :
    f.minExponent ≤ exponentFor f num den ∧
      (num : ℚ) / den < 2 ^ (f.fractionBits + 1) * 2 ^ exponentFor f num den ∧
      (exponentFor f num den = f.minExponent ∨
        (2 : ℚ) ^ f.fractionBits * 2 ^ exponentFor f num den ≤ num / den) := by
  obtain ⟨hLow, hHigh⟩ := quotient_between hn hd
  generalize hGuess : (Nat.log2 num : Int) - Nat.log2 den - f.fractionBits = guess
  have hUnit := unscale_eq num hd guess
  have hUnitPos := unscale_pos num hd guess
  -- The test compares the mantissa at the guessed exponent with that of the least normal value.
  have hTest : (unscale num den guess).1 < (unscale num den guess).2 <<< f.fractionBits ↔
      (num : ℚ) / den < 2 ^ f.fractionBits * 2 ^ guess := by
    have hCast : (0 : ℚ) < (unscale num den guess).2 := by exact_mod_cast hUnitPos
    rw [Nat.shiftLeft_eq, ← Nat.cast_lt (α := ℚ), ← div_lt_iff₀ (by positivity : (0 : ℚ) < 2 ^ guess),
      ← hUnit, div_lt_iff₀ hCast]
    push_cast
    rw [mul_comm]
  have hUpper : (num : ℚ) / den < 2 ^ (f.fractionBits + 1) * 2 ^ guess := by
    have hPow : (2 : ℚ) ^ (f.fractionBits + 1) * 2 ^ guess =
        2 ^ ((Nat.log2 num : Int) - Nat.log2 den + 1) := by
      rw [← zpow_natCast, ← zpow_add₀ two_ne_zero]
      congr 1
      push_cast
      omega
    rwa [hPow]
  have hLower : (2 : ℚ) ^ f.fractionBits * 2 ^ (guess - 1) ≤ num / den := by
    have hPow : (2 : ℚ) ^ f.fractionBits * 2 ^ (guess - 1) =
        2 ^ ((Nat.log2 num : Int) - Nat.log2 den - 1) := by
      rw [← zpow_natCast, ← zpow_add₀ two_ne_zero]
      congr 1
      omega
    rw [hPow]
    exact hLow.le
  -- Before the least exponent comes in, the exponent fits exactly.
  obtain ⟨fitted, hFitted, hFits⟩ : ∃ fitted : Int,
      exponentFor f num den = max fitted f.minExponent ∧
        ((num : ℚ) / den < 2 ^ (f.fractionBits + 1) * 2 ^ fitted ∧
          (2 : ℚ) ^ f.fractionBits * 2 ^ fitted ≤ num / den) := by
    rw [exponentFor]
    dsimp only
    rw [hGuess]
    by_cases hLess : (unscale num den guess).1 < (unscale num den guess).2 <<< f.fractionBits
    · refine ⟨guess - 1, by rw [if_pos hLess], ?_, hLower⟩
      have hHalf : (2 : ℚ) ^ (f.fractionBits + 1) * 2 ^ (guess - 1) =
          2 ^ f.fractionBits * 2 ^ guess := by
        rw [pow_succ, zpow_sub_one₀ two_ne_zero]
        ring
      rw [hHalf]
      exact hTest.mp hLess
    · refine ⟨guess, by rw [if_neg hLess], hUpper, ?_⟩
      exact not_lt.mp fun h => hLess (hTest.mpr h)
  refine ⟨by rw [hFitted]; exact le_max_right _ _, ?_, ?_⟩
  · refine hFits.1.trans_le ?_
    have hLe : fitted ≤ exponentFor f num den := by rw [hFitted]; exact le_max_left _ _
    have hPow : (2 : ℚ) ^ fitted ≤ 2 ^ exponentFor f num den :=
      zpow_le_zpow_right₀ (by norm_num) hLe
    gcongr
  · rcases le_total fitted f.minExponent with h | h
    · left
      rw [hFitted, max_eq_right h]
    · right
      rw [hFitted, max_eq_left h]
      exact hFits.2

/-! ## Patterns -/

/-- The pattern of infinity has every exponent bit set and no fraction. -/
theorem infinityPattern_eq (f : Format) :
    f.infinityPattern = (2 ^ f.exponentBits - 1) * 2 ^ f.fractionBits := by
  rw [Format.infinityPattern, Nat.one_shiftLeft, Nat.shiftLeft_eq]

/-- The pattern of infinity leaves the sign bit free. -/
theorem infinityPattern_lt (f : Format) :
    f.infinityPattern < 2 ^ (f.exponentBits + f.fractionBits) := by
  rw [infinityPattern_eq, Nat.pow_add]
  have hExponent : 0 < 2 ^ f.exponentBits := Nat.two_pow_pos _
  exact Nat.mul_lt_mul_of_pos_right (by omega) (Nat.two_pow_pos _)

/-- A pattern below infinity is kept as it is, under either sign. -/
theorem toNat_ofPattern {neg : Bool} {p : Nat} (h : p < f.infinityPattern) :
    (ofPattern f neg p).pattern.toNat = p := by
  rw [ofPattern, BitVec.toNat_ofNat]
  exact Nat.mod_eq_of_lt (h.trans (infinityPattern_lt f))

/-- A pattern below infinity is that of a finite number. -/
theorem isFinite_ofPattern {neg : Bool} {p : Nat} (h : p < f.infinityPattern) :
    (ofPattern f neg p).isFinite = true := by
  rw [isFinite, toNat_ofPattern h]
  exact decide_eq_true h

/-- A mantissa and a binade: that of a subnormal value only in the lowest binade, and at most the
next power of two, which carries into the exponent. -/
structure Fits (f : Format) (binade mantissa : Nat) : Prop where
  most : mantissa ≤ 2 ^ (f.fractionBits + 1)
  least : binade = 0 ∨ 2 ^ f.fractionBits ≤ mantissa

/-- The magnitude of the value that is put together from a binade and a mantissa. -/
theorem magnitude_ofPattern {neg : Bool} {k m : Nat} (hFits : Fits f k m)
    (hFinite : k * 2 ^ f.fractionBits + m < f.infinityPattern) :
    (ofPattern f neg (k * 2 ^ f.fractionBits + m)).magnitude = m * 2 ^ (f.minExponent + k) := by
  have hUnit : 0 < 2 ^ f.fractionBits := Nat.two_pow_pos _
  have hMost : m ≤ 2 ^ f.fractionBits * 2 := hFits.most
  have hDiv : (k * 2 ^ f.fractionBits + m) / 2 ^ f.fractionBits = k + m / 2 ^ f.fractionBits := by
    rw [Nat.add_comm, Nat.add_mul_div_right _ _ hUnit, Nat.add_comm]
  have hMod : (k * 2 ^ f.fractionBits + m) % 2 ^ f.fractionBits = m % 2 ^ f.fractionBits := by
    rw [Nat.add_comm, Nat.add_mul_mod_self_right]
  rw [magnitude_eq, scaled_eq, toNat_ofPattern hFinite, hDiv, hMod]
  generalize hw : 2 ^ f.fractionBits = w at *
  -- The mantissa is subnormal, normal, or the next power of two.
  rcases lt_trichotomy m w with h | h | h
  · have hk : k = 0 := by
      rcases hFits.least with h' | h'
      · exact h'
      · omega
    subst hk
    rw [Nat.div_eq_of_lt h, Nat.mod_eq_of_lt h]
    simp
  · subst h
    rw [Nat.div_self hUnit, Nat.mod_self, if_neg (by omega)]
    simp
  · rcases Nat.lt_or_ge m (w * 2) with h' | h'
    · have hQuotient : m / w = 1 := by
        rw [Nat.div_eq_iff hUnit]
        omega
      have hRest : m % w = m - w := by
        rw [Nat.mod_eq_sub_mod h.le, Nat.mod_eq_of_lt (by omega)]
      rw [hQuotient, hRest, if_neg (by omega), show w + (m - w) = m by omega]
      simp
    · have hm : m = w * 2 := by omega
      subst hm
      rw [Nat.mul_div_cancel_left _ hUnit, Nat.mul_mod_right, if_neg (by omega)]
      have hShift : f.minExponent + (((k + 2 : Nat) : Int) - 1) = f.minExponent + k + 1 := by
        omega
      rw [hShift, zpow_add_one₀ two_ne_zero]
      push_cast
      ring

/-! ## Rounding to a format -/

/-- What rounding of a quotient `q` chooses: a binade and a mantissa, half a step away at most. -/
structure Rounded (f : Format) (q : ℚ) (k m : Nat) : Prop extends Fits f k m where
  upper : (m : ℚ) * 2 ^ (f.minExponent + k) ≤ q + 2 ^ (f.minExponent + k) / 2
  lower : q ≤ m * 2 ^ (f.minExponent + k) + 2 ^ (f.minExponent + k) / 2
  normal : k = 0 ∨ (2 : ℚ) ^ f.fractionBits * 2 ^ (f.minExponent + k) ≤ q

/-- Rounding puts a value together from a binade and a mantissa, unless that is beyond infinity. -/
theorem exists_rounded (f : Format) (neg : Bool) {num den : Nat} (hn : 0 < num) (hd : 0 < den) :
    ∃ k m, Rounded f ((num : ℚ) / den) k m ∧
      nearest f neg num den =
        ofPattern f neg (min (k * 2 ^ f.fractionBits + m) f.infinityPattern) := by
  obtain ⟨hLeast, hUpper, hNormal⟩ := exponentFor_spec f hn hd
  generalize hExponent : exponentFor f num den = e at hLeast hUpper hNormal
  have hUnit := unscale_eq num hd e
  have hUnitPos := unscale_pos num hd e
  obtain ⟨hClose, hClose'⟩ := roundDiv_close (n := (unscale num den e).1) hUnitPos
  rw [hUnit] at hClose hClose'
  have hStep : (0 : ℚ) < 2 ^ e := zpow_pos (by norm_num) e
  have hBinade : f.minExponent + ((e - f.minExponent).toNat : Int) = e := by omega
  have hMost : (num : ℚ) / den / 2 ^ e < 2 ^ (f.fractionBits + 1) := by
    rwa [div_lt_iff₀ hStep]
  refine ⟨(e - f.minExponent).toNat, roundDiv (unscale num den e).1 (unscale num den e).2,
    { most := ?_, least := ?_, upper := ?_, lower := ?_, normal := ?_ }, ?_⟩
  · -- A natural number is not above the next power of two by less than one half.
    have hCast : (roundDiv (unscale num den e).1 (unscale num den e).2 : ℚ) <
        (2 ^ (f.fractionBits + 1) : Nat) + 1 := by
      push_cast
      linarith
    exact Nat.lt_succ_iff.mp (by exact_mod_cast hCast)
  -- a subnormal mantissa may be small, and a normal one has at least its leading bit
  · rcases hNormal with h | h
    · left
      omega
    · right
      have hFull : (2 : ℚ) ^ f.fractionBits ≤ num / den / 2 ^ e := by rwa [le_div_iff₀ hStep]
      have hCast : ((2 ^ f.fractionBits : Nat) : ℚ) <
          roundDiv (unscale num den e).1 (unscale num den e).2 + 1 := by
        push_cast
        linarith
      exact Nat.lt_succ_iff.mp (by exact_mod_cast hCast)
  · rw [hBinade]
    -- half a unit of the mantissa is half a step of the value
    have h := mul_le_mul_of_nonneg_right hClose hStep.le
    rw [add_mul, div_mul_cancel₀ _ hStep.ne'] at h
    linarith
  · rw [hBinade]
    have h := mul_le_mul_of_nonneg_right hClose' hStep.le
    rw [add_mul, div_mul_cancel₀ _ hStep.ne'] at h
    linarith
  · rw [hBinade]
    rcases hNormal with h | h
    · left
      omega
    · exact Or.inr h
  · rw [nearest, if_neg (by omega)]
    -- the pattern is put together from just this exponent and this mantissa
    dsimp only
    rw [hExponent, Nat.shiftLeft_eq]

theorem step_pos (f : Format) (k : Nat) : (0 : ℚ) < 2 ^ (f.minExponent + k) :=
  zpow_pos (by norm_num) _

/-- A quotient below the limit of the format stays below infinity. -/
theorem Rounded.lt_infinity {q : ℚ} {k m : Nat} (h : Rounded f q k m) (hq : q < f.limit)
    (hBits : 2 ≤ f.exponentBits) :
    k * 2 ^ f.fractionBits + m < f.infinityPattern := by
  by_contra hNot
  have hStep := step_pos f k
  have hFour : 2 ^ 2 ≤ 2 ^ f.exponentBits := Nat.pow_le_pow_right (by omega) hBits
  have hMost : m ≤ 2 ^ f.fractionBits * 2 := h.most
  rw [infinityPattern_eq] at hNot
  have hLimit : f.limit = (2 * 2 ^ (f.fractionBits + 1) - 1) *
      2 ^ (f.minExponent + ((2 ^ f.exponentBits : Nat) : Int) - 4) := by
    rw [Format.limit, pow_succ (2 : ℚ) (f.fractionBits + 1)]
    push_cast
    ring_nf
  generalize 2 ^ f.exponentBits = c at *
  have hUnit : 0 < 2 ^ f.fractionBits := Nat.two_pow_pos _
  have hTop : c ≤ k + 3 := by
    by_contra hLow
    have : (k + 3) * 2 ^ f.fractionBits ≤ (c - 1) * 2 ^ f.fractionBits :=
      Nat.mul_le_mul_right _ (by omega)
    rw [Nat.add_mul] at this
    omega
  -- Either the binade is beyond the last one, or the mantissa has reached the next power of two.
  rcases Nat.lt_or_ge (k + 2) c with hBinade | hBinade
  · have hk : c = k + 3 := by omega
    subst hk
    have hFull : 2 ^ (f.fractionBits + 1) ≤ m := by
      rw [pow_succ]
      have : (k + 3 - 1) * 2 ^ f.fractionBits = k * 2 ^ f.fractionBits + 2 ^ f.fractionBits * 2 := by
        rw [show k + 3 - 1 = k + 2 by omega, Nat.add_mul, Nat.mul_comm 2]
      omega
    have hCast : (2 : ℚ) ^ (f.fractionBits + 1) ≤ m := by exact_mod_cast hFull
    have hShift : (2 : ℚ) ^ (f.minExponent + k) =
        2 * 2 ^ (f.minExponent + ((k + 3 : Nat) : Int) - 4) := by
      rw [← zpow_one_add₀ two_ne_zero]
      congr 1
      omega
    have hUpper := h.upper
    rw [hShift] at hUpper hStep
    generalize (2 : ℚ) ^ (f.minExponent + ((k + 3 : Nat) : Int) - 4) = u at *
    have : (2 : ℚ) ^ (f.fractionBits + 1) * (2 * u) ≤ m * (2 * u) := by gcongr
    linarith
  · have hNormal : (2 : ℚ) ^ f.fractionBits * 2 ^ (f.minExponent + k) ≤ q := by
      rcases h.normal with h | h
      · omega
      · exact h
    have hShift : (4 : ℚ) * 2 ^ (f.minExponent + (c : Int) - 4) ≤ 2 ^ (f.minExponent + k) := by
      have hFactor : (4 : ℚ) * 2 ^ (f.minExponent + (c : Int) - 4) =
          2 ^ (f.minExponent + (c : Int) - 2) := by
        rw [show (4 : ℚ) = 2 ^ (2 : ℤ) by norm_num, ← zpow_add₀ two_ne_zero]
        congr 1
        omega
      rw [hFactor]
      exact zpow_le_zpow_right₀ (by norm_num) (by omega)
    have hScaled : (2 : ℚ) ^ f.fractionBits * (4 * 2 ^ (f.minExponent + (c : Int) - 4)) ≤ q :=
      (mul_le_mul_of_nonneg_left hShift (by positivity)).trans hNormal
    have hLow : (0 : ℚ) < 2 ^ (f.minExponent + (c : Int) - 4) := zpow_pos (by norm_num) _
    rw [pow_succ] at hLimit
    linarith

/-- Below the limit of the format, rounding gives a finite value of known mantissa and binade. -/
theorem exists_magnitude (neg : Bool) {num den : Nat} (hn : 0 < num) (hd : 0 < den)
    (hBits : 2 ≤ f.exponentBits) (hLimit : (num : ℚ) / den < f.limit) :
    ∃ k m, Rounded f ((num : ℚ) / den) k m ∧ (nearest f neg num den).isFinite = true ∧
      (nearest f neg num den).magnitude = m * 2 ^ (f.minExponent + k) := by
  obtain ⟨k, m, hRounded, hNearest⟩ := exists_rounded f neg hn hd
  have hFinite := hRounded.lt_infinity hLimit hBits
  rw [min_eq_left hFinite.le] at hNearest
  refine ⟨k, m, hRounded, ?_, ?_⟩
  · rw [hNearest]
    exact isFinite_ofPattern hFinite
  · rw [hNearest]
    exact magnitude_ofPattern hRounded.toFits hFinite

/-! ## Bounds -/

theorem nearest_zero (f : Format) (neg : Bool) (den : Nat) :
    nearest f neg 0 den = ofPattern f neg 0 := if_pos rfl

theorem infinityPattern_pos (f : Format) (hBits : 2 ≤ f.exponentBits) : 0 < f.infinityPattern := by
  rw [infinityPattern_eq]
  have hFour : 2 ^ 2 ≤ 2 ^ f.exponentBits := Nat.pow_le_pow_right (by omega) hBits
  exact Nat.mul_pos (by omega) (Nat.two_pow_pos _)

theorem magnitude_zero (neg : Bool) (hBits : 2 ≤ f.exponentBits) :
    (ofPattern f neg 0).magnitude = 0 := by
  have hFits : Fits f 0 0 := ⟨Nat.zero_le _, Or.inl rfl⟩
  have hZero : 0 * 2 ^ f.fractionBits + 0 < f.infinityPattern := by
    simpa using infinityPattern_pos f hBits
  have h : (ofPattern f neg (0 * 2 ^ f.fractionBits + 0)).magnitude = _ :=
    magnitude_ofPattern hFits hZero
  simpa using h

/-- Below the limit of the format, rounding gives a finite value. -/
theorem isFinite_nearest (neg : Bool) {num den : Nat} (hd : 0 < den)
    (hBits : 2 ≤ f.exponentBits) (hLimit : (num : ℚ) / den < f.limit) :
    (nearest f neg num den).isFinite = true := by
  rcases Nat.eq_zero_or_pos num with rfl | hn
  · rw [nearest_zero]
    exact isFinite_ofPattern (infinityPattern_pos f hBits)
  · obtain ⟨-, -, -, hFinite, -⟩ := exists_magnitude neg hn hd hBits hLimit
    exact hFinite

section Normal

variable {num den : Nat} (neg : Bool) (hd : 0 < den) (hBits : 2 ≤ f.exponentBits)
  (hLimit : (num : ℚ) / den < f.limit)

include hd hBits hLimit

/-- Rounding at most doubles a quotient, the least step aside. -/
theorem magnitude_nearest_le_add :
    (nearest f neg num den).magnitude ≤ 2 * ((num : ℚ) / den) + 2 ^ f.minExponent := by
  have hLeast : (0 : ℚ) < 2 ^ f.minExponent := zpow_pos (by norm_num) _
  rcases Nat.eq_zero_or_pos num with rfl | hn
  · rw [nearest_zero, magnitude_zero neg hBits]
    simp only [Nat.cast_zero, zero_div, mul_zero, zero_add]
    exact hLeast.le
  · obtain ⟨k, m, hRounded, -, hMagnitude⟩ := exists_magnitude neg hn hd hBits hLimit
    have hUpper := hRounded.upper
    have hQuotient : (0 : ℚ) ≤ num / den := by positivity
    rw [hMagnitude]
    -- a subnormal value is half a step off at most, and a normal one is greater than a step
    rcases hRounded.normal with hk | hNormal
    · subst hk
      simp only [Nat.cast_zero, add_zero] at hUpper ⊢
      linarith
    · have hStep := step_pos f k
      have hOne : (1 : ℚ) ≤ 2 ^ f.fractionBits := one_le_pow₀ (by norm_num)
      have : (1 : ℚ) * 2 ^ (f.minExponent + k) ≤ 2 ^ f.fractionBits * 2 ^ (f.minExponent + k) := by
        gcongr
      linarith

variable (hNormal : (2 : ℚ) ^ f.fractionBits * 2 ^ f.minExponent ≤ num / den)

include hNormal

/-- A number in the normal range is rounded to as many digits as the format has. -/
theorem exists_normal : ∃ k m, Rounded f ((num : ℚ) / den) k m ∧
    (nearest f neg num den).magnitude = m * 2 ^ (f.minExponent + k) ∧
    (2 : ℚ) ^ f.fractionBits * 2 ^ (f.minExponent + k) ≤ num / den := by
  have hn : 0 < num := by
    rcases Nat.eq_zero_or_pos num with rfl | hn
    · have : (0 : ℚ) < 2 ^ f.fractionBits * 2 ^ f.minExponent := by positivity
      simp only [Nat.cast_zero, zero_div] at hNormal
      linarith
    · exact hn
  obtain ⟨k, m, hRounded, -, hMagnitude⟩ := exists_magnitude neg hn hd hBits hLimit
  refine ⟨k, m, hRounded, hMagnitude, ?_⟩
  rcases hRounded.normal with hk | h
  · subst hk
    simpa using hNormal
  · exact h

/-- In the range of normal values the relative error is at most half a unit of the last place. -/
theorem magnitude_nearest_le :
    (nearest f neg num den).magnitude ≤ (1 + 1 / 2 ^ (f.fractionBits + 1)) * ((num : ℚ) / den) := by
  obtain ⟨k, m, hRounded, hMagnitude, hFull⟩ := exists_normal neg hd hBits hLimit hNormal
  have hUpper := hRounded.upper
  have hUnit : (0 : ℚ) < 2 ^ f.fractionBits := by positivity
  have hHalf : (2 : ℚ) ^ (f.minExponent + k) / 2 ≤
      1 / 2 ^ (f.fractionBits + 1) * ((num : ℚ) / den) := by
    rw [pow_succ, div_mul_eq_mul_div, one_mul, div_le_div_iff₀ (by norm_num) (by positivity)]
    nlinarith
  rw [hMagnitude, add_mul, one_mul]
  linarith

/-- In the range of normal values rounding takes at most half of a quotient away. -/
theorem le_two_mul_magnitude : (num : ℚ) / den ≤ 2 * (nearest f neg num den).magnitude := by
  obtain ⟨k, m, hRounded, hMagnitude, hFull⟩ := exists_normal neg hd hBits hLimit hNormal
  have hStep := step_pos f k
  have hOne : (1 : ℚ) ≤ 2 ^ f.fractionBits := one_le_pow₀ (by norm_num)
  have hLow : (1 : ℚ) * 2 ^ (f.minExponent + k) ≤ 2 ^ f.fractionBits * 2 ^ (f.minExponent + k) := by
    gcongr
  have hLower := hRounded.lower
  rw [hMagnitude]
  linarith

end Normal

end Binary

end Taskyard.Decimal
