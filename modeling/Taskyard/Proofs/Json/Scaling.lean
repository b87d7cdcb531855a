import Taskyard.Proofs.Decimal.Rounding
import Taskyard.Proofs.Json.Spelling

/-!
# JSON — floating-point numbers are scaled to finite values

The reader rounds the digits of a number once, a power of ten once and their product once more, so
what it makes of a number need not be the nearest float. This module bounds what the three roundings
can add up to: a number whose exact value is not too close to the limit of the format is read as a
finite float, and one that is scaled down always is.

Main results:

* `exists_realOfParts` — scaling of a significand by a power of ten.
* `Spelling.rational` — the exact value of a spelling.
* `Spelling.exists_real` — a spelling that is not too close to the limit is read as a finite float.
-/

namespace Taskyard.Json

open Taskyard.Decimal Taskyard.Decimal.Binary

/-! ## Products and quotients -/

-- Great powers are written as powers of smaller ones, which can be evaluated.
/-- The limit of doubles as a product, which bounds on powers of ten compare with. -/
theorem limit_double : Format.double.limit = (2 ^ 54 - 1) * (2 ^ 194) ^ 5 := by
  have hExponent : Format.double.minExponent + 2 ^ Format.double.exponentBits - 4 = 970 := by
    decide
  have hPower : (2 : ℚ) ^ (970 : ℤ) = (2 ^ 194) ^ 5 := by
    rw [← pow_mul]
    exact zpow_natCast 2 970
  rw [Format.limit, hExponent, hPower]
  rfl

theorem bits_double : 2 ≤ Format.double.exponentBits := by decide

/-- A product below the limit is finite. -/
theorem isFinite_mul {x y : Double} (h : x.magnitude * y.magnitude < Format.double.limit) :
    (x.mul y).isFinite = true := by
  have hx := quotient_pos x
  have hy := quotient_pos y
  rw [magnitude, magnitude, div_mul_div_comm] at h
  rw [mul]
  refine isFinite_nearest _ (Nat.mul_pos hx hy) bits_double ?_
  push_cast
  exact h

theorem div_quotient {x y : Double} :
    ((x.quotient.1 * y.quotient.2 : Nat) : ℚ) / (x.quotient.2 * y.quotient.1 : Nat) =
      x.magnitude / y.magnitude := by
  rw [magnitude, magnitude, div_div_div_eq]
  push_cast
  rfl

theorem numerator_pos {y : Double} (hy : 0 < y.magnitude) : 0 < y.quotient.1 := by
  rcases Nat.eq_zero_or_pos y.quotient.1 with h | h
  · rw [magnitude, h] at hy
    simp at hy
  · exact h

/-- A quotient by a value that is not small is finite and not much greater than the dividend. -/
theorem div_bounds {x y : Double} (hy : 1 / 2 ≤ y.magnitude) (hx : x.magnitude ≤ (2 ^ 250) ^ 4) :
    (x.div y).isFinite = true ∧ (x.div y).magnitude ≤ 4 * x.magnitude + 1 := by
  have hPos : 0 < y.magnitude := by linarith
  have hDen : 0 < x.quotient.2 * y.quotient.1 :=
    Nat.mul_pos (quotient_pos x) (numerator_pos hPos)
  have hNonneg := magnitude_nonneg x
  have hRatio : x.magnitude / y.magnitude ≤ 2 * x.magnitude := by
    rw [div_le_iff₀ hPos]
    nlinarith
  have hLimit : ((x.quotient.1 * y.quotient.2 : Nat) : ℚ) / (x.quotient.2 * y.quotient.1 : Nat) <
      Format.double.limit := by
    rw [div_quotient, limit_double]
    refine lt_of_le_of_lt (hRatio.trans (mul_le_mul_of_nonneg_left hx (by norm_num))) ?_
    norm_num
  -- the quotient is at most twice the dividend, and rounding at most doubles it once more
  constructor
  · exact isFinite_nearest _ hDen bits_double hLimit
  · have hBound := magnitude_nearest_le_add (x.negative != y.negative) hDen bits_double hLimit
    rw [div_quotient] at hBound
    have hLeast : (2 : ℚ) ^ Format.double.minExponent ≤ 1 :=
      zpow_le_one_of_nonpos₀ (by norm_num) (by decide)
    exact hBound.trans (by linarith)

/-- The rounded powers of ten. -/
theorem powerOfTen_bounds {n : Nat} (hn : n ≤ 308) :
    1 / 2 ≤ (powerOfTen n).magnitude ∧
      (powerOfTen n).magnitude ≤ (1 + 1 / 2 ^ 53) * 10 ^ n := by
  have hCast : ((Nat.pow 10 n : Nat) : ℚ) / (1 : Nat) = 10 ^ n := by
    rw [Nat.cast_one, div_one, Nat.pow_eq]
    push_cast
    rfl
  have hOne : (1 : ℚ) ≤ 10 ^ n := one_le_pow₀ (by norm_num)
  have hLimit : ((Nat.pow 10 n : Nat) : ℚ) / (1 : Nat) < Format.double.limit := by
    rw [hCast, limit_double]
    refine lt_of_le_of_lt (pow_le_pow_right₀ (by norm_num) hn) ?_
    rw [show 308 = 154 * 2 from rfl, pow_mul]
    norm_num
  have hNormal : (2 : ℚ) ^ Format.double.fractionBits * 2 ^ Format.double.minExponent ≤
      ((Nat.pow 10 n : Nat) : ℚ) / (1 : Nat) := by
    rw [hCast]
    refine le_trans ?_ hOne
    rw [← zpow_natCast, ← zpow_add₀ two_ne_zero]
    exact zpow_le_one_of_nonpos₀ (by norm_num) (by decide)
  have hLow := le_two_mul_magnitude false Nat.one_pos bits_double hLimit hNormal
  have hHigh := magnitude_nearest_le false Nat.one_pos bits_double hLimit hNormal
  rw [hCast] at hLow hHigh
  -- a power is one at least, so it is normal and rounding moves it by little
  constructor
  · show 1 / 2 ≤ (nearest .double false (Nat.pow 10 n) 1).magnitude
    linarith
  · exact hHigh

/-- A significand becomes a finite float that is hardly greater. -/
theorem significand_bounds {sig : Nat} (h : sig < significandBound) :
    (nearest .double false sig 1).isFinite = true ∧
      (nearest .double false sig 1).magnitude ≤ (1 + 1 / 2 ^ 53) * sig := by
  have hCast : ((sig : Nat) : ℚ) / (1 : Nat) = sig := by rw [Nat.cast_one, div_one]
  have hBound : (sig : ℚ) < 2 ^ 64 := by exact_mod_cast h
  have hLimit : ((sig : Nat) : ℚ) / (1 : Nat) < Format.double.limit := by
    rw [hCast, limit_double]
    refine hBound.trans ?_
    norm_num
  refine ⟨isFinite_nearest false Nat.one_pos bits_double hLimit, ?_⟩
  -- zero stays zero, and any other significand is normal
  rcases Nat.eq_zero_or_pos sig with rfl | hPos
  · rw [nearest_zero, magnitude_zero false bits_double]
    simp
  · have hOne : (1 : ℚ) ≤ sig := by exact_mod_cast hPos
    have hNormal : (2 : ℚ) ^ Format.double.fractionBits * 2 ^ Format.double.minExponent ≤
        ((sig : Nat) : ℚ) / (1 : Nat) := by
      rw [hCast]
      refine le_trans ?_ hOne
      rw [← zpow_natCast, ← zpow_add₀ two_ne_zero]
      exact zpow_le_one_of_nonpos₀ (by norm_num) (by decide)
    have hHigh := magnitude_nearest_le false Nat.one_pos bits_double hLimit hNormal
    rw [hCast] at hHigh
    exact hHigh

/-! ## Scaling by a power of ten -/

/-- Scaling down always gives a finite float. -/
theorem exists_scaleByTen_down {steps : Nat} {x : Double} {e : Int} (he : e < 0)
    (hx : x.isFinite = true) (hBound : (x.magnitude + 1) * 4 ^ steps ≤ (2 ^ 250) ^ 4) :
    ∃ y, scaleByTen steps x e = some y ∧ y.isFinite = true := by
  induction steps generalizing x e with
  | zero => exact ⟨x, rfl, hx⟩
  | succ steps ih =>
    have hNonneg := magnitude_nonneg x
    have hPow : (1 : ℚ) ≤ 4 ^ (steps + 1) := one_le_pow₀ (by norm_num)
    have hMagnitude : x.magnitude ≤ (2 ^ 250) ^ 4 := by nlinarith
    rw [scaleByTen]
    -- a small exponent takes one division more, and a great one is lowered by 308 first
    by_cases hSmall : e.natAbs ≤ 308
    · rw [if_pos hSmall, if_neg (by omega)]
      exact ⟨_, rfl, (div_bounds (powerOfTen_bounds hSmall).1 hMagnitude).1⟩
    · rw [if_neg hSmall]
      by_cases hZero : x.isZero = true
      · rw [if_pos hZero]
        exact ⟨x, rfl, hx⟩
      · rw [if_neg hZero, if_neg (by omega)]
        obtain ⟨hFinite, hLe⟩ := div_bounds (powerOfTen_bounds (Nat.le_refl 308)).1 hMagnitude
        refine ih (by omega) hFinite (le_trans ?_ hBound)
        rw [pow_succ, mul_comm (4 ^ steps : ℚ), ← mul_assoc]
        gcongr
        linarith

/-- A significand that is scaled to a value below the limit, with room for three roundings, gives a
finite float. -/
theorem exists_realOfParts {sig : Nat} {e : Int} (hSig : sig < significandBound)
    (hValue : (1 + 1 / 2 ^ 53) ^ 2 * ((sig : ℚ) * 10 ^ e) < Format.double.limit) :
    ∃ y, realOfParts sig e = some y ∧ y.isFinite = true := by
  obtain ⟨hFinite, hMagnitude⟩ := significand_bounds hSig
  have hBound : (sig : ℚ) < 2 ^ 64 := by exact_mod_cast hSig
  rcases lt_or_ge e 0 with he | he
  -- a significand is far from the limit, and stays so through four divisions
  · refine exists_scaleByTen_down he hFinite ?_
    have hSmall : (nearest .double false sig 1).magnitude ≤ 2 ^ 65 := by
      refine hMagnitude.trans ?_
      linarith
    calc ((nearest .double false sig 1).magnitude + 1) * 4 ^ 4
        ≤ (2 ^ 65 + 1) * 4 ^ 4 := by gcongr
      _ ≤ (2 ^ 250) ^ 4 := by norm_num
  · obtain ⟨n, rfl⟩ := Int.eq_ofNat_of_zero_le he
    have hZpow : (10 : ℚ) ^ (n : Int) = 10 ^ n := zpow_natCast _ _
    rw [hZpow] at hValue
    rw [realOfParts, scaleByTen]
    rcases Nat.lt_or_ge 308 n with hLarge | hSmall
    · -- Beyond the greatest power the significand has to be zero.
      have hZero : sig = 0 := by
        by_contra hNe
        have hOne : (1 : ℚ) ≤ sig := by exact_mod_cast Nat.one_le_iff_ne_zero.mpr hNe
        have hPow : (10 : ℚ) ^ 309 ≤ 10 ^ n := pow_le_pow_right₀ (by norm_num) hLarge
        have hProduct : (1 : ℚ) * 10 ^ 309 ≤ sig * 10 ^ n := by gcongr
        have hFactor : (1 : ℚ) * (sig * 10 ^ n) ≤ (1 + 1 / 2 ^ 53) ^ 2 * (sig * 10 ^ n) := by
          have : (1 : ℚ) ≤ (1 + 1 / 2 ^ 53) ^ 2 := by norm_num
          gcongr
        have hFar : Format.double.limit < 10 ^ 309 := by
          rw [limit_double, show 309 = 103 * 3 from rfl, pow_mul]
          norm_num
        rw [one_mul] at hProduct hFactor
        exact lt_irrefl _ (((hValue.trans hFar).trans_le hProduct).trans_le hFactor)
      subst hZero
      rw [if_neg (by omega), if_pos (by decide)]
      exact ⟨_, rfl, hFinite⟩
    -- here the product is rounded once more, which the room in the hypothesis allows for
    · rw [if_pos (by omega), if_pos he]
      obtain ⟨-, hPower⟩ := powerOfTen_bounds hSmall
      have hProduct : (nearest .double false sig 1).magnitude * (powerOfTen n).magnitude <
          Format.double.limit := by
        refine lt_of_le_of_lt ?_ hValue
        calc (nearest .double false sig 1).magnitude * (powerOfTen n).magnitude
            ≤ ((1 + 1 / 2 ^ 53) * sig) * ((1 + 1 / 2 ^ 53) * 10 ^ n) :=
              mul_le_mul hMagnitude hPower (magnitude_nonneg _) (by positivity)
          _ = (1 + 1 / 2 ^ 53) ^ 2 * (sig * 10 ^ n) := by ring
      have hMul := isFinite_mul hProduct
      rw [Int.natAbs_natCast, if_pos hMul]
      exact ⟨_, rfl, hMul⟩

/-! ## Values of spellings -/

/-- Digits read one after another. -/
theorem ofDigits_append (a b : List Nat) :
    ofDigits (a ++ b) = ofDigits a * 10 ^ b.length + ofDigits b := by
  induction b using List.reverseRecOn with
  | nil => simp [ofDigits]
  | append_singleton b d ih =>
    rw [← List.append_assoc, ofDigits_concat, ofDigits_concat, ih, List.length_append, pow_add]
    simp only [List.length_singleton, pow_one]
    ring

/-- Digits that have room are all taken into the significand. -/
theorem extendSignificand_all {ds : List Nat} (hDigits : Digits ds) {sig : Nat}
    (hRoom : (sig + 1) * 10 ^ ds.length ≤ significandBound) :
    extendSignificand sig ds = (ds.foldl (fun n d => n * 10 + d) sig, []) := by
  induction ds generalizing sig with
  | nil => rfl
  | cons d ds ih =>
    have hd : d < 10 := hDigits d (by simp)
    have hStep : (sig * 10 + d + 1) * 10 ^ ds.length ≤ significandBound := by
      refine le_trans ?_ hRoom
      rw [List.length_cons, pow_succ, mul_comm (10 ^ ds.length) 10, ← mul_assoc]
      exact Nat.mul_le_mul_right _ (by omega)
    have hPow : 0 < 10 ^ ds.length := by positivity
    have hFits : sig * 10 + d < significandBound := by nlinarith
    rw [extendSignificand, if_pos hFits]
    exact ih (fun x hx => hDigits x (List.mem_cons_of_mem _ hx)) hStep

/-- Some leading digits are taken into the significand, and the others are left. -/
theorem exists_extendSignificand (ds : List Nat) {sig : Nat} (hSig : sig < significandBound) :
    ∃ taken, ds = taken ++ (extendSignificand sig ds).2 ∧
      (extendSignificand sig ds).1 = taken.foldl (fun n d => n * 10 + d) sig ∧
      (extendSignificand sig ds).1 < significandBound := by
  induction ds generalizing sig with
  | nil => exact ⟨[], rfl, rfl, hSig⟩
  | cons d ds ih =>
    rw [extendSignificand]
    by_cases h : sig * 10 + d < significandBound
    · rw [if_pos h]
      obtain ⟨taken, hSplit, hValue, hBound⟩ := ih h
      exact ⟨d :: taken, congrArg (d :: ·) hSplit, hValue, hBound⟩
    · rw [if_neg h]
      exact ⟨[], rfl, rfl, hSig⟩

/-- The exponent of ten that a spelling names. -/
def Spelling.power (s : Spelling) : Int :=
  match s.exponent with
  | none => 0
  | some (down, ds) => if down then -ofDigits ds else ofDigits ds

/-- The digits of a fraction. -/
def Spelling.places (s : Spelling) : List Nat := s.fraction.getD []

/-- The exact magnitude of a spelling. -/
def Spelling.rational (s : Spelling) : ℚ :=
  ofDigits (s.whole ++ s.places) * 10 ^ (s.power - s.places.length)

/-- Leaving the last digits out does not make a magnitude greater. -/
theorem Spelling.truncate_le {s : Spelling} {taken rest : List Nat}
    (hSplit : s.places = taken ++ rest) :
    (ofDigits (s.whole ++ taken) : ℚ) * 10 ^ (s.power - taken.length) ≤ s.rational := by
  have hLength : (s.places.length : Int) = taken.length + rest.length := by
    rw [hSplit, List.length_append]
    push_cast
    rfl
  have hPower : (10 : ℚ) ^ (s.power - taken.length) =
      10 ^ rest.length * 10 ^ (s.power - s.places.length) := by
    rw [← zpow_natCast, ← zpow_add₀ (by norm_num)]
    congr 1
    omega
  -- digits that are left out would only have added to the value
  have hDigits : ofDigits (s.whole ++ taken) * 10 ^ rest.length ≤
      ofDigits (s.whole ++ s.places) := by
    rw [hSplit, ← List.append_assoc, ofDigits_append (s.whole ++ taken) rest]
    exact Nat.le_add_right _ _
  have hCast : (ofDigits (s.whole ++ taken) : ℚ) * 10 ^ rest.length ≤
      ofDigits (s.whole ++ s.places) := by exact_mod_cast hDigits
  have hPos : (0 : ℚ) ≤ 10 ^ (s.power - s.places.length) := zpow_nonneg (by norm_num) _
  rw [rational, hPower, ← mul_assoc]
  exact mul_le_mul_of_nonneg_right hCast hPos

/-- A power of ten that a significant digit is multiplied with is not great. -/
theorem Spelling.power_lt {s : Spelling} (hLead : 0 < ofDigits s.whole)
    (hValue : (1 + 1 / 2 ^ 53) ^ 2 * s.rational < Format.double.limit) : s.power < 309 := by
  by_contra hNot
  have hTruncate : (ofDigits s.whole : ℚ) * 10 ^ s.power ≤ s.rational := by
    have h := Spelling.truncate_le (List.nil_append s.places).symm
    simpa using h
  have hOne : (1 : ℚ) ≤ ofDigits s.whole := by exact_mod_cast hLead
  have hPower : (10 : ℚ) ^ (309 : ℤ) ≤ 10 ^ s.power :=
    zpow_le_zpow_right₀ (by norm_num) (not_lt.mp hNot)
  have hFar : Format.double.limit < (10 : ℚ) ^ (309 : ℤ) := by
    rw [limit_double, show (309 : ℤ) = ((103 * 3 : ℕ) : ℤ) from rfl, zpow_natCast, pow_mul]
    norm_num
  have hPos : (0 : ℚ) ≤ 10 ^ s.power := zpow_nonneg (by norm_num) _
  have hRational : (10 : ℚ) ^ s.power ≤ s.rational := by
    refine le_trans ?_ hTruncate
    exact le_mul_of_one_le_left hPos hOne
  have hFactor : s.rational ≤ (1 + 1 / 2 ^ 53) ^ 2 * s.rational :=
    le_mul_of_one_le_left (hPos.trans hRational) (by norm_num)
  -- one digit before such a power would already be beyond the limit
  exact lt_irrefl _
    (((hValue.trans hFar).trans_le hPower).trans_le (hRational.trans hFactor))

/-- The sign does not matter for being finite. -/
theorem isFinite_signed {y : Double} {negative : Bool} (h : y.isFinite = true) :
    (if negative then y.neg else y).isFinite = true := by
  split
  · exact h
  · exact h

/-- What the reader makes of a spelling that is not too close to the limit is a finite float. The
digits before the point are few, so none of them is dropped. -/
theorem Spelling.exists_real {s : Spelling} (hs : s.WellFormed) (hFew : s.whole.length ≤ 19)
    (hLead : s.exponent.isSome = true → 0 < ofDigits s.whole)
    (hValue : (1 + 1 / 2 ^ 53) ^ 2 * s.rational < Format.double.limit) :
    ∃ y, s.real = some y ∧ y.isFinite = true := by
  have hRoom : (0 + 1) * 10 ^ s.whole.length ≤ significandBound := by
    have : 10 ^ s.whole.length ≤ 10 ^ 19 := Nat.pow_le_pow_right (by omega) hFew
    have : 10 ^ 19 ≤ significandBound := by decide
    omega
  have hWhole : extendSignificand 0 s.whole = (ofDigits s.whole, []) :=
    extendSignificand_all hs.whole hRoom
  have hSig : ofDigits s.whole < significandBound := by
    obtain ⟨taken, hSplit, -, hBound⟩ :=
      exists_extendSignificand s.whole (show 0 < significandBound by decide)
    rwa [hWhole] at hBound
  obtain ⟨taken, hSplit, hTaken, hBound⟩ := exists_extendSignificand s.places hSig
  have hSigValue : (extendSignificand (ofDigits s.whole) s.places).1 =
      ofDigits (s.whole ++ taken) := by
    rw [hTaken, ofDigits, ofDigits, List.foldl_append]
  have hTruncate := Spelling.truncate_le hSplit
  have hScaled : (1 + 1 / 2 ^ 53) ^ 2 *
      ((ofDigits (s.whole ++ taken) : ℚ) * 10 ^ (s.power - taken.length)) <
        Format.double.limit :=
    lt_of_le_of_lt (mul_le_mul_of_nonneg_left hTruncate (by norm_num)) hValue
  have hDropped : s.places.length - (extendSignificand (ofDigits s.whole) s.places).2.length =
      taken.length := by
    have hLength := congrArg List.length hSplit
    rw [List.length_append] at hLength
    omega
  rw [hSigValue] at hBound
  obtain ⟨y, hParts, hFinite⟩ := exists_realOfParts hBound hScaled
  rw [real]
  simp only [hWhole]
  rw [show s.fraction.getD [] = s.places from rfl]
  simp only [hSigValue, hDropped, List.length_nil, Nat.cast_zero]
  cases hExponent : s.exponent with
  | none =>
    have hPower : s.power = 0 := by rw [power, hExponent]
    rw [hPower] at hParts
    simp only [hParts, Option.map_some]
    exact ⟨_, rfl, isFinite_signed hFinite⟩
  | some e =>
    obtain ⟨down, ds⟩ := e
    have hPower : s.power = if down then -(ofDigits ds : Int) else (ofDigits ds : Int) := by
      rw [power, hExponent]
    have hScale : s.power - taken.length =
        if down then 0 - (taken.length : Int) - ofDigits ds
          else 0 - (taken.length : Int) + ofDigits ds := by
      rw [hPower]
      split <;> omega
    rw [hScale] at hParts
    dsimp only
    by_cases hSmall : ofDigits ds < exponentBound
    · rw [if_pos hSmall, hParts]
      exact ⟨_, rfl, isFinite_signed hFinite⟩
    · rw [if_neg hSmall]
      cases down with
      | true =>
        -- So small a number is zero.
        rw [if_neg (by simp)]
        exact ⟨_, rfl, isFinite_signed (by decide)⟩
      | false =>
        have hLt := Spelling.power_lt (hLead (by rw [hExponent]; rfl)) hValue
        have hGreat : 309 ≤ exponentBound := by decide
        rw [hPower, if_neg (by simp)] at hLt
        omega

end Taskyard.Json
