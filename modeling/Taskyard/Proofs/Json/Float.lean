import Taskyard.Proofs.Json.Layout

/-!
# JSON — the text of a finite float is readable

The text of a finite float is read as a finite float again, though not always as the same one. The
three greatest 64-bit values lie too close to the limit for the general bound; for them the reader
is run.

Main results:

* `Readable` — a text that is read as a finite float wherever it stands.
* `readable_double`, `readable_single` — the texts of finite values.
-/

namespace Taskyard.Json

open Taskyard.Decimal Taskyard.Decimal.Binary

/-- A text that is read as a finite float wherever it stands. -/
def Readable (text : List Char) : Prop :=
  ∃ y : Double, y.isFinite = true ∧
    ∀ rest, Closes rest → readNumber (text ++ rest) = some (.number (.double y), rest)

/-- A spelling that is not an integer and has a finite value makes a readable text. -/
theorem readable_chars {s : Spelling} (hs : s.WellFormed)
    (hReal : (s.fraction.isSome || s.exponent.isSome) = true) {y : Double}
    (hValue : s.real = some y) (hFinite : y.isFinite = true) : Readable s.chars := by
  refine ⟨y, hFinite, fun rest hRest => ?_⟩
  have hRead := readNumber_chars hs hRest
  have hNumber : s.value = .number (.double y) := by
    rw [Spelling.value]
    simp [hReal, hValue]
  rwa [hNumber] at hRead

/-- A text that renders a number below the limit, with room for two roundings, reads back. -/
theorem Spelling.Renders.readable {s : Spelling} {body : List Char} {q : ℚ}
    (h : s.Renders body q) (hValue : (1 + 1 / 2 ^ 53) ^ 2 * q < Format.double.limit) :
    Readable (if s.negative then '-' :: body else body) := by
  obtain ⟨y, hReal, hFinite⟩ := Spelling.exists_real h.wellFormed h.few h.lead
    (by rw [h.rational_eq]; exact hValue)
  have hChars : s.chars = if s.negative then '-' :: body else body := by
    rw [Spelling.chars, h.body_eq]
  rw [← hChars]
  exact readable_chars h.wellFormed h.real hReal hFinite

variable {f : Format}

/-- The exponent field and the fraction of a value, and what they make of it. -/
theorem exists_fields (x : Binary f) : ∃ field fraction,
    x.pattern.toNat = field * 2 ^ f.fractionBits + fraction ∧ fraction < 2 ^ f.fractionBits ∧
      x.scaled = if field = 0 then (fraction, f.minExponent)
        else (2 ^ f.fractionBits + fraction, f.minExponent + (field - 1)) := by
  have hUnit : 0 < 2 ^ f.fractionBits := Nat.two_pow_pos _
  refine ⟨x.pattern.toNat / 2 ^ f.fractionBits, x.pattern.toNat % 2 ^ f.fractionBits, ?_,
    Nat.mod_lt _ hUnit, ?_⟩
  · rw [Nat.div_add_mod']
  · rw [scaled, Nat.shiftRight_eq_div_pow, Nat.one_shiftLeft]


theorem scaled_pos {x : Binary f} (h : x.isZero = false) : 0 < x.scaled.1 := by
  obtain ⟨field, fraction, hPattern, -, hScaled⟩ := exists_fields x
  have hNe : x.pattern.toNat ≠ 0 := by simpa [isZero] using h
  have hUnit : 0 < 2 ^ f.fractionBits := Nat.two_pow_pos _
  rw [hScaled]
  by_cases hField : field = 0
  · subst hField
    rw [if_pos rfl]
    dsimp only
    omega
  · rw [if_neg hField]
    dsimp only
    omega

/-- The text of a value that is not too close to the limit is readable. -/
theorem readable_text {l : Layout} (hWhole : l.maxWhole ≤ 19) {x : Binary f}
    (hValue : (1 + 1 / 2 ^ 53) ^ 2 * ((x.scaled.1 + 1 / 2) * (2 : ℚ) ^ x.scaled.2) <
      Format.double.limit) : Readable (x.text l) := by
  rw [Binary.text]
  cases hZero : x.isZero with
  -- zero has a spelling of its own
  | true =>
    have hDigits : ∀ d ∈ [0], d < 10 := by simp
    have hSpelling : Spelling.WellFormed ⟨x.negative, [0], some [0], none⟩ := by
      refine ⟨hDigits, by simp, ?_, ?_, ?_⟩
      · rintro rest ⟨⟩
        rfl
      · rintro ds ⟨⟩
        exact ⟨hDigits, by simp⟩
      · rintro e ⟨⟩
    have hReal : ∀ negative, ∃ y, Spelling.real ⟨negative, [0], some [0], none⟩ = some y ∧
        y.isFinite = true := by
      intro negative
      cases negative
      · exact ⟨_, rfl, by decide +kernel⟩
      · exact ⟨_, rfl, by decide +kernel⟩
    obtain ⟨y, hy, hFinite⟩ := hReal x.negative
    exact readable_chars hSpelling rfl hy hFinite
  | false =>
    -- any other value has a shortest decimal, which is not above half a step more
    have hPos : 0 < x.magnitude := by
      rw [magnitude_eq]
      have : (0 : ℚ) < x.scaled.1 := by exact_mod_cast scaled_pos hZero
      positivity
    obtain ⟨hNe, hLe⟩ := shortest_spec hPos
    obtain ⟨s, hNegative, hRenders⟩ := exists_renders (l := l) x.negative hNe hWhole
    have hBound : (1 + 1 / 2 ^ 53) ^ 2 * x.shortest.magnitude < Format.double.limit :=
      lt_of_le_of_lt (mul_le_mul_of_nonneg_left hLe (by norm_num)) hValue
    have h := hRenders.readable hBound
    rw [hNegative] at h
    exact h

/-! ## Single values -/

/-- Single values are far from the limit of double ones. -/
theorem readable_single {x : Single} (hx : x.isFinite = true) : Readable (x.text .single) := by
  obtain ⟨field, fraction, hPattern, hFraction, hScaled⟩ := exists_fields x
  have hFinite : x.pattern.toNat < Format.single.infinityPattern := by simpa [isFinite] using hx
  have hField : field ≤ 254 := by
    by_contra hGreat
    have hInfinity : Format.single.infinityPattern = 255 * 2 ^ Format.single.fractionBits := by
      decide
    have : 255 * 2 ^ Format.single.fractionBits ≤ field * 2 ^ Format.single.fractionBits :=
      Nat.mul_le_mul_right _ (by omega)
    omega
  have hUnit : (2 : Nat) ^ Format.single.fractionBits = 2 ^ 23 := by decide
  have hLeast : Format.single.minExponent = -149 := by decide
  rw [hUnit] at hFraction hScaled
  rw [hLeast] at hScaled
  -- a mantissa has 24 bits, and the greatest exponent that is not kept for infinity is 104
  have hMantissa : x.scaled.1 < 2 ^ 24 ∧ x.scaled.2 ≤ 104 := by
    rw [hScaled]
    split
    · dsimp only
      omega
    · dsimp only
      omega
  have hPower : (2 : ℚ) ^ x.scaled.2 ≤ 2 ^ 104 := by
    rw [← zpow_natCast]
    exact zpow_le_zpow_right₀ (by norm_num) (by exact_mod_cast hMantissa.2)
  have hCast : (x.scaled.1 : ℚ) + 1 / 2 ≤ 2 ^ 24 := by
    have : (x.scaled.1 : ℚ) + 1 ≤ 2 ^ 24 := by exact_mod_cast hMantissa.1
    linarith
  refine readable_text (by decide) ?_
  calc (1 + 1 / 2 ^ 53) ^ 2 * ((x.scaled.1 + 1 / 2) * (2 : ℚ) ^ x.scaled.2)
      ≤ (1 + 1 / 2 ^ 53) ^ 2 * (2 ^ 24 * 2 ^ 104) := by gcongr
    _ < Format.double.limit := by
      rw [limit_double]
      norm_num

/-! ## Double values -/

/-- The spelling of one of the three greatest values. -/
def greatest (negative : Bool) (last : Nat) : Spelling :=
  ⟨negative, [1], some [7, 9, 7, 6, 9, 3, 1, 3, 4, 8, 6, 2, 3, 1, 5, last], some (false, [3, 0, 8])⟩

/-- The three greatest doubles have texts that differ in one digit. -/
theorem greatest_text : ∀ negative, ∀ k < 3,
    (ofPattern .double negative (Format.double.infinityPattern - 1 - k)).text .double =
      (greatest negative (7 - 2 * k)).chars := by
  decide +kernel

/-- Each of these texts is read as a finite number. -/
theorem greatest_real : ∀ negative, ∀ k < 3,
    (greatest negative (7 - 2 * k)).real.any isFinite = true := by
  decide +kernel

theorem wellFormed_greatest (negative : Bool) {last : Nat} (h : last < 10) :
    (greatest negative last).WellFormed := by
  -- whole part, no leading zero, fraction and exponent, one after another
  refine ⟨?_, by simp [greatest], ?_, ?_, ?_⟩
  · intro d hd
    have : d = 1 := by simpa [greatest] using hd
    omega
  · rintro rest ⟨⟩
  · rintro ds ⟨⟩
    refine ⟨?_, by simp⟩
    intro d hd
    simp only [List.mem_cons, List.not_mem_nil, or_false] at hd
    omega
  · rintro e ⟨⟩
    refine ⟨?_, by simp⟩
    intro d hd
    simp only [List.mem_cons, List.not_mem_nil, or_false] at hd
    omega

/-- So the greatest doubles read back, where the general bound leaves no room. -/
theorem readable_greatest (negative : Bool) {k : Nat} (hk : k < 3) :
    Readable ((ofPattern .double negative (Format.double.infinityPattern - 1 - k)).text .double) := by
  obtain ⟨y, hy, hFinite⟩ := Option.any_eq_true _ _ |>.mp (greatest_real negative k hk)
  rw [greatest_text negative k hk]
  exact readable_chars (wellFormed_greatest negative (by omega)) rfl hy hFinite

/-- Below the three greatest values there is room for the roundings of the reader. -/
theorem readable_below {x : Double} (hx : x.pattern.toNat + 3 < Format.double.infinityPattern) :
    Readable (x.text .double) := by
  obtain ⟨field, fraction, hPattern, hFraction, hScaled⟩ := exists_fields x
  have hUnit : (2 : Nat) ^ Format.double.fractionBits = 2 ^ 52 := by decide
  have hLeast : Format.double.minExponent = -1074 := by decide
  have hInfinity : Format.double.infinityPattern = 2047 * 2 ^ 52 := by decide
  rw [hUnit] at hFraction hScaled hPattern
  rw [hLeast] at hScaled
  rw [hInfinity, hPattern] at hx
  -- In the last binade three mantissas are missing; before it all of them are there.
  have hMantissa : (x.scaled.1 + 4 ≤ 2 ^ 53 ∧ x.scaled.2 ≤ 971) ∨
      (x.scaled.1 + 1 ≤ 2 ^ 53 ∧ x.scaled.2 ≤ 970) := by
    rw [hScaled]
    split
    · dsimp only
      omega
    · dsimp only
      omega
  have hTop : (2 : ℚ) ^ (970 : ℤ) = (2 ^ 194) ^ 5 := by
    rw [← pow_mul]
    exact zpow_natCast 2 970
  have hValue : ((x.scaled.1 : ℚ) + 1 / 2) * 2 ^ x.scaled.2 ≤ (2 ^ 54 - 7) * (2 ^ 194) ^ 5 := by
    rcases hMantissa with ⟨hm, he⟩ | ⟨hm, he⟩
    · have hPower : (2 : ℚ) ^ x.scaled.2 ≤ 2 * (2 ^ 194) ^ 5 := by
        rw [← hTop, ← zpow_one_add₀ two_ne_zero]
        exact zpow_le_zpow_right₀ (by norm_num) he
      have hCast : (x.scaled.1 : ℚ) + 1 / 2 ≤ 2 ^ 53 - 7 / 2 := by
        have : (x.scaled.1 : ℚ) + 4 ≤ 2 ^ 53 := by exact_mod_cast hm
        linarith
      calc ((x.scaled.1 : ℚ) + 1 / 2) * 2 ^ x.scaled.2
          ≤ (2 ^ 53 - 7 / 2) * (2 * (2 ^ 194) ^ 5) := by gcongr
        _ = (2 ^ 54 - 7) * (2 ^ 194) ^ 5 := by ring
    · have hPower : (2 : ℚ) ^ x.scaled.2 ≤ (2 ^ 194) ^ 5 := by
        rw [← hTop]
        exact zpow_le_zpow_right₀ (by norm_num) he
      have hCast : (x.scaled.1 : ℚ) + 1 / 2 ≤ 2 ^ 54 - 7 := by
        have : (x.scaled.1 : ℚ) + 1 ≤ 2 ^ 53 := by exact_mod_cast hm
        linarith
      gcongr
  refine readable_text (by decide) ?_
  calc (1 + 1 / 2 ^ 53) ^ 2 * ((x.scaled.1 + 1 / 2) * (2 : ℚ) ^ x.scaled.2)
      ≤ (1 + 1 / 2 ^ 53) ^ 2 * ((2 ^ 54 - 7) * (2 ^ 194) ^ 5) := by gcongr
    _ < Format.double.limit := by
      rw [limit_double]
      norm_num

/-- Every finite double has a text that reads back. -/
theorem readable_double {x : Double} (hx : x.isFinite = true) : Readable (x.text .double) := by
  have hFinite : x.pattern.toNat < Format.double.infinityPattern := by simpa [isFinite] using hx
  rcases Nat.lt_or_ge (x.pattern.toNat + 3) Format.double.infinityPattern with h | h
  · exact readable_below h
  · obtain ⟨k, hk, hPattern⟩ : ∃ k < 3, x.pattern.toNat = Format.double.infinityPattern - 1 - k :=
      ⟨Format.double.infinityPattern - 1 - x.pattern.toNat, by omega, by omega⟩
    have hx : x = ofPattern .double x.negative (Format.double.infinityPattern - 1 - k) := by
      rw [← hPattern, ofPattern, BitVec.ofNat_toNat, BitVec.setWidth_eq]
    rw [hx]
    exact readable_greatest x.negative hk

end Taskyard.Json
