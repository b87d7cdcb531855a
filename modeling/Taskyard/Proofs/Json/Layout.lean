import Taskyard.Proofs.Decimal.Shortest
import Taskyard.Proofs.Json.Scaling

/-!
# JSON — the text of a decimal is a spelling

A decimal is written in one of four layouts: padded with zeros, with a point among its digits, with
zeros after the point, or with an exponent. Each of them is the text of a well-formed spelling whose
exact value is that of the decimal.

Main results:

* `Spelling.Renders` — a spelling that stands for a text and a value.
* `exists_renders` — every text of a decimal is rendered by a spelling.
-/

namespace Taskyard.Json

open Taskyard.Decimal

/-! ## Texts of decimals -/

/-- A spelling that stands for a text and a value, and is read without dropping digits. -/
structure Spelling.Renders (s : Spelling) (body : List Char) (q : ℚ) : Prop where
  wellFormed : s.WellFormed
  -- Something sets it apart from an integer.
  real : (s.fraction.isSome || s.exponent.isSome) = true
  few : s.whole.length ≤ 19
  lead : s.exponent.isSome = true → 0 < ofDigits s.whole
  body_eq : s.body = body
  rational_eq : s.rational = q

/-- Digits after digits are digits. -/
theorem digits_append {a b : List Nat} (ha : Digits a) (hb : Digits b) : Digits (a ++ b) := by
  intro d hd
  rcases List.mem_append.mp hd with h | h
  · exact ha d h
  · exact hb d h

theorem digits_replicate (n : Nat) : Digits (List.replicate n 0) := by
  intro d hd
  rw [List.eq_of_mem_replicate hd]
  omega

theorem ofDigits_replicate (n : Nat) : ofDigits (List.replicate n 0) = 0 := by
  induction n with
  | zero => rfl
  | succ n ih => rw [List.replicate_succ', ofDigits_concat, ih]

theorem digitTexts_append (a b : List Nat) : digitTexts (a ++ b) = digitTexts a ++ digitTexts b :=
  List.map_append

/-- Zeros are printed as zeros. -/
theorem digitTexts_replicate (n : Nat) :
    digitTexts (List.replicate n 0) = List.replicate n '0' := List.map_replicate

/-- The text of a decimal with an exponent after its first digit. -/
def scientificTexts (ds : List Char) (e : Int) : List Char :=
  match ds with
  | [c] => c :: 'e' :: exponentText e
  | c :: rest => c :: '.' :: (rest ++ 'e' :: exponentText e)
  | [] => []

/-- The exponent of the scientific layout, as it is printed. -/
theorem exponentTexts_eq (e : Int) :
    exponentTexts (some (decide (e < 0), digitList e.natAbs)) = 'e' :: exponentText e := by
  rw [exponentText]
  by_cases h : e < 0
  · rw [decide_eq_true h, if_pos h, exponentTexts, digitTexts_digitList]
    rw [show e.natAbs = (-e).toNat by omega]
  · rw [decide_eq_false h, if_neg h, exponentTexts, digitTexts_digitList]
    rw [show e.natAbs = e.toNat by omega]

section Layouts

variable {l : Layout} {d : Scientific} (negative : Bool)

/-- A number below 1 that is not too small: a zero, a point and the digits behind some zeros. -/
theorem renders_leading (hNone : (digitList d.digits).length + d.exponent ≤ 0) :
    Spelling.Renders
      ⟨negative, [0], some (List.replicate (-((digitList d.digits).length + d.exponent)).toNat 0 ++
        digitList d.digits), none⟩
      ('0' :: '.' :: (List.replicate (-((digitList d.digits).length + d.exponent)).toNat '0' ++
        digitChars d.digits))
      d.magnitude where
  wellFormed := by
    refine ⟨?_, by simp, ?_, ?_, ?_⟩
    · intro x hx
      have : x = 0 := by simpa using hx
      omega
    · rintro tail ⟨⟩
      rfl
    · rintro ds ⟨⟩
      refine ⟨digits_append (digits_replicate _) (digits_digitList _), ?_⟩
      simp [digitList_ne_nil]
    · rintro e ⟨⟩
  real := rfl
  few := by
    show 1 ≤ 19
    omega
  lead := by
    rintro ⟨⟩
  body_eq := by
    rw [Spelling.body]
    show digitTexts [0] ++ ('.' :: digitTexts _ ++ []) = _
    rw [digitTexts_append, digitTexts_digitList, digitTexts_replicate, List.append_nil]
    rfl
  rational_eq := by
    -- the zeros in front count for the exponent only
    generalize hn : (-((digitList d.digits).length + d.exponent)).toNat = n
    have hShift : (0 : Int) - (n + (digitList d.digits).length : Nat) = d.exponent := by omega
    rw [Spelling.rational, Scientific.magnitude]
    show (ofDigits ([0] ++ (List.replicate n 0 ++ digitList d.digits)) : ℚ) *
      10 ^ ((0 : Int) - ((List.replicate n 0 ++ digitList d.digits).length : Nat)) = _
    rw [← List.append_assoc, show [0] ++ List.replicate n 0 = List.replicate (n + 1) 0 from rfl,
      ofDigits_append, ofDigits_replicate, ofDigits_digitList, List.length_append,
      List.length_replicate, hShift]
    push_cast
    ring

variable (hDigits : d.digits ≠ 0)

include hDigits

/-- A whole number that is not too large: the digits, some zeros, and an empty fraction. -/
theorem renders_padded (hWhole : l.maxWhole ≤ 19) (hExponent : 0 ≤ d.exponent)
    (hLayout : (digitList d.digits).length + d.exponent ≤ l.maxWhole) :
    Spelling.Renders
      ⟨negative, digitList d.digits ++ List.replicate d.exponent.toNat 0, some [0], none⟩
      (digitChars d.digits ++ List.replicate d.exponent.toNat '0' ++ ['.', '0']) d.magnitude where
  wellFormed := by
    obtain ⟨c, rest, hHead, hc⟩ := head_digitList hDigits
    refine ⟨digits_append (digits_digitList _) (digits_replicate _), ?_, ?_, ?_, ?_⟩
    · simp [hHead]
    · intro tail h
      rw [show (Spelling.whole _) = _ from rfl, hHead] at h
      cases h
      exact absurd rfl hc
    · rintro ds ⟨⟩
      refine ⟨?_, by simp⟩
      intro x hx
      have : x = 0 := by simpa using hx
      omega
    · rintro e ⟨⟩
  real := rfl
  few := by
    rw [List.length_append, List.length_replicate]
    omega
  lead := by
    rintro ⟨⟩
  body_eq := by
    rw [Spelling.body]
    show digitTexts _ ++ ('.' :: digitTexts [0] ++ []) = _
    rw [digitTexts_append, digitTexts_digitList, digitTexts_replicate, List.append_nil]
    rfl
  rational_eq := by
    -- the zeros behind are those of the exponent, and the last one is the fraction
    obtain ⟨n, hn⟩ := Int.eq_ofNat_of_zero_le hExponent
    rw [Spelling.rational, Scientific.magnitude]
    show (ofDigits ((digitList d.digits ++ List.replicate d.exponent.toNat 0) ++ [0]) : ℚ) *
      10 ^ ((0 : Int) - (1 : Nat)) = _
    rw [ofDigits_concat, ofDigits_append, ofDigits_digitList, ofDigits_replicate,
      List.length_replicate, hn, Int.toNat_natCast]
    have hTenth : (10 : ℚ) ^ ((0 : Int) - (1 : Nat)) = 10⁻¹ := by norm_num
    have hPow : (10 : ℚ) ^ (n : Int) = 10 ^ n := zpow_natCast _ _
    rw [hTenth, hPow]
    push_cast
    field_simp
    ring

/-- A number with a fraction: the point stands within the digits. -/
theorem renders_pointed (hWhole : l.maxWhole ≤ 19) (hExponent : d.exponent < 0)
    (hSome : 0 < (digitList d.digits).length + d.exponent)
    (hLayout : (digitList d.digits).length + d.exponent ≤ l.maxWhole) :
    Spelling.Renders
      ⟨negative, (digitList d.digits).take ((digitList d.digits).length + d.exponent).toNat,
        some ((digitList d.digits).drop ((digitList d.digits).length + d.exponent).toNat), none⟩
      ((digitChars d.digits).take ((digitList d.digits).length + d.exponent).toNat ++
        '.' :: (digitChars d.digits).drop ((digitList d.digits).length + d.exponent).toNat)
      d.magnitude := by
  obtain ⟨c, rest, hHead, hc⟩ := head_digitList hDigits
  generalize hn : ((digitList d.digits).length + d.exponent).toNat = n
  have hPos : 0 < n := by omega
  have hLess : n < (digitList d.digits).length := by omega
  have hAll : Digits (digitList d.digits) := digits_digitList _
  exact {
    wellFormed := by
      refine ⟨fun x hx => hAll x (List.mem_of_mem_take hx), ?_, ?_, ?_, ?_⟩
      · intro h
        have := congrArg List.length h
        rw [List.length_take, List.length_nil] at this
        omega
      · intro tail h
        obtain ⟨n, rfl⟩ := Nat.exists_eq_succ_of_ne_zero hPos.ne'
        rw [show (Spelling.whole _) = _ from rfl, hHead, List.take_succ_cons] at h
        cases h
        exact absurd rfl hc
      · rintro ds ⟨⟩
        refine ⟨fun x hx => hAll x (List.mem_of_mem_drop hx), ?_⟩
        intro h
        have := congrArg List.length h
        rw [List.length_drop, List.length_nil] at this
        omega
      · rintro e ⟨⟩
    real := rfl
    few := by
      rw [List.length_take]
      omega
    lead := by
      rintro ⟨⟩
    body_eq := by
      rw [Spelling.body, ← digitTexts_digitList]
      show digitTexts _ ++ ('.' :: digitTexts _ ++ []) = _
      rw [List.append_nil, digitTexts, digitTexts, digitTexts, List.map_take, List.map_drop]
    rational_eq := by
      -- the digits after the point are as many as the exponent takes away
      have hShift : (0 : Int) - ((digitList d.digits).length - n : Nat) = d.exponent := by omega
      rw [Spelling.rational, Scientific.magnitude]
      show (ofDigits ((digitList d.digits).take n ++ (digitList d.digits).drop n) : ℚ) *
        10 ^ ((0 : Int) - (((digitList d.digits).drop n).length : Nat)) = _
      rw [List.take_append_drop, ofDigits_digitList, List.length_drop, hShift] }

/-- Every other number: the first digit, the others behind a point, and an exponent. -/
theorem renders_scientific :
    Spelling.Renders
      ⟨negative, (digitList d.digits).take 1,
        if (digitList d.digits).length = 1 then none else some ((digitList d.digits).drop 1),
        some (decide ((digitList d.digits).length + d.exponent - 1 < 0),
          digitList ((digitList d.digits).length + d.exponent - 1).natAbs)⟩
      (scientificTexts (digitChars d.digits) ((digitList d.digits).length + d.exponent - 1))
      d.magnitude := by
  obtain ⟨c, rest, hHead, hc⟩ := head_digitList hDigits
  have hAll : Digits (digitList d.digits) := digits_digitList _
  have hValue : ofDigits (c :: rest) = d.digits := by rw [← hHead, ofDigits_digitList]
  have hChars : digitChars d.digits = c.digitChar :: digitTexts rest := by
    rw [← digitTexts_digitList, hHead]
    rfl
  generalize he : ((digitList d.digits).length : Int) + d.exponent - 1 = e
  -- the exponent that is written counts from the first digit
  have hPower : ∀ fraction, Spelling.power ⟨negative, [c], fraction,
      some (decide (e < 0), digitList e.natAbs)⟩ = e := by
    intro fraction
    rw [Spelling.power]
    simp only [ofDigits_digitList, decide_eq_true_eq]
    split <;> omega
  have hExponent : ∀ x ∈ some (decide (e < 0), digitList e.natAbs), Digits x.2 ∧ x.2 ≠ [] := by
    rintro x ⟨⟩
    exact ⟨digits_digitList _, digitList_ne_nil _⟩
  rw [hHead] at hAll he ⊢
  rw [hChars]
  have hFirst : Digits [c] := by
    intro x hx
    have : x = c := by simpa using hx
    rw [this]
    exact hAll c (by simp)
  have hLeading : 0 < ofDigits [c] := by
    rw [ofDigits]
    show 0 < 0 * 10 + c
    omega
  -- one digit has no point, more than one have it after the first
  cases rest with
  | nil =>
    exact {
      wellFormed := by
        refine ⟨hFirst, by simp, ?_, ?_, hExponent⟩
        · rintro tail ⟨⟩
          rfl
        · rintro ds ⟨⟩
      real := rfl
      few := by
        show 1 ≤ 19
        omega
      lead := fun _ => hLeading
      body_eq := by
        rw [Spelling.body]
        show digitTexts [c] ++ ([] ++ exponentTexts _) = _
        rw [exponentTexts_eq]
        rfl
      rational_eq := by
        have hShift : e - (0 : Nat) = d.exponent := by
          simp at he
          omega
        rw [Spelling.rational, Scientific.magnitude]
        show (ofDigits [c] : ℚ) * 10 ^ (Spelling.power ⟨negative, [c], none, _⟩ - (0 : Nat)) = _
        rw [hPower, hValue, hShift] }
  | cons c' rest =>
    exact {
      wellFormed := by
        refine ⟨hFirst, by simp, ?_, ?_, hExponent⟩
        · rintro tail ⟨⟩
          rfl
        · rintro ds ⟨⟩
          exact ⟨fun x hx => hAll x (List.mem_cons_of_mem _ hx), by simp⟩
      real := rfl
      few := by
        show 1 ≤ 19
        omega
      lead := fun _ => hLeading
      body_eq := by
        rw [Spelling.body]
        show digitTexts [c] ++ ('.' :: digitTexts (c' :: rest) ++ exponentTexts _) = _
        rw [exponentTexts_eq]
        rfl
      rational_eq := by
        have hShift : e - ((c' :: rest).length : Nat) = d.exponent := by
          simp only [List.length_cons] at he ⊢
          omega
        rw [Spelling.rational, Scientific.magnitude]
        show (ofDigits ([c] ++ (c' :: rest)) : ℚ) *
          10 ^ (Spelling.power ⟨negative, [c], _, _⟩ - ((c' :: rest).length : Nat)) = _
        rw [hPower, show [c] ++ (c' :: rest) = c :: c' :: rest from rfl, hValue, hShift] }

/-- The text of a positive decimal is that of a spelling of the same value. -/
theorem exists_renders (hWhole : l.maxWhole ≤ 19) :
    ∃ s : Spelling, s.negative = negative ∧ s.Renders (d.text l) d.magnitude := by
  have hLength : (digitChars d.digits).length = (digitList d.digits).length := by
    rw [digitList, List.length_map]
  rw [Scientific.text, hLength]
  -- the layouts are tried in the order in which the printer tries them
  by_cases hPadded : 0 ≤ d.exponent ∧ (digitList d.digits).length + d.exponent ≤ l.maxWhole
  · rw [if_pos hPadded]
    exact ⟨_, rfl, renders_padded negative hDigits hWhole hPadded.1 hPadded.2⟩
  · rw [if_neg hPadded]
    by_cases hPointed : 0 < (digitList d.digits).length + d.exponent ∧
        (digitList d.digits).length + d.exponent ≤ l.maxWhole
    · rw [if_pos hPointed]
      have hNegative : d.exponent < 0 := by omega
      exact ⟨_, rfl, renders_pointed negative hDigits hWhole hNegative hPointed.1 hPointed.2⟩
    · rw [if_neg hPointed]
      by_cases hLeading : (digitList d.digits).length + d.exponent ≤ 0 ∧
          -l.maxLeadingZeros ≤ (digitList d.digits).length + d.exponent
      · rw [if_pos hLeading]
        exact ⟨_, rfl, renders_leading negative hLeading.1⟩
      · rw [if_neg hLeading]
        exact ⟨_, rfl, renders_scientific negative hDigits⟩

end Layouts

end Taskyard.Json
