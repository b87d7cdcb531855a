import Taskyard.Json.Printer
import Taskyard.Json.Reader

/-!
# JSON — spelled numbers are read back

Every number is printed as the text of a well-formed `Spelling`: a sign, digits without a leading
zero, perhaps a fraction and perhaps an exponent. The reader takes such a text apart into the same
parts, whatever follows it, as long as it cannot be taken for more of the number.

Main results:

* `digitList` — the digits of a natural number; `ofDigits_digitList` gives the number back.
* `readNumber_chars` — reading of the text of a well-formed spelling.
* `readNumber_natural`, `readNumber_negSucc` — integers are read back as they are.
-/

namespace Taskyard.Json

open Taskyard.Decimal

/-! ## Digits -/

/-- Whether every member of a list is a decimal digit. -/
def Digits (ds : List Nat) : Prop := ∀ d ∈ ds, d < 10

/-- The characters of a list of digits. -/
def digitTexts (ds : List Nat) : List Char := ds.map Nat.digitChar

/-- The decimal digits of a natural number, the leading one first. -/
def digitList (n : Nat) : List Nat := (digitChars n).map fun c => c.toNat - '0'.toNat

/-- What follows cannot be taken for one more digit. -/
def NoDigit (cs : List Char) : Prop := ∀ c ∈ cs.head?, Text.digit? c = none

theorem digit?_digitChar {d : Nat} (h : d < 10) : Text.digit? d.digitChar = some d := by
  have hAll : ∀ d < 10, Text.digit? d.digitChar = some d := by decide
  exact hAll d h

/-- A number below ten has one digit. -/
theorem digitList_of_lt {n : Nat} (h : n < 10) : digitList n = [n] := by
  rw [digitList, digitChars, Nat.toDigits_of_lt_base h]
  simp [Nat.toNat_digitChar_of_lt_ten h]

/-- A greater number has the digits of its tenth and one more. -/
theorem digitList_of_le {n : Nat} (h : 10 ≤ n) :
    digitList n = digitList (n / 10) ++ [n % 10] := by
  have hLast : n % 10 < 10 := Nat.mod_lt _ (by omega)
  rw [digitList, digitChars, Nat.toDigits_of_base_le (by omega) h, List.map_append]
  simp [digitList, digitChars, Nat.toNat_digitChar_of_lt_ten hLast]

/-- The characters of a number's digits are those that are printed. -/
theorem digitTexts_digitList (n : Nat) : digitTexts (digitList n) = digitChars n := by
  induction n using Nat.strongRecOn with
  | ind n ih =>
    by_cases h : n < 10
    · rw [digitList_of_lt h, digitChars, Nat.toDigits_of_lt_base h]
      rfl
    · have hSmaller : (digitList (n / 10)).map Nat.digitChar = digitChars (n / 10) :=
        ih (n / 10) (by omega)
      have hSplit : digitChars n = digitChars (n / 10) ++ [(n % 10).digitChar] :=
        Nat.toDigits_of_base_le (by omega) (by omega)
      rw [digitTexts, digitList_of_le (by omega), List.map_append, hSmaller, hSplit]
      rfl

/-- Printed digits are digits, by induction on the number. -/
theorem digits_digitList (n : Nat) : Digits (digitList n) := by
  -- strong induction: the digits before the last are those of the tenth
  induction n using Nat.strongRecOn with
  | ind n ih =>
    by_cases h : n < 10
    · rw [digitList_of_lt h]
      intro d hd
      have : d = n := by simpa using hd
      omega
    · rw [digitList_of_le (by omega)]
      intro d hd
      rcases List.mem_append.mp hd with hd | hd
      · exact ih (n / 10) (by omega) d hd
      · have : d = n % 10 := by simpa using hd
        omega

theorem ofDigits_concat (ds : List Nat) (d : Nat) : ofDigits (ds ++ [d]) = ofDigits ds * 10 + d := by
  rw [ofDigits, ofDigits, List.foldl_append]
  rfl

/-- The digits of a number have its value. -/
theorem ofDigits_digitList (n : Nat) : ofDigits (digitList n) = n := by
  induction n using Nat.strongRecOn with
  | ind n ih =>
    by_cases h : n < 10
    · rw [digitList_of_lt h]
      simp [ofDigits]
    · rw [digitList_of_le (by omega), ofDigits_concat, ih (n / 10) (by omega)]
      omega

theorem digitList_ne_nil (n : Nat) : digitList n ≠ [] := by
  rw [digitList, ne_eq, List.map_eq_nil_iff]
  exact Nat.toDigits_ne_nil

/-- A positive number does not start with a zero. -/
theorem head_digitList {n : Nat} (h : n ≠ 0) : ∃ d rest, digitList n = d :: rest ∧ d ≠ 0 := by
  induction n using Nat.strongRecOn with
  | ind n ih =>
    by_cases hSmall : n < 10
    · exact ⟨n, [], digitList_of_lt hSmall, h⟩
    · obtain ⟨d, rest, hDigits, hd⟩ := ih (n / 10) (by omega) (by omega)
      refine ⟨d, rest ++ [n % 10], ?_, hd⟩
      rw [digitList_of_le (by omega), hDigits]
      rfl

/-- A run of digits is taken as a whole. -/
theorem takeDigits_append {ds : List Nat} {rest : List Char} (hDigits : Digits ds)
    (hRest : NoDigit rest) : takeDigits (digitTexts ds ++ rest) = (ds, rest) := by
  induction ds with
  | nil =>
    cases rest with
    | nil => rfl
    | cons c cs =>
      -- the digits are over: what follows does not go on with one
      have h : Text.digit? c = none := hRest c rfl
      show takeDigits (c :: cs) = _
      rw [takeDigits, h]
  | cons d ds ih =>
    have hHead : Text.digit? d.digitChar = some d := digit?_digitChar (hDigits d (by simp))
    have hTail := ih fun x hx => hDigits x (List.mem_cons_of_mem _ hx)
    show takeDigits (d.digitChar :: (digitTexts ds ++ rest)) = _
    rw [takeDigits, hHead]
    simp only [hTail]

/-! ## Spellings -/

/-- What the reader accepts as the parts of a number. -/
structure Spelling.WellFormed (s : Spelling) : Prop where
  whole : Digits s.whole
  whole_ne : s.whole ≠ []
  -- A leading zero stands alone.
  lead : ∀ rest, s.whole = 0 :: rest → rest = []
  fraction : ∀ ds ∈ s.fraction, Digits ds ∧ ds ≠ []
  exponent : ∀ e ∈ s.exponent, Digits e.2 ∧ e.2 ≠ []

/-- The text of a fraction. -/
def fractionTexts : Option (List Nat) → List Char
  | none => []
  | some ds => '.' :: digitTexts ds

/-- The text of an exponent. -/
def exponentTexts : Option (Bool × List Nat) → List Char
  | none => []
  | some (true, ds) => 'e' :: '-' :: digitTexts ds
  | some (false, ds) => 'e' :: digitTexts ds

/-- The text of the parts of a number after its sign. -/
def Spelling.body (s : Spelling) : List Char :=
  digitTexts s.whole ++ (fractionTexts s.fraction ++ exponentTexts s.exponent)

/-- The text of a spelling. -/
def Spelling.chars (s : Spelling) : List Char :=
  if s.negative then '-' :: s.body else s.body

/-- What may follow a value inside a text: nothing, or what separates or closes. -/
def Closes (cs : List Char) : Prop := ∀ c ∈ cs.head?, c = ',' ∨ c = ']' ∨ c = '\x7d'

theorem closes_nil : Closes [] := by
  intro c hc
  cases hc

theorem closes_cons {c : Char} {cs : List Char} (h : c = ',' ∨ c = ']' ∨ c = '\x7d') :
    Closes (c :: cs) := by
  intro c' hc
  cases hc
  exact h

/-- Where a number may close, no digit follows. -/
theorem Closes.noDigit {cs : List Char} (h : Closes cs) : NoDigit cs := by
  intro c hc
  rcases h c hc with rfl | rfl | rfl <;> decide

/-- An exponent does not begin with a digit. -/
theorem noDigit_exponentTexts {e : Option (Bool × List Nat)} {rest : List Char}
    (h : Closes rest) : NoDigit (exponentTexts e ++ rest) := by
  rcases e with _ | ⟨_ | _, ds⟩
  · exact h.noDigit
  all_goals
    intro c hc
    cases hc
    decide

/-- A fraction does not begin with a digit. -/
theorem noDigit_fractionTexts {f : Option (List Nat)} {e : Option (Bool × List Nat)}
    {rest : List Char} (h : Closes rest) :
    NoDigit (fractionTexts f ++ (exponentTexts e ++ rest)) := by
  rcases f with _ | ds
  · exact noDigit_exponentTexts h
  · intro c hc
    cases hc
    decide

/-- The first character of a run of digits is not a sign. -/
theorem exists_digitTexts {ds : List Nat} (hDigits : Digits ds) (hNe : ds ≠ []) :
    ∃ c cs, digitTexts ds = c :: cs ∧ c.isDigit = true := by
  cases ds with
  | nil => exact absurd rfl hNe
  | cons d ds =>
    refine ⟨d.digitChar, digitTexts ds, rfl, ?_⟩
    rw [Nat.isDigit_digitChar, decide_eq_true_eq]
    exact hDigits d (by simp)

/-- An exponent is read back, or its absence noticed. -/
theorem readExponent_append {e : Option (Bool × List Nat)} {rest : List Char}
    (hExponent : ∀ x ∈ e, Digits x.2 ∧ x.2 ≠ []) (hRest : Closes rest) :
    readExponent (exponentTexts e ++ rest) = some (e, rest) := by
  rcases e with _ | ⟨down, ds⟩
  · cases rest with
    | nil => rfl
    | cons c cs =>
      -- what follows a value does not start an exponent
      have hc : ¬(c = 'e' ∨ c = 'E') := by
        rcases hRest c rfl with rfl | rfl | rfl <;> decide
      exact if_neg hc
  · obtain ⟨hDigits, hNe⟩ := hExponent _ rfl
    have hTake := takeDigits_append hDigits hRest.noDigit
    obtain ⟨c, cs, hHead, hc⟩ := exists_digitTexts hDigits hNe
    obtain ⟨d, ds', rfl⟩ := List.exists_cons_of_ne_nil hNe
    cases down with
    | true =>
      show readExponent ('e' :: '-' :: (digitTexts (d :: ds') ++ rest)) = _
      simp only [readExponent, hTake]
      rfl
    | false =>
      -- Without a sign the first digit decides that there is none.
      have hSign : ∀ r, digitTexts (d :: ds') ++ rest ≠ '+' :: r ∧
          digitTexts (d :: ds') ++ rest ≠ '-' :: r := by
        intro r
        rw [hHead]
        constructor <;>
          (intro hEq; cases hEq; exact absurd hc (by decide))
      show readExponent ('e' :: (digitTexts (d :: ds') ++ rest)) = _
      rw [readExponent, if_pos (Or.inl rfl)]
      · simp only [hTake]
      · exact fun r => (hSign r).1
      · exact fun r => (hSign r).2

/-- A fraction is read back, or its absence noticed. -/
theorem readFraction_append {f : Option (List Nat)} {e : Option (Bool × List Nat)}
    {rest : List Char} (hFraction : ∀ ds ∈ f, Digits ds ∧ ds ≠ []) (hRest : Closes rest) :
    readFraction (fractionTexts f ++ (exponentTexts e ++ rest)) =
      some (f, exponentTexts e ++ rest) := by
  rcases f with _ | ds
  · show readFraction (exponentTexts e ++ rest) = _
    rw [readFraction]
    intro r hEq
    -- neither an exponent nor what follows a value starts with a point
    rcases e with _ | ⟨_ | _, ds⟩
    · rcases hRest '.' (by rw [show rest = '.' :: r from hEq]; rfl) with h | h | h <;>
        exact absurd h (by decide)
    all_goals cases hEq
  · obtain ⟨hDigits, hNe⟩ := hFraction _ rfl
    have hTake := takeDigits_append hDigits (noDigit_exponentTexts (e := e) hRest)
    obtain ⟨d, ds', rfl⟩ := List.exists_cons_of_ne_nil hNe
    show readFraction ('.' :: (digitTexts (d :: ds') ++ (exponentTexts e ++ rest))) = _
    simp only [readFraction, hTake]

/-- Reading of the text of a spelling gives its value, whatever follows. -/
theorem readNumber_chars {s : Spelling} (hs : s.WellFormed) {rest : List Char}
    (hRest : Closes rest) : readNumber (s.chars ++ rest) = some (s.value, rest) := by
  obtain ⟨negative, whole, fraction, exponent⟩ := s
  have hTake := takeDigits_append hs.whole
    (noDigit_fractionTexts (f := fraction) (e := exponent) hRest)
  have hFraction := readFraction_append (e := exponent) hs.fraction hRest
  have hExponent := readExponent_append hs.exponent hRest
  obtain ⟨c, cs, hHead, hc⟩ := exists_digitTexts hs.whole hs.whole_ne
  have hBody : Spelling.body ⟨negative, whole, fraction, exponent⟩ ++ rest =
      digitTexts whole ++ (fractionTexts fraction ++ (exponentTexts exponent ++ rest)) := by
    simp [Spelling.body, List.append_assoc]
  have hSign : ∀ r, digitTexts whole ++
      (fractionTexts fraction ++ (exponentTexts exponent ++ rest)) ≠ '-' :: r := by
    intro r hEq
    rw [hHead] at hEq
    cases hEq
    exact absurd hc (by decide)
  obtain ⟨d, ds, rfl⟩ := List.exists_cons_of_ne_nil hs.whole_ne
  cases negative
  case' true =>
    show readNumber ('-' :: (Spelling.body ⟨true, d :: ds, fraction, exponent⟩ ++ rest)) = _
    rw [hBody, readNumber]
  -- without a sign the first digit decides, as in an exponent
  case' false =>
    show readNumber (Spelling.body ⟨false, d :: ds, fraction, exponent⟩ ++ rest) = _
    rw [hBody, readNumber]
    case x => exact hSign
  -- after the sign has been told, both signs are read alike
  all_goals
    simp only [hTake]
    split
    · next h => cases h
    · next h =>
      cases h
      cases hs.lead _ rfl
    · next h =>
      cases h
      simp [hFraction, hExponent]

/-! ## Integers -/

/-- The spelling of an integer by its sign and its magnitude. -/
def Spelling.ofNat (negative : Bool) (n : Nat) : Spelling := ⟨negative, digitList n, none, none⟩

/-- An integer spelled by its digits is well formed. -/
theorem Spelling.wellFormed_ofNat (negative : Bool) (n : Nat) :
    (Spelling.ofNat negative n).WellFormed where
  whole := digits_digitList n
  whole_ne := digitList_ne_nil n
  lead := by
    intro rest h
    -- only the number zero starts with a zero, and that is all of it
    by_cases hn : n = 0
    · subst hn
      have : digitList 0 = [0] := digitList_of_lt (by omega)
      rw [show (Spelling.ofNat negative 0).whole = [0] from this] at h
      cases h
      rfl
    · obtain ⟨d, tail, hHead, hd⟩ := head_digitList hn
      rw [show (Spelling.ofNat negative n).whole = d :: tail from hHead] at h
      cases h
      exact absurd rfl hd
  fraction := by
    intro ds hds
    cases hds
  exponent := by
    intro e he
    cases he

theorem Spelling.chars_ofNat (negative : Bool) (n : Nat) :
    (Spelling.ofNat negative n).chars =
      if negative then '-' :: digitChars n else digitChars n := by
  have hBody : (Spelling.ofNat negative n).body = digitChars n := by
    show digitTexts (digitList n) ++ ([] ++ []) = _
    rw [digitTexts_digitList, List.append_nil, List.append_nil]
  rw [Spelling.chars, hBody]
  rfl

/-- A natural number is read back as it is. -/
theorem readNumber_natural (n : UInt64) {rest : List Char} (hRest : Closes rest) :
    readNumber ((Number.natural n).text ++ rest) = some (.number (.natural n), rest) := by
  have hRead := readNumber_chars (Spelling.wellFormed_ofNat false n.toNat) hRest
  have hValue : (Spelling.ofNat false n.toNat).value = .number (.natural n) := by
    have hBound : n.toNat < significandBound := n.toNat_lt_size
    simp [Spelling.value, Spelling.ofNat, ofDigits_digitList, hBound]
  rw [Spelling.chars_ofNat, hValue] at hRead
  exact hRead

/-- A negative integer is read back as it is. -/
theorem readNumber_negSucc (n : BitVec 63) {rest : List Char} (hRest : Closes rest) :
    readNumber ((Number.negSucc n).text ++ rest) = some (.number (.negSucc n), rest) := by
  have hRead := readNumber_chars (Spelling.wellFormed_ofNat true (n.toNat + 1)) hRest
  have hValue : (Spelling.ofNat true (n.toNat + 1)).value = .number (.negSucc n) := by
    have hBound : n.toNat + 1 ≤ UInt64.size / 2 := n.isLt
    simp [Spelling.value, Spelling.ofNat, ofDigits_digitList, hBound]
  rw [Spelling.chars_ofNat, hValue] at hRead
  exact hRead

end Taskyard.Json
