import Taskyard.Proofs.Json.Float

/-!
# JSON — what is printed is read back

The compact text of every value is read as that value again, except for its floats: a finite one may
become another finite one, a 32-bit one becomes a 64-bit one, and what has no spelling is written
and read as `null`.

Main definitions and results:

* `Json.reread` — the value that is read back; `Number.reread` for numbers.
* `readValue_compact` — reading of the compact text of a value, whatever follows.
* `parse?_compact` — the compact text of a value is a text of what is read back.
-/

namespace Taskyard

open Taskyard.Decimal

/-- The value that is read from the text of a number. -/
def Number.reread (n : Number) : Json :=
  match Json.readNumber n.text with
  | some (j, _) => j
  | none => .null

namespace Json

mutual

/-- The value that is read from the compact text of a value. -/
def reread : Json → Json
  | .null | .unreadable => .null
  | .bool b => .bool b
  | .number n => n.reread
  | .string s => .string s
  | .array items => .array (rereadAll items)
  | .object members => .object (rereadMembers members)

/-- The items of a list as they are read back. -/
def rereadAll : List Json → List Json
  | [] => []
  | j :: rest => reread j :: rereadAll rest

/-- The members of an object as they are read back. -/
def rereadMembers : List (String × Json) → List (String × Json)
  | [] => []
  | (k, j) :: rest => (k, reread j) :: rereadMembers rest

end

/-! ## Numbers -/

/-- Whether a character can begin a number. -/
def Numeric (c : Char) : Prop := c = '-' ∨ (Text.digit? c).isSome = true

/-- A number starts with a sign or a digit. -/
theorem numeric_of_readNumber {cs : List Char} {r : Json × List Char}
    (h : readNumber cs = some r) : ∃ c rest, cs = c :: rest ∧ Numeric c := by
  cases cs with
  | nil => cases h
  | cons c rest =>
    refine ⟨c, rest, rfl, ?_⟩
    by_cases hSign : c = '-'
    · exact Or.inl hSign
    · right
      by_contra hDigit
      -- otherwise there is no sign, and no digit to start with
      have hNone : Text.digit? c = none := by simpa using hDigit
      have hTake : takeDigits (c :: rest) = ([], c :: rest) := by
        rw [takeDigits, hNone]
      have hBody : readNumber (c :: rest) = none := by
        unfold readNumber
        split
        next hParts =>
          split at hParts
          · next hHead =>
            cases hHead
            exact absurd rfl hSign
          · cases hParts
            rw [hTake]
      rw [hBody] at h
      cases h

/-- A natural number reads back as itself. -/
theorem reread_natural (n : UInt64) : (Number.natural n).reread = .number (.natural n) := by
  have h := readNumber_natural n closes_nil
  rw [List.append_nil] at h
  rw [Number.reread, h]

/-- A negative integer reads back as itself. -/
theorem reread_negSucc (n : BitVec 63) : (Number.negSucc n).reread = .number (.negSucc n) := by
  have h := readNumber_negSucc n closes_nil
  rw [List.append_nil] at h
  rw [Number.reread, h]

/-- A readable text is read up to where it closes, as a finite double. -/
theorem reread_of_readable {n : Number} (h : Readable n.text) :
    ∃ y : Double, y.isFinite = true ∧ n.reread = .number (.double y) ∧
      ∀ rest, Closes rest → readNumber (n.text ++ rest) = some (n.reread, rest) := by
  obtain ⟨y, hFinite, hRead⟩ := h
  have hReread : n.reread = .number (.double y) := by
    have h := hRead [] closes_nil
    rw [List.append_nil] at h
    rw [Number.reread, h]
  refine ⟨y, hFinite, hReread, ?_⟩
  rw [hReread]
  exact hRead

/-- A finite double value is read back as one. -/
theorem reread_double {x : Double} (hx : x.isFinite = true) :
    ∃ y : Double, y.isFinite = true ∧ (Number.double x).reread = .number (.double y) ∧
      ∀ rest, Closes rest →
        readNumber ((Number.double x).text ++ rest) = some ((Number.double x).reread, rest) := by
  refine reread_of_readable ?_
  rw [Number.text, if_pos hx]
  exact readable_double hx

/-- A finite single value is read back as a double one. -/
theorem reread_single {x : Single} (hx : x.isFinite = true) :
    ∃ y : Double, y.isFinite = true ∧ (Number.single x).reread = .number (.double y) ∧
      ∀ rest, Closes rest →
        readNumber ((Number.single x).text ++ rest) = some ((Number.single x).reread, rest) := by
  refine reread_of_readable ?_
  rw [Number.text, if_pos hx]
  exact readable_single hx

/-- A number is read back from its own text, or its text is `null`. -/
theorem readNumber_text (n : Number) :
    (∀ rest, Closes rest → readNumber (n.text ++ rest) = some (n.reread, rest)) ∨
      (n.text = "null".toList ∧ n.reread = .null) := by
  -- a text that is the one of null is read as that, whatever the number
  have hNull : ∀ n : Number, n.text = "null".toList → n.reread = .null := by
    intro n h
    rw [Number.reread, h]
    rfl
  cases n with
  | natural n =>
    left
    intro rest hRest
    rw [reread_natural]
    exact readNumber_natural n hRest
  | negSucc n =>
    left
    intro rest hRest
    rw [reread_negSucc]
    exact readNumber_negSucc n hRest
  | double x =>
    by_cases hx : x.isFinite = true
    · left
      obtain ⟨y, -, -, hRead⟩ := reread_double hx
      exact hRead
    · right
      have hText : (Number.double x).text = "null".toList := by rw [Number.text, if_neg hx]
      exact ⟨hText, hNull _ hText⟩
  | single x =>
    by_cases hx : x.isFinite = true
    · left
      obtain ⟨y, -, -, hRead⟩ := reread_single hx
      exact hRead
    · right
      have hText : (Number.single x).text = "null".toList := by rw [Number.text, if_neg hx]
      exact ⟨hText, hNull _ hText⟩

/-- What a plain number is read back as is plain. -/
theorem reread_plain {n : Number} (h : n.isPlain = true) :
    ∃ x : Number, x.isPlain = true ∧ n.reread = .number x := by
  cases n with
  | natural n => exact ⟨_, rfl, reread_natural n⟩
  | negSucc n => exact ⟨_, rfl, reread_negSucc n⟩
  | double x =>
    obtain ⟨y, hFinite, hReread, -⟩ := reread_double (x := x) h
    exact ⟨.double y, hFinite, hReread⟩
  | single x => cases h

/-- A number is read back as a plain one, or it has no spelling. -/
theorem reread_cases (n : Number) :
    n.reread = .null ∨ ∃ x : Number, x.isPlain = true ∧ n.reread = .number x := by
  rcases readNumber_text n with h | ⟨-, hNull⟩
  · right
    cases n with
    | natural | negSucc => exact reread_plain rfl
    -- what is not finite is spelled as no number, so it cannot have been read as one
    | double x =>
      by_cases hx : x.isFinite = true
      · exact reread_plain hx
      · have hRead := h [] closes_nil
        rw [Number.text, if_neg hx] at hRead
        cases hRead
    | single x =>
      by_cases hx : x.isFinite = true
      · obtain ⟨y, hFinite, hReread, -⟩ := reread_single hx
        exact ⟨.double y, hFinite, hReread⟩
      · have hRead := h [] closes_nil
        rw [Number.text, if_neg hx] at hRead
        cases hRead
  · exact Or.inl hNull

/-! ## Texts -/

theorem hexDigit?_hexChar {n : Nat} (h : n < 16) : Text.hexDigit? (hexChar n) = some n := by
  have hAll : ∀ n < 16, Text.hexDigit? (hexChar n) = some n := by decide
  exact hAll n h

/-- A character is read back from the form that it takes inside a quoted text. -/
theorem readUnits_escapeChar (c : Char) (n : Nat) (tail : List Char) :
    readUnits (n + 1) (escapeChar c ++ tail) =
      (readUnits n tail).map fun r => (Unit16.scalar c :: r.1, r.2) := by
  -- Each escape with a letter of its own is read by running the reader.
  have hLetter : ∀ letter, readEscape (letter :: tail) = some (.scalar c, tail) →
      readUnits (n + 1) ('\\' :: letter :: tail) =
        (readUnits n tail).map fun r => (Unit16.scalar c :: r.1, r.2) := by
    intro letter h
    rw [readUnits, if_neg (by decide), if_pos rfl, h]
    simp only [Option.bind_eq_bind, Option.bind_some, Option.map_eq_bind]
    rfl
  rw [escapeChar]
  split
  · next h => exact hLetter _ (by subst h; rfl)
  split
  · next h => exact hLetter _ (by subst h; rfl)
  split
  · next h => exact hLetter _ (by subst h; rfl)
  split
  · next h => exact hLetter _ (by subst h; rfl)
  split
  · next h => exact hLetter _ (by subst h; rfl)
  split
  · next h => exact hLetter _ (by subst h; rfl)
  split
  · next h => exact hLetter _ (by subst h; rfl)
  split
  · next hControl =>
    -- other control characters are written as their two low hexadecimal digits
    have hHigh := hexDigit?_hexChar (n := c.toNat / 16) (by omega)
    have hLow := hexDigit?_hexChar (n := c.toNat % 16) (by omega)
    have hCode : ((0 * 16 + 0) * 16 + c.toNat / 16) * 16 + c.toNat % 16 = c.toNat := by omega
    have hUnit : Unit16.ofCode c.toNat = .scalar c := by
      rw [Unit16.ofCode, if_neg (by omega), if_neg (by omega), Char.ofNat_toNat]
    have hHex : readHex4 ('0' :: '0' :: hexChar (c.toNat / 16) :: hexChar (c.toNat % 16) :: tail) =
        some (c.toNat, tail) := by
      have hZero : Text.hexDigit? '0' = some 0 := rfl
      simp only [readHex4, hZero, hHigh, hLow, Option.bind_eq_bind, Option.bind_some, hCode]
      rfl
    have hEscape : readEscape ('u' :: '0' :: '0' :: hexChar (c.toNat / 16) ::
        hexChar (c.toNat % 16) :: tail) = some (.scalar c, tail) := by
      rw [readEscape, hHex, Option.map_some]
      dsimp only
      rw [hUnit]
    show readUnits (n + 1) ('\\' :: 'u' :: '0' :: '0' :: hexChar (c.toNat / 16) ::
        hexChar (c.toNat % 16) :: tail) = _
    rw [readUnits, if_neg (by decide), if_pos rfl, hEscape]
    simp only [Option.bind_eq_bind, Option.bind_some, Option.map_eq_bind]
    rfl
  · next hQuote hSlash _ _ _ _ _ hPrintable =>
    -- and all others stand for themselves
    show readUnits (n + 1) (c :: tail) = _
    rw [readUnits, if_neg hQuote, if_neg hSlash, if_neg hPrintable]
    simp only [Option.bind_eq_bind, Option.map_eq_bind]
    rfl

/-- Escaped characters are read back up to the closing quote. -/
theorem readUnits_escape (cs : List Char) {n : Nat} (h : cs.length < n) (rest : List Char) :
    readUnits n (escape cs ++ '"' :: rest) = some (cs.map .scalar, rest) := by
  induction cs generalizing n with
  | nil =>
    obtain ⟨n, rfl⟩ := Nat.exists_eq_succ_of_ne_zero (show n ≠ 0 by omega)
    show readUnits (n + 1) ('"' :: rest) = _
    rw [readUnits, if_pos rfl]
    rfl
  | cons c cs ih =>
    obtain ⟨n, rfl⟩ := Nat.exists_eq_succ_of_ne_zero (show n ≠ 0 by omega)
    rw [escape, List.append_assoc, readUnits_escapeChar, ih (by simpa using h)]
    rfl

/-- Characters that are no surrogates join to themselves. -/
theorem joinUnits_scalar (cs : List Char) : joinUnits (cs.map .scalar) = some cs := by
  induction cs with
  | nil => rfl
  | cons c cs ih => rw [List.map_cons, joinUnits, ih, Option.map_some]

/-- Escaping never shortens, so the length of the text is fuel enough. -/
theorem length_le_escape (cs : List Char) : cs.length ≤ (escape cs).length := by
  induction cs with
  | nil => exact Nat.le_refl _
  | cons c cs ih =>
    have hOne : 1 ≤ (escapeChar c).length := by
      rw [escapeChar]
      repeat' split
      all_goals simp
    rw [escape, List.length_append, List.length_cons]
    omega

/-- A quoted text is read back. -/
theorem readText_quote (s : String) (rest : List Char) :
    readText (escape s.toList ++ '"' :: rest) = some (some s, rest) := by
  have hLength := length_le_escape s.toList
  rw [readText, readUnits_escape _ (by rw [List.length_append, List.length_cons]; omega),
    Option.map_some]
  dsimp only
  rw [joinUnits_scalar, Option.map_some, String.ofList_toList]

/-! ## Values -/

/-- Whether a text begins with something of a value. -/
def Begins (cs : List Char) : Prop :=
  ∃ c rest, cs = c :: rest ∧ skipBlanks (c :: rest) = c :: rest ∧ c ≠ ']' ∧ c ≠ '\x7d'

/-- What begins a value begins it whatever follows. -/
theorem Begins.append {cs : List Char} (h : Begins cs) (rest : List Char) :
    Begins (cs ++ rest) := by
  obtain ⟨c, tail, rfl, hSkip, hClose⟩ := h
  refine ⟨c, tail ++ rest, rfl, ?_, hClose⟩
  rw [skipBlanks] at hSkip ⊢
  split
  · next hBlank =>
    rw [if_pos hBlank] at hSkip
    -- skipping something would have made the text shorter
    have hShort : ∀ cs : List Char, (skipBlanks cs).length ≤ cs.length := by
      intro cs
      induction cs with
      | nil => exact Nat.le_refl _
      | cons c cs ih =>
        rw [skipBlanks]
        split
        · exact ih.trans (Nat.le_succ _)
        · exact Nat.le_refl _
    have := congrArg List.length hSkip
    have := hShort tail
    simp only [List.length_cons] at *
    omega
  · rfl

theorem Begins.skipBlanks_eq {cs : List Char} (h : Begins cs) : skipBlanks cs = cs := by
  obtain ⟨c, rest, rfl, hSkip, -⟩ := h
  exact hSkip

/-- A character that is no blank and closes nothing begins something. -/
theorem begins_cons {c : Char} {rest : List Char}
    (hBlank : ¬(c = ' ' ∨ c = '\n' ∨ c = '\t' ∨ c = '\r')) (hItems : c ≠ ']')
    (hMembers : c ≠ '\x7d') : Begins (c :: rest) :=
  ⟨c, rest, rfl, by rw [skipBlanks, if_neg hBlank], hItems, hMembers⟩

/-- What begins a number is no other character than a sign or a digit. -/
theorem Numeric.ne {c c' : Char} (h : Numeric c) (hDigit : Text.digit? c' = none)
    (hSign : c' ≠ '-') : c ≠ c' := by
  rintro rfl
  rcases h with h | h
  · exact hSign h
  · rw [hDigit] at h
    cases h

theorem Numeric.begins {c : Char} {rest : List Char} (h : Numeric c) : Begins (c :: rest) := by
  refine begins_cons ?_ (h.ne (by decide) (by decide)) (h.ne (by decide) (by decide))
  rintro (hBlank | hBlank | hBlank | hBlank)
  · exact h.ne (by decide) (by decide) hBlank
  · exact h.ne (by decide) (by decide) hBlank
  · exact h.ne (by decide) (by decide) hBlank
  · exact h.ne (by decide) (by decide) hBlank

/-- A number is read as a value. -/
theorem readValue_number {cs : List Char} {r : Json × List Char} (h : readNumber cs = some r)
    (n : Nat) : readValue (n + 1) cs = some r := by
  obtain ⟨c, rest, rfl, hNumeric⟩ := numeric_of_readNumber h
  rw [readValue, hNumeric.begins.skipBlanks_eq]
  dsimp only
  -- none of the six characters that other values begin with is a sign or a digit
  rw [if_neg (hNumeric.ne (by decide) (by decide)), if_neg (hNumeric.ne (by decide) (by decide)),
    if_neg (hNumeric.ne (by decide) (by decide)), if_neg (hNumeric.ne (by decide) (by decide)),
    if_neg (hNumeric.ne (by decide) (by decide)), if_neg (hNumeric.ne (by decide) (by decide)), h]

/-- A number begins with a digit or a sign. -/
theorem begins_text (n : Number) : Begins n.text := by
  rcases readNumber_text n with h | ⟨h, -⟩
  · have hRead := h [] closes_nil
    rw [List.append_nil] at hRead
    obtain ⟨c, rest, hText, hNumeric⟩ := numeric_of_readNumber hRead
    rw [hText]
    exact hNumeric.begins
  · rw [h]
    exact begins_cons (by decide) (by decide) (by decide)

/-- Every compact text begins a value: no blank, no bracket that closes. -/
theorem begins_compact (j : Json) : Begins j.compactChars := by
  cases j with
  | null | unreadable | string | array | object =>
    rw [compactChars]
    exact begins_cons (by decide) (by decide) (by decide)
  | bool b =>
    rw [compactChars]
    cases b
    · exact begins_cons (by decide) (by decide) (by decide)
    · exact begins_cons (by decide) (by decide) (by decide)
  | number n =>
    rw [compactChars]
    exact begins_text n

theorem length_pos_of_begins {cs : List Char} (h : Begins cs) : 0 < cs.length := by
  obtain ⟨c, rest, rfl, -⟩ := h
  exact Nat.succ_pos _

theorem readValue_null (n : Nat) (rest : List Char) :
    readValue (n + 1) ("null".toList ++ rest) = some (.null, rest) := rfl

/-- Names that are texts make an object. -/
theorem mapM_names (ms : List (String × Json)) :
    (ms.map fun m => (some m.1, m.2)).mapM
      (fun m : Option String × Json => m.1.map fun k => (k, m.2)) = some ms := by
  induction ms with
  | nil => rfl
  | cons m ms ih =>
    rw [List.map_cons, List.mapM_cons, ih]
    rfl

theorem begins_items (j : Json) (js : List Json) : Begins (compactItems (j :: js)) := by
  cases js with
  | nil =>
    rw [compactItems]
    exact begins_compact j
  | cons j' js =>
    rw [compactItems]
    · exact (begins_compact j).append _
    · simp

/-- Members begin with the quote of the first name. -/
theorem begins_members (m : String × Json) (ms : List (String × Json)) :
    Begins (compactMembers (m :: ms)) := by
  have hQuote : Begins (quote m.1) := begins_cons (by decide) (by decide) (by decide)
  cases ms with
  | nil =>
    rw [compactMembers]
    exact hQuote.append _
  | cons m' ms =>
    rw [compactMembers]
    · exact hQuote.append _
    · simp

/-- An array is read through its items. -/
theorem readValue_array {cs : List Char} (h : Begins cs) (n : Nat) :
    readValue (n + 1) ('[' :: cs) = (readItems n cs).map fun r => (.array r.1, r.2) := by
  obtain ⟨c, rest, rfl, hSkip, hItems, -⟩ := h
  have hHead : skipBlanks ('[' :: c :: rest) = '[' :: c :: rest := rfl
  rw [readValue, hHead]
  simp only [Char.reduceEq, if_false, if_true]
  rw [hSkip]
  split
  · next h =>
    cases h
    exact absurd rfl hItems
  · rfl

/-- An object is read through its members, when each has a name. -/
theorem readValue_object {cs : List Char} (h : Begins cs) {n : Nat}
    {ms : List (String × Json)} {rest : List Char}
    (hMembers : readMembers n cs = some (ms.map fun m => (some m.1, m.2), rest)) :
    readValue (n + 1) ('\x7b' :: cs) = some (.object ms, rest) := by
  obtain ⟨c, tail, rfl, hSkip, -, hClose⟩ := h
  have hHead : skipBlanks ('\x7b' :: c :: tail) = '\x7b' :: c :: tail := rfl
  rw [readValue, hHead]
  simp only [Char.reduceEq, if_false, if_true]
  rw [hSkip]
  split
  · next h =>
    cases h
    exact absurd rfl hClose
  · rw [hMembers, Option.map_some]
    dsimp only
    rw [mapM_names]

/-- The last item of an array stands before the bracket. -/
theorem readItems_last {n : Nat} {cs rest : List Char} {j : Json}
    (h : readValue n cs = some (j, ']' :: rest)) :
    readItems (n + 1) cs = some ([j], rest) := by
  rw [readItems, h]
  rfl

/-- An item before a comma is followed by further items. -/
theorem readItems_next {n : Nat} {cs cs' rest : List Char} {j : Json} {js : List Json}
    (h : readValue n cs = some (j, ',' :: cs')) (hRest : readItems n cs' = some (js, rest)) :
    readItems (n + 1) cs = some (j :: js, rest) := by
  rw [readItems, h]
  show (readItems n cs').bind (fun r => some (j :: r.1, r.2)) = _
  rw [hRest]
  rfl

theorem quote_append (k : String) (cs : List Char) :
    quote k ++ cs = '"' :: (escape k.toList ++ '"' :: cs) := by
  rw [quote]
  simp

/-- The last member of an object stands before the brace. -/
theorem readMembers_last {n : Nat} {k : String} {cs rest : List Char} {j : Json}
    (h : readValue n cs = some (j, '\x7d' :: rest)) :
    readMembers (n + 1) (quote k ++ ':' :: cs) = some ([(some k, j)], rest) := by
  rw [quote_append, readMembers]
  show (readText (escape k.toList ++ '"' :: ':' :: cs)).bind _ = _
  rw [readText_quote]
  show (readValue n cs).bind _ = _
  rw [h]
  rfl

/-- A member before a comma is followed by further members. -/
theorem readMembers_next {n : Nat} {k : String} {cs cs' rest : List Char} {j : Json}
    {ms : List (Option String × Json)} (h : readValue n cs = some (j, ',' :: cs'))
    (hRest : readMembers n cs' = some (ms, rest)) :
    readMembers (n + 1) (quote k ++ ':' :: cs) = some ((some k, j) :: ms, rest) := by
  rw [quote_append, readMembers]
  show (readText (escape k.toList ++ '"' :: ':' :: cs)).bind _ = _
  rw [readText_quote]
  show (readValue n cs).bind _ = _
  rw [h]
  show (readMembers n cs').bind _ = _
  rw [hRest]
  rfl

mutual

/-- The compact text of a value is read as the value that `reread` names, whatever follows. As many
steps as the text has characters are enough. -/
theorem readValue_compact (j : Json) {n : Nat} (hSteps : j.compactChars.length ≤ n)
    {rest : List Char} (hRest : Closes rest) :
    readValue n (j.compactChars ++ rest) = some (j.reread, rest) := by
  have hPos := length_pos_of_begins (begins_compact j)
  obtain ⟨n, rfl⟩ := Nat.exists_eq_succ_of_ne_zero (show n ≠ 0 by omega)
  cases j with
  | null => exact readValue_null n rest
  | unreadable => exact readValue_null n rest
  | bool b => cases b <;> rfl
  -- a number that has no spelling is written and read as null
  | number x =>
    rcases readNumber_text x with h | ⟨hText, hNull⟩
    · exact readValue_number (h rest hRest) n
    · rw [compactChars, hText, reread, hNull]
      exact readValue_null n rest
  | string s =>
    have hText := readText_quote s rest
    have hQuote : (Json.string s).compactChars ++ rest =
        '"' :: (escape s.toList ++ '"' :: rest) := by
      rw [compactChars, quote]
      simp
    rw [hQuote, readValue]
    show (readText (escape s.toList ++ '"' :: rest)).map _ = _
    rw [hText]
    rfl
  | array items =>
    cases items with
    | nil => rfl
    | cons item items =>
      rw [compactChars] at hSteps ⊢
      simp only [List.length_cons, List.length_append, List.length_nil] at hSteps
      -- what is inside is shorter by the two brackets, so the steps are enough
      have hItems : readItems n (compactItems (item :: items) ++ ']' :: rest) =
          some (rereadAll (item :: items), rest) :=
        readItems_compact (item :: items) (by simp) (by omega)
      have hSplit : '[' :: (compactItems (item :: items) ++ [']']) ++ rest =
          '[' :: (compactItems (item :: items) ++ ']' :: rest) := by simp
      rw [hSplit, readValue_array ((begins_items item items).append _), hItems]
      rfl
  | object members =>
    cases members with
    | nil => rfl
    | cons m ms =>
      rw [compactChars] at hSteps ⊢
      simp only [List.length_cons, List.length_append, List.length_nil] at hSteps
      have hMembers : readMembers n (compactMembers (m :: ms) ++ '\x7d' :: rest) =
          some ((rereadMembers (m :: ms)).map fun m => (some m.1, m.2), rest) :=
        readMembers_compact (m :: ms) (by simp) (by omega)
      have hSplit : '\x7b' :: (compactMembers (m :: ms) ++ ['\x7d']) ++ rest =
          '\x7b' :: (compactMembers (m :: ms) ++ '\x7d' :: rest) := by simp
      rw [hSplit, readValue_object ((begins_members m ms).append _) hMembers]
      rfl

/-- Compact items are read back, by induction on the items. -/
theorem readItems_compact (js : List Json) (hNe : js ≠ []) {n : Nat}
    (hSteps : (compactItems js).length + 1 ≤ n) {rest : List Char} :
    readItems n (compactItems js ++ ']' :: rest) = some (rereadAll js, rest) := by
  obtain ⟨n, rfl⟩ := Nat.exists_eq_succ_of_ne_zero (show n ≠ 0 by omega)
  match js, hNe with
  | [j], _ =>
    rw [compactItems] at hSteps ⊢
    exact readItems_last (readValue_compact j (by omega) (closes_cons (by simp)))
  | j :: j' :: js, _ =>
    have hSplit : compactItems (j :: j' :: js) =
        j.compactChars ++ ',' :: compactItems (j' :: js) := by
      rw [compactItems]
      simp
    rw [hSplit] at hSteps ⊢
    simp only [List.length_cons, List.length_append] at hSteps
    rw [List.append_assoc, List.cons_append]
    -- the first item has a character of its own, which leaves the rest fewer
    have hPos := length_pos_of_begins (begins_compact j)
    exact readItems_next (readValue_compact j (by omega) (closes_cons (by simp)))
      (readItems_compact (j' :: js) (by simp) (by omega))

/-- Compact members are read back, by induction on the members. -/
theorem readMembers_compact (ms : List (String × Json)) (hNe : ms ≠ []) {n : Nat}
    (hSteps : (compactMembers ms).length + 1 ≤ n) {rest : List Char} :
    readMembers n (compactMembers ms ++ '\x7d' :: rest) =
      some ((rereadMembers ms).map fun m => (some m.1, m.2), rest) := by
  obtain ⟨n, rfl⟩ := Nat.exists_eq_succ_of_ne_zero (show n ≠ 0 by omega)
  -- the recursion is that of the reader: the last member, or one with more behind it
  match ms, hNe with
  | [(k, j)], _ =>
    rw [compactMembers] at hSteps ⊢
    simp only [List.length_cons, List.length_append] at hSteps
    rw [List.append_assoc, List.cons_append]
    exact readMembers_last (readValue_compact j (by omega) (closes_cons (by simp)))
  | (k, j) :: m :: ms, _ =>
    have hSplit : compactMembers ((k, j) :: m :: ms) =
        quote k ++ ':' :: (j.compactChars ++ ',' :: compactMembers (m :: ms)) := by
      rw [compactMembers]
      simp
    rw [hSplit] at hSteps ⊢
    simp only [List.length_cons, List.length_append] at hSteps
    rw [List.append_assoc, List.cons_append, List.append_assoc, List.cons_append]
    exact readMembers_next (readValue_compact j (by omega) (closes_cons (by simp)))
      (readMembers_compact (m :: ms) (by simp) (by omega))

end

/-- The compact text of a value is a JSON text, of the value that is read back. -/
theorem parse?_compact (j : Json) : parse? j.compact = some j.reread := by
  have hRead := readValue_compact j (n := 2 * j.compactChars.length + 2) (by omega) closes_nil
  rw [List.append_nil] at hRead
  rw [parse?, compact, String.toList_ofList, parseChars?, hRead]
  rfl

end Json

end Taskyard
