import Taskyard.Proofs.Net.Forms

/-!
# Net — reading of addresses

The readers go through a text from left to right and never go back further than to the start of a
number or an embedded address. They find an address exactly where the grammar has one. For a number
this is because a run of digits is always taken as a whole; for a series of groups, because what
follows a group tells whether there is one more, and whether the last two are an embedded address.

Main definitions and results:

* `Closes`, `Stops` — what may follow a number and a series of groups.
* `octet_eq_some_iff`, `readV4_eq_some_iff`, `group_eq_some_iff` — the readers of the parts.
* `groups_series`, `exists_groups` — the reader of a series finds one, and only one.
* `Address.parse?_eq_some_iff`, `Address.ofHost?_eq_some_iff` — the readers of whole texts.
-/

namespace Taskyard.Net

variable {hex first q : Bool} {c : Char} {t cs rest : List Char} {ds gs : List Nat} {n room : Nat}

/-! ## Numbers -/

/-- What follows cannot be taken for one more digit. -/
def Closes (hex : Bool) (cs : List Char) : Prop := ∀ c ∈ cs.head?, digitIn hex c = none

theorem closes_nil (hex : Bool) : Closes hex [] := fun _ h => (nomatch h)

/-- What is no digit closes a run of digits. -/
theorem closes_cons (h : digitIn hex c = none) (cs : List Char) : Closes hex (c :: cs) := by
  rintro _ ⟨⟩
  exact h

theorem digitIn_false_of_true (h : digitIn true c = none) : digitIn false c = none := by
  simp only [digitIn, Text.digit?, Text.hexDigit?, if_true, Bool.false_eq_true, if_false] at h ⊢
  split at h
  · cases h
  · next hDigit => rw [if_neg hDigit]

/-- What ends a hexadecimal number also ends a decimal one. -/
theorem Closes.decimal (h : Closes true cs) : Closes false cs :=
  fun c hc => digitIn_false_of_true (h c hc)

/-- A decimal digit is a hexadecimal one of the same value. -/
theorem digitIn_true_of_false {d : Nat} (h : digitIn false c = some d) :
    digitIn true c = some d := by
  simp only [digitIn, Text.digit?, Bool.false_eq_true, if_false,
    Option.ite_none_right_eq_some] at h
  rw [digitIn, if_pos rfl, Text.hexDigit?, if_pos h.1, h.2]

/-- A run of digits is read up to where it closes. -/
theorem digits_append (hDigits : Run hex t ds)
    (hRest : Closes hex rest) : digits hex (t ++ rest) = (ds, rest) := by
  induction hDigits with
  | nil =>
    cases rest with
    | nil => rfl
    | cons c rest => rw [List.nil_append, digits, hRest c rfl]
  | cons hDigit _ ih => rw [List.cons_append, digits, hDigit, ih]

/-- **A run of digits** is taken as a whole. -/
theorem exists_digits (hex : Bool) (cs : List Char) :
    ∃ t ds rest, digits hex cs = (ds, rest) ∧ cs = t ++ rest ∧
      Run hex t ds ∧ Closes hex rest := by
  induction cs with
  | nil => exact ⟨[], [], [], rfl, rfl, .nil, closes_nil hex⟩
  | cons c cs ih =>
    cases hDigit : digitIn hex c with
    | none => exact ⟨[], [], c :: cs, by rw [digits, hDigit], rfl, .nil, closes_cons hDigit cs⟩
    | some d =>
      obtain ⟨t, ds, rest, hFound, rfl, hDigits, hRest⟩ := ih
      exact ⟨c :: t, d :: ds, rest, by rw [digits, hDigit, hFound], rfl, .cons hDigit hDigits,
        hRest⟩

theorem char_eq_some_iff {u : Unit} : char c cs = some (u, rest) ↔ cs = c :: rest := by
  cases cs with
  | nil => simp [char]
  | cons d cs => simp [char]

/-- The reader of bounded numbers, against their spelling. -/
theorem numberBelow_eq_some_iff {bound : Nat} : numberBelow bound cs = some (n, rest) ↔
    ∃ t, cs = t ++ rest ∧ Number false t n ∧ n < bound ∧ Closes false rest := by
  constructor
  · intro hRead
    obtain ⟨t, ds, rest', hFound, rfl, hDigits, hRest⟩ := exists_digits false cs
    rw [numberBelow, hFound] at hRead
    -- without a digit there is no number
    cases ds with
    | nil => cases hRead
    | cons d ds =>
      rw [Option.ite_none_right_eq_some, Option.some.injEq, Prod.mk.injEq] at hRead
      obtain ⟨hBound, rfl, rfl⟩ := hRead
      exact ⟨t, rfl, ⟨_, hDigits, List.cons_ne_nil d ds, rfl⟩, hBound, hRest⟩
  · rintro ⟨t, rfl, ⟨ds, hDigits, hSome, rfl⟩, hBound, hRest⟩
    rw [numberBelow, digits_append hDigits hRest]
    cases ds with
    | nil => exact absurd rfl hSome
    | cons d ds => exact if_pos hBound

/-- The reader of a group, against its spelling: one to four hexadecimal digits. -/
theorem group_eq_some_iff :
    group cs = some (n, rest) ↔ ∃ t, cs = t ++ rest ∧ Group t n ∧ Closes true rest := by
  constructor
  · intro hRead
    obtain ⟨t, ds, rest', hFound, rfl, hDigits, hRest⟩ := exists_digits true cs
    rw [group, hFound] at hRead
    cases ds with
    | nil => cases hRead
    | cons d ds =>
      rw [Option.ite_none_right_eq_some, Option.some.injEq, Prod.mk.injEq] at hRead
      obtain ⟨hLength, rfl, rfl⟩ := hRead
      exact ⟨t, rfl, ⟨hDigits.length_eq ▸ hLength, _, hDigits, List.cons_ne_nil d ds, rfl⟩, hRest⟩
  · rintro ⟨t, rfl, ⟨hLength, ds, hDigits, hSome, rfl⟩, hRest⟩
    -- the reader counts the digits, the grammar the characters
    rw [hDigits.length_eq] at hLength
    rw [group, digits_append hDigits hRest]
    cases ds with
    | nil => exact absurd rfl hSome
    | cons d ds => exact if_pos hLength

/-! ## Decimal numbers without zeros in front -/

theorem eq_digitChar {d : Nat} (h : digitIn false c = some d) : c = d.digitChar := by
  simp only [digitIn, Text.digit?, Bool.false_eq_true, if_false,
    Option.ite_none_right_eq_some] at h
  obtain ⟨hDigit, hValue⟩ := h
  have hBounds : 48 ≤ c.toNat ∧ c.toNat ≤ 57 := hDigit
  obtain rfl : c.toNat - 48 = d := Option.some.inj hValue
  apply Char.toNat_inj.mp
  rw [Nat.toNat_digitChar_of_lt_ten (by omega)]
  omega

/-- Digits that follow those of a positive number are digits of a greater one. -/
theorem decimal_append (hDigits : Run false t ds)
    (hPositive : 0 < n) : decimal n ++ t = decimal (ds.foldl (fun n d => n * 10 + d) n) := by
  induction hDigits generalizing n with
  | nil => rw [List.append_nil, List.foldl_nil]
  | @cons c d t ds hDigit _ ih =>
    have hLess : d < 10 := digitIn_lt hDigit
    have hNext : decimal n ++ [c] = decimal (n * 10 + d) := by
      rw [eq_digitChar hDigit, ← Nat.toDigits_of_lt_base hLess, decimal,
        Nat.toDigits_append_toDigits (by decide) hPositive hLess, Nat.mul_comm]
      rfl
    rw [List.foldl_cons, ← ih (by omega), ← hNext, List.append_assoc, List.singleton_append]

/-- **Digits without a zero in front** are those of their value. -/
theorem eq_decimal (hDigits : Run false t ds)
    (hSome : ds ≠ []) (hLeading : ∀ d ds', ds ≠ 0 :: d :: ds') : t = decimal (valueIn 10 ds) := by
  cases hDigits with
  | nil => exact absurd rfl hSome
  | @cons c d t ds hDigit hDigits =>
    have hLess : d < 10 := digitIn_lt hDigit
    have hHead : [c] = decimal d := by
      rw [decimal, Nat.toDigits_of_lt_base hLess, eq_digitChar hDigit]
    have hValue : valueIn 10 (d :: ds) = ds.foldl (fun n d => n * 10 + d) d := by
      rw [valueIn, List.foldl_cons, Nat.zero_mul, Nat.zero_add]
    rw [← List.singleton_append, hHead, hValue]
    by_cases hZero : d = 0
    · -- a zero stands alone
      cases hDigits with
      | nil => exact List.append_nil _
      | @cons c' d' t ds _ _ => exact absurd (hZero ▸ rfl) (hLeading d' ds)
    · exact decimal_append hDigits (by omega)

/-- The digits of a number have no zero in front, unless it is zero. -/
theorem exists_decimal (n : Nat) :
    ∃ ds, Run false (decimal n) ds ∧ ds ≠ [] ∧
      valueIn 10 ds = n ∧ ∀ d ds', ds ≠ 0 :: d :: ds' := by
  obtain ⟨ds, (hDigits : Run false (decimal n) ds), hSome, hValue⟩ := number_toDigits false n
  refine ⟨ds, hDigits, hSome, hValue.symm, ?_⟩
  rintro d ds' rfl
  -- without the zero the digits are fewer, and still enough for the number
  have hBound : n < 10 ^ (d :: ds').length := by
    rw [hValue]
    exact valueIn_lt (List.forall_mem_cons.mp hDigits.lt).2
  have hLength : (decimal n).length ≤ (d :: ds').length :=
    (Nat.length_toDigits_le_iff (by decide) (by simp)).mpr hBound
  rw [hDigits.length_eq] at hLength
  exact Nat.not_succ_le_self _ hLength

/-- The reader of an octet: the decimal digits of a number below 256, without leading zeros. -/
theorem octet_eq_some_iff :
    octet cs = some (n, rest) ↔ n < 256 ∧ cs = decimal n ++ rest ∧ Closes false rest := by
  constructor
  · intro hRead
    obtain ⟨t, ds, rest', hFound, rfl, hDigits, hRest⟩ := exists_digits false cs
    rw [octet, hFound] at hRead
    -- of the digits that are found there must be some, and no more than one if the first is zero
    split at hRead
    · cases hRead
    · cases hRead
    · next ds rest' hSome hLeading hPair =>
      obtain ⟨rfl, rfl⟩ := Prod.mk.inj hPair
      rw [Option.ite_none_right_eq_some, Option.some.injEq, Prod.mk.injEq] at hRead
      obtain ⟨⟨-, hBound⟩, rfl, rfl⟩ := hRead
      exact ⟨hBound, by rw [← eq_decimal hDigits hSome hLeading], hRest⟩
  · rintro ⟨hBound, rfl, hRest⟩
    obtain ⟨ds, hDigits, hSome, hValue, hLeading⟩ := exists_decimal n
    -- a number below 256 has three digits at most
    have hLength : ds.length ≤ 3 := by
      rw [← hDigits.length_eq]
      exact (Nat.length_toDigits_le_iff (by decide) (by decide)).mpr (by omega)
    rw [octet, digits_append hDigits hRest]
    split
    · next hPair => exact absurd (Prod.mk.inj hPair).1 hSome
    · next d ds' _ hPair => exact absurd (Prod.mk.inj hPair).1 (hLeading d ds')
    · next ds rest' _ _ hPair =>
      obtain ⟨rfl, rfl⟩ := Prod.mk.inj hPair
      rw [if_pos ⟨hLength, by rwa [hValue]⟩, hValue]

/-! ## Addresses of 32 bits -/

/-- **The reader of a short address** finds one exactly where there is one. -/
theorem readV4_eq_some_iff :
    readV4 cs = some (n, rest) ↔ ∃ t, cs = t ++ rest ∧ Quad t n ∧ Closes false rest := by
  have hPoint (cs : List Char) : Closes false ('.' :: cs) := closes_cons (by decide) cs
  constructor
  · intro hRead
    simp only [readV4, bind, Option.bind_eq_some_iff, octet_eq_some_iff, char_eq_some_iff,
      Prod.exists, pure, Option.some.injEq, Prod.mk.injEq] at hRead
    -- four octets with a point behind each of the first three
    obtain ⟨a, _, ⟨ha, rfl, -⟩, -, _, rfl, b, _, ⟨hb, rfl, -⟩, -, _, rfl, c, _, ⟨hc, rfl, -⟩, -, _,
      rfl, d, _, ⟨hd, rfl, hRest⟩, rfl, rfl⟩ := hRead
    exact ⟨_, by simp, .mk ha hb hc hd, hRest⟩
  · rintro ⟨t, rfl, hQuad, hRest⟩
    -- an octet stops where the next character is a point
    cases hQuad with
    | @mk a b c d ha hb hc hd =>
      have hA := octet_eq_some_iff.mpr ⟨ha, rfl, hPoint (decimal b ++ '.' ::
        (decimal c ++ '.' :: (decimal d ++ rest)))⟩
      have hB := octet_eq_some_iff.mpr ⟨hb, rfl, hPoint (decimal c ++ '.' :: (decimal d ++ rest))⟩
      have hC := octet_eq_some_iff.mpr ⟨hc, rfl, hPoint (decimal d ++ rest)⟩
      have hD := octet_eq_some_iff.mpr ⟨hd, rfl, hRest⟩
      simp [readV4, char, hA, hB, hC, hD]

/-- A short address is read with nothing after it. -/
theorem readV4_alone (h : Quad t n) : readV4 t = some (n, []) :=
  readV4_eq_some_iff.mpr ⟨t, (List.append_nil t).symm, h, closes_nil false⟩

/-- A short address is read with a port after it. -/
theorem readV4_port (h : Quad t n) (p : List Char) :
    readV4 (t ++ ':' :: p) = some (n, ':' :: p) :=
  readV4_eq_some_iff.mpr ⟨t, rfl, h, closes_cons (by decide) p⟩

/-! ## Series of groups -/

/-- What stands before a group: a colon, except before the first one. -/
def lead (first : Bool) : List Char := if first then [] else [':']

theorem afterColon_lead {α : Type} (first : Bool) (r : Reader α) (cs : List Char) :
    afterColon first r (lead first ++ cs) = r cs := by
  cases first <;> rfl

/-- What is read behind a colon stands behind it, except for the first group. -/
theorem exists_lead {α : Type} {r : Reader α} {x : α × List Char}
    (h : afterColon first r cs = some x) : ∃ cs', cs = lead first ++ cs' ∧ r cs' = some x := by
  cases first with
  | true => exact ⟨cs, rfl, h⟩
  | false =>
    obtain ⟨⟨_, cs'⟩, hColon, hRead⟩ := Option.bind_eq_some_iff.mp h
    exact ⟨cs', char_eq_some_iff.mp hColon, hRead⟩

/-- Where no digit stands, no dotted address is read. -/
theorem readV4_closes (h : Closes true cs) : readV4 cs = none := by
  have hNone : digits false cs = ([], cs) := digits_append .nil h.decimal
  rw [readV4, octet, hNone]
  rfl

theorem group_closes (h : Closes true cs) : group cs = none := by
  have hNone : digits true cs = ([], cs) := digits_append .nil h
  rw [group, hNone]

/-- A group is not taken for the start of an embedded address: no point follows it. -/
theorem readV4_group {g : Nat} (hGroup : Group t g) (hRest : Closes true rest)
    (hPoint : rest.head? ≠ some '.') : readV4 (t ++ rest) = none := by
  rw [Option.eq_none_iff_forall_ne_some]
  rintro ⟨n, rest'⟩ hRead
  obtain ⟨t', hSame, hQuad, -⟩ := readV4_eq_some_iff.mp hRead
  obtain ⟨-, ds, hDigits, -, -⟩ := hGroup
  cases hQuad with
  | @mk a b c d ha hb hc hd =>
    -- both texts begin with all the digits up to what is not a digit
    obtain ⟨as, hDecimal, -⟩ := exists_decimal a
    have hRun : Run true (decimal a) as := hDecimal.imp fun _ _ => digitIn_true_of_false
    have hFound := digits_append hDigits hRest
    rw [hSame, List.append_assoc, List.cons_append,
      digits_append hRun (closes_cons (by decide) _)] at hFound
    rw [← (Prod.mk.inj hFound).2] at hPoint
    exact hPoint rfl

/-- What follows cannot be taken for one more group, nor for more of the last one. -/
structure Stops (cs : List Char) : Prop where
  /-- It begins with no digit. -/
  closes : Closes true cs
  /-- It begins with no point. -/
  point  : cs.head? ≠ some '.'
  /-- If it begins with a colon, no digit follows. -/
  colon  : ∀ rest, cs = ':' :: rest → Closes true rest

/-- What is found where an embedded address may stand, if there is room for its two groups. -/
def embedded (first : Bool) (room : Nat) (cs : List Char) : Option (Nat × List Char) :=
  if 0 < room then afterColon first readV4 cs else none

/-- A dotted address counts as the last two groups. -/
theorem groups_quad {g : Nat} (h : embedded first room cs = some (g, rest)) :
    groups first (room + 1) cs = ([g / 65536, g % 65536], true, rest) := by
  rw [embedded] at h
  rw [groups, h]

/-- Where no dotted address stands, a group is read and then the others. -/
theorem groups_group {g : Nat} {rest' : List Char} (hQuad : embedded first room cs = none)
    (h : afterColon first group cs = some (g, rest))
    (hMore : groups false room rest = (gs, q, rest')) :
    groups first (room + 1) cs = (g :: gs, q, rest') := by
  rw [embedded] at hQuad
  rw [groups, hQuad, h]
  dsimp only
  rw [hMore]

/-- Where neither stands, the groups are over. -/
theorem groups_nothing (hQuad : embedded first room cs = none)
    (h : afterColon first group cs = none) : groups first (room + 1) cs = ([], false, cs) := by
  rw [embedded] at hQuad
  rw [groups, hQuad, h]

theorem embedded_none (h : afterColon first readV4 cs = none) (room : Nat) :
    embedded first room cs = none := by
  rw [embedded, h, ite_self]

theorem groups_closes (h : Closes true cs) (room : Nat) :
    groups true room cs = ([], false, cs) := by
  cases room with
  | zero => rfl
  | succ room =>
    have hQuad : afterColon true readV4 cs = none := readV4_closes h
    exact groups_nothing (embedded_none hQuad room) (group_closes h)

/-- The groups are over where neither a colon with a group nor a digit follows. -/
theorem groups_stops (h : Stops cs) (room : Nat) : groups false room cs = ([], false, cs) := by
  have hFails {α : Type} {r : Reader α} (hRead : ∀ rest, Closes true rest → r rest = none) :
      afterColon false r cs = none := by
    rw [Option.eq_none_iff_forall_ne_some]
    intro x hFound
    obtain ⟨rest, rfl, hMore⟩ := exists_lead hFound
    rw [hRead rest (h.colon rest rfl)] at hMore
    cases hMore
  cases room with
  | zero => rfl
  | succ room =>
    exact groups_nothing (embedded_none (hFails fun _ => readV4_closes) room)
      (hFails fun _ => group_closes)

/-- **A series of groups** is taken as a whole. -/
theorem groups_series (first : Bool) (h : Series q t gs) (hRoom : gs.length ≤ room)
    (hRest : Stops rest) : groups first room (lead first ++ (t ++ rest)) = (gs, q, rest) := by
  induction h generalizing first room with
  | @last t g hGroup =>
    cases room with
    | zero => simp at hRoom
    | succ room =>
      refine groups_group (embedded_none ?_ room) ?_ (groups_stops hRest room)
      · rw [afterColon_lead, readV4_group hGroup hRest.closes hRest.point]
      · rw [afterColon_lead]
        exact group_eq_some_iff.mpr ⟨t, rfl, hGroup, hRest.closes⟩
  -- an embedded address takes the room of two groups
  | @quad t n hQuad =>
    cases room with
    | zero => simp at hRoom
    | succ room =>
      have hTwo : 0 < room := Nat.le_of_succ_le_succ hRoom
      apply groups_quad
      rw [embedded, if_pos hTwo, afterColon_lead]
      exact readV4_eq_some_iff.mpr ⟨t, rfl, hQuad, hRest.closes.decimal⟩
  | @more q t ts g gs hGroup _ ih =>
    cases room with
    | zero => simp at hRoom
    | succ room =>
      -- after a group that is not the last comes a colon, which closes it
      have hColon : Closes true (':' :: (ts ++ rest)) := closes_cons (by decide) _
      have hMore : groups false room (':' :: (ts ++ rest)) = (gs, q, rest) :=
        ih false (Nat.le_of_succ_le_succ hRoom)
      rw [List.append_assoc, List.cons_append]
      refine groups_group (embedded_none ?_ room) ?_ hMore
      · rw [afterColon_lead, readV4_group hGroup hColon (by simp)]
      · rw [afterColon_lead]
        exact group_eq_some_iff.mpr ⟨t, rfl, hGroup, hColon⟩

/-- **What is found as groups** is a series of them, or nothing. -/
theorem exists_groups (first : Bool) (room : Nat) (cs : List Char) :
    ∃ gs q rest, groups first room cs = (gs, q, rest) ∧ gs.length ≤ room ∧
      ((gs = [] ∧ q = false ∧ rest = cs) ∨
        ∃ t, cs = lead first ++ (t ++ rest) ∧ Series q t gs) := by
  induction room generalizing first cs with
  | zero => exact ⟨[], false, cs, rfl, Nat.le_refl 0, .inl ⟨rfl, rfl, rfl⟩⟩
  | succ room ih =>
    -- first an embedded address is tried, then a group
    cases hQuad : embedded first room cs with
    | some found =>
      obtain ⟨n, rest⟩ := found
      have hFound := groups_quad hQuad
      rw [embedded, Option.ite_none_right_eq_some] at hQuad
      obtain ⟨cs', rfl, hRead⟩ := exists_lead hQuad.2
      obtain ⟨t, rfl, hForm, -⟩ := readV4_eq_some_iff.mp hRead
      exact ⟨_, true, rest, hFound, Nat.succ_le_succ hQuad.1, .inr ⟨t, rfl, .quad hForm⟩⟩
    | none =>
      cases hGroup : afterColon first group cs with
      | none =>
        exact ⟨[], false, cs, groups_nothing hQuad hGroup, Nat.zero_le _, .inl ⟨rfl, rfl, rfl⟩⟩
      | some found =>
        obtain ⟨g, rest⟩ := found
        obtain ⟨gs, q, rest', hMore, hLength, hCases⟩ := ih false rest
        refine ⟨g :: gs, q, rest', groups_group hQuad hGroup hMore, Nat.succ_le_succ hLength,
          .inr ?_⟩
        obtain ⟨cs', rfl, hRead⟩ := exists_lead hGroup
        obtain ⟨t, rfl, hForm, -⟩ := group_eq_some_iff.mp hRead
        rcases hCases with ⟨rfl, rfl, rfl⟩ | ⟨ts, rfl, hSeries⟩
        · exact ⟨t, rfl, .last hForm⟩
        · exact ⟨t ++ ':' :: ts, by simp [lead], .more hForm hSeries⟩

/-- The reader of groups, seen from its result: it took a part, with as many groups as there is
room. -/
theorem exists_part (room : Nat) (cs : List Char) :
    ∃ t gs q rest, groups true room cs = (gs, q, rest) ∧ gs.length ≤ room ∧ cs = t ++ rest ∧
      Part q t gs := by
  obtain ⟨gs, q, rest, hFound, hLength, ⟨rfl, rfl, rfl⟩ | ⟨t, hSplit, hSeries⟩⟩ :=
    exists_groups true room cs
  · exact ⟨[], [], false, rest, hFound, hLength, rfl, .none⟩
  · exact ⟨t, gs, q, rest, hFound, hLength, hSplit, .some hSeries⟩

/-- The reader of groups, seen from the text: a part that stops is read in full. -/
theorem groups_part (h : Part q t gs) (hRoom : gs.length ≤ room) (hRest : Stops rest) :
    groups true room (t ++ rest) = (gs, q, rest) := by
  cases h with
  | none => exact groups_closes hRest.closes room
  | some hSeries => exact groups_series true hSeries hRoom hRest

/-! ## Addresses of 128 bits -/

/-- What follows cannot be taken for more of a long address. -/
def Ends (cs : List Char) : Prop := ∀ c ∈ cs.head?, digitIn true c = none ∧ c ≠ '.' ∧ c ≠ ':'

theorem ends_nil : Ends [] := fun _ h => (nomatch h)

theorem ends_cons (h : digitIn true c = none ∧ c ≠ '.' ∧ c ≠ ':') (cs : List Char) :
    Ends (c :: cs) := by
  rintro _ ⟨⟩
  exact h

theorem Ends.stops (h : Ends rest) : Stops rest where
  closes c hc := (h c hc).1
  point hPoint := (h '.' hPoint).2.1 rfl
  colon _ hColon := absurd rfl (h ':' (hColon ▸ rfl)).2.2

/-- Two colons end a series of groups. -/
theorem stops_colons (cs : List Char) : Stops (':' :: ':' :: cs) where
  closes := closes_cons (by decide) _
  point := by simp
  colon rest hRest := by
    rw [← (List.cons.inj hRest).2]
    exact closes_cons (by decide) cs

/-- A long address is read up to where it ends. -/
theorem readV6_long (h : Long t gs) (hRest : Ends rest) :
    readV6 (t ++ rest) = some (valueIn 65536 gs, rest) := by
  cases h with
  | full hSeries hAll =>
    rw [readV6, groups_part (.some hSeries) (Nat.le_of_eq hAll) hRest.stops]
    exact if_pos hAll
  | @short q front back gs gs' hFront hBack hSome =>
    -- the groups in front stop at the gap, those behind it at the end
    have hStart : groups true 8 (front ++ ':' :: ':' :: (back ++ rest)) =
        (gs, false, ':' :: ':' :: (back ++ rest)) :=
      groups_part hFront (by omega) (stops_colons _)
    have hEnd : groups true (7 - gs.length) (back ++ rest) = (gs', q, rest) :=
      groups_part hBack (by omega) hRest.stops
    rw [List.append_assoc, List.cons_append, List.cons_append, readV6, hStart]
    dsimp only
    rw [if_neg (by omega), if_neg (by simp)]
    simp [char, hEnd]

/-- A long address is read with nothing after it. -/
theorem readV6_alone (h : Long t gs) : readV6 t = some (valueIn 65536 gs, []) := by
  rw [← readV6_long h ends_nil, List.append_nil]

/-- **The reader of a long address** finds one only where there is one. -/
theorem exists_long (h : readV6 cs = some (n, rest)) :
    ∃ t gs, cs = t ++ rest ∧ Long t gs ∧ valueIn 65536 gs = n := by
  obtain ⟨front, gs, q, rest', hStart, hRoom, rfl, hFront⟩ := exists_part 8 cs
  rw [readV6, hStart] at h
  dsimp only at h
  split at h
  -- eight groups are a full address
  · next hAll =>
    obtain ⟨rfl, rfl⟩ := Prod.mk.inj (Option.some.inj h)
    cases hFront with
    | none => cases hAll
    | some hSeries => exact ⟨front, gs, rfl, .full hSeries hAll, rfl⟩
  · next hNotAll =>
    split at h
    · cases h
    -- fewer have to be followed by two colons and the rest of the groups
    · next hPlain =>
      simp only [bind, Option.bind_eq_some_iff, char_eq_some_iff, Prod.exists, pure,
        Option.some.injEq, Prod.mk.injEq] at h
      obtain ⟨-, _, rfl, -, rest', rfl, hFound⟩ := h
      obtain ⟨back, gs', q', rest', hEnd, hLess, rfl, hBack⟩ := exists_part (7 - gs.length) rest'
      rw [hEnd] at hFound
      obtain ⟨hValue, rfl⟩ := hFound
      obtain rfl : q = false := by simpa using hPlain
      exact ⟨_, _, by simp, .short hFront hBack (by omega), hValue⟩

/-- A group with a colon after it is not taken for the start of a short address. -/
theorem readV4_colon {g : Nat} (hGroup : Group t g) (cs : List Char) :
    readV4 (t ++ ':' :: cs) = none :=
  readV4_group hGroup (closes_cons (by decide) cs) (by simp)

/-- No long address is taken for a short one. -/
theorem readV4_of_long (h : Long t gs) : readV4 t = none := by
  cases h with
  | full hSeries hAll =>
    -- a quad alone makes two groups, and a full address has eight
    cases hSeries with
    | last hGroup => cases hAll
    | quad hQuad => cases hAll
    | more hGroup hMore => exact readV4_colon hGroup _
  | short hFront hBack hSome =>
    cases hFront with
    | none => exact readV4_closes (closes_cons (by decide) _)
    | some hSeries =>
      cases hSeries with
      | last hGroup => exact readV4_colon hGroup _
      | more hGroup hMore =>
        rw [List.append_assoc, List.cons_append]
        exact readV4_colon hGroup _

namespace Address

/-- A reading is complete when nothing is left over. -/
theorem complete_eq_some_iff {α : Type} {x : Option (α × List Char)} {a : α} :
    complete x = some a ↔ x = some (a, []) := by
  rw [complete.eq_def]
  split <;> simp_all

theorem ofNat32_toNat (n : BitVec 32) : ofNat32 n.toNat = .v4 n :=
  congrArg Address.v4 ((BitVec.ofNat_toNat 32 n).trans n.setWidth_eq)

theorem ofNat128_toNat (n : BitVec 128) : ofNat128 n.toNat = .v6 n :=
  congrArg Address.v6 ((BitVec.ofNat_toNat 128 n).trans n.setWidth_eq)

theorem toNat_quad (h : Quad t n) : Quad t (BitVec.ofNat 32 n).toNat := by
  rwa [BitVec.toNat_ofNat, Nat.mod_eq_of_lt h.lt]

theorem toNat_long (h : Long t gs) :
    valueIn 65536 gs = (BitVec.ofNat 128 (valueIn 65536 gs)).toNat := by
  rw [BitVec.toNat_ofNat, Nat.mod_eq_of_lt h.lt]

/-- **An address is read** from a text exactly if the text is one. -/
theorem parse?_eq_some_iff {s : String} {a : Address} : parse? s = some a ↔ Spells s.toList a := by
  rw [parse?]
  generalize s.toList = t
  constructor
  · intro hRead
    -- a short address is tried first, and a long one if that is none
    split at hRead
    · next n rest hShort =>
      rw [Option.ite_none_right_eq_some, List.isEmpty_iff, Option.some.injEq] at hRead
      obtain ⟨rfl, rfl⟩ := hRead
      obtain ⟨t, rfl, hQuad, -⟩ := readV4_eq_some_iff.mp hShort
      rw [List.append_nil]
      exact .v4 (toNat_quad hQuad)
    · rw [Option.map_eq_some_iff] at hRead
      obtain ⟨n, hWhole, rfl⟩ := hRead
      obtain ⟨t, gs, rfl, hLong, rfl⟩ := exists_long (complete_eq_some_iff.mp hWhole)
      rw [List.append_nil]
      exact .v6 hLong (toNat_long hLong)
  · intro hSpells
    cases hSpells with
    | @v4 n hQuad =>
      rw [readV4_alone hQuad]
      exact congrArg some (ofNat32_toNat n)
    | @v6 gs n hLong hValue =>
      rw [readV4_of_long hLong, readV6_alone hLong, hValue]
      exact congrArg some (ofNat128_toNat n)

/-! ## Addresses with ports -/

/-- The reader of a port: a colon and a number below 65536. -/
theorem port_eq_some_iff : port cs = some (n, rest) ↔
    ∃ p, cs = ':' :: (p ++ rest) ∧ Number false p n ∧ n < 65536 ∧ Closes false rest := by
  simp only [port, Option.bind_eq_some_iff, char_eq_some_iff, numberBelow_eq_some_iff, Prod.exists]
  constructor
  · rintro ⟨-, _, rfl, p, rfl, hNumber⟩
    exact ⟨p, rfl, hNumber⟩
  · rintro ⟨p, rfl, hNumber⟩
    exact ⟨(), _, rfl, p, rfl, hNumber⟩

/-- A zone is skipped, if there is one. -/
theorem exists_zone (cs : List Char) : ∃ z, cs = z ++ zone cs ∧ Zone z := by
  rw [zone]
  split
  · next n rest hZone =>
    simp only [Option.bind_eq_some_iff, char_eq_some_iff, numberBelow_eq_some_iff,
      Prod.exists] at hZone
    obtain ⟨-, _, rfl, p, rfl, hNumber, hBound, -⟩ := hZone
    exact ⟨'%' :: p, rfl, .inr ⟨p, n, hBound, rfl, hNumber⟩⟩
  · exact ⟨[], rfl, .inl rfl⟩

/-- A zone is skipped up to where it closes. -/
theorem zone_append (h : Zone t) (hPercent : rest.head? ≠ some '%') (hRest : Closes false rest) :
    zone (t ++ rest) = rest := by
  rcases h with rfl | ⟨p, n, hBound, rfl, hNumber⟩
  · have hNone : char '%' rest = none := by
      cases rest with
      | nil => rfl
      | cons c rest => exact if_neg fun h => hPercent (congrArg some h)
    rw [List.nil_append, zone, hNone]
    rfl
  · have hFound : numberBelow UInt32.size (p ++ rest) = some (n, rest) :=
      numberBelow_eq_some_iff.mpr ⟨p, rfl, hNumber, hBound, hRest⟩
    simp [zone, char, hFound]

/-- Neither a zone nor a bracket is taken for more of a long address. -/
theorem ends_zone (h : Zone t) (cs : List Char) : Ends (t ++ ']' :: cs) := by
  rcases h with rfl | ⟨p, n, -, rfl, -⟩
  · exact ends_cons (by decide) cs
  · exact ends_cons (by decide) _

/-- **An address with a port is read** from a text exactly if the text is one. -/
theorem withPort?_eq_some_iff {s : String} {a : Address} :
    withPort? s = some a ↔ WithPort s.toList a := by
  rw [withPort?]
  generalize s.toList = t
  simp only [Option.orElse_eq_orElse, Option.orElse_eq_or, Option.or_eq_some_iff,
    complete_eq_some_iff, bind, Option.bind_eq_some_iff, char_eq_some_iff, port_eq_some_iff,
    Prod.exists, pure, Option.some.injEq, Prod.mk.injEq]
  -- either reader is taken apart into what it has found in turn
  constructor
  · rintro (⟨n, _, hShort, _, _, ⟨p, rfl, hNumber, hBound, -⟩, rfl, rfl⟩ |
      ⟨-, -, _, rfl, n, rest, hWhole, -, _, hBracket, _, _, ⟨p, rfl, hNumber, hBound, -⟩, rfl, rfl⟩)
    · obtain ⟨t, rfl, hQuad, -⟩ := readV4_eq_some_iff.mp hShort
      rw [List.append_nil]
      exact .v4 (toNat_quad hQuad) ⟨_, hBound, hNumber⟩
    · obtain ⟨t, gs, rfl, hLong, rfl⟩ := exists_long hWhole
      obtain ⟨z, hSplit, hZone⟩ := exists_zone rest
      rw [hSplit, hBracket, List.append_nil]
      exact .v6 hLong (toNat_long hLong) hZone ⟨_, hBound, hNumber⟩
  · intro hForm
    cases hForm with
    | @v4 t p n hQuad hPort =>
      obtain ⟨m, hBound, hNumber⟩ := hPort
      exact .inl ⟨n.toNat, ':' :: p, readV4_port hQuad p, m, [],
        ⟨p, by rw [List.append_nil], hNumber, hBound, closes_nil false⟩, ofNat32_toNat n, rfl⟩
    | @v6 t z p gs n hLong hValue hZone hPort =>
      obtain ⟨m, hBound, hNumber⟩ := hPort
      have hWhole :
          readV6 (t ++ (z ++ ']' :: ':' :: p)) = some (n.toNat, z ++ ']' :: ':' :: p) := by
        rw [← hValue]
        exact readV6_long hLong (ends_zone hZone _)
      have hBracket : zone (z ++ ']' :: ':' :: p) = ']' :: ':' :: p :=
        zone_append hZone (by simp) (closes_cons (by decide) _)
      refine .inr ⟨?_, (), _, rfl, n.toNat, _, hWhole, (), _, hBracket, m, [],
        ⟨p, by rw [List.append_nil], hNumber, hBound, closes_nil false⟩, ofNat128_toNat n, rfl⟩
      -- what starts with a bracket is no short address
      rw [readV4_closes (closes_cons (by decide) _)]
      rfl

/-- An address with a port is not one without. -/
theorem not_spells_of_withPort {a a' : Address} (h : WithPort t a) : ¬Spells t a' := by
  intro hSpells
  cases h with
  | @v4 t p n hQuad hPort =>
    have hRead := readV4_port hQuad p
    cases hSpells with
    | v4 hAlone =>
      rw [readV4_alone hAlone] at hRead
      cases (Prod.mk.inj (Option.some.inj hRead)).2
    | v6 hLong _ =>
      rw [readV4_of_long hLong] at hRead
      cases hRead
  | @v6 t z p gs n hLong hValue hZone hPort =>
    -- nothing begins with a bracket
    have hCloses : Closes true ('[' :: (t ++ (z ++ ']' :: ':' :: p))) := closes_cons (by decide) _
    cases hSpells with
    | v4 hAlone =>
      have hRead := readV4_alone hAlone
      rw [readV4_closes hCloses] at hRead
      cases hRead
    | v6 hAlone _ =>
      have hRead := readV6_alone hAlone
      rw [readV6, groups_closes hCloses] at hRead
      cases hRead

/-- **The address of a client is read** from a text exactly if the text is one. -/
theorem ofHost?_eq_some_iff {s : String} {a : Address} : ofHost? s = some a ↔ Hosts s.toList a := by
  rw [ofHost?, Option.orElse_eq_orElse, Option.orElse_eq_or, Option.or_eq_some_iff,
    parse?_eq_some_iff, withPort?_eq_some_iff, Hosts]
  refine or_congr_right (and_iff_right_of_imp fun hForm => ?_)
  rw [Option.eq_none_iff_forall_ne_some]
  exact fun a' hRead => not_spells_of_withPort hForm (parse?_eq_some_iff.mp hRead)

end Address

end Taskyard.Net
