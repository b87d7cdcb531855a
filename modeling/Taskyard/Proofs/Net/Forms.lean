import Mathlib.Algebra.Group.Nat.Defs
import Mathlib.Data.List.Forall2
import Mathlib.Data.List.Induction
import Taskyard.Net.Address

/-!
# Net — the textual forms of addresses

An address of 32 bits is written as four decimal numbers with points between them. An address of 128
bits is written as eight groups of hexadecimal digits with colons between them; two colons may stand
for one or more groups of zeros, and the last two groups may be written as an address of 32 bits. A
client may be written with a port. Here this is said as a grammar, apart from any reader.

Main definitions and results:

* `Quad`, `Series`, `Long` — texts of the two families.
* `Spells` — a text is an address; `exists_spells` for every address.
* `Hosts` — a text is the address of a client, possibly with a port.
-/

namespace Taskyard.Net

/-! ## Numbers -/

/-- The base of digits. -/
def radix (hex : Bool) : Nat := if hex then 16 else 10

/-- A text is a run of digits, given by their values. -/
abbrev Run (hex : Bool) : List Char → List Nat → Prop :=
  List.Forall₂ fun c d => digitIn hex c = some d

/-- A text is a number, possibly with zeros in front. -/
def Number (hex : Bool) (t : List Char) (n : Nat) : Prop :=
  ∃ ds, Run hex t ds ∧ ds ≠ [] ∧ n = valueIn (radix hex) ds

/-- The decimal digits of a number, without zeros in front. -/
def decimal (n : Nat) : List Char := Nat.toDigits 10 n

/-- A text is a group of a long address: at most four hexadecimal digits. -/
def Group (t : List Char) (g : Nat) : Prop := t.length ≤ 4 ∧ Number true t g

/-! ## Addresses -/

/-- A text is an address of 32 bits. -/
inductive Quad : List Char → Nat → Prop
  | mk {a b c d : Nat} (ha : a < 256) (hb : b < 256) (hc : c < 256) (hd : d < 256) :
      Quad (decimal a ++ '.' :: (decimal b ++ '.' :: (decimal c ++ '.' :: decimal d)))
        (((a * 256 + b) * 256 + c) * 256 + d)

/-- A text is a series of groups. The flag tells that the last two are written as an address of 32
bits. -/
inductive Series : Bool → List Char → List Nat → Prop
  | last {t : List Char} {g : Nat} (h : Group t g) : Series false t [g]
  | quad {t : List Char} {n : Nat} (h : Quad t n) : Series true t [n / 65536, n % 65536]
  | more {q : Bool} {t ts : List Char} {g : Nat} {gs : List Nat} (h : Group t g)
      (hMore : Series q ts gs) : Series q (t ++ ':' :: ts) (g :: gs)

/-- A text is a series of groups or nothing. -/
inductive Part : Bool → List Char → List Nat → Prop
  | none : Part false [] []
  | some {q : Bool} {t : List Char} {gs : List Nat} (h : Series q t gs) : Part q t gs

/-- A text is an address of 128 bits, given by its eight groups. -/
inductive Long : List Char → List Nat → Prop
  | full {q : Bool} {t : List Char} {gs : List Nat} (h : Series q t gs) (hAll : gs.length = 8) :
      Long t gs
  | short {q : Bool} {t t' : List Char} {gs gs' : List Nat} (h : Part false t gs)
      (h' : Part q t' gs') (hSome : gs.length + gs'.length < 8) :
      Long (t ++ ':' :: ':' :: t')
        (gs ++ List.replicate (8 - gs.length - gs'.length) 0 ++ gs')

/-- A text is an address. -/
inductive Spells : List Char → Address → Prop
  | v4 {t : List Char} {n : BitVec 32} (h : Quad t n.toNat) : Spells t (.v4 n)
  | v6 {t : List Char} {gs : List Nat} {n : BitVec 128} (h : Long t gs)
      (hValue : valueIn 65536 gs = n.toNat) : Spells t (.v6 n)

/-- A text is the port of a client. -/
def Port (t : List Char) : Prop := ∃ n < 65536, Number false t n

/-- A text is the zone of a long address, or nothing. -/
def Zone (t : List Char) : Prop := t = [] ∨ ∃ p, ∃ n < 4294967296, t = '%' :: p ∧ Number false p n

/-- A text is an address with a port. A long address stands in brackets, and may have a zone
there. -/
inductive WithPort : List Char → Address → Prop
  | v4 {t p : List Char} {n : BitVec 32} (h : Quad t n.toNat) (hPort : Port p) :
      WithPort (t ++ ':' :: p) (.v4 n)
  | v6 {t z p : List Char} {gs : List Nat} {n : BitVec 128} (h : Long t gs)
      (hValue : valueIn 65536 gs = n.toNat) (hZone : Zone z) (hPort : Port p) :
      WithPort ('[' :: (t ++ (z ++ ']' :: ':' :: p))) (.v6 n)

/-- A text is the address of a client: an address alone, or one with a port. -/
def Hosts (t : List Char) (a : Address) : Prop := Spells t a ∨ WithPort t a

/-! ## Values -/

/-- One more digit multiplies by the base. -/
theorem valueIn_concat (b : Nat) (ds : List Nat) (d : Nat) :
    valueIn b (ds ++ [d]) = valueIn b ds * b + d := by
  rw [valueIn, valueIn, List.foldl_append]
  rfl

/-- Digits have a value below the power of the base that is as long. -/
theorem valueIn_lt {b : Nat} {ds : List Nat} (h : ∀ d ∈ ds, d < b) :
    valueIn b ds < b ^ ds.length := by
  induction ds using List.reverseRecOn with
  | nil => exact Nat.one_pos
  | append_singleton ds d ih =>
    have hInit := ih fun x hx => h x (List.mem_append_left _ hx)
    have hLast := h d (by simp)
    rw [valueIn_concat, List.length_append, List.length_singleton, Nat.pow_succ]
    calc valueIn b ds * b + d < valueIn b ds * b + b := by omega
      _ = (valueIn b ds + 1) * b := by rw [Nat.add_mul, Nat.one_mul]
      _ ≤ b ^ ds.length * b := Nat.mul_le_mul_right b hInit

/-- A digit is below its radix. -/
theorem digitIn_lt {hex : Bool} {c : Char} {d : Nat} (h : digitIn hex c = some d) :
    d < radix hex := by
  cases hex with
  | false =>
    simp only [digitIn, Text.digit?, Bool.false_eq_true, if_false] at h
    split at h
    · next hDigit =>
      have hBounds : 48 ≤ c.toNat ∧ c.toNat ≤ 57 := hDigit
      obtain rfl := Option.some.inj h
      show c.toNat - 48 < 10
      omega
    · cases h
  -- in hexadecimal there are two rows of letters after the digits
  | true =>
    simp only [digitIn, Text.hexDigit?, if_true] at h
    split at h
    · next hDigit =>
      have hBounds : 48 ≤ c.toNat ∧ c.toNat ≤ 57 := hDigit
      obtain rfl := Option.some.inj h
      show c.toNat - 48 < 16
      omega
    · split at h
      · next hDigit =>
        have hBounds : 97 ≤ c.toNat ∧ c.toNat ≤ 102 := hDigit
        obtain rfl := Option.some.inj h
        show c.toNat - 97 + 10 < 16
        omega
      · split at h
        · next hDigit =>
          have hBounds : 65 ≤ c.toNat ∧ c.toNat ≤ 70 := hDigit
          obtain rfl := Option.some.inj h
          show c.toNat - 65 + 10 < 16
          omega
        · cases h

theorem digitIn_digitChar {hex : Bool} {d : Nat} (h : d < radix hex) :
    digitIn hex d.digitChar = some d := by
  cases hex with
  | false => exact (by decide : ∀ d < 10, digitIn false d.digitChar = some d) d h
  | true => exact (by decide : ∀ d < 16, digitIn true d.digitChar = some d) d h

/-- Every number has a text. -/
theorem number_toDigits (hex : Bool) (n : Nat) : Number hex (Nat.toDigits (radix hex) n) n := by
  have hRadix : 1 < radix hex := by cases hex <;> decide
  induction n using Nat.strongRecOn with
  | ind n ih =>
    -- induction on the number: its last digit is split off, as the writer does
    by_cases hDigit : n < radix hex
    · refine ⟨[n], ?_, List.cons_ne_nil _ _, by simp [valueIn]⟩
      rw [Nat.toDigits_of_lt_base hDigit]
      exact .cons (digitIn_digitChar hDigit) .nil
    · obtain ⟨ds, hDigits, -, hValue⟩ := ih (n / radix hex) (Nat.div_lt_self (by omega) hRadix)
      have hLast : n % radix hex < radix hex := Nat.mod_lt _ (by omega)
      refine ⟨ds ++ [n % radix hex], ?_, by simp, ?_⟩
      · rw [Nat.toDigits_of_base_le hRadix (by omega)]
        exact List.rel_append hDigits (.cons (digitIn_digitChar hLast) .nil)
      · rw [valueIn_concat, ← hValue, Nat.div_add_mod']

theorem Run.lt {hex : Bool} {t : List Char} {ds : List Nat} (h : Run hex t ds) :
    ∀ d ∈ ds, d < radix hex := by
  induction h with
  | nil => simp
  | cons hDigit _ ih => exact List.forall_mem_cons.mpr ⟨digitIn_lt hDigit, ih⟩

/-- A number is below the power of the radix that its length gives. -/
theorem Number.lt {hex : Bool} {t : List Char} {n : Nat} (h : Number hex t n) :
    n < radix hex ^ t.length := by
  obtain ⟨ds, hDigits, -, rfl⟩ := h
  rw [hDigits.length_eq]
  exact valueIn_lt (Run.lt hDigits)

theorem Group.lt {t : List Char} {g : Nat} (h : Group t g) : g < 65536 :=
  calc g < 16 ^ t.length := h.2.lt
    _ ≤ 16 ^ 4 := Nat.pow_le_pow_right (by decide) h.1

theorem Quad.lt {t : List Char} {n : Nat} (h : Quad t n) : n < 2 ^ 32 := by
  cases h with
  | mk ha hb hc hd => omega

/-- Every group of a series is below 65536. -/
theorem Series.lt {q : Bool} {t : List Char} {gs : List Nat} (h : Series q t gs) :
    ∀ g ∈ gs, g < 65536 := by
  induction h with
  | last hGroup => simpa using hGroup.lt
  | quad hQuad =>
    have hBound := hQuad.lt
    simp only [List.forall_mem_cons, List.not_mem_nil, false_implies, implies_true, and_true]
    omega
  | more hGroup _ ih => exact List.forall_mem_cons.mpr ⟨hGroup.lt, ih⟩

/-- Every group of a part is below 65536. -/
theorem Part.lt {q : Bool} {t : List Char} {gs : List Nat} (h : Part q t gs) :
    ∀ g ∈ gs, g < 65536 := by
  cases h with
  | none => simp
  | some hSeries => exact hSeries.lt

/-- A long address has eight groups, and fits 128 bits. -/
theorem Long.lt {t : List Char} {gs : List Nat} (h : Long t gs) : valueIn 65536 gs < 2 ^ 128 := by
  have hParts : gs.length = 8 ∧ ∀ g ∈ gs, g < 65536 := by
    -- both forms stand for eight groups; the short one fills up with zeros
    cases h with
    | full hSeries hAll => exact ⟨hAll, hSeries.lt⟩
    | short hFront hBack hSome =>
      refine ⟨by simp; omega, fun g hg => ?_⟩
      rcases List.mem_append.mp hg with hg | hg
      · rcases List.mem_append.mp hg with hg | hg
        · exact hFront.lt g hg
        · rw [List.eq_of_mem_replicate hg]
          omega
      · exact hBack.lt g hg
  have hBound := valueIn_lt hParts.2
  rw [hParts.1] at hBound
  exact hBound

/-! ## Every address has a text -/

theorem group_toDigits {g : Nat} (h : g < 65536) : Group (Nat.toDigits 16 g) g :=
  ⟨(Nat.length_toDigits_le_iff (by decide) (by decide)).mpr h, number_toDigits true g⟩

/-- Every list of groups has a series that spells it. -/
theorem exists_series {gs : List Nat} (hSome : gs ≠ []) (h : ∀ g ∈ gs, g < 65536) :
    ∃ t, Series false t gs := by
  induction gs with
  | nil => exact absurd rfl hSome
  | cons g gs ih =>
    rw [List.forall_mem_cons] at h
    by_cases hLast : gs = []
    · subst hLast
      exact ⟨_, .last (group_toDigits h.1)⟩
    · obtain ⟨t, hMore⟩ := ih hLast h.2
      exact ⟨_, .more (group_toDigits h.1) hMore⟩

/-- A number has as many digits in a base as are wanted, if it is small enough. -/
theorem exists_valueIn {b : Nat} (hBase : 0 < b) (k : Nat) :
    ∀ n < b ^ k, ∃ ds, ds.length = k ∧ (∀ d ∈ ds, d < b) ∧ valueIn b ds = n := by
  induction k with
  | zero =>
    intro n hn
    obtain rfl : n = 0 := by simpa using hn
    exact ⟨[], rfl, by simp, rfl⟩
  | succ k ih =>
    intro n hn
    -- the last digit is the remainder, those in front are the quotient
    obtain ⟨ds, hLength, hDigits, hValue⟩ :=
      ih (n / b) (Nat.div_lt_of_lt_mul (by rwa [Nat.pow_succ, Nat.mul_comm] at hn))
    refine ⟨ds ++ [n % b], by simp [hLength], fun d hd => ?_, ?_⟩
    · rcases List.mem_append.mp hd with hd | hd
      · exact hDigits d hd
      · rw [List.mem_singleton.mp hd]
        exact Nat.mod_lt n hBase
    · rw [valueIn_concat, hValue, Nat.div_add_mod']

/-- **Every address** has a text. -/
theorem exists_spells (a : Address) : ∃ t, Spells t a := by
  cases a with
  | v4 n =>
    have hBound : n.toNat < 2 ^ 32 := n.isLt
    -- the four bytes of the number, the highest first
    have hQuad := Quad.mk (a := n.toNat / 16777216) (b := n.toNat / 65536 % 256)
      (c := n.toNat / 256 % 256) (d := n.toNat % 256) (by omega) (by omega) (by omega) (by omega)
    have hValue : ((n.toNat / 16777216 * 256 + n.toNat / 65536 % 256) * 256 +
        n.toNat / 256 % 256) * 256 + n.toNat % 256 = n.toNat := by omega
    rw [hValue] at hQuad
    exact ⟨_, .v4 hQuad⟩
  | v6 n =>
    -- the eight groups of the number, written in full
    obtain ⟨gs, hAll, hGroups, hValue⟩ :=
      exists_valueIn (b := 65536) (by decide) 8 n.toNat n.isLt
    have hSome : gs ≠ [] := List.ne_nil_of_length_pos (by omega)
    obtain ⟨t, hSeries⟩ := exists_series hSome hGroups
    exact ⟨t, .v6 (.full hSeries hAll) hValue⟩

end Taskyard.Net
