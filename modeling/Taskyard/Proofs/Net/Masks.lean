import Taskyard.Proofs.Net.Reading
import Taskyard.Proofs.Text.Pieces
import Taskyard.Query.Match

/-!
# Net — the addresses that a mask accepts

A mask is an address, or an address with a slash and a number of bits. It accepts the addresses of
its family that agree with it in so many leading bits. With addresses as numbers this is a
division: the bits that do not count are divided away. So the lengths at both ends are no
exceptions: no bit accepts the whole family, and all bits accept the address alone.

Main definitions and results:

* `Address.width`, `Address.value` — an address as a number.
* `agree_iff`, `Block.contains_iff` — agreement in leading bits as an equation of quotients.
* `shiftFor_lt` — how far words are shifted.
* `Length` — the texts of a number of bits; `Block.parse?_eq_some_iff` for whole masks.
* `SourceTest.MaskLaws` — what can be said of masks for a source; `SourceTest.maskLaws` for every
  source.
-/

namespace Taskyard

namespace Net

/-! ## Addresses as numbers -/

/-- The number of bits of an address. -/
def Address.width : Address → Nat
  | .v4 _ => 32
  | .v6 _ => 128

/-- The value of an address. -/
def Address.value : Address → Nat
  | .v4 n => n.toNat
  | .v6 n => n.toNat

theorem Address.value_lt (a : Address) : a.value < 2 ^ a.width := by
  cases a with
  | v4 n => exact n.isLt
  | v6 n => exact n.isLt

theorem Address.width_le (a : Address) : a.width ≤ 128 := by
  cases a with
  | v4 n => exact (by decide : 32 ≤ 128)
  | v6 n => exact Nat.le_refl 128

/-- Two addresses are equal if they agree in family and value. -/
theorem Address.ext_iff {a n : Address} : a = n ↔ a.width = n.width ∧ a.value = n.value := by
  cases a <;> cases n <;> simp [width, value, BitVec.toNat_inj]

/-! ## Comparisons -/

/-- Words are never shifted by as many bits as they have. -/
theorem shiftFor_lt {bits width shift : Nat} (h : shiftFor bits width = some shift) :
    shift < width := by
  rw [shiftFor, Option.ite_none_left_eq_some] at h
  obtain ⟨hSome, hShift⟩ := h
  rw [Option.some.injEq] at hShift
  omega

/-- **Two words agree** in leading bits if they are the same without the others. -/
theorem agree_iff {a b bits width : Nat} (ha : a < 2 ^ width) (hb : b < 2 ^ width) :
    agree a b bits width = true ↔
      bits ≤ width ∧ a / 2 ^ (width - bits) = b / 2 ^ (width - bits) := by
  rw [agree, shiftFor]
  by_cases hNone : bits = 0
  · -- everything is divided away
    rw [if_pos (.inl hNone), hNone, Nat.sub_zero, Nat.div_eq_of_lt ha, Nat.div_eq_of_lt hb]
    simp
  · by_cases hTooMany : width < bits
    · rw [if_pos (.inr hTooMany)]
      simp [hNone, Nat.not_le_of_lt hTooMany]
    · rw [if_neg (by simp [hNone, hTooMany])]
      simp only [Nat.shiftRight_eq_div_pow, beq_iff_eq]
      exact (and_iff_right (Nat.le_of_not_lt hTooMany)).symm

/-- A block contains an address of its family that agrees with its base in the leading bits. -/
theorem Block.contains_iff {block : Block} {a : Address} : block.contains a = true ↔
    a.width = block.base.width ∧ block.bits.getD a.width ≤ a.width ∧
      a.value / 2 ^ (a.width - block.bits.getD a.width) =
        block.base.value / 2 ^ (a.width - block.bits.getD a.width) := by
  obtain ⟨base, bits⟩ := block
  cases a with
  | v4 a =>
    cases base with
    | v4 n => exact (agree_iff a.isLt n.isLt).trans (and_iff_right rfl).symm
    | v6 n => simp [contains, Address.width]
  | v6 a =>
    cases base with
    | v4 n => simp [contains, Address.width]
    | v6 n => exact (agree_iff a.isLt n.isLt).trans (and_iff_right rfl).symm

/-! ## Masks -/

/-- A text is a number of bits: a number, possibly with a plus sign in front. -/
def Length (t : List Char) (b : Nat) : Prop := ∃ p, (t = p ∨ t = '+' :: p) ∧ Number false p b

/-- Reading decimal digits, against the spelling of a run of them. -/
theorem digitsValue?_eq_some_iff {cs : List Char} {acc n : Nat} :
    Text.digitsValue? acc cs = some n ↔
      ∃ ds, Run false cs ds ∧ n = ds.foldl (fun n d => n * 10 + d) acc := by
  induction cs generalizing acc with
  | nil => simp [Text.digitsValue?, eq_comm]
  | cons c cs ih =>
    rw [Text.digitsValue?, Option.bind_eq_some_iff]
    constructor
    · rintro ⟨d, hDigit, hMore⟩
      obtain ⟨ds, hDigits, rfl⟩ := ih.mp hMore
      exact ⟨d :: ds, .cons hDigit hDigits, rfl⟩
    · rintro ⟨_, hDigits, rfl⟩
      obtain ⟨d, ds, hDigit, hMore, rfl⟩ := List.forall₂_cons_left_iff.mp hDigits
      exact ⟨d, hDigit, ih.mpr ⟨ds, hMore, rfl⟩⟩

/-- A number in decimal, against the reader of digits. -/
theorem number_iff {t : List Char} {n : Nat} :
    Number false t n ↔ t ≠ [] ∧ Text.digitsValue? 0 t = some n := by
  rw [digitsValue?_eq_some_iff]
  constructor
  · rintro ⟨ds, hDigits, hSome, rfl⟩
    refine ⟨?_, ds, hDigits, rfl⟩
    rintro rfl
    exact hSome (List.forall₂_nil_left_iff.mp hDigits)
  · rintro ⟨hSome, ds, hDigits, rfl⟩
    refine ⟨ds, hDigits, ?_, rfl⟩
    rintro rfl
    exact hSome (List.forall₂_nil_right_iff.mp hDigits)

theorem not_number_plus {cs : List Char} {n : Nat} : ¬Number false ('+' :: cs) n := by
  rintro ⟨_, hDigits, -, -⟩
  obtain ⟨d, ds, hDigit, -, -⟩ := List.forall₂_cons_left_iff.mp hDigits
  cases hDigit

/-- **A number of bits is read** from a text exactly if the text is one that fits a word. -/
theorem numeral32?_eq_some_iff {s : String} {b : Nat} :
    Text.numeral32? s = some b ↔ Length s.toList b ∧ b < 4294967296 := by
  have hRead (t : List Char) : (if t.isEmpty then none
      else (Text.digitsValue? 0 t).filter (· < UInt32.size)) = some b ↔
        Number false t b ∧ b < 4294967296 := by
    rw [number_iff, Option.ite_none_left_eq_some, Option.filter_eq_some_iff, and_assoc]
    simp [UInt32.size]
  rw [Text.numeral32?, Text.numeralBelow?, Length]
  generalize s.toList = t
  -- one plus sign in front is passed over, and no second one
  split
  · next rest =>
    rw [hRead]
    constructor
    · rintro ⟨hNumber, hFits⟩
      exact ⟨⟨rest, .inr rfl, hNumber⟩, hFits⟩
    · rintro ⟨⟨p, rfl | hPlus, hNumber⟩, hFits⟩
      · exact absurd hNumber not_number_plus
      · exact ⟨(List.cons.inj hPlus).2 ▸ hNumber, hFits⟩
  · next hNoPlus =>
    rw [hRead]
    constructor
    · rintro ⟨hNumber, hFits⟩
      exact ⟨⟨t, .inl rfl, hNumber⟩, hFits⟩
    · rintro ⟨⟨p, rfl | hPlus, hNumber⟩, hFits⟩
      · exact ⟨hNumber, hFits⟩
      · exact absurd hPlus (hNoPlus p)

/-! ## What a slash separates -/

/-- A character that is no digit is not in a run of digits. -/
theorem not_mem_run {hex : Bool} {c : Char} {t : List Char} {ds : List Nat} (h : Run hex t ds)
    (hNone : digitIn hex c = none) : c ∉ t := by
  induction h with
  | nil => simp
  | cons hDigit _ ih =>
    rintro (_ | ⟨_, hMem⟩)
    · rw [hNone] at hDigit
      cases hDigit
    · exact ih hMem

theorem slash_not_mem_decimal (n : Nat) : '/' ∉ decimal n := by
  obtain ⟨ds, hDigits, -⟩ := exists_decimal n
  exact not_mem_run hDigits (by decide)

theorem slash_not_mem_quad {t : List Char} {n : Nat} (h : Quad t n) : '/' ∉ t := by
  cases h with
  | mk ha hb hc hd => simp [slash_not_mem_decimal]

/-- No series holds a slash, so a mask splits at its only one. -/
theorem slash_not_mem_series {q : Bool} {t : List Char} {gs : List Nat} (h : Series q t gs) :
    '/' ∉ t := by
  have hGroups {t : List Char} {g : Nat} (hGroup : Group t g) : '/' ∉ t := by
    obtain ⟨-, ds, hDigits, -⟩ := hGroup
    exact not_mem_run hDigits (by decide)
  induction h with
  | last hGroup => exact hGroups hGroup
  | quad hQuad => exact slash_not_mem_quad hQuad
  | more hGroup _ ih => simp [hGroups hGroup, ih]

/-- There is no slash in an address. -/
theorem slash_not_mem {t : List Char} {a : Address} (h : Spells t a) : '/' ∉ t := by
  have hParts {q : Bool} {t : List Char} {gs : List Nat} (hPart : Part q t gs) : '/' ∉ t := by
    cases hPart with
    | none => simp
    | some hSeries => exact slash_not_mem_series hSeries
  cases h with
  | v4 hQuad => exact slash_not_mem_quad hQuad
  | v6 hLong _ =>
    cases hLong with
    | full hSeries _ => exact slash_not_mem_series hSeries
    | short hFront hBack _ => simp [hParts hFront, hParts hBack]

/-- A text is a mask. -/
inductive Masks : List Char → Block → Prop
  | alone {t : List Char} {n : Address} (h : Spells t n) : Masks t ⟨n, none⟩
  | block {t t' : List Char} {n : Address} {b : Nat} (h : Spells t n) (hLength : Length t' b)
      (hFits : b < 4294967296) : Masks (t ++ '/' :: t') ⟨n, some b⟩

/-- **A mask is read** from a text exactly if the text is one. -/
theorem Block.parse?_eq_some_iff {s : String} {block : Block} :
    parse? s = some block ↔ Masks s.toList block := by
  constructor
  · intro hRead
    rw [parse?] at hRead
    split at hRead
    -- what is broken at a slash is an address and a length
    · next base bits hBroken =>
      rw [Text.splitOnce, Option.map_eq_some_iff] at hBroken
      obtain ⟨⟨t, t'⟩, hBroken, hTexts⟩ := hBroken
      obtain ⟨rfl, rfl⟩ := Prod.mk.inj hTexts
      simp only [bind, Option.bind_eq_some_iff, pure, Option.some.injEq, numeral32?_eq_some_iff,
        Address.parse?_eq_some_iff, String.toList_ofList] at hRead
      obtain ⟨b, ⟨hLength, hFits⟩, n, hSpells, rfl⟩ := hRead
      rw [(Text.breakOnce_eq_some_iff.mp hBroken).1]
      exact .block hSpells hLength hFits
    · rw [Option.map_eq_some_iff] at hRead
      obtain ⟨n, hSpells, rfl⟩ := hRead
      exact .alone (Address.parse?_eq_some_iff.mp hSpells)
  · intro hMask
    generalize hText : s.toList = t at hMask
    -- neither an address nor a length has a slash in it, so the text is broken where it should be
    cases hMask with
    | @alone _ n hSpells =>
      have hWhole : Text.splitOnce '/' s = none := by
        rw [Text.splitOnce, hText, Text.breakOnce_eq_none_iff.mpr (slash_not_mem hSpells)]
        rfl
      rw [parse?, hWhole]
      exact Option.map_eq_some_iff.mpr ⟨n, Address.parse?_eq_some_iff.mpr (hText ▸ hSpells), rfl⟩
    | @block t t' n b hSpells hLength hFits =>
      have hBroken : Text.splitOnce '/' s = some (String.ofList t, String.ofList t') := by
        rw [Text.splitOnce, hText, Text.breakOnce_append (slash_not_mem hSpells)]
        rfl
      have hBits : Text.numeral32? (String.ofList t') = some b :=
        numeral32?_eq_some_iff.mpr (by rw [String.toList_ofList]; exact ⟨hLength, hFits⟩)
      have hBase : Address.parse? (String.ofList t) = some n :=
        Address.parse?_eq_some_iff.mpr (by rwa [String.toList_ofList])
      rw [parse?, hBroken]
      simp [hBits, hBase]

/-! ## What a mask accepts -/

variable {host mask net bits : String} {a n : Address} {b : Nat}

/-- A text is not two numbers of bits. -/
theorem Length.unique {t : List Char} {b b' : Nat} (h : Length t b) (h' : Length t b') :
    b = b' := by
  obtain ⟨p, hText, hNumber⟩ := h
  obtain ⟨p', hText', hNumber'⟩ := h'
  have hSame : p = p' := by
    rcases hText with rfl | rfl <;> rcases hText' with rfl | hPlus
    · rfl
    · exact absurd (hPlus ▸ hNumber) not_number_plus
    · exact absurd hNumber' not_number_plus
    · exact (List.cons.inj hPlus).2
  have hValue := (number_iff.mp hNumber).2
  rw [hSame, (number_iff.mp hNumber').2] at hValue
  exact (Option.some.inj hValue).symm

/-- A text is not two addresses. -/
theorem Spells.unique {t : List Char} {a a' : Address} (h : Spells t a) (h' : Spells t a') :
    a = a' := by
  rw [← String.toList_ofList (l := t), ← Address.parse?_eq_some_iff] at h h'
  exact Option.some.inj (h.symm.trans h')

/-- What a mask with a slash means when its net and its length are well spelled. -/
theorem masks_block_iff {block : Block} (hNet : Spells net.toList n)
    (hLength : Length bits.toList b) :
    Masks (net ++ "/" ++ bits).toList block ↔ block = ⟨n, some b⟩ ∧ b < 4294967296 := by
  have hText : (net ++ "/" ++ bits).toList = net.toList ++ '/' :: bits.toList := by simp
  rw [hText]
  constructor
  · intro hMask
    generalize hWhole : net.toList ++ '/' :: bits.toList = t at hMask
    cases hMask with
    | alone h => exact absurd (by simp [← hWhole]) (slash_not_mem h)
    | @block t t' n' b' h hLength' hFits =>
      -- both are broken at their first slash
      have hBroken := Text.breakOnce_append (slash_not_mem h) t'
      rw [← hWhole, Text.breakOnce_append (slash_not_mem hNet), Option.some.injEq,
        Prod.mk.injEq] at hBroken
      obtain ⟨rfl, rfl⟩ := hBroken
      obtain rfl := hNet.unique h
      obtain rfl := hLength.unique hLength'
      exact ⟨rfl, hFits⟩
  · rintro ⟨rfl, hFits⟩
    exact .block hNet hLength hFits

/-- A host is in a mask exactly if both parse and the block contains the address. -/
theorem inMask_iff : inMask host mask = true ↔
    ∃ a block, Hosts host.toList a ∧ Masks mask.toList block ∧ block.contains a = true := by
  simp only [← Address.ofHost?_eq_some_iff, ← Block.parse?_eq_some_iff]
  rw [inMask]
  constructor
  · intro hIn
    split at hIn
    · next a block hHost hMask => exact ⟨a, block, hHost, hMask, hIn⟩
    · cases hIn
  · rintro ⟨a, block, hHost, hMask, hIn⟩
    rw [hHost, hMask]
    exact hIn

/-- The address of a client decides alone. -/
theorem inMask_iff_of_hosts (h : Hosts host.toList a) :
    inMask host mask = true ↔ ∃ block, Masks mask.toList block ∧ block.contains a = true := by
  rw [inMask_iff]
  constructor
  · rintro ⟨a', block, h', hMask, hIn⟩
    rw [← Address.ofHost?_eq_some_iff] at h h'
    obtain rfl := Option.some.inj (h.symm.trans h')
    exact ⟨block, hMask, hIn⟩
  · rintro ⟨block, hMask, hIn⟩
    exact ⟨a, block, h, hMask, hIn⟩

/-- **A mask with a number of bits** accepts what agrees in them. A number that does not fit its
word is greater than every width. -/
theorem inMask_block_iff (h : Hosts host.toList a) (hNet : Spells net.toList n)
    (hLength : Length bits.toList b) : inMask host (net ++ "/" ++ bits) = true ↔
      a.width = n.width ∧ b ≤ a.width ∧
        a.value / 2 ^ (a.width - b) = n.value / 2 ^ (a.width - b) := by
  have hWidth := a.width_le
  simp only [inMask_iff_of_hosts h, masks_block_iff hNet hLength]
  constructor
  · rintro ⟨_, ⟨rfl, -⟩, hIn⟩
    exact Block.contains_iff.mp hIn
  · intro hAgree
    exact ⟨_, ⟨rfl, by omega⟩, Block.contains_iff.mpr hAgree⟩

/-- **A mask without bits** accepts its address. -/
theorem inMask_alone_iff (h : Hosts host.toList a) (hMask : Spells mask.toList n) :
    inMask host mask = true ↔ a = n := by
  rw [inMask_iff_of_hosts h, Address.ext_iff]
  have hContains : (Block.mk n none).contains a = true ↔ a.width = n.width ∧ a.value = n.value := by
    rw [Block.contains_iff]
    simp
  constructor
  · rintro ⟨block, hForm, hIn⟩
    generalize hText : mask.toList = t at hMask hForm
    cases hForm with
    | alone h' => exact hContains.mp (hMask.unique h' ▸ hIn)
    | block _ _ _ => exact absurd (by simp) (slash_not_mem hMask)
  · intro hSame
    exact ⟨_, .alone hMask, hContains.mpr hSame⟩

/-- Fewer bits leave less to agree in. -/
theorem agree_of_le {x y width b b' : Nat} (h : b ≤ b') (hFits : b' ≤ width)
    (hAgree : x / 2 ^ (width - b') = y / 2 ^ (width - b')) :
    x / 2 ^ (width - b) = y / 2 ^ (width - b) := by
  have hSplit : 2 ^ (width - b) = 2 ^ (width - b') * 2 ^ (b' - b) := by
    rw [← Nat.pow_add]
    congr 1
    omega
  rw [hSplit, ← Nat.div_div_eq_div_mul, ← Nat.div_div_eq_div_mul, hAgree]

end Net

/-! ## The laws of masks -/

namespace SourceTest

open Net

/-- The test for a mask. -/
def ofMask (mask : String) : SourceTest := { ipMask := mask }

/-- A mask clause accepts everything when it is empty, and else by the remote address. -/
theorem ofMask_accepts {mask : String} {s : Source} : (ofMask mask).accepts s = true ↔
    mask = "" ∨ inMask (s.metadata RequestKey.remoteAddress) mask = true := by
  simp [accepts, ofMask]

theorem ofMask_accepts_of_ne {mask : String} {s : Source} (h : mask ≠ "") :
    (ofMask mask).accepts s = true ↔ inMask (s.metadata RequestKey.remoteAddress) mask = true :=
  ofMask_accepts.trans (or_iff_right h)

theorem ofBlock_accepts {net bits : String} {s : Source} :
    (ofMask (net ++ "/" ++ bits)).accepts s = true ↔
      inMask (s.metadata RequestKey.remoteAddress) (net ++ "/" ++ bits) = true :=
  ofMask_accepts_of_ne fun hEmpty => by simpa using congrArg String.toList hEmpty

/-- What can be said of masks for a source. -/
structure MaskLaws (s : Source) : Prop where
  /-- A mask with a number of bits accepts an address, with a port or without one, exactly if it is
  of the same family, has so many bits, and is the same when the other bits are divided away. -/
  block     : ∀ a n net bits b, Hosts (s.metadata RequestKey.remoteAddress).toList a →
    Spells net.toList n → Length bits.toList b →
      ((ofMask (net ++ "/" ++ bits)).accepts s = true ↔ a.width = n.width ∧ b ≤ a.width ∧
        a.value / 2 ^ (a.width - b) = n.value / 2 ^ (a.width - b))
  /-- Without any bit it accepts the whole family. -/
  family    : ∀ a n net bits, Hosts (s.metadata RequestKey.remoteAddress).toList a →
    Spells net.toList n → Length bits.toList 0 →
      ((ofMask (net ++ "/" ++ bits)).accepts s = true ↔ a.width = n.width)
  /-- With more bits it accepts nothing that it rejects with fewer. -/
  nested    : ∀ n net bits bits' b b', Spells net.toList n → Length bits.toList b →
    Length bits'.toList b' → b ≤ b' → (ofMask (net ++ "/" ++ bits')).accepts s = true →
      (ofMask (net ++ "/" ++ bits)).accepts s = true
  /-- A mask that is an address accepts this address alone. -/
  alone     : ∀ a n mask, Hosts (s.metadata RequestKey.remoteAddress).toList a →
    Spells mask.toList n → ((ofMask mask).accepts s = true ↔ a = n)
  /-- Every mask that is given rejects what is no address. -/
  unread    : ∀ mask, mask ≠ "" →
    (∀ a, ¬Hosts (s.metadata RequestKey.remoteAddress).toList a) → (ofMask mask).accepts s = false
  /-- What is given and is no mask rejects everything. -/
  malformed : ∀ mask, mask ≠ "" → (∀ block, ¬Masks mask.toList block) →
    (ofMask mask).accepts s = false
  /-- No word is shifted by 128 bits or more. -/
  shifts    : ∀ (a : Address) bits shift, shiftFor bits a.width = some shift → shift < 128
  /-- Every address has a text, and so has every number of bits. -/
  spelled   : (∀ a, ∃ net : String, Spells net.toList a) ∧ ∀ b, Length (Text.numeral b).toList b

/-- **Masks are exact**: what `ip_in_mask` says of the address of every source. -/
theorem maskLaws (s : Source) : MaskLaws s where
  block a n net bits b hHost hNet hLength :=
    ofBlock_accepts.trans (inMask_block_iff hHost hNet hLength)
  family a n net bits hHost hNet hLength := by
    rw [ofBlock_accepts, inMask_block_iff hHost hNet hLength]
    constructor
    · exact And.left
    · intro hFamily
      have hBound := n.value_lt
      rw [← hFamily] at hBound
      refine ⟨hFamily, Nat.zero_le _, ?_⟩
      rw [Nat.sub_zero, Nat.div_eq_of_lt a.value_lt, Nat.div_eq_of_lt hBound]
  nested n net bits bits' b b' hNet hLength hLength' hFewer hAccepts := by
    rw [ofBlock_accepts] at hAccepts ⊢
    -- what was accepted is the address of a client
    obtain ⟨a, -, hHost, -⟩ := inMask_iff.mp hAccepts
    rw [inMask_block_iff hHost hNet hLength'] at hAccepts
    obtain ⟨hFamily, hFits, hAgree⟩ := hAccepts
    rw [inMask_block_iff hHost hNet hLength]
    exact ⟨hFamily, hFewer.trans hFits, agree_of_le hFewer hFits hAgree⟩
  alone a n mask hHost hMask := by
    have hGiven : mask ≠ "" := by
      rintro rfl
      rw [← Address.parse?_eq_some_iff] at hMask
      cases hMask
    exact (ofMask_accepts_of_ne hGiven).trans (inMask_alone_iff hHost hMask)
  unread mask hGiven hNone := by
    rw [← Bool.not_eq_true, ofMask_accepts_of_ne hGiven, inMask_iff]
    rintro ⟨a, -, hHost, -⟩
    exact hNone a hHost
  malformed mask hGiven hNone := by
    rw [← Bool.not_eq_true, ofMask_accepts_of_ne hGiven, inMask_iff]
    rintro ⟨-, block, -, hMask, -⟩
    exact hNone block hMask
  shifts a _ _ h := (shiftFor_lt h).trans_le a.width_le
  spelled := by
    refine ⟨fun a => ?_, fun b => ?_⟩
    · obtain ⟨t, hSpells⟩ := exists_spells a
      exact ⟨String.ofList t, by rwa [String.toList_ofList]⟩
    · rw [Text.numeral, String.toList_ofList]
      exact ⟨_, .inl rfl, number_toDigits false b⟩

example : inMask "192.168.1.20:5000" "192.168.0.0/16" = true := by decide +kernel

end SourceTest

end Taskyard
