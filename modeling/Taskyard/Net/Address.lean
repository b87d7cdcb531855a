import Taskyard.Text.Numeral
import Taskyard.Text.Split

/-!
# Net — addresses and blocks of addresses

The textual forms of network addresses of both families, with or without a port, and blocks of
addresses given by an address and the number of leading bits that count.

Main definitions:

* `Address` — an address of one of the two families.
* `Address.parse?`, `Address.ofHost?` — reading of an address, also with a port.
* `Block` — a block of addresses.
* `Block.contains` — whether an address lies in a block.
-/

namespace Taskyard.Net

/-- An address. -/
inductive Address where
  /-- An address of 32 bits. -/
  | v4 (n : BitVec 32)
  /-- An address of 128 bits. -/
  | v6 (n : BitVec 128)
  deriving DecidableEq, Repr

/-- A reader: what it found, and what follows. -/
abbrev Reader (α : Type) := List Char → Option (α × List Char)

/-- The character `c`. -/
def char (c : Char) : Reader Unit
  | d :: rest => if d = c then some ((), rest) else none
  | [] => none

/-- A digit in base ten or sixteen. -/
def digitIn (hex : Bool) (c : Char) : Option Nat :=
  if hex then Text.hexDigit? c else Text.digit? c

/-- The leading digits and what follows them. -/
def digits (hex : Bool) : List Char → List Nat × List Char
  | [] => ([], [])
  | c :: rest =>
    match digitIn hex c with
    | some d =>
      let (ds, after) := digits hex rest
      (d :: ds, after)
    | none => ([], c :: rest)

/-- The value of digits in a base. -/
def valueIn (base : Nat) (ds : List Nat) : Nat := ds.foldl (fun n d => n * base + d) 0

/-- One of the four numbers of a 32-bit address: at most three digits, no leading zero, below
256. -/
def octet : Reader Nat := fun cs =>
  match digits false cs with
  | ([], _) => none
  | (0 :: _ :: _, _) => none
  | (ds, rest) =>
    if ds.length ≤ 3 ∧ valueIn 10 ds < 256 then some (valueIn 10 ds, rest) else none

/-- A 32-bit address: four numbers with points between them. -/
def readV4 : Reader Nat := fun cs => do
  let (a, cs) ← octet cs
  let (_, cs) ← char '.' cs
  let (b, cs) ← octet cs
  let (_, cs) ← char '.' cs
  let (c, cs) ← octet cs
  let (_, cs) ← char '.' cs
  let (d, cs) ← octet cs
  return (((a * 256 + b) * 256 + c) * 256 + d, cs)

/-- One group of a 128-bit address: at most four hexadecimal digits. -/
def group : Reader Nat := fun cs =>
  match digits true cs with
  | ([], _) => none
  | (ds, rest) => if ds.length ≤ 4 then some (valueIn 16 ds, rest) else none

/-- What a reader finds after a colon, or without one for the first group. -/
def afterColon {α : Type} (first : Bool) (r : Reader α) : Reader α := fun cs =>
  if first then r cs else (char ':' cs).bind fun (_, cs) => r cs

/-- At most `room` groups with colons between them, the last two possibly written as a 32-bit
address. The flag of the result tells that they were. -/
def groups (first : Bool) : Nat → List Char → List Nat × Bool × List Char
  | 0, cs => ([], false, cs)
  | room + 1, cs =>
    let embedded := if 0 < room then afterColon first readV4 cs else none
    match embedded with
    | some (n, rest) => ([n / 65536, n % 65536], true, rest)
    | none =>
      match afterColon first group cs with
      | some (g, rest) =>
        let (gs, quad, final) := groups false room rest
        (g :: gs, quad, final)
      | none => ([], false, cs)

/-- A 128-bit address: eight groups, or fewer with `::` in place of at least one group of zeros. -/
def readV6 : Reader Nat := fun cs =>
  match groups true 8 cs with
  | (front, quad, rest) =>
    if front.length = 8 then some (valueIn 65536 front, rest)
    else if quad then none
    else do
      let (_, rest) ← char ':' rest
      let (_, rest) ← char ':' rest
      let (back, _, rest) := groups true (7 - front.length) rest
      let zeros := List.replicate (8 - front.length - back.length) 0
      return (valueIn 65536 (front ++ zeros ++ back), rest)

/-- A number of any length below a bound. -/
def numberBelow (bound : Nat) : Reader Nat := fun cs =>
  match digits false cs with
  | ([], _) => none
  | (ds, rest) => if valueIn 10 ds < bound then some (valueIn 10 ds, rest) else none

/-- A colon and a port. -/
def port : Reader Nat := fun cs => (char ':' cs).bind fun (_, cs) => numberBelow UInt16.size cs

/-- A zone of an address, if one is given. -/
def zone : List Char → List Char := fun cs =>
  match (char '%' cs).bind fun (_, cs) => numberBelow UInt32.size cs with
  | some (_, rest) => rest
  | none => cs

namespace Address

/-- The 32-bit address with a value. -/
def ofNat32 (n : Nat) : Address := .v4 (BitVec.ofNat 32 n)

/-- The 128-bit address with a value. -/
def ofNat128 (n : Nat) : Address := .v6 (BitVec.ofNat 128 n)

/-- What a reader finds, if nothing follows. -/
def complete {α : Type} : Option (α × List Char) → Option α
  | some (a, []) => some a
  | _ => none

/-- The address that a text is. -/
def parse? (s : String) : Option Address :=
  match readV4 s.toList with
  | some (n, rest) => if rest.isEmpty then some (ofNat32 n) else none
  | none => (complete (readV6 s.toList)).map ofNat128

/-- The address of a text that is an address and a port. -/
def withPort? (s : String) : Option Address :=
  let short : Option Address := complete do
    let (n, cs) ← readV4 s.toList
    let (_, cs) ← port cs
    return (ofNat32 n, cs)
  let long : Option Address := complete do
    let (_, cs) ← char '[' s.toList
    let (n, cs) ← readV6 cs
    let (_, cs) ← char ']' (zone cs)
    let (_, cs) ← port cs
    return (ofNat128 n, cs)
  short <|> long

/-- The address of a client, as `parse_ip` reads it: an address, possibly with a port. -/
def ofHost? (s : String) : Option Address := parse? s <|> withPort? s

end Address

/-- A block of addresses: those that agree with an address in its leading bits, or the address alone
when no number of bits is given. -/
structure Block where
  /-- The address. -/
  base : Address
  /-- The number of leading bits that count. -/
  bits : Option Nat
  deriving DecidableEq, Repr

/-- How far two words of `width` bits are shifted to compare their leading `bits`. There is nothing
to shift when no bit counts, and no comparison when more bits count than there are. -/
def shiftFor (bits width : Nat) : Option Nat :=
  if bits = 0 ∨ width < bits then none else some (width - bits)

/-- Whether two words of `width` bits agree in the leading `bits`: `prefix_eq`. -/
def agree (a b bits width : Nat) : Bool :=
  match shiftFor bits width with
  | some shift => a >>> shift == b >>> shift
  | none => bits == 0

namespace Block

/-- The block that a text is: an address, possibly with a slash and a number of bits. -/
def parse? (s : String) : Option Block :=
  match Text.splitOnce '/' s with
  | some (base, bits) => do
    let bits ← Text.numeral32? bits
    let base ← Address.parse? base
    return ⟨base, some bits⟩
  | none => (Address.parse? s).map (⟨·, none⟩)

/-- Whether an address lies in the block. An address of the other family never does. -/
def contains (b : Block) (a : Address) : Bool :=
  match a, b.base with
  | .v4 a, .v4 n => agree a.toNat n.toNat (b.bits.getD 32) 32
  | .v6 a, .v6 n => agree a.toNat n.toNat (b.bits.getD 128) 128
  | _, _ => false

end Block

/-- Whether the address of a client lies in the block that a mask describes: `ip_in_mask`. What
cannot be read lies in no block. -/
def inMask (host mask : String) : Bool :=
  match Address.ofHost? host, Block.parse? mask with
  | some a, some b => b.contains a
  | _, _ => false

end Taskyard.Net
