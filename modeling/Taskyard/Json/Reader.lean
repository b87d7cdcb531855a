import Taskyard.Json.Value
import Taskyard.Text.Numeral

/-!
# JSON — reading

A reader for JSON texts by recursive descent. It accepts exactly the JSON grammar and decides two
things that the grammar leaves open: which numbers are integers, and how the digits of the others
become a floating-point value.

* A number without fraction and exponent is an integer if it fits 64 bits, signed or not; `-0` is
  not an integer.
* For every other number the leading digits that fit 64 bits form a significand, which is rounded to
  a 64-bit float and then multiplied or divided once by a rounded power of ten.

Main definitions:

* `Json.parse?` — the value of a text.
-/

namespace Taskyard

open Taskyard.Decimal

namespace Json

/-! ## Numbers -/

/-- The bound of the significand of a number. -/
def significandBound : Nat := UInt64.size

/-- The value of an exponent beyond which its digits are no longer counted. -/
def exponentBound : Nat := UInt32.size / 2

/-- Reading of digits into a significand: as long as it stays below the bound, each digit extends
it. The result is the significand and the digits that did not fit. -/
def extendSignificand (significand : Nat) : List Nat → Nat × List Nat
  | [] => (significand, [])
  | d :: rest =>
    if significand * 10 + d < significandBound then
      extendSignificand (significand * 10 + d) rest
    else (significand, d :: rest)

/-- `10 ^ n` rounded to a 64-bit float. -/
def powerOfTen (n : Nat) : Double := Binary.nearest .double false (Nat.pow 10 n) 1

/-- The magnitude of `significand * 10 ^ exponent`, or `none` if it is beyond the greatest finite
value. The number bounds the divisions for a very small exponent. -/
def scaleByTen : Nat → Double → Int → Option Double
  | 0, x, _ => some x
  | steps + 1, x, exponent =>
    if exponent.natAbs ≤ 308 then
      if 0 ≤ exponent then
        let y := x.mul (powerOfTen exponent.natAbs)
        if y.isFinite then some y else none
      else some (x.div (powerOfTen exponent.natAbs))
    else if x.isZero then some x
    else if 0 ≤ exponent then none
    else scaleByTen steps (x.div (powerOfTen 308)) (exponent + 308)

/-- The magnitude of a number from its significand and its exponent of ten. -/
def realOfParts (significand : Nat) (exponent : Int) : Option Double :=
  scaleByTen 4 (Binary.nearest .double false significand 1) exponent

/-- The parts of a number as it is spelled. -/
structure Spelling where
  /-- Whether it starts with a minus sign. -/
  negative : Bool
  /-- The digits before the point. -/
  whole : List Nat
  /-- The digits after the point, if there is one. -/
  fraction : Option (List Nat)
  /-- Whether the exponent is negative, and its digits, if there is one. -/
  exponent : Option (Bool × List Nat)

/-- The value of the digits. -/
def ofDigits (ds : List Nat) : Nat := ds.foldl (fun n d => n * 10 + d) 0

/-- The floating-point value of a spelling. -/
def Spelling.real (s : Spelling) : Option Double :=
  let (sig, dropped) := extendSignificand 0 s.whole
  let (sig, rest) := extendSignificand sig (s.fraction.getD [])
  let scale : Int := dropped.length - ((s.fraction.getD []).length - rest.length : Nat)
  let magnitude := match s.exponent with
    | none => realOfParts sig scale
    | some (down, ds) =>
      if ofDigits ds < exponentBound then
        realOfParts sig (if down then scale - ofDigits ds else scale + ofDigits ds)
      else if sig ≠ 0 && !down then none
      else some (Binary.zero .double)
  magnitude.map fun x => if s.negative then x.neg else x

/-- The value of a spelling: an integer, a float, or nothing when it is out of range. -/
def Spelling.value (s : Spelling) : Json :=
  let n := ofDigits s.whole
  let integer : Option Number :=
    if s.fraction.isSome || s.exponent.isSome then none
    else if s.negative then
      if n = 0 then none
      else if n ≤ UInt64.size / 2 then some (.negSucc (BitVec.ofNat 63 (n - 1))) else none
    else if n < significandBound then some (.natural (UInt64.ofNat n)) else none
  match integer with
  | some i => .number i
  | none =>
    match s.real with
    | some x => .number (.double x)
    | none => .unreadable

/-- The leading digits and what follows them. -/
def takeDigits : List Char → List Nat × List Char
  | [] => ([], [])
  | c :: rest =>
    match Text.digit? c with
    | some d =>
      let (ds, after) := takeDigits rest
      (d :: ds, after)
    | none => ([], c :: rest)

/-- The fraction of a number, if one starts here: a point and at least one digit. -/
def readFraction : List Char → Option (Option (List Nat) × List Char)
  | '.' :: rest =>
    match takeDigits rest with
    | ([], _) => none
    | (ds, after) => some (some ds, after)
  | cs => some (none, cs)

/-- The exponent of a number, if one starts here: a letter, a sign or none, and at least one
digit. -/
def readExponent : List Char → Option (Option (Bool × List Nat) × List Char)
  | c :: rest =>
    if c = 'e' ∨ c = 'E' then
      let (down, digits) := match rest with
        | '+' :: r => (false, r)
        | '-' :: r => (true, r)
        | r => (false, r)
      match takeDigits digits with
      | ([], _) => none
      | (ds, after) => some (some (down, ds), after)
    else some (none, c :: rest)
  | [] => some (none, [])

/-- A number and what follows it. The digits before the point have no leading zero. -/
def readNumber (cs : List Char) : Option (Json × List Char) :=
  let (negative, body) := match cs with
    | '-' :: rest => (true, rest)
    | rest => (false, rest)
  match takeDigits body with
  | ([], _) => none
  | (0 :: _ :: _, _) => none
  | (whole, rest) => do
    let (fraction, rest) ← readFraction rest
    let (exponent, rest) ← readExponent rest
    return (Spelling.value ⟨negative, whole, fraction, exponent⟩, rest)

/-! ## Texts -/

/-- Four hexadecimal digits and what follows them. -/
def readHex4 : List Char → Option (Nat × List Char)
  | a :: b :: c :: d :: rest => do
    let a ← Text.hexDigit? a
    let b ← Text.hexDigit? b
    let c ← Text.hexDigit? c
    let d ← Text.hexDigit? d
    return (((a * 16 + b) * 16 + c) * 16 + d, rest)
  | _ => none

/-- One unit of an escape: a character, or half of a surrogate pair. -/
inductive Unit16 where
  /-- A character. -/
  | scalar (c : Char)
  /-- The first half of a pair. -/
  | lead (n : Nat)
  /-- The second half of a pair. -/
  | trail (n : Nat)

/-- The unit of a four-digit code. -/
def Unit16.ofCode (n : Nat) : Unit16 :=
  if 0xd800 ≤ n ∧ n < 0xdc00 then .lead n
  else if 0xdc00 ≤ n ∧ n < 0xe000 then .trail n
  else .scalar (Char.ofNat n)

/-- The unit that an escape sequence stands for, after its backslash. -/
def readEscape : List Char → Option (Unit16 × List Char)
  | 'u' :: rest => (readHex4 rest).map fun (n, after) => (.ofCode n, after)
  | c :: rest =>
    let plain : Option Char :=
      if c = '"' ∨ c = '\\' ∨ c = '/' then some c
      else if c = 'b' then some '\x08'
      else if c = 'f' then some '\x0c'
      else if c = 'n' then some '\n'
      else if c = 'r' then some '\r'
      else if c = 't' then some '\t'
      else none
    plain.map fun p => (.scalar p, rest)
  | [] => none

/-- The units of a quoted text after its opening mark, up to the closing one, and what follows it.
The number bounds the characters. -/
def readUnits : Nat → List Char → Option (List Unit16 × List Char)
  | 0, _ => none
  | _ + 1, [] => none
  | n + 1, c :: rest =>
    if c = '"' then some ([], rest)
    else if c = '\\' then do
      let (u, after) ← readEscape rest
      let (us, final) ← readUnits n after
      return (u :: us, final)
    else if c.toNat < 0x20 then none
    else do
      let (us, final) ← readUnits n rest
      return (.scalar c :: us, final)

/-- The characters of a list of units, if the halves of surrogate pairs stand together. -/
def joinUnits : List Unit16 → Option (List Char)
  | [] => some []
  | .scalar c :: rest => (joinUnits rest).map (c :: ·)
  | .lead a :: .trail b :: rest =>
    (joinUnits rest).map (Char.ofNat (0x10000 + (a - 0xd800) * 0x400 + (b - 0xdc00)) :: ·)
  | .lead _ :: _ => none
  | .trail _ :: _ => none

/-- A text after its opening mark; `none` inside when it holds half of a pair. -/
def readText (cs : List Char) : Option (Option String × List Char) :=
  (readUnits (cs.length + 1) cs).map fun (us, rest) => ((joinUnits us).map String.ofList, rest)

/-! ## Values -/

/-- What follows the blanks. -/
def skipBlanks : List Char → List Char
  | c :: rest =>
    if c = ' ' ∨ c = '\n' ∨ c = '\t' ∨ c = '\r' then skipBlanks rest else c :: rest
  | [] => []

/-- What follows a given word. -/
def expect : List Char → List Char → Option (List Char)
  | [], cs => some cs
  | w :: ws, c :: cs => if w = c then expect ws cs else none
  | _ :: _, [] => none

mutual

/-- A value, after blanks, and what follows it. The number bounds the nesting and the lengths. -/
def readValue : Nat → List Char → Option (Json × List Char)
  | 0, _ => none
  | n + 1, cs =>
    match skipBlanks cs with
    | [] => none
    | c :: rest =>
      if c = 'n' then (expect "ull".toList rest).map fun r => (.null, r)
      else if c = 't' then (expect "rue".toList rest).map fun r => (.bool true, r)
      else if c = 'f' then (expect "alse".toList rest).map fun r => (.bool false, r)
      else if c = '"' then
        (readText rest).map fun (s, r) => (s.elim .unreadable .string, r)
      else if c = '[' then
        match skipBlanks rest with
        | ']' :: r => some (.array [], r)
        | r => (readItems n r).map fun (items, r) => (.array items, r)
      else if c = '\x7b' then
        match skipBlanks rest with
        | '\x7d' :: r => some (.object [], r)
        | r => (readMembers n r).map fun (members, r) =>
          -- A name that is not readable makes the whole object unreadable.
          match members.mapM (fun m => m.1.map fun k => (k, m.2)) with
          | some ms => (.object ms, r)
          | none => (.unreadable, r)
      else readNumber (c :: rest)

/-- The items of a list up to the closing bracket, and what follows it. -/
def readItems : Nat → List Char → Option (List Json × List Char)
  | 0, _ => none
  | n + 1, cs => do
    let (j, rest) ← readValue n cs
    match skipBlanks rest with
    | ',' :: r =>
      let (js, final) ← readItems n r
      return (j :: js, final)
    | ']' :: r => return ([j], r)
    | _ => none

/-- The members of an object up to the closing brace, and what follows it. -/
def readMembers : Nat → List Char → Option (List (Option String × Json) × List Char)
  | 0, _ => none
  | n + 1, cs =>
    match skipBlanks cs with
    | '"' :: rest => do
      let (k, rest) ← readText rest
      match skipBlanks rest with
      | ':' :: rest =>
        let (j, rest) ← readValue n rest
        match skipBlanks rest with
        | ',' :: r =>
          let (ms, final) ← readMembers n r
          return ((k, j) :: ms, final)
        | '\x7d' :: r => return ([(k, j)], r)
        | _ => none
      | _ => none
    | _ => none

end

/-- The value of a list of characters that holds one value and blanks. -/
def parseChars? (cs : List Char) : Option Json :=
  match readValue (2 * cs.length + 2) cs with
  | some (j, rest) => if (skipBlanks rest).isEmpty then some j else none
  | none => none

/-- The value of a JSON text. -/
def parse? (s : String) : Option Json := parseChars? s.toList

end Json

end Taskyard
