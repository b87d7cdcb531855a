import Taskyard.Decimal.Notation
import Taskyard.Dict

/-!
# JSON — values

The tree of a JSON text. Members of an object keep the order in which they were written and may
repeat a name; what a reader makes of that is its own decision. A scalar whose spelling is legal but
which has no value, such as a number beyond the greatest 64-bit one or half of a surrogate pair, is
kept as `unreadable`: it does no harm where a reader skips it.

Main definitions:

* `Json`, `Number` — values and the numbers among them.
* `Json.fits` — readable throughout and nested at most so deep.
* `Json.canonical` — readable, and every object in key order without repetition.
* `Json.normalize` — objects brought into key order, the last of equal names kept.
* `Document` — a canonical value.
-/

namespace Taskyard

open Taskyard.Decimal

/-- A JSON number: an integer of 64 bits or a floating-point value. -/
inductive Number where
  /-- A natural number below `2 ^ 64`. -/
  | natural (n : UInt64)
  /-- The negative number `-(n + 1)`. -/
  | negSucc (n : BitVec 63)
  /-- A 64-bit floating-point value. -/
  | double (x : Double)
  /-- A 32-bit floating-point value, which is written with fewer digits. -/
  | single (x : Single)
  deriving DecidableEq

/-- A JSON value. -/
inductive Json where
  /-- The literal `null`. -/
  | null
  /-- A truth value. -/
  | bool (b : Bool)
  /-- A number. -/
  | number (n : Number)
  /-- A text. -/
  | string (s : String)
  /-- A list. -/
  | array (items : List Json)
  /-- Named members in the order written. -/
  | object (members : List (String × Json))
  /-- A legal spelling without a value. -/
  | unreadable

namespace Number

/-- The integer, if the number is one. -/
def toInt? : Number → Option Int
  | .natural n => some n.toNat
  | .negSucc n => some (-(n.toNat + 1))
  | .double _ | .single _ => none

/-- The number of an integer that fits 64 bits, signed or not. -/
def ofInt? (i : Int) : Option Number :=
  if i < 0 then
    if Int64.minValue.toInt ≤ i then some (.negSucc (BitVec.ofNat 63 (-i - 1).toNat)) else none
  else if i < UInt64.size then some (.natural (UInt64.ofNat i.toNat)) else none

/-- Whether the number is an integer or a finite 64-bit value. -/
def isPlain : Number → Bool
  | .natural _ | .negSucc _ => true
  | .double x => x.isFinite
  | .single _ => false

end Number

namespace Json

instance : Inhabited Json := ⟨.null⟩

/-- The value of a signed 64-bit word. -/
def ofInt64 (i : Int64) : Json :=
  if i.toInt < 0 then .number (.negSucc (BitVec.ofNat 63 (-i.toInt - 1).toNat))
  else .number (.natural (UInt64.ofNat i.toInt.toNat))

/-- The value of a natural number that fits 64 bits. -/
def ofNat (n : Nat) : Json := .number (.natural (UInt64.ofNat n))

/-- The value of an integer; one that does not fit 64 bits has none. -/
def ofInt (i : Int) : Json :=
  match Number.ofInt? i with
  | some n => .number n
  | none => .unreadable

/-- The value of a 32-bit float: a number if it is finite, and `null` otherwise. -/
def ofSingle (x : Single) : Json :=
  if x.isFinite then .number (.single x) else .null

/-! ## Nesting and readability -/

mutual

/-- Whether the value is readable throughout and nests arrays and objects at most `n` deep. -/
def fits (n : Nat) : Json → Bool
  | .null | .bool _ | .number _ | .string _ => true
  | .array items => n ≠ 0 && fitsAll (n - 1) items
  | .object members => n ≠ 0 && fitsMembers (n - 1) members
  | .unreadable => false

/-- Whether every item of a list fits. -/
def fitsAll (n : Nat) : List Json → Bool
  | [] => true
  | j :: rest => fits n j && fitsAll n rest

/-- Whether every member of an object fits. -/
def fitsMembers (n : Nat) : List (String × Json) → Bool
  | [] => true
  | (_, j) :: rest => fits n j && fitsMembers n rest

end

/-! ## Canonical values -/

mutual

/-- Whether the value is readable, holds no 32-bit float, and every object lists its members in
strictly increasing order of their names. -/
def canonical : Json → Bool
  | .null | .bool _ | .string _ => true
  | .number n => n.isPlain
  | .array items => canonicalAll items
  | .object members => decide (Ascending members) && canonicalMembers members
  | .unreadable => false

/-- Whether every item of a list is canonical. -/
def canonicalAll : List Json → Bool
  | [] => true
  | j :: rest => canonical j && canonicalAll rest

/-- Whether the value of every member is canonical. -/
def canonicalMembers : List (String × Json) → Bool
  | [] => true
  | (_, j) :: rest => canonical j && canonicalMembers rest

end

mutual

/-- The value with the members of every object in key order; of equal names the last is kept. -/
def normalize : Json → Json
  | .array items => .array (normalizeAll items)
  | .object members => .object (Dict.ofList (normalizeMembers members)).entries
  | j => j

/-- The items of a list, normalized. -/
def normalizeAll : List Json → List Json
  | [] => []
  | j :: rest => normalize j :: normalizeAll rest

/-- The members of an object with normalized values. -/
def normalizeMembers : List (String × Json) → List (String × Json)
  | [] => []
  | (k, j) :: rest => (k, normalize j) :: normalizeMembers rest

end

/-- The value of the first member named `k`, if the value is an object that has one. -/
def field? (k : String) : Json → Option Json
  | .object members => Dict.lookup k members
  | _ => none

end Json

/-- A canonical JSON value: free-form data that is kept as it was given. -/
structure Document where
  /-- The value. -/
  json : Json
  /-- It is canonical. -/
  canonical : json.canonical = true

/-- The document of a readable value. -/
def Document.ofJson? (j : Json) : Option Document :=
  if h : j.normalize.canonical = true then some ⟨j.normalize, h⟩ else none

end Taskyard
