import Taskyard.Json.Value

/-!
# JSON — decoding into typed values

A decoder turns a JSON value into a value of a type, or refuses it. It is given the number of levels
that arrays and objects may still nest, so a text that nests too deep is refused wherever its value
is looked at; what no decoder looks at may nest freely.

A record is read from an object, or from an array that lists its fields in order. In an object every
field stands at most once and unknown names are skipped; an array may end early and may not be too
long. A field that is missing takes its default, if it has one.

Main definitions:

* `Decoder` — the type, with decoders for scalars, lists, optional values and dictionaries.
* `Record.open?` — the fields of a record.
* `Record.required`, `Record.field` — decoding of one field.
-/

namespace Taskyard

open Taskyard.Decimal

/-- How deep arrays and objects of a JSON text may nest. -/
def Json.maxDepth : Nat := 127

/-- A decoder, given the levels that may still nest. -/
abbrev Decoder (α : Type) := Nat → Json → Option α

namespace Decoder

variable {α β : Type}

/-- A text. -/
def text : Decoder String
  | _, .string s => some s
  | _, _ => none

/-- A truth value. -/
def truth : Decoder Bool
  | _, .bool b => some b
  | _, _ => none

/-- An integer between two bounds, both included. -/
def intBetween (lo hi : Int) : Decoder Int
  | _, .number n => n.toInt?.filter fun i => lo ≤ i && i ≤ hi
  | _, _ => none

/-- A signed 64-bit integer. -/
def int64 : Decoder Int64 := fun n j =>
  (intBetween Int64.minValue.toInt Int64.maxValue.toInt n j).map Int64.ofInt

/-- A signed 32-bit integer. -/
def int32 : Decoder Int := intBetween Int32.minValue.toInt Int32.maxValue.toInt

/-- An unsigned 64-bit integer. -/
def uint64 : Decoder UInt64 := fun n j =>
  (intBetween 0 (UInt64.size - 1) n j).map fun i => UInt64.ofNat i.toNat

/-- An unsigned 32-bit integer. -/
def uint32 : Decoder UInt32 := fun n j =>
  (intBetween 0 (UInt32.size - 1) n j).map fun i => UInt32.ofNat i.toNat

/-- A byte. -/
def byte : Decoder UInt8 := fun n j =>
  (intBetween 0 255 n j).map fun i => UInt8.ofNat i.toNat

/-- A 32-bit float, rounded from whatever number is given. -/
def single : Decoder Single
  | _, .number (.double x) => some (x.narrow .single)
  | _, .number (.single x) => some x
  | _, .number n => n.toInt?.map fun i => Binary.nearest .single (i < 0) i.natAbs 1
  | _, _ => none

/-- A list. -/
def list (d : Decoder α) : Decoder (List α)
  | n + 1, .array items => items.mapM (d n)
  | _, _ => none

/-- An optional value: `null` is its absence. -/
def optional (d : Decoder α) : Decoder (Option α)
  | _, .null => some none
  | n, j => (d n j).map some

/-- A dictionary: of equal names the last counts. -/
def dict (d : Decoder α) : Decoder (Dict α)
  | n + 1, .object members =>
    (members.mapM fun m => (d n m.2).map fun v => (m.1, v)).map Dict.ofList
  | _, _ => none

/-- Free-form data. -/
def document : Decoder Document := fun n j =>
  if j.fits n then Document.ofJson? j else none

/-- The decoder of a type that is given by a part of another. -/
def mapOption (d : Decoder α) (f : α → Option β) : Decoder β := fun n j => (d n j).bind f

end Decoder

/-- The name of a field of a record, with other names that it may also have. -/
structure Label where
  /-- The name. -/
  name : String
  /-- Other names. -/
  aliases : List String := []

instance : Coe String Label := ⟨fun s => ⟨s, []⟩⟩

/-- Whether a member's name is that of the field. -/
def Label.isNamed (l : Label) (k : String) : Bool := k == l.name || l.aliases.contains k

/-- The fields of a record that were given, under their names. -/
structure Record where
  /-- The levels that the values of the fields may nest. -/
  depth : Nat
  /-- The given fields. -/
  slots : List (String × Json)

namespace Record

variable {α : Type}

/-- The fields of an object: for each label the only member that is named so, if there is one. -/
def ofMembers? (members : List (String × Json)) : List Label → Option (List (String × Json))
  | [] => some []
  | l :: rest =>
    match members.filter fun m => l.isNamed m.1 with
    | [] => ofMembers? members rest
    | [(_, j)] => (ofMembers? members rest).map ((l.name, j) :: ·)
    | _ :: _ :: _ => none

/-- The fields of an array: one item per label, the last labels possibly without one. -/
def ofItems? : List Json → List Label → Option (List (String × Json))
  | [], _ => some []
  | _ :: _, [] => none
  | j :: items, l :: rest => (ofItems? items rest).map ((l.name, j) :: ·)

/-- The fields of a record with the given labels. -/
def open? (labels : List Label) : Decoder Record
  | n + 1, .object members => (ofMembers? members labels).map (⟨n, ·⟩)
  | n + 1, .array items => (ofItems? items labels).map (⟨n, ·⟩)
  | _, _ => none

/-- The value of a field that has to be given. -/
def required (r : Record) (name : String) (d : Decoder α) : Option α :=
  (Dict.lookup name r.slots).bind (d r.depth)

/-- The value of a field, or its default when it is not given. -/
def field (r : Record) (name : String) (d : Decoder α) (default : α) : Option α :=
  match Dict.lookup name r.slots with
  | none => some default
  | some j => d r.depth j

end Record

end Taskyard
