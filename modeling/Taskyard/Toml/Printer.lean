import Taskyard.Toml.Quoting

/-!
# TOML — printing

A document of tables one level deep: each table has a heading and one line for each key, and a blank
line stands between two tables. Integers beyond 64 bits with a sign cannot be written.

Main definitions:

* `Toml.print?` — the text of a document.
-/

namespace Taskyard

namespace Toml

/-- A value of a key. -/
inductive Scalar where
  /-- A natural number. -/
  | number (n : Nat)
  /-- A text. -/
  | text (s : String)

/-- The text of a value, if it can be written. -/
def Scalar.print? : Scalar → Option String
  | .number n => if n < UInt64.size / 2 then some (Text.numeral n) else none
  | .text s => some (quote s)

/-- The lines of keys with values. -/
def printLines? : List (String × Scalar) → Option String
  | [] => some ""
  | (k, v) :: rest => do
    let v ← v.print?
    let later ← printLines? rest
    return k ++ " = " ++ v ++ "\n" ++ later

/-- A table with its heading. -/
def printTable? (t : String × List (String × Scalar)) : Option String :=
  (printLines? t.2).map fun lines => "[" ++ t.1 ++ "]\n" ++ lines

/-- The text of a document of tables. -/
def print? : List (String × List (String × Scalar)) → Option String
  | [] => some ""
  | [t] => printTable? t
  | t :: rest => do
    let head ← printTable? t
    let later ← print? rest
    return head ++ "\n" ++ later

end Toml

end Taskyard
