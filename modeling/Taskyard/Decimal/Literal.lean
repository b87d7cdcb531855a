import Taskyard.Decimal.Binary
import Taskyard.Text.Letters
import Taskyard.Text.Numeral

/-!
# Decimal — reading of decimal literals

A literal is a sign, digits with at most one point among or around them, and an exponent; or the
name of infinity or of the value that is no number, whatever the case of its letters. Its value is
the nearest one of the format.

Main definitions:

* `Binary.ofLiteral?` — the value of a literal.
-/

namespace Taskyard.Decimal

open Taskyard.Text

/-- The leading digits of a list of characters, and the rest. -/
def spanDigits : List Char → List Nat × List Char
  | [] => ([], [])
  | c :: rest =>
    match digit? c with
    | some d => let (ds, after) := spanDigits rest; (d :: ds, after)
    | none => ([], c :: rest)

/-- A sign, if there is one: whether it is a minus, and the rest. -/
def takeSign : List Char → Bool × List Char
  | '-' :: rest => (true, rest)
  | '+' :: rest => (false, rest)
  | cs => (false, cs)

/-- The value of an exponent that ends the literal; no exponent is zero. -/
def exponentOf? : List Char → Option Int
  | [] => some 0
  | c :: rest =>
    if c = 'e' ∨ c = 'E' then
      let (negative, rest) := takeSign rest
      match spanDigits rest with
      | ([], _) => none
      | (ds, []) =>
        let n : Int := (ds.foldl (fun n d => n * 10 + d) 0 : Nat)
        some (if negative then -n else n)
      | (_, _ :: _) => none
    else none

/-- The digits of a literal as one number, and the exponent of its last digit. -/
def significand? (cs : List Char) : Option (Nat × Int) :=
  let (whole, rest) := spanDigits cs
  let (fraction, rest) := match rest with
    | '.' :: rest => spanDigits rest
    | rest => ([], rest)
  if whole.isEmpty ∧ fraction.isEmpty then none
  else (exponentOf? rest).map fun e =>
    ((whole ++ fraction).foldl (fun n d => n * 10 + d) 0, e - fraction.length)

/-- An exponent within bounds beyond which every value is zero or infinite. -/
def clampExponent (e : Int) : Int := max (-5000) (min 5000 e)

/-- The value of a literal in a format. -/
def Binary.ofLiteral? (f : Format) (s : String) : Option (Binary f) :=
  let (negative, rest) := takeSign s.toList
  let name := lowerAscii (String.ofList rest)
  if name = "inf" ∨ name = "infinity" then some (.infinity f negative)
  else if name = "nan" then some (.nan f)
  else (significand? rest).map fun (n, e) =>
    let e := clampExponent e
    if 0 ≤ e then .nearest f negative (n * Nat.pow 10 e.toNat) 1
    else .nearest f negative n (Nat.pow 10 (-e).toNat)

end Taskyard.Decimal
