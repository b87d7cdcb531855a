/-!
# Text — unsigned decimal numerals

A numeral that is read is an optional plus sign and at least one ASCII digit; its value has to be
below a bound.

Main definitions:

* `numeral`, `integer` — the digits of a number.
* `digit?` — the value of a digit.
* `numeralBelow?` — the value of a numeral below a bound.
-/

namespace Taskyard.Text

/-- The decimal digits of a natural number. -/
def numeral (n : Nat) : String := String.ofList (Nat.toDigits 10 n)

/-- The decimal digits of an integer, after a minus sign if it is negative. -/
def integer (i : Int) : String := if i < 0 then "-" ++ numeral i.natAbs else numeral i.natAbs

/-- The value of an ASCII digit. -/
def digit? (c : Char) : Option Nat :=
  if '0' ≤ c ∧ c ≤ '9' then some (c.toNat - '0'.toNat) else none

/-- The value of an ASCII hexadecimal digit of either case. -/
def hexDigit? (c : Char) : Option Nat :=
  if '0' ≤ c ∧ c ≤ '9' then some (c.toNat - '0'.toNat)
  else if 'a' ≤ c ∧ c ≤ 'f' then some (c.toNat - 'a'.toNat + 10)
  else if 'A' ≤ c ∧ c ≤ 'F' then some (c.toNat - 'A'.toNat + 10)
  else none

/-- The value of a run of digits, continuing from the value `acc` of those before it. -/
def digitsValue? (acc : Nat) : List Char → Option Nat
  | [] => some acc
  | c :: rest => (digit? c).bind fun d => digitsValue? (acc * 10 + d) rest

/-- The value of a numeral below `bound`. -/
def numeralBelow? (bound : Nat) (s : String) : Option Nat :=
  let digits := match s.toList with
    | '+' :: rest => rest
    | cs => cs
  if digits.isEmpty then none
  else (digitsValue? 0 digits).filter (· < bound)

/-- The value of a numeral that fits 64 bits. -/
def numeral64? (s : String) : Option Nat := numeralBelow? UInt64.size s

/-- The value of a numeral that fits 32 bits. -/
def numeral32? (s : String) : Option Nat := numeralBelow? UInt32.size s

end Taskyard.Text
