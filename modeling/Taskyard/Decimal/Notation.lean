import Taskyard.Decimal.Shortest

/-!
# Decimal — positional and scientific notation

The text of a floating-point value: its shortest digits, written positionally while the decimal
point stays close to them and with a power of ten otherwise.

Main definitions:

* `Notation` — the decisions of one notation, as a record.
* `Binary.text` — the text of a finite value.
-/

namespace Taskyard.Decimal

/-- The decisions of a notation. -/
structure Layout where
  /-- The greatest number of digits before the point that is written positionally. -/
  maxWhole : Int
  /-- The greatest number of zeros after the point that is written positionally. -/
  maxLeadingZeros : Int
  deriving DecidableEq, Repr

/-- The layout of 64-bit values: positional from `1e-5` to below `1e16`. -/
def Layout.double : Layout := ⟨16, 4⟩

/-- The layout of 32-bit values: positional from `1e-6` to below `1e13`. -/
def Layout.single : Layout := ⟨13, 5⟩

/-- The digits of a natural number in base ten. -/
def digitChars (n : Nat) : List Char := Nat.toDigits 10 n

/-- The text of an exponent: a sign only when it is negative. -/
def exponentText (e : Int) : List Char :=
  if e < 0 then '-' :: digitChars (-e).toNat else digitChars e.toNat

/-- The text of a positive decimal. Positional text always shows a digit on both sides of the
point. -/
def Scientific.text (l : Layout) (d : Scientific) : List Char :=
  let ds := digitChars d.digits
  let whole : Int := ds.length + d.exponent
  if 0 ≤ d.exponent ∧ whole ≤ l.maxWhole then
    ds ++ List.replicate d.exponent.toNat '0' ++ ['.', '0']
  else if 0 < whole ∧ whole ≤ l.maxWhole then
    ds.take whole.toNat ++ '.' :: ds.drop whole.toNat
  else if whole ≤ 0 ∧ -l.maxLeadingZeros ≤ whole then
    '0' :: '.' :: (List.replicate (-whole).toNat '0' ++ ds)
  else match ds with
    | [c] => c :: 'e' :: exponentText (whole - 1)
    | c :: rest => c :: '.' :: (rest ++ 'e' :: exponentText (whole - 1))
    | [] => []

/-- The text of a finite value. -/
def Binary.text {f : Format} (l : Layout) (x : Binary f) : List Char :=
  let magnitude := if x.isZero then ['0', '.', '0'] else x.shortest.text l
  if x.negative then '-' :: magnitude else magnitude

end Taskyard.Decimal
