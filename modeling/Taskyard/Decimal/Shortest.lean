import Taskyard.Decimal.Binary

/-!
# Decimal — the shortest digits that read back

Every finite binary value is written with the fewest significant digits that, read as a decimal and
rounded to the format, give the value back. The decimals that do so are those of an interval around
the value, which reaches half way to each neighbour; its ends belong to it exactly when the mantissa
is even. For one digit, two digits and so on, the two neighbours of the value on that decimal grid
are tested in exact arithmetic: the first grid with a hit wins, and of two hits the nearer one.

Main definitions:

* `Binary.shortest` — the digits and the decimal exponent of a finite non-zero value.
-/

namespace Taskyard.Decimal

/-- A positive decimal: `digits * 10 ^ exponent`. -/
structure Scientific where
  /-- The significant digits as one number, without trailing zeros. -/
  digits : Nat
  /-- The power of ten of the last digit. -/
  exponent : Int
  deriving DecidableEq, Repr

namespace Scientific

/-- The decimal as a quotient of naturals. -/
def quotient (d : Scientific) : Nat × Nat :=
  if d.exponent < 0 then (d.digits, Nat.pow 10 (-d.exponent).toNat)
  else (d.digits * Nat.pow 10 d.exponent.toNat, 1)

/-- Removal of one trailing zero after another, at most `limit` of them. -/
def trim (d : Scientific) : Nat → Scientific
  | 0 => d
  | limit + 1 =>
    if d.digits ≠ 0 ∧ d.digits % 10 = 0 then trim ⟨d.digits / 10, d.exponent + 1⟩ limit else d

end Scientific

namespace Binary

variable {f : Format}

/-- The interval of the numbers that round to a value, over the common denominator `den`: the value
is `center / den`, and the ends are `low / den` and `high / den`. -/
structure Interval where
  /-- Numerator of the lower end. -/
  low : Nat
  /-- Numerator of the value. -/
  center : Nat
  /-- Numerator of the upper end. -/
  high : Nat
  /-- The common denominator. -/
  den : Nat
  /-- Whether the ends belong to the interval. -/
  closed : Bool

/-- The rounding interval of a finite non-zero value. Below a power of two the spacing halves, so
there the lower end is closer. -/
def interval (x : Binary f) : Interval :=
  let (m, e) := x.scaled
  let narrowBelow := m = 1 <<< f.fractionBits ∧ f.minExponent < e
  let low := 4 * m - (if narrowBelow then 1 else 2)
  let (scale, den) := if e < 2 then (1, 1 <<< (2 - e).toNat) else (1 <<< (e - 2).toNat, 1)
  ⟨low * scale, 4 * m * scale, (4 * m + 2) * scale, den, m % 2 = 0⟩

/-- Whether the decimal lies in the interval. -/
def Interval.holds (i : Interval) (d : Scientific) : Bool :=
  let (n, k) := d.quotient
  let at_ := n * i.den
  if i.closed then i.low * k ≤ at_ && at_ ≤ i.high * k
  else i.low * k < at_ && at_ < i.high * k

/-- The multiples of `10 ^ exponent` next to the value: the one not above it and the one after. -/
def Interval.neighbours (i : Interval) (exponent : Int) : Scientific × Scientific :=
  let below :=
    if exponent < 0 then i.center * Nat.pow 10 (-exponent).toNat / i.den
    else i.center / (i.den * Nat.pow 10 exponent.toNat)
  (⟨below, exponent⟩, ⟨below + 1, exponent⟩)

/-- Whether the lower neighbour `a` is nearer to the value than the upper one, which is one unit of
the grid above it. An exact tie goes to the even digit. -/
def Interval.prefersLower (i : Interval) (a : Scientific) : Bool :=
  let (n, k) := (⟨2 * a.digits + 1, a.exponent⟩ : Scientific).quotient
  -- Twice the value against the sum of the neighbours.
  let twice := 2 * i.center * k
  let sum := n * i.den
  twice < sum || (twice == sum && a.digits % 2 == 0)

/-- The first grid with a hit, from `exponent` downwards. -/
def Interval.search (i : Interval) : Nat → Int → Scientific
  | 0, exponent => (i.neighbours exponent).1
  | limit + 1, exponent =>
    let (a, b) := i.neighbours exponent
    match a.digits ≠ 0 && i.holds a, i.holds b with
    | true, true => if i.prefersLower a then a else b
    | true, false => a
    | false, true => b
    | false, false => i.search limit (exponent - 1)

/-- The decimal exponent of the leading digit of `num / den`, or one more. -/
def leadingExponent (num den : Nat) : Int :=
  if den ≤ num then ((Nat.toDigits 10 (num / den)).length : Int)
  else 1 - ((Nat.toDigits 10 (den / num)).length : Int)

/-- The fewest digits that read back as the magnitude of a finite non-zero value; of those the
nearest to it. -/
def shortest (x : Binary f) : Scientific :=
  let i := x.interval
  (i.search 20 (leadingExponent i.center i.den)).trim 400

end Binary

end Taskyard.Decimal
