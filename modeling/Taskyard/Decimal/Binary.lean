/-!
# Decimal — binary floating-point values, exactly

A binary interchange format is a number of fraction bits and a number of exponent bits. A value of
the format is a sign and a magnitude pattern, the exponent field above the fraction field, so the
order of magnitudes is the order of the patterns and every operation is arithmetic on naturals:
nothing here is opaque to a proof.

Main definitions:

* `Format.single`, `Format.double` — the 32-bit and the 64-bit format.
* `Binary.scaled` — a finite value as `mantissa * 2 ^ exponent`.
* `Binary.nearest` — the value nearest to a quotient of naturals, ties to even.
* `Binary.narrow` — the nearest value in another format.
* `Binary.clampUnit` — restriction to the interval from zero to one.
-/

namespace Taskyard.Decimal

/-- A binary interchange format: the widths of its fraction field and of its exponent field. -/
structure Format where
  /-- Stored fraction bits; the leading bit of a normal value is not stored. -/
  fractionBits : Nat
  /-- Bits of the biased exponent. -/
  exponentBits : Nat
  deriving DecidableEq, Repr

namespace Format

/-- The 32-bit format. -/
def single : Format := ⟨23, 8⟩

/-- The 64-bit format. -/
def double : Format := ⟨52, 11⟩

/-- The exponent of the least bit of a subnormal value: values are multiples of `2 ^
minExponent`. -/
def minExponent (f : Format) : Int :=
  2 - (1 <<< (f.exponentBits - 1) : Nat) - f.fractionBits

/-- The magnitude pattern of infinity; greater patterns are not numbers. -/
def infinityPattern (f : Format) : Nat :=
  ((1 <<< f.exponentBits) - 1) <<< f.fractionBits

/-- The magnitude pattern of one. -/
def onePattern (f : Format) : Nat :=
  ((1 <<< (f.exponentBits - 1)) - 1) <<< f.fractionBits

end Format

/-- A value of the format `f`: its sign and its magnitude pattern. -/
structure Binary (f : Format) where
  /-- Whether the sign bit is set. -/
  negative : Bool
  /-- The exponent field followed by the fraction field. -/
  pattern : BitVec (f.exponentBits + f.fractionBits)
  deriving DecidableEq, Repr

/-- A 32-bit value. -/
abbrev Single := Binary .single

/-- A 64-bit value. -/
abbrev Double := Binary .double

namespace Binary

variable {f : Format}

/-- The value with the given sign and magnitude pattern, the latter cut to the width of the
format. -/
def ofPattern (f : Format) (negative : Bool) (pattern : Nat) : Binary f :=
  ⟨negative, BitVec.ofNat _ pattern⟩

/-- Positive zero. -/
def zero (f : Format) : Binary f := ofPattern f false 0

/-- One. -/
def one (f : Format) : Binary f := ofPattern f false f.onePattern

/-- Infinity of the given sign. -/
def infinity (f : Format) (negative : Bool) : Binary f := ofPattern f negative f.infinityPattern

/-- The quiet value that is not a number. -/
def nan (f : Format) : Binary f :=
  ofPattern f false (f.infinityPattern + (1 <<< (f.fractionBits - 1)))

/-- Whether the value is not a number. -/
def isNaN (x : Binary f) : Bool := f.infinityPattern < x.pattern.toNat

/-- Whether the value is neither infinite nor a NaN. -/
def isFinite (x : Binary f) : Bool := x.pattern.toNat < f.infinityPattern

/-- Whether the value is a zero of either sign. -/
def isZero (x : Binary f) : Bool := x.pattern.toNat == 0

/-- The same magnitude with the other sign. -/
def neg (x : Binary f) : Binary f := { x with negative := !x.negative }

/-- The magnitude of a finite value as `mantissa * 2 ^ exponent`. -/
def scaled (x : Binary f) : Nat × Int :=
  let field := x.pattern.toNat >>> f.fractionBits
  let fraction := x.pattern.toNat % (1 <<< f.fractionBits)
  if field = 0 then (fraction, f.minExponent)
  else ((1 <<< f.fractionBits) + fraction, f.minExponent + (field - 1))

/-- The quotient `num / den` rounded to a natural: to the nearest one, a half to the even one. -/
def roundDiv (num den : Nat) : Nat :=
  let q := num / den
  let r := num % den
  if 2 * r < den then q
  else if den < 2 * r then q + 1
  else q + q % 2

/-- `num / den` scaled by `2 ^ (-exponent)`, as a numerator and a denominator. -/
def unscale (num den : Nat) (exponent : Int) : Nat × Nat :=
  if exponent < 0 then (num <<< (-exponent).toNat, den)
  else (num, den <<< exponent.toNat)

/-- The exponent at which the quotient `num / den` fills exactly the bits of a normal mantissa, not
below the least exponent of the format. -/
def exponentFor (f : Format) (num den : Nat) : Int :=
  let guess : Int := (Nat.log2 num : Int) - Nat.log2 den - f.fractionBits
  let (n, d) := unscale num den guess
  let fitted := if n < d <<< f.fractionBits then guess - 1 else guess
  max fitted f.minExponent

/-- The value of the format nearest to `num / den` with the given sign. A half goes to the even
neighbour, and what exceeds the greatest finite value by half a step or more is infinite. -/
def nearest (f : Format) (negative : Bool) (num den : Nat) : Binary f :=
  if num = 0 then ofPattern f negative 0
  else
    let e := exponentFor f num den
    let (n, d) := unscale num den e
    -- A mantissa that rounds up to the next power of two carries into the exponent field.
    let pattern := ((e - f.minExponent).toNat <<< f.fractionBits) + roundDiv n d
    ofPattern f negative (min pattern f.infinityPattern)

/-- The magnitude of a finite value as a quotient of naturals. -/
def quotient (x : Binary f) : Nat × Nat :=
  let (m, e) := x.scaled
  if e < 0 then (m, 1 <<< (-e).toNat) else (m <<< e.toNat, 1)

/-- The product of two finite values, rounded. -/
def mul (x y : Binary f) : Binary f :=
  let (n, d) := x.quotient
  let (n', d') := y.quotient
  nearest f (x.negative != y.negative) (n * n') (d * d')

/-- The quotient of a finite value by a finite non-zero value, rounded. -/
def div (x y : Binary f) : Binary f :=
  let (n, d) := x.quotient
  let (n', d') := y.quotient
  nearest f (x.negative != y.negative) (n * d') (d * n')

/-- The nearest value in the format `g`. -/
def narrow (g : Format) (x : Binary f) : Binary g :=
  if x.isNaN then nan g
  else if x.isFinite then
    let (n, d) := x.quotient
    nearest g x.negative n d
  else infinity g x.negative

/-- Restriction to the interval from zero to one: what is below zero becomes zero and what is above
one becomes one. A value that is not a number stays as it is. -/
def clampUnit (x : Binary f) : Binary f :=
  if x.isNaN then x
  else if x.negative && !x.isZero then zero f
  else if !x.negative && f.onePattern < x.pattern.toNat then one f
  else x

/-- Whether the value lies between zero and one. -/
def InUnit (x : Binary f) : Prop :=
  x.isNaN = false ∧ (x.pattern.toNat = 0 ∨ (x.negative = false ∧ x.pattern.toNat ≤ f.onePattern))

instance : Decidable (InUnit x) := by unfold InUnit; infer_instance

end Binary

end Taskyard.Decimal
