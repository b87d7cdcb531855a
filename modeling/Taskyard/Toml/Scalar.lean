import Taskyard.Decimal.Literal
import Taskyard.Json.Value

/-!
# TOML — numbers and times

Digits of numbers may be set apart by single underscores. Integers fit 64 bits with a sign and have
no leading zero; they may be written to the bases two, eight and sixteen. A float has a fraction, an
exponent, or both.

A date, a time of day, or both together are moments. A moment stands for an object with its text in
the usual form as the only member. Fractions of seconds have at most nine digits; further ones are
dropped.

Main definitions:

* `Toml.readNumber` — an integer or a float.
* `Toml.Moment`, `Toml.readMoment` — a date, a time, or both.
-/

namespace Taskyard

open Taskyard.Decimal

namespace Toml

/-! ## Digits -/

/-- Digits of one base, at least one, that may be set apart by single underscores, and what follows
them. -/
def readDigits (digit? : Char → Option Nat) : List Char → Option (List Nat × List Char)
  | [] => none
  | c :: rest =>
    match digit? c with
    | none => none
    | some d =>
      match rest with
      | '_' :: more => (readDigits digit? more).map fun (ds, after) => (d :: ds, after)
      | c' :: more =>
        if (digit? c').isSome then
          (readDigits digit? (c' :: more)).map fun (ds, after) => (d :: ds, after)
        else some ([d], c' :: more)
      | [] => some ([d], [])

/-- A digit of a base up to sixteen. -/
def digitBelow (base : Nat) (c : Char) : Option Nat := (Text.hexDigit? c).filter (· < base)

/-- The value of digits to a base. -/
def valueOf (base : Nat) (ds : List Nat) : Nat := ds.foldl (fun n d => n * base + d) 0

/-! ## Numbers -/

/-- The value of an integer that fits 64 bits with a sign. -/
def integer? (negative : Bool) (n : Nat) : Option Json :=
  let i : Int := if negative then -n else n
  if Int64.minValue.toInt ≤ i ∧ i ≤ Int64.maxValue.toInt then some (.ofInt i) else none

/-- The value of a float. One that is not finite has none among JSON values and stands for nothing;
digits that are too great are refused unless they have a minus sign. -/
def float? (negative : Bool) (digits : List Nat) (exponent : Int) : Option Json :=
  let e := clampExponent exponent
  let n := valueOf 10 digits
  let x : Double :=
    if 0 ≤ e then .nearest .double negative (n * Nat.pow 10 e.toNat) 1
    else .nearest .double negative n (Nat.pow 10 (-e).toNat)
  if x.isFinite then some (.number (.double x)) else if negative then some .null else none

/-- The integer part of a number: digits without a leading zero, and what follows them. -/
def readWhole (cs : List Char) : Option (List Nat × List Char) :=
  match cs with
  | '0' :: rest => some ([0], rest)
  | _ => readDigits Text.digit? cs

/-- A fraction, if one starts here. -/
def readFraction : List Char → Option (Option (List Nat) × List Char)
  | '.' :: rest => (readDigits Text.digit? rest).map fun (ds, after) => (some ds, after)
  | cs => some (none, cs)

/-- An exponent, if one starts here. -/
def readExponent : List Char → Option (Option Int × List Char)
  | c :: rest =>
    if c = 'e' ∨ c = 'E' then
      let (negative, digits) := takeSign rest
      (readDigits Text.digit? digits).map fun (ds, after) =>
        let n : Int := (valueOf 10 ds : Nat)
        (some (if negative then -n else n), after)
    else some (none, c :: rest)
  | [] => some (none, [])

/-- A number to base ten without its sign, and what follows it. -/
def readDecimal (negative : Bool) (cs : List Char) : Option (Json × List Char) := do
  let (whole, rest) ← readWhole cs
  let (fraction, rest) ← readFraction rest
  let (exponent, rest) ← readExponent rest
  let value ←
    if fraction.isNone ∧ exponent.isNone then integer? negative (valueOf 10 whole)
    else
      let places : Int := (fraction.getD []).length
      float? negative (whole ++ fraction.getD []) (exponent.getD 0 - places)
  return (value, rest)

/-- An integer to a base after its mark, and what follows it. -/
def readBased (base : Nat) (cs : List Char) : Option (Json × List Char) := do
  let (ds, rest) ← readDigits (digitBelow base) cs
  let value ← integer? false (valueOf base ds)
  return (value, rest)

/-- A number, and what follows it. -/
def readNumber (cs : List Char) : Option (Json × List Char) :=
  match cs with
  | '0' :: 'x' :: rest => readBased 16 rest
  | '0' :: 'o' :: rest => readBased 8 rest
  | '0' :: 'b' :: rest => readBased 2 rest
  | _ =>
    let (negative, rest) := takeSign cs
    match rest with
    | 'i' :: 'n' :: 'f' :: after => some (.null, after)
    | 'n' :: 'a' :: 'n' :: after => some (.null, after)
    | _ => readDecimal negative rest

/-! ## Moments -/

/-- A day of the calendar. -/
structure Day where
  /-- The year. -/
  year : Nat
  /-- The month from one. -/
  month : Nat
  /-- The day of the month from one. -/
  day : Nat

/-- The distance from universal time. -/
inductive Offset where
  /-- None. -/
  | zulu
  /-- So many minutes, before it or behind it. -/
  | minutes (behind : Bool) (n : Nat)

/-- A time of day. -/
structure Clock where
  /-- The hour. -/
  hour : Nat
  /-- The minute. -/
  minute : Nat
  /-- The second, up to sixty. -/
  second : Nat
  /-- The nine digits of the fraction as a number. -/
  nanos : Nat := 0

/-- A date, a time, or both. -/
inductive Moment where
  /-- A date. -/
  | day (d : Day)
  /-- A time. -/
  | clock (c : Clock)
  /-- A date and a time, perhaps with a distance from universal time. -/
  | both (d : Day) (c : Clock) (offset : Option Offset)

/-- A number of exactly so many digits within bounds, and what follows it. -/
def readFixed (digits lo hi : Nat) (cs : List Char) : Option (Nat × List Char) := do
  let ds ← (cs.take digits).mapM Text.digit?
  if ds.length = digits ∧ lo ≤ valueOf 10 ds ∧ valueOf 10 ds ≤ hi then
    some (valueOf 10 ds, cs.drop digits)
  else none

/-- What follows a given character. -/
def expect (c : Char) : List Char → Option (List Char)
  | [] => none
  | c' :: rest => if c = c' then some rest else none

/-- The number of days of a month. -/
def daysIn (year month : Nat) : Nat :=
  if month = 2 then
    if year % 4 = 0 ∧ (year % 100 ≠ 0 ∨ year % 400 = 0) then 29 else 28
  else if [4, 6, 9, 11].contains month then 30 else 31

/-- A date, and what follows it. -/
def readDay (cs : List Char) : Option (Day × List Char) := do
  let (year, rest) ← readFixed 4 0 9999 cs
  let rest ← expect '-' rest
  let (month, rest) ← readFixed 2 1 12 rest
  let rest ← expect '-' rest
  let (day, rest) ← readFixed 2 1 (daysIn year month) rest
  return (⟨year, month, day⟩, rest)

/-- The leading digits, and what follows them. -/
def fractionDigits (cs : List Char) : List Nat × List Char := spanDigits cs

/-- The first nine digits of a fraction as a number. -/
def nanosOf (ds : List Nat) : Nat := valueOf 10 ((ds ++ List.replicate 9 0).take 9)

/-- A time of day, and what follows it. -/
def readClock (cs : List Char) : Option (Clock × List Char) := do
  let (hour, rest) ← readFixed 2 0 23 cs
  let rest ← expect ':' rest
  let (minute, rest) ← readFixed 2 0 59 rest
  let rest ← expect ':' rest
  let (second, rest) ← readFixed 2 0 60 rest
  match rest with
  | '.' :: more =>
    match fractionDigits more with
    | ([], _) => none
    | (ds, after) => return (⟨hour, minute, second, nanosOf ds⟩, after)
  | _ => return (⟨hour, minute, second, 0⟩, rest)

/-- A distance from universal time, if one starts here. -/
def readOffset : List Char → Option (Option Offset × List Char)
  | [] => some (none, [])
  | c :: rest =>
    if c = 'Z' ∨ c = 'z' then some (some .zulu, rest)
    else if c = '+' ∨ c = '-' then do
      let (hours, rest) ← readFixed 2 0 23 rest
      let rest ← expect ':' rest
      let (minutes, rest) ← readFixed 2 0 59 rest
      return (some (.minutes (c = '-') (hours * 60 + minutes)), rest)
    else some (none, c :: rest)

/-- Whether a time may start here after a date: a mark, an hour and a colon. -/
def startsClock : List Char → Bool
  | c :: rest =>
    (c = 'T' || c = 't' || c = ' ') &&
      ((readFixed 2 0 23 rest).bind fun (_, after) => expect ':' after).isSome
  | [] => false

/-- A moment, and what follows it. -/
def readMoment (cs : List Char) : Option (Moment × List Char) :=
  match readDay cs with
  | some (d, rest) =>
    if startsClock rest then do
      let (c, rest) ← readClock (rest.drop 1)
      let (offset, rest) ← readOffset rest
      return (.both d c offset, rest)
    else some (.day d, rest)
  | none => (readClock cs).map fun (c, rest) => (.clock c, rest)

/-- A number with leading zeros up to so many digits. -/
def fixed (digits n : Nat) : String :=
  let ds := Nat.toDigits 10 n
  String.ofList (List.replicate (digits - ds.length) '0' ++ ds)

/-- The text of a date. -/
def Day.text (d : Day) : String :=
  fixed 4 d.year ++ "-" ++ fixed 2 d.month ++ "-" ++ fixed 2 d.day

/-- The text of a time, with no more digits of a fraction than it needs. -/
def Clock.text (c : Clock) : String :=
  let fraction :=
    if c.nanos = 0 then ""
    else "." ++ String.ofList
      (((fixed 9 c.nanos).toList.reverse.dropWhile (· = '0')).reverse)
  fixed 2 c.hour ++ ":" ++ fixed 2 c.minute ++ ":" ++ fixed 2 c.second ++ fraction

/-- The text of a distance from universal time. -/
def Offset.text : Offset → String
  | .zulu => "Z"
  | .minutes behind n =>
    (if behind && n ≠ 0 then "-" else "+") ++ fixed 2 (n / 60) ++ ":" ++ fixed 2 (n % 60)

/-- The text of a moment. -/
def Moment.text : Moment → String
  | .day d => d.text
  | .clock c => c.text
  | .both d c offset => d.text ++ "T" ++ c.text ++ (offset.map Offset.text).getD ""

/-- The name of the only member of the object that a moment stands for. -/
def momentMember : String := "$__toml_private_datetime"

/-- The value that a moment stands for. -/
def Moment.value (m : Moment) : Json := .object [(momentMember, .string m.text)]

end Toml

end Taskyard
