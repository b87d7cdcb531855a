/-!
# Shell — patterns

In a pattern a star stands for any text and a question mark for any one character. Everything else
stands for itself.

Main definitions:

* `Pattern.fits` — whether a pattern fits a whole text.
* `Pattern.Trim`, `Pattern.Trim.apply` — removal of what a pattern fits at one end of a text.
-/

namespace Taskyard.Shell.Pattern

/-- What remains of a text after each of its beginnings, the whole text first. -/
def rests : List Char → List (List Char)
  | [] => [[]]
  | c :: rest => (c :: rest) :: rests rest

/-- Whether a pattern fits a whole text. -/
def fits : List Char → List Char → Bool
  | [], cs => cs.isEmpty
  | p :: ps, cs =>
    if p = '*' then (rests cs).any (fits ps)
    else match cs with
      | [] => false
      | c :: rest => (p = '?' || p = c) && fits ps rest

/-- How much is removed from a text. -/
structure Trim where
  /-- From the end, not from the beginning. -/
  atEnd : Bool
  /-- As much as possible, not as little. -/
  most : Bool

/-- The text without what the pattern fits at one end of it. -/
def Trim.apply (t : Trim) (pattern cs : List Char) : List Char :=
  let lengths := List.range (cs.length + 1)
  let lengths := if t.most then lengths.reverse else lengths
  if t.atEnd then
    match lengths.find? fun n => fits pattern (cs.drop (cs.length - n)) with
    | some n => cs.take (cs.length - n)
    | none => cs
  else
    match lengths.find? fun n => fits pattern (cs.take n) with
    | some n => cs.drop n
    | none => cs

end Taskyard.Shell.Pattern
