import Taskyard.Text.Numeral

/-!
# Shell — arithmetic

Expressions over whole numbers of 64 bits that wrap around. Operators are ordered by how loosely
they join; those of one level are taken from left to right. A name stands for the value of a
variable, and one without a value for zero.

Main definitions:

* `Arithmetic.Complaint` — why an expression has no value.
* `Arithmetic.evaluate` — the value of an expression.
-/

namespace Taskyard.Shell.Arithmetic

/-- The number of 64 bits that a whole number wraps around to. -/
def wrap (i : Int) : Int := Int.bmod i UInt64.size

/-- Why an expression has no value. -/
inductive Complaint where
  /-- A number is divided by zero. -/
  | zeroDivisor
  /-- A number is missing. -/
  | noOperand
  /-- Something follows the expression. -/
  | notEnded

/-- The text of a complaint. -/
def Complaint.message : Complaint → String
  | .zeroDivisor => "division by zero"
  | .noOperand => "expecting primary"
  | .notEnded => "expecting EOF"

/-- The operators by levels, the loosest first. -/
def levels : List (List String) :=
  [["||"], ["&&"], ["|"], ["^"], ["&"], ["==", "!="], ["<=", ">=", "<", ">"], ["<<", ">>"],
   ["+", "-"], ["*", "/", "%"]]

/-- The operator at the beginning, the longest one that stands there. -/
def operator? (cs : List Char) : Option String :=
  let found := levels.flatten.filter fun o => o.toList.isPrefixOf cs
  (found.find? fun o => o.length = 2) <|> found.head?

/-- One for what holds, zero for what does not. -/
def truth (b : Bool) : Int := if b then 1 else 0

/-- Two numbers joined by an operator. Nothing is divided by zero. -/
def join (operator : String) (a b : Int) : Except Complaint Int :=
  match operator with
  | "||" => .ok (truth (a ≠ 0 || b ≠ 0))
  | "&&" => .ok (truth (a ≠ 0 && b ≠ 0))
  | "|" => .ok (BitVec.ofInt 64 a ||| BitVec.ofInt 64 b).toInt
  | "^" => .ok (BitVec.ofInt 64 a ^^^ BitVec.ofInt 64 b).toInt
  | "&" => .ok (BitVec.ofInt 64 a &&& BitVec.ofInt 64 b).toInt
  | "==" => .ok (truth (a = b))
  | "!=" => .ok (truth (a ≠ b))
  | "<=" => .ok (truth (a ≤ b))
  | ">=" => .ok (truth (a ≥ b))
  | "<" => .ok (truth (a < b))
  | ">" => .ok (truth (a > b))
  | "<<" => .ok (wrap (a * (1 <<< (b % 64).toNat : Nat)))
  | ">>" => .ok (Int.fdiv a (1 <<< (b % 64).toNat : Nat))
  | "+" => .ok (wrap (a + b))
  | "-" => .ok (wrap (a - b))
  | "*" => .ok (wrap (a * b))
  | "/" => if b = 0 then .error .zeroDivisor else .ok (wrap (Int.tdiv a b))
  | "%" => if b = 0 then .error .zeroDivisor else .ok (wrap (Int.tmod a b))
  | _ => .error .noOperand

/-- What follows blanks. -/
def skip (cs : List Char) : List Char := cs.dropWhile fun c => c = ' ' || c = '\t' || c = '\n'

/-- A numeral in base eight, ten or sixteen, and what follows it. -/
def numeral (cs : List Char) : Except Complaint (Int × List Char) :=
  let (base, cs) : Nat × List Char := match cs with
    | '0' :: 'x' :: rest => (16, rest)
    | '0' :: d :: rest => if d.isDigit then (8, d :: rest) else (10, '0' :: d :: rest)
    | cs => (10, cs)
  let digits := cs.takeWhile fun c => (Text.hexDigit? c).any (· < base)
  if digits.isEmpty then .error .noOperand
  else
    let value := digits.foldl (fun n c => n * base + (Text.hexDigit? c).getD 0) 0
    .ok (wrap value, cs.drop digits.length)

mutual

/-- An expression of the given levels, and what follows it. The number bounds the depth and the
length, here and below. -/
def readLevels (value : String → Int) :
    Nat → List (List String) → List Char → Except Complaint (Int × List Char)
  | 0, _, _ => .error .notEnded
  | n + 1, [], cs => readOperand value n cs
  | n + 1, level :: tighter, cs => do
    let (a, rest) ← readLevels value n tighter cs
    readMore value n level tighter a rest

/-- What is joined to a number by the operators of a level, and what follows. -/
def readMore (value : String → Int) :
    Nat → List String → List (List String) → Int → List Char → Except Complaint (Int × List Char)
  | 0, _, _, _, _ => .error .notEnded
  | n + 1, level, tighter, a, cs =>
    match (operator? (skip cs)).filter level.contains with
    | none => .ok (a, cs)
    | some o => do
      let (b, rest) ← readLevels value n tighter ((skip cs).drop o.length)
      let a ← join o a b
      readMore value n level tighter a rest

/-- A numeral, a variable, an expression between brackets or one of these after a sign, and what
follows. -/
def readOperand (value : String → Int) : Nat → List Char → Except Complaint (Int × List Char)
  | 0, _ => .error .notEnded
  | n + 1, cs =>
    match skip cs with
    | [] => .error .noOperand
    | c :: rest =>
      if c = '(' then do
        let (a, rest) ← readLevels value n levels rest
        match skip rest with
        | ')' :: after => return (a, after)
        | _ => .error .notEnded
      else if c = '-' then (readOperand value n rest).map fun (a, after) => (wrap (-a), after)
      else if c = '+' then readOperand value n rest
      else if c = '!' then (readOperand value n rest).map fun (a, after) => (truth (a = 0), after)
      else if c = '~' then (readOperand value n rest).map fun (a, after) => (wrap (-a - 1), after)
      else if c.isDigit then numeral (c :: rest)
      else if c.isAlpha || c = '_' then
        let name := (c :: rest).takeWhile fun d => d.isAlphanum || d = '_'
        .ok (value (String.ofList name), (c :: rest).drop name.length)
      else .error .noOperand

end

/-- The value of an expression, given those of variables, if it has one. Nothing is worth zero. -/
def evaluate (value : String → Int) (s : String) : Except Complaint Int := do
  let cs := s.toList
  if (skip cs).isEmpty then return 0
  let (a, rest) ← readLevels value (16 * cs.length + 16) levels cs
  if (skip rest).isEmpty then return a else throw .notEnded

end Taskyard.Shell.Arithmetic
