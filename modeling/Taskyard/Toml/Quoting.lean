import Taskyard.Text.Numeral

/-!
# TOML — quoted texts

A text between quotation marks may hold escapes; one between apostrophes stands for itself. Three
marks in place of one allow line breaks. Of control characters only the tab stands for itself, and a
line break is one line feed whichever way it is spelled.

A text is written in the quotation that needs the fewest escapes: between apostrophes if it holds a
quotation mark or a backslash and nothing that has to be escaped, and with three marks if it holds a
line feed, or an apostrophe between apostrophes.

Main definitions:

* `Toml.readQuoted` — a quoted text and what follows it.
* `Toml.readQuotedKey` — the same for a text on one line.
* `Toml.quote` — a text with its quotation.
-/

namespace Taskyard

namespace Toml

/-! ## Reading -/

/-- Whether the character may stand for itself in a line. -/
def isPlain (c : Char) : Bool := c = '\t' || (0x20 ≤ c.toNat && c.toNat ≠ 0x7f)

/-- Whether the character is a blank within a line. -/
def isGap (c : Char) : Bool := c = ' ' || c = '\t'

/-- What follows a line break, if there is one. -/
def lineBreak? : List Char → Option (List Char)
  | '\n' :: rest => some rest
  | '\r' :: '\n' :: rest => some rest
  | _ => none

/-- The value of hexadecimal digits, exactly so many, continuing from the value of those before, and
what follows them. -/
def readHex : Nat → Nat → List Char → Option (Nat × List Char)
  | 0, acc, cs => some (acc, cs)
  | _ + 1, _, [] => none
  | n + 1, acc, c :: rest => (Text.hexDigit? c).bind fun d => readHex n (acc * 16 + d) rest

/-- The character of a code point. -/
def scalar? (n : Nat) : Option Char := if n.isValidChar then some (Char.ofNat n) else none

/-- The character of an escape after its backslash, and what follows it. -/
def readEscape : List Char → Option (Char × List Char)
  | [] => none
  | c :: rest =>
    if c = 'u' then (readHex 4 0 rest).bind fun (n, after) => (scalar? n).map (·, after)
    else if c = 'U' then (readHex 8 0 rest).bind fun (n, after) => (scalar? n).map (·, after)
    else if c = '"' || c = '\\' then some (c, rest)
    else if c = 'b' then some ('\x08', rest)
    else if c = 't' then some ('\t', rest)
    else if c = 'n' then some ('\n', rest)
    else if c = 'f' then some ('\x0c', rest)
    else if c = 'r' then some ('\r', rest)
    else none

/-- The characters up to a quotation mark, and what follows it. The number bounds them. -/
def readBasic : Nat → List Char → Option (List Char × List Char)
  | 0, _ => none
  | _ + 1, [] => none
  | n + 1, c :: rest =>
    if c = '"' then some ([], rest)
    else if c = '\\' then do
      let (e, after) ← readEscape rest
      let (cs, final) ← readBasic n after
      return (e :: cs, final)
    else if isPlain c then (readBasic n rest).map fun (cs, final) => (c :: cs, final)
    else none

/-- The characters up to an apostrophe, and what follows it. -/
def readLiteral : List Char → Option (List Char × List Char)
  | [] => none
  | c :: rest =>
    if c = '\x27' then some ([], rest)
    else if isPlain c then (readLiteral rest).map fun (cs, final) => (c :: cs, final)
    else none

/-- The marks of a closing run beyond three, at most two, which belong to the text; what follows. -/
def closing (mark : Char) : List Char → List Char × List Char
  | a :: b :: rest =>
    if a = mark then
      if b = mark then ([a, b], rest) else ([a], b :: rest)
    else ([], a :: b :: rest)
  | [a] => if a = mark then ([a], []) else ([], [a])
  | [] => ([], [])

/-- What follows three marks, if they are there. -/
def threeMarks? (mark : Char) : List Char → Option (List Char)
  | a :: b :: c :: rest => if a = mark ∧ b = mark ∧ c = mark then some rest else none
  | _ => none

/-- What follows all blanks and line breaks. The number bounds them. -/
def skipSpace : Nat → List Char → List Char
  | 0, cs => cs
  | n + 1, cs =>
    match lineBreak? cs, cs with
    | some rest, _ => skipSpace n rest
    | none, c :: rest => if isGap c then skipSpace n rest else cs
    | none, [] => []

/-- What follows a line break that a backslash hides, together with all space after it. The list
starts after the backslash. -/
def hiddenBreak? (cs : List Char) : Option (List Char) :=
  (lineBreak? (cs.dropWhile isGap)).map fun rest => skipSpace rest.length rest

/-- The characters up to three quotation marks, and what follows them. The number bounds them. -/
def readBasicLines : Nat → List Char → Option (List Char × List Char)
  | 0, _ => none
  | n + 1, cs =>
    match threeMarks? '"' cs, lineBreak? cs, cs with
    | some rest, _, _ => some (closing '"' rest)
    | none, some rest, _ => (readBasicLines n rest).map fun (cs, final) => ('\n' :: cs, final)
    | none, none, [] => none
    | none, none, c :: rest =>
      if c = '\\' then
        match hiddenBreak? rest with
        | some after => readBasicLines n after
        | none => do
          let (e, after) ← readEscape rest
          let (cs, final) ← readBasicLines n after
          return (e :: cs, final)
      else if isPlain c then (readBasicLines n rest).map fun (cs, final) => (c :: cs, final)
      else none

/-- The characters up to three apostrophes, and what follows them. The number bounds them. -/
def readLiteralLines : Nat → List Char → Option (List Char × List Char)
  | 0, _ => none
  | n + 1, cs =>
    match threeMarks? '\x27' cs, lineBreak? cs, cs with
    | some rest, _, _ => some (closing '\x27' rest)
    | none, some rest, _ => (readLiteralLines n rest).map fun (cs, final) => ('\n' :: cs, final)
    | none, none, [] => none
    | none, none, c :: rest =>
      if isPlain c then (readLiteralLines n rest).map fun (cs, final) => (c :: cs, final) else none

/-- The characters as a text. -/
def asText (r : List Char × List Char) : String × List Char := (String.ofList r.1, r.2)

/-- A quoted text on one line, and what follows it. -/
def readQuotedKey : List Char → Option (String × List Char)
  | [] => none
  | c :: rest =>
    if c = '"' then (readBasic (rest.length + 1) rest).map asText
    else if c = '\x27' then (readLiteral rest).map asText
    else none

/-- A quoted text, and what follows it. A line break at the very beginning is not part of it. -/
def readQuoted (cs : List Char) : Option (String × List Char) :=
  let start (rest : List Char) := (lineBreak? rest).getD rest
  match threeMarks? '"' cs, threeMarks? '\x27' cs with
  | some rest, _ => (readBasicLines (rest.length + 1) (start rest)).map asText
  | none, some rest => (readLiteralLines (rest.length + 1) (start rest)).map asText
  | none, none => readQuotedKey cs

/-! ## Writing -/

/-- Whether the character has to be escaped even with three quotation marks around the text. -/
def needsEscape (c : Char) : Bool := !isPlain c && c ≠ '\n'

/-- Whether the text holds three apostrophes in a row. -/
def hasThree : List Char → Bool
  | [] => false
  | c :: rest => (threeMarks? '\x27' (c :: rest)).isSome || hasThree rest

/-- Whether the text is written between apostrophes. -/
def prefersLiteral (cs : List Char) : Bool :=
  cs.any (fun c => c = '"' || c = '\\') && !cs.any needsEscape && !hasThree cs &&
    cs.getLast? ≠ some '\x27'

/-- A character between quotation marks; with three of them a line feed stands for itself. -/
def escaped (lines : Bool) (c : Char) : List Char :=
  if c = '"' then ['\\', '"']
  else if c = '\\' then ['\\', '\\']
  else if c = '\n' then if lines then [c] else ['\\', 'n']
  else if c = '\t' then ['\\', 't']
  else if c = '\r' then ['\\', 'r']
  else if c = '\x08' then ['\\', 'b']
  else if c = '\x0c' then ['\\', 'f']
  else if isPlain c then [c]
  else
    let digit (n : Nat) : Char :=
      if n < 10 then Char.ofNat ('0'.toNat + n) else Char.ofNat ('A'.toNat + (n - 10))
    ['\\', 'u', '0', '0', digit (c.toNat / 16), digit (c.toNat % 16)]

/-- A text with its quotation. -/
def quote (s : String) : String :=
  let cs := s.toList
  let lines := cs.contains '\n'
  if prefersLiteral cs then
    let mark := if lines || cs.contains '\x27' then "\x27\x27\x27" else "\x27"
    mark ++ (if lines then "\n" else "") ++ s ++ mark
  else
    let mark := if lines then "\"\"\"" else "\""
    mark ++ (if lines then "\n" else "") ++ String.ofList (cs.flatMap (escaped lines)) ++ mark

end Toml

end Taskyard
