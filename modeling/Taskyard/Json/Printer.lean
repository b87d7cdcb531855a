import Taskyard.Json.Value

/-!
# JSON — printing

The text of a value: compact, or indented by two blanks per level. A quotation mark, a backslash and
the control characters are escaped, everything else stands for itself. Numbers that are not finite
have no JSON spelling and are written `null`.

Main definitions:

* `Json.compact` — the text without any blank.
* `Json.pretty` — the indented text.
-/

namespace Taskyard

open Taskyard.Decimal

namespace Json

/-- A hexadecimal digit in lower case. -/
def hexChar (n : Nat) : Char :=
  if n < 10 then Char.ofNat ('0'.toNat + n) else Char.ofNat ('a'.toNat + (n - 10))

/-- A character inside a quoted text. -/
def escapeChar (c : Char) : List Char :=
  if c = '"' then ['\\', '"']
  else if c = '\\' then ['\\', '\\']
  else if c = '\n' then ['\\', 'n']
  else if c = '\r' then ['\\', 'r']
  else if c = '\t' then ['\\', 't']
  else if c = '\x08' then ['\\', 'b']
  else if c = '\x0c' then ['\\', 'f']
  else if c.toNat < 0x20 then
    ['\\', 'u', '0', '0', hexChar (c.toNat / 16), hexChar (c.toNat % 16)]
  else [c]

/-- The characters of a text with the escapes. -/
def escape : List Char → List Char
  | [] => []
  | c :: rest => escapeChar c ++ escape rest

/-- A text between quotation marks. -/
def quote (s : String) : List Char := '"' :: (escape s.toList ++ ['"'])

end Json

/-- The text of a number. -/
def Number.text : Number → List Char
  | .natural n => digitChars n.toNat
  | .negSucc n => '-' :: digitChars (n.toNat + 1)
  | .double x => if x.isFinite then x.text .double else "null".toList
  | .single x => if x.isFinite then x.text .single else "null".toList

namespace Json

/-! ## Compact text -/

mutual

/-- The compact text of a value. -/
def compactChars : Json → List Char
  | .null | .unreadable => "null".toList
  | .bool b => if b then "true".toList else "false".toList
  | .number n => n.text
  | .string s => quote s
  | .array items => '[' :: (compactItems items ++ [']'])
  | .object members => '\x7b' :: (compactMembers members ++ ['\x7d'])

/-- The compact texts of the items of a list with commas between them. -/
def compactItems : List Json → List Char
  | [] => []
  | [j] => compactChars j
  | j :: rest => compactChars j ++ ',' :: compactItems rest

/-- The compact texts of the members of an object with commas between them. -/
def compactMembers : List (String × Json) → List Char
  | [] => []
  | [(k, j)] => quote k ++ ':' :: compactChars j
  | (k, j) :: rest => quote k ++ ':' :: (compactChars j ++ ',' :: compactMembers rest)

end

/-- The compact text of a value. -/
def compact (j : Json) : String := String.ofList j.compactChars

/-! ## Indented text -/

/-- A line break and the indentation of a level. -/
def newline (level : Nat) : List Char := '\n' :: List.replicate (2 * level) ' '

mutual

/-- The indented text of a value that stands at a level. Empty lists and objects stay on one
line. -/
def prettyChars (level : Nat) : Json → List Char
  | .array [] => ['[', ']']
  | .array (j :: rest) => '[' :: (prettyItems level (j :: rest) ++ newline level ++ [']'])
  | .object [] => ['\x7b', '\x7d']
  | .object (m :: rest) =>
    '\x7b' :: (prettyMembers level (m :: rest) ++ newline level ++ ['\x7d'])
  | j => compactChars j

/-- The items of a list, each on its own line. -/
def prettyItems (level : Nat) : List Json → List Char
  | [] => []
  | [j] => newline (level + 1) ++ prettyChars (level + 1) j
  | j :: rest => newline (level + 1) ++ prettyChars (level + 1) j ++ ',' :: prettyItems level rest

/-- The members of an object, each on its own line. -/
def prettyMembers (level : Nat) : List (String × Json) → List Char
  | [] => []
  | [(k, j)] => newline (level + 1) ++ quote k ++ ':' :: ' ' :: prettyChars (level + 1) j
  | (k, j) :: rest =>
    newline (level + 1) ++ quote k ++ ':' :: ' ' :: (prettyChars (level + 1) j ++
      ',' :: prettyMembers level rest)

end

/-- The indented text of a value. -/
def pretty (j : Json) : String := String.ofList (j.prettyChars 0)

end Json

end Taskyard
