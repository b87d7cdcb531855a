/-!
# Text — UTF-8

Cutting a text to a number of bytes without splitting a character, and reading bytes as text with a
replacement character for what is not UTF-8.

Main definitions:

* `boundaryFrom` — the last place at or before a byte where a text can be cut.
* `truncate` — a text cut to at most so many bytes, marked when something was cut off.
* `decodeLossy` — bytes read as text, each maximal ill-formed part replaced by U+FFFD.
* `decode?` — well-formed bytes read as text.
-/

namespace Taskyard.Text

/-- The last place at or before the byte `i` where a text can be cut, searched backwards byte by
byte. Going back from the start of the text would be an error. -/
def boundaryFrom (s : String) (i : Nat) : Except String Nat :=
  if String.Pos.Raw.isValid s ⟨i⟩ then .ok i
  else match i with
    | 0 => .error "attempt to subtract with overflow"
    | i + 1 => boundaryFrom s i

/-- The leading part of a text up to the byte `i`. Cutting a character in two is an error. -/
def leadingBytes (s : String) (i : Nat) : Except String String :=
  if h : String.Pos.Raw.IsValid s ⟨i⟩ then .ok (s.sliceTo ⟨⟨i⟩, h⟩).copy
  else .error "assertion failed: self.is_char_boundary(new_len)"

/-- What follows a text that was cut. -/
def cutMark : String := "...[truncated]"

/-- The text if it has at most `limit` bytes, and otherwise the part of it up to the last place at
or before `limit` where it can be cut, followed by a mark. -/
def truncate (limit : Nat) (s : String) : Except String String :=
  if s.utf8ByteSize ≤ limit then .ok s
  else do
    let i ← boundaryFrom s limit
    let start ← leadingBytes s i
    return start ++ cutMark

/-- The bytes of a text. -/
def bytes (s : String) : List UInt8 := s.toUTF8.toList

/-- The number of bytes that follow the first byte of a character, with the range that the second
byte has to lie in. -/
def tailOf (b : UInt8) : Option (Nat × UInt8 × UInt8) :=
  if b < 0x80 then some (0, 0, 0)
  else if b < 0xc2 then none
  else if b < 0xe0 then some (1, 0x80, 0xbf)
  else if b = 0xe0 then some (2, 0xa0, 0xbf)
  else if b = 0xed then some (2, 0x80, 0x9f)
  else if b < 0xf0 then some (2, 0x80, 0xbf)
  else if b = 0xf0 then some (3, 0x90, 0xbf)
  else if b < 0xf4 then some (3, 0x80, 0xbf)
  else if b = 0xf4 then some (3, 0x80, 0x8f)
  else none

/-- Reading of the continuation bytes of one character: the value so far, and what was left when the
run of admissible bytes ended before the character was complete. -/
def continueChar : Nat → UInt8 → UInt8 → Nat → List UInt8 → Except (List UInt8) (Nat × List UInt8)
  | 0, _, _, value, rest => .ok (value, rest)
  | _ + 1, _, _, _, [] => .error []
  | n + 1, lo, hi, value, b :: rest =>
    if lo ≤ b ∧ b ≤ hi then
      continueChar n 0x80 0xbf (value * 64 + (b.toNat - 0x80)) rest
    else .error (b :: rest)

/-- The payload bits of a first byte that is followed by so many bytes. -/
def leadBits (b : UInt8) : Nat → Nat
  | 0 => b.toNat
  | 1 => b.toNat - 0xc0
  | 2 => b.toNat - 0xe0
  | _ => b.toNat - 0xf0

/-- The first character of a non-empty list of bytes, or `none` for an ill-formed part, together
with the bytes after it. -/
def takeChar (b : UInt8) (rest : List UInt8) : Option Char × List UInt8 :=
  match tailOf b with
  | none => (none, rest)
  | some (n, lo, hi) =>
    match continueChar n lo hi (leadBits b n) rest with
    | .ok (value, after) => (some (Char.ofNat value), after)
    | .error after => (none, after)

/-- The characters of a list of bytes, `none` standing for an ill-formed part. The number bounds the
bytes. -/
def scanChars : Nat → List UInt8 → List (Option Char)
  | 0, _ => []
  | _ + 1, [] => []
  | n + 1, b :: rest =>
    let (c, after) := takeChar b rest
    c :: scanChars n after

/-- The bytes as text, each ill-formed part replaced by U+FFFD. -/
def decodeLossy (bs : List UInt8) : String :=
  String.ofList ((scanChars bs.length bs).map (·.getD '\uFFFD'))

/-- The bytes as text, if they are well formed. -/
def decode? (bs : List UInt8) : Option String :=
  ((scanChars bs.length bs).mapM id).map String.ofList

end Taskyard.Text
