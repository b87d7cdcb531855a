/-!
# Text — ASCII letters without regard to case

Main definitions:

* `lowerAscii` — the text with its ASCII letters in lower case.
* `equalFoldAscii` — equality up to the case of ASCII letters.
-/

namespace Taskyard.Text

/-- The lower-case letter of an ASCII capital; every other character as it is. -/
def lowerChar (c : Char) : Char :=
  if 'A' ≤ c ∧ c ≤ 'Z' then Char.ofNat (c.toNat + 32) else c

/-- The text with its ASCII letters in lower case. -/
def lowerAscii (s : String) : String := String.ofList (s.toList.map lowerChar)

/-- Whether the texts agree up to the case of ASCII letters. -/
def equalFoldAscii (s t : String) : Bool :=
  s.toList.map lowerChar == t.toList.map lowerChar

end Taskyard.Text
