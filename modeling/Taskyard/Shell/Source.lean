import Taskyard.Text.Utf8

/-!
# Shell — what commands read and write

Bytes come from a source, which may have no end: the device of zeros, or a command that repeats
itself. Of such a source only a command that reads a given amount makes something finite.

Main definitions:

* `Source` — what a command reads.
* `Result` — what a command does.
* `lines` — the lines of bytes.
-/

namespace Taskyard.Shell

/-- What a command reads. -/
inductive Source where
  /-- Bytes with an end. -/
  | bytes (data : List UInt8)
  /-- The same bytes over and over. -/
  | endless (unit : List UInt8)

/-- What a command does: its status and what it writes to its two outputs. -/
structure Result where
  /-- The status; zero tells of success. -/
  status : Nat := 0
  /-- What it writes. -/
  output : Source := .bytes []
  /-- What it writes about what goes wrong. -/
  errors : List UInt8 := []

/-- The first bytes of a unit that is repeated. -/
def cycle (unit : List UInt8) : Nat → List UInt8 → List UInt8
  | 0, _ => []
  | n + 1, b :: rest => b :: cycle unit n rest
  | n + 1, [] =>
    match unit with
    | [] => []
    | b :: rest => b :: cycle unit n rest

/-- At most so many bytes of a source. -/
def Source.take (n : Nat) : Source → List UInt8
  | .bytes data => data.take n
  | .endless unit => cycle unit n unit

/-- The number of bytes of an endless source that are looked at by a command that cannot end. -/
def glimpse : Nat := 65536

/-- The bytes of a source, or its beginning if it has no end. -/
def Source.data : Source → List UInt8
  | .bytes data => data
  | .endless unit => cycle unit glimpse unit

/-- The bytes of a text. -/
def say (s : String) : List UInt8 := Text.bytes s

/-- The result of a command that writes a text. -/
def Result.saying (s : String) : Result := { output := .bytes (say s) }

/-- The result of a command that fails with a message. -/
def Result.failing (status : Nat) (message : String) : Result :=
  { status, errors := say (message ++ "\n") }

/-- The byte that ends a line. -/
def lineFeed : UInt8 := 10

/-- The lines of bytes; each but perhaps the last keeps its end. -/
def lines : List UInt8 → List (List UInt8)
  | [] => []
  | b :: rest =>
    if b = lineFeed then [b] :: lines rest
    else match lines rest with
      | [] => [[b]]
      | l :: ls => (b :: l) :: ls

/-- A line without its end. -/
def chomp (line : List UInt8) : List UInt8 := line.filter (· ≠ lineFeed)

/-- A number of bytes of a list from its end. -/
def lastOf {α : Type} (n : Nat) (l : List α) : List α := l.drop (l.length - n)

end Taskyard.Shell
