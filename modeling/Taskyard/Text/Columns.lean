/-!
# Text — columns

Fields of a fixed least width, counted in characters. A longer text is not cut.

Main definitions:

* `padRight` — the text at the left of its column.
* `padLeft` — the text at the right of its column.
-/

namespace Taskyard.Text

/-- The text followed by blanks up to `columns` characters. -/
def padRight (columns : Nat) (s : String) : String :=
  s ++ String.ofList (List.replicate (columns - s.length) ' ')

/-- The text preceded by blanks up to `columns` characters. -/
def padLeft (columns : Nat) (s : String) : String :=
  String.ofList (List.replicate (columns - s.length) ' ') ++ s

end Taskyard.Text
