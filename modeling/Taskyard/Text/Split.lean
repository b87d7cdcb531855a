/-!
# Text — splitting at a separator

Main definitions:

* `splitAt` — the pieces between the occurrences of a separator; there is always at least one.
* `splitOnce` — the parts before and after the first occurrence.
* `splitChar` — the same for texts.
* `replaceAll` — every occurrence of a text, from left to right, replaced by another.
-/

namespace Taskyard.Text

/-- The pieces between the occurrences of `sep`. -/
def pieces (sep : Char) : List Char → List (List Char)
  | [] => [[]]
  | c :: rest =>
    if c = sep then [] :: pieces sep rest
    else match pieces sep rest with
      | [] => [[c]]
      | p :: ps => (c :: p) :: ps

/-- The pieces of a text between the occurrences of `sep`. -/
def splitChar (sep : Char) (s : String) : List String :=
  (pieces sep s.toList).map String.ofList

/-- The characters before and after the first occurrence of `sep`, if there is one. -/
def breakOnce (sep : Char) : List Char → Option (List Char × List Char)
  | [] => none
  | c :: rest =>
    if c = sep then some ([], rest)
    else (breakOnce sep rest).map fun (before, after) => (c :: before, after)

/-- The text before and after the first occurrence of `sep`, if there is one. -/
def splitOnce (sep : Char) (s : String) : Option (String × String) :=
  (breakOnce sep s.toList).map fun (a, b) => (String.ofList a, String.ofList b)

/-- `cs` without the leading `lead`, if it starts with it. -/
def stripLeading : List Char → List Char → Option (List Char)
  | [], cs => some cs
  | _ :: _, [] => none
  | l :: ls, c :: cs => if l = c then stripLeading ls cs else none

/-- Every occurrence of `old`, found from left to right without overlap, replaced by `new`. The
number bounds the characters still to be looked at. -/
def replaceWithin (old new : List Char) : Nat → List Char → List Char
  | 0, cs => cs
  | _ + 1, [] => []
  | n + 1, c :: cs =>
    match stripLeading old (c :: cs) with
    | some rest => new ++ replaceWithin old new n rest
    | none => c :: replaceWithin old new n cs

/-- Every occurrence of the non-empty text `old` replaced by `new`. -/
def replaceAll (s old new : String) : String :=
  String.ofList (replaceWithin old.toList new.toList s.toList.length s.toList)

/-- The texts of a list with `sep` between neighbours. -/
def joinWith (sep : String) : List String → String
  | [] => ""
  | [s] => s
  | s :: rest => s ++ sep ++ joinWith sep rest

end Taskyard.Text
