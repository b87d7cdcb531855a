import Taskyard.Toml.Value

/-!
# TOML — documents

A document is read line by line: keys with their values, and headings that say to which table the
keys after them belong. A heading in single brackets opens a table that must not have been opened
before; one in double brackets opens the next table of a list.

Main definitions:

* `Toml.place` — a table with the keys of a heading in their place.
* `Toml.parse?` — the value of a document.
-/

namespace Taskyard

namespace Toml

/-- The members of a table. -/
abbrev Members := List (String × Item)

/-- A key with its value. -/
structure Pair where
  /-- The names of the key. -/
  key : List String
  /-- The value. -/
  value : Json

/-- A heading with the keys after it. -/
structure Section where
  /-- The names of the heading; none for the beginning of the document. -/
  path : List String := []
  /-- Whether the heading opens the next table of a list. -/
  next : Bool := false
  /-- The keys, in order. -/
  pairs : List Pair := []

/-! ## Lines -/

/-- What follows the end of a line, blanks and a comment before it included. The end of the document
ends a line as well. -/
def endLine (cs : List Char) : Option (List Char) :=
  match skipComment (skipGaps cs) with
  | [] => some []
  | rest => lineBreak? rest

/-- A key with its value on a line of its own, and what follows the line. -/
def readPair (cs : List Char) : Option (Pair × List Char) := do
  let (key, rest) ← readKey cs
  let rest ← expect '=' rest
  let (value, rest) ← readValue (2 * rest.length + 2) nesting (skipGaps rest)
  let rest ← endLine rest
  return (⟨key, value⟩, rest)

/-- A heading on a line of its own after its first bracket, and what follows the line. -/
def readHeading (cs : List Char) : Option (Section × List Char) := do
  let (next, rest) := match cs with
    | '[' :: rest => (true, rest)
    | rest => (false, rest)
  let (path, rest) ← readKey rest
  let rest ← expect ']' rest
  let rest ← if next then expect ']' rest else some rest
  let rest ← endLine rest
  return (⟨path, next, []⟩, rest)

/-- The sections of a document from its end backwards, after the one that is being read. The number
bounds the lines. -/
def readSections : Nat → Section → List Section → List Char → Option (List Section)
  | 0, _, _, _ => none
  | n + 1, current, done, cs =>
    match skipGaps cs with
    | [] => some (current :: done)
    | c :: rest =>
      if c = '[' then do
        let (s, rest) ← readHeading rest
        readSections n s (current :: done) rest
      else if c = '#' ∨ c = '\n' ∨ c = '\r' then do
        let rest ← endLine (c :: rest)
        readSections n current done rest
      else do
        let (p, rest) ← readPair (c :: rest)
        readSections n { current with pairs := current.pairs ++ [p] } done rest

/-! ## Tables -/

/-- The members of a table with those of a section in their place. `fill` adds the keys of the
section to what its table holds already. -/
def place (next : Bool) (fill : Members → Option Members) : List String → Members → Option Members
  | [], _ => none
  | [k], members =>
    match members.lookup k, next with
    | none, false => (fill []).map fun t => members ++ [(k, .table .heading t)]
    | some (.table .path t), false =>
      (fill t).map fun t => members.filter (·.1 ≠ k) ++ [(k, .table .heading t)]
    | none, true => (fill []).map fun t => members ++ [(k, .tables [] t)]
    | some (.tables done last), true =>
      (fill []).map fun t =>
        replaceMember k (.tables (done ++ [.object (valuesOf last)]) t) members
    | _, _ => none
  | k :: path, members =>
    match members.lookup k with
    | none => (place next fill path []).map fun t => members ++ [(k, .table .path t)]
    | some (.table origin t) =>
      (place next fill path t).map fun t => replaceMember k (.table origin t) members
    | some (.tables done last) =>
      (place next fill path last).map fun t => replaceMember k (.tables done t) members
    | some (.closed _) => none

/-- The members of a table with those of pairs. -/
def defineAll (pairs : List Pair) (members : Members) : Option Members :=
  pairs.foldlM (fun ms p => define p.value p.key ms) members

/-- The members of the document with those of a section. -/
def addSection (members : Members) (s : Section) : Option Members :=
  if s.path.isEmpty then defineAll s.pairs members
  else place s.next (defineAll s.pairs) s.path members

/-- The value of a list of characters that holds a document. -/
def parseChars? (cs : List Char) : Option Json := do
  let sections ← readSections (cs.length + 1) {} [] cs
  let members ← sections.reverse.foldlM addSection []
  return .object (valuesOf members)

/-- The value of a document. A byte order mark before it is skipped. -/
def parse? (s : String) : Option Json :=
  match s.toList with
  | c :: rest => if c.toNat = 0xfeff then parseChars? rest else parseChars? (c :: rest)
  | [] => parseChars? []

end Toml

end Taskyard
