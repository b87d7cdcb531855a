import Taskyard.Toml.Quoting
import Taskyard.Toml.Scalar

/-!
# TOML — values and tables

A value is a text, a number, a moment, a truth value, a list or a table in braces. Lists may run
over several lines and hold comments; tables in braces may not. A key is a row of names with points
between them, and names the place of its value in tables inside one another.

Main definitions:

* `Toml.readKey` — a key and what follows it.
* `Toml.Item`, `Toml.Item.value` — what a name of a table stands for while the table is read, and
  the value of that.
* `Toml.define` — a table with the value of one more key.
* `Toml.readValue` — a value and what follows it.
-/

namespace Taskyard

namespace Toml

/-! ## Blanks and comments -/

/-- What follows the blanks of a line. -/
def skipGaps (cs : List Char) : List Char := cs.dropWhile isGap

/-- What follows a comment, if one starts here: everything up to the end of the line. -/
def skipComment : List Char → List Char
  | '#' :: rest => rest.dropWhile isPlain
  | cs => cs

/-- What follows blanks, line breaks and whole comments. The number bounds them. -/
def skipLines : Nat → List Char → List Char
  | 0, cs => cs
  | n + 1, cs =>
    match lineBreak? (skipComment (skipGaps cs)) with
    | some rest => skipLines n rest
    | none => skipGaps cs

/-- What follows blanks, line breaks and whole comments. -/
def skipAll (cs : List Char) : List Char := skipLines (cs.length + 1) cs

/-! ## Keys -/

/-- Whether the character may stand in a name that is not quoted. -/
def isBare (c : Char) : Bool := c.isAlphanum || c = '_' || c = '-'

/-- A name, and what follows it. -/
def readName (cs : List Char) : Option (String × List Char) :=
  match readQuotedKey cs with
  | some r => some r
  | none =>
    let name := cs.takeWhile isBare
    if name.isEmpty then none else some (String.ofList name, cs.dropWhile isBare)

/-- Names with points between them and blanks around them, and what follows. The number bounds the
names. -/
def readNames : Nat → List Char → Option (List String × List Char)
  | 0, _ => none
  | n + 1, cs => do
    let (name, rest) ← readName (skipGaps cs)
    match skipGaps rest with
    | '.' :: more => (readNames n more).map fun (names, after) => (name :: names, after)
    | after => return ([name], after)

/-- The bound of names in a key, and of values inside one another. -/
def nesting : Nat := 79

/-- A key, and what follows it. -/
def readKey (cs : List Char) : Option (List String × List Char) := readNames nesting cs

/-! ## Tables while they are read -/

/-- Where a table was first named. -/
inductive Origin where
  /-- In a heading of its own. -/
  | heading
  /-- On the way of another heading. -/
  | path
  /-- On the way of a key. -/
  | key
  deriving DecidableEq

/-- What a name of a table stands for while the table is read. -/
inductive Item where
  /-- A value, to which nothing can be added. -/
  | closed (j : Json)
  /-- A table. -/
  | table (origin : Origin) (members : List (String × Item))
  /-- Tables of the same heading, the last of which is open; the others are known by their
  values. -/
  | tables (done : List Json) (last : List (String × Item))

mutual

/-- The value of an item. -/
def Item.value : Item → Json
  | .closed j => j
  | .table _ members => .object (valuesOf members)
  | .tables done last => .array (done ++ [.object (valuesOf last)])

/-- The values of the members of a table. -/
def valuesOf : List (String × Item) → List (String × Json)
  | [] => []
  | (k, i) :: rest => (k, i.value) :: valuesOf rest

end

/-- The members of a table with another item for a name that is there. -/
def replaceMember (k : String) (i : Item) (members : List (String × Item)) : List (String × Item) :=
  members.map fun m => if m.1 = k then (k, i) else m

/-- The members of a table with the value of one more key. A key may go on in tables of keys and, on
its way, of paths, but not add to a table that has a heading of its own. -/
def define (j : Json) : List String → List (String × Item) → Option (List (String × Item))
  | [], _ => none
  | [k], members =>
    match members.lookup k with
    | none => some (members ++ [(k, .closed j)])
    | some _ => none
  | k :: next, members =>
    let atEnd := next.length = 1
    match members.lookup k with
    | none => (define j next []).map fun t => members ++ [(k, .table .key t)]
    | some (.table origin t) =>
      if origin = .heading ∨ atEnd ∧ origin ≠ .key then none
      else (define j next t).map fun t => replaceMember k (.table origin t) members
    | some (.tables done last) =>
      if atEnd then none
      else (define j next last).map fun t => replaceMember k (.tables done t) members
    | some (.closed _) => none

/-! ## Values -/

/-- What follows a given word. -/
def expectWord : List Char → List Char → Option (List Char)
  | [], cs => some cs
  | w :: ws, c :: cs => if w = c then expectWord ws cs else none
  | _ :: _, [] => none

/-- A value that holds no others, and what follows it. -/
def readScalar (cs : List Char) : Option (Json × List Char) :=
  match cs with
  | [] => none
  | c :: rest =>
    if c = '"' ∨ c = '\x27' then (readQuoted cs).map fun (s, after) => (.string s, after)
    else if c = 't' then (expectWord "rue".toList rest).map fun after => (.bool true, after)
    else if c = 'f' then (expectWord "alse".toList rest).map fun after => (.bool false, after)
    else
      match readMoment cs with
      | some (m, after) => some (m.value, after)
      | none => readNumber cs

mutual

/-- A value, and what follows it. The first number bounds the nesting and the lengths together, the
second the nesting alone. -/
def readValue : Nat → Nat → List Char → Option (Json × List Char)
  | 0, _, _ => none
  | n + 1, depth, cs =>
    match cs, depth with
    | '[' :: rest, depth + 1 =>
      (readItems n depth rest).map fun (items, after) => (.array items, after)
    | '\x7b' :: rest, depth + 1 =>
      match skipGaps rest with
      | '\x7d' :: after => some (.object [], after)
      | rest =>
        (readPairs n depth rest []).map fun (members, after) => (.object (valuesOf members), after)
    | '[' :: _, 0 => none
    | '\x7b' :: _, 0 => none
    | _, _ => readScalar cs

/-- The items of a list up to the closing bracket, and what follows it. -/
def readItems : Nat → Nat → List Char → Option (List Json × List Char)
  | 0, _, _ => none
  | n + 1, depth, cs =>
    match skipAll cs with
    | ']' :: after => some ([], after)
    | rest => do
      let (j, rest) ← readValue n depth rest
      match skipAll rest with
      | ',' :: more => (readItems n depth more).map fun (js, after) => (j :: js, after)
      | ']' :: after => return ([j], after)
      | _ => none

/-- The members of a table in braces after those that were read, up to the closing brace, and what
follows it. -/
def readPairs : Nat → Nat → List Char → List (String × Item) →
    Option (List (String × Item) × List Char)
  | 0, _, _, _ => none
  | n + 1, depth, cs, members => do
    let (key, rest) ← readKey cs
    let rest ← expect '=' rest
    let (j, rest) ← readValue n depth (skipGaps rest)
    let members ← define j key members
    match skipGaps rest with
    | ',' :: more => readPairs n depth more members
    | '\x7d' :: after => return (members, after)
    | _ => none

end

end Toml

end Taskyard
