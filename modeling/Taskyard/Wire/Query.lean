import Taskyard.Job.Action
import Taskyard.Wire.Event

/-!
# Wire — queries and selectors

The JSON forms of tests, queries and selectors. A clause is one object that holds, besides the flag
for its negation, either a test or a group. Since the kind of a clause is known only when one of the
two names is met, everything in the object but the flag is held back first; it has to be readable
and must not nest too deep even where it is not used in the end.

Main definitions:

* `NodeTest.toJson`, `NodeTest.ofJson` — tests of nodes; likewise for users and sources.
* `Query.toJson`, `Query.ofJson` — queries over any kind of test.
* `Selector.toJson`, `Selector.ofJson` — selectors.
-/

namespace Taskyard

open Wire Decoder

/-! ## Tests -/

/-- The form of a test of nodes. -/
def NodeTest.toJson (t : NodeTest) : Json := .object <|
  memberWhen (!t.paths.isEmpty) "paths" (texts t.paths) ++
  memberWhen (!t.pathPrefixes.isEmpty) "path_prefix" (texts t.pathPrefixes) ++
  textMember "file_name" t.fileName ++ textMember "extension" t.extension ++
  member "min_size" (.ofInt64 t.minSize) ++ member "max_size" (.ofInt64 t.maxSize) ++
  member "min_date" (.ofInt64 t.minDate) ++ member "max_date" (.ofInt64 t.maxDate) ++
  memberOf "node_type" NodeKind.toJson t.kind

/-- The test of nodes of a form that was held back. -/
def NodeTest.ofJson : Decoder NodeTest := fun depth j => do
  let r ← Record.open? ["paths", "path_prefix", "file_name", "extension", "min_size", "max_size",
    "min_date", "max_date", "node_type"] depth j
  let paths ← r.field "paths" (list text) []
  let pathPrefixes ← r.field "path_prefix" (list text) []
  let fileName ← r.field "file_name" text ""
  let extension ← r.field "extension" text ""
  let minSize ← r.field "min_size" int64 0
  let maxSize ← r.field "max_size" int64 0
  let minDate ← r.field "min_date" int64 0
  let maxDate ← r.field "max_date" int64 0
  let kind ← r.field "node_type" (optional (NodeKind.ofJson true)) none
  return { paths, pathPrefixes, fileName, extension, minSize, maxSize, minDate, maxDate, kind }

/-- The form of a test of users. -/
def UserTest.toJson (t : UserTest) : Json := .object <|
  textMember "login" t.login ++ textMember "group_path" t.groupPath ++
  textMember "profile" t.profile ++ memberWhen (!t.roles.isEmpty) "roles" (texts t.roles)

/-- The test of users of a form. -/
def UserTest.ofJson : Decoder UserTest := fun depth j => do
  let r ← Record.open? ["login", "group_path", "profile", "roles"] depth j
  let login ← r.field "login" text ""
  let groupPath ← r.field "group_path" text ""
  let profile ← r.field "profile" text ""
  let roles ← r.field "roles" (list text) []
  return { login, groupPath, profile, roles }

/-- The form of a test of sources. -/
def SourceTest.toJson (t : SourceTest) : Json := .object <|
  textMember "ip_mask" t.ipMask ++ textMember "user_agent" t.userAgent ++
  textMember "workspace_id" t.workspaceId ++ textMember "user_login" t.userLogin ++
  memberOf "output_success" Json.bool t.outputSuccess ++ textMember "output_body" t.outputBody

/-- The test of sources of a form. -/
def SourceTest.ofJson : Decoder SourceTest := fun depth j => do
  let r ← Record.open? ["ip_mask", "user_agent", "workspace_id", "user_login", "output_success",
    "output_body"] depth j
  let ipMask ← r.field "ip_mask" text ""
  let userAgent ← r.field "user_agent" text ""
  let workspaceId ← r.field "workspace_id" text ""
  let userLogin ← r.field "user_login" text ""
  let outputSuccess ← r.field "output_success" (optional truth) none
  let outputBody ← r.field "output_body" text ""
  return { ipMask, userAgent, workspaceId, userLogin, outputSuccess, outputBody }

/-! ## Queries -/

/-- The name of a reduction. -/
def Operation.wireName : Operation → String
  | .any => "OR"
  | .all => "AND"

/-- The reduction with a name. -/
def Operation.ofWireName? (s : String) : Option Operation :=
  [any, all].find? fun o => o.wireName == s

/-- The reduction of a form. -/
def Operation.ofJson (heldBack : Bool) : Decoder Operation :=
  (variant heldBack).mapOption ofWireName?

namespace Clause

variable {α : Type}

mutual

/-- The form of a clause, given that of tests. -/
def toJson (f : α → Json) : Clause α → Json
  | test negated p => .object [("not", .bool negated), ("match", f p)]
  | group negated op clauses => .object [("not", .bool negated), ("group", .object
      [("sub_queries", .array (allToJson f clauses)), ("operation", .string op.wireName)])]

/-- The forms of a list of clauses. -/
def allToJson (f : α → Json) : List (Clause α) → List Json
  | [] => []
  | c :: rest => toJson f c :: allToJson f rest

end

/-- The flag of a clause and the members that were held back. Of these there have to be no two
flags, and each has to be readable within the remaining depth. -/
def split? (depth : Nat) (members : List (String × Json)) :
    Option (Bool × List (String × Json)) :=
  let heldBack := members.filter fun m => m.1 ≠ "not"
  let negated : Option Bool := match members.filter fun m => m.1 = "not" with
    | [] => some false
    | [(_, .bool b)] => some b
    | _ => none
  if heldBack.all fun m => m.2.fits depth then negated.map (·, heldBack) else none

/-- The query of a form, given the decoder of its clauses and whether it was held back. -/
def queryOfJson (clause : Decoder (Clause α)) (heldBack : Bool) : Decoder (Query α) :=
  fun depth j => do
    let r ← Record.open? ["sub_queries", "operation"] depth j
    let clauses ← r.field "sub_queries" (list clause) []
    let operation ← r.field "operation" (Operation.ofJson heldBack) .any
    return { clauses, operation }

/-- The clause of a form, with groups of so many levels. The first of the members `match` and
`group` tells its kind. -/
def ofJsonWithin (d : Decoder α) : Nat → Decoder (Clause α)
  | levels + 1 => fun
    | depth + 1, .object members => do
      let (negated, heldBack) ← split? depth members
      match heldBack.find? fun m => m.1 = "match" ∨ m.1 = "group" with
      | none => none
      | some (name, content) =>
        if name = "match" then (d depth content).map (test negated)
        else
          (queryOfJson (ofJsonWithin d levels) true depth content).map fun q =>
            group negated q.operation q.clauses
    | _, _ => none
  | 0 => fun _ _ => none

end Clause

/-- The form of a query, given that of tests. -/
def Query.toJson {α : Type} (f : α → Json) (q : Query α) : Json := .object
  [("sub_queries", .array (Clause.allToJson f q.clauses)),
    ("operation", .string q.operation.wireName)]

/-- The query of a form, given the decoder of tests. Groups stand at a lower depth, so there are no
more levels of them than the depth allows. -/
def Query.ofJson {α : Type} (d : Decoder α) : Decoder (Query α) := fun depth j =>
  Clause.queryOfJson (Clause.ofJsonWithin d depth) false depth j

/-! ## Selectors and filters -/

namespace Selector

variable {α : Type}

/-- The form of a selector, given the name of its literals and the form of tests. -/
def toJson (literals : String) (f : α → Json) (s : Selector α) : Json := .object <|
  member "all" (.bool s.all) ++
  memberWhen (!s.literals.isEmpty) literals (texts s.literals) ++
  member "query" (s.query.toJson f) ++ member "multiple_selection" (.bool s.collect)

/-- The selector of a form, given the label of its literals and the decoder of tests. -/
def ofJson (literals : Label) (d : Decoder α) : Decoder (Selector α) := fun depth j => do
  let r ← Record.open? ["all", literals, "query", "multiple_selection"] depth j
  let all ← r.field "all" truth false
  let names ← r.field literals.name (list text) []
  let query ← r.field "query" (Query.ofJson d) {}
  let collect ← r.field "multiple_selection" truth false
  return { all, literals := names, query, collect }

end Selector

/-- The form of a selector of nodes. -/
def nodesSelectorToJson (s : Selector NodeTest) : Json := s.toJson "paths" NodeTest.toJson

/-- The selector of nodes of a form. -/
def nodesSelectorOfJson : Decoder (Selector NodeTest) :=
  Selector.ofJson ⟨"paths", ["pathes"]⟩ NodeTest.ofJson

/-- The form of a selector of users. -/
def usersSelectorToJson (s : Selector UserTest) : Json := s.toJson "users" UserTest.toJson

/-- The selector of users of a form. -/
def usersSelectorOfJson : Decoder (Selector UserTest) := Selector.ofJson "users" UserTest.ofJson

/-- The form of a filter: a record with the query as its only field. -/
def filterToJson {α : Type} (f : α → Json) (q : Query α) : Json := .object [("query", q.toJson f)]

/-- The filter of a form. -/
def filterOfJson {α : Type} (d : Decoder α) : Decoder (Query α) := fun depth j => do
  let r ← Record.open? ["query"] depth j
  r.field "query" (Query.ofJson d) {}

end Taskyard
