import Taskyard.Message
import Taskyard.Net.Address
import Taskyard.Query.Clause
import Taskyard.Query.Glob
import Taskyard.Text.Blank
import Taskyard.Text.Letters

/-!
# Query — tests of nodes, users and sources

A test has a number of fields. A field that is not set does not count; all fields that are set have
to hold.

Main definitions:

* `NodeTest`, `UserTest`, `SourceTest` — the tests.
* `NodeTest.accepts`, `UserTest.accepts`, `SourceTest.accepts` — their verdicts.
* `Query.acceptsNode`, `Query.acceptsUser`, `Query.acceptsSource` — the verdicts of queries of
  tests.
-/

namespace Taskyard

/-! ## Nodes -/

/-- A test of a node: a `NodeMatch`. -/
structure NodeTest where
  /-- The path is one of these. -/
  paths : List String := []
  /-- The path starts with one of these. -/
  pathPrefixes : List String := []
  /-- The name matches this pattern. -/
  fileName : String := ""
  /-- The extension is one of these, separated by commas, whatever the case of the letters. -/
  extension : String := ""
  /-- The least size. -/
  minSize : Int64 := 0
  /-- The greatest size. -/
  maxSize : Int64 := 0
  /-- The earliest time of change. -/
  minDate : Int64 := 0
  /-- The latest time of change. -/
  maxDate : Int64 := 0
  /-- The kind. -/
  kind : Option NodeKind := none
  deriving DecidableEq

/-- Whether a value lies between two bounds: `in_range`. A bound of zero is not set. -/
def inRange (value least greatest : Int64) : Bool :=
  (least == 0 || least ≤ value) && (greatest == 0 || value ≤ greatest)

namespace NodeTest

/-- The wanted extensions: the entries between commas, without blanks and leading points, as far as
something is left of them. -/
def wantedExtensions (list : String) : List String :=
  (Text.splitChar ',' list).filterMap fun e =>
    let bare := (Text.trim e).toList.dropWhile (· = '.')
    if bare.isEmpty then none else some (String.ofList bare)

/-- Whether the extension of a node is in a list of extensions. -/
def extensionIn (list : String) (n : Node) : Bool :=
  match n.extension? with
  | none => false
  | some e => (wantedExtensions list).any (Text.equalFoldAscii · e)

/-- Whether the test accepts a node. -/
def accepts (t : NodeTest) (n : Node) : Bool :=
  (t.paths.isEmpty || t.paths.contains n.path)
  && (t.pathPrefixes.isEmpty
    || t.pathPrefixes.any fun p => p.toList.isPrefixOf n.path.toList)
  && (t.fileName == "" || Glob.matches t.fileName n.name)
  && (t.extension == "" || extensionIn t.extension n)
  && (match t.kind with
    | none | some .unknown => true
    | some k => n.kind == k)
  && inRange n.size t.minSize t.maxSize
  && inRange n.mtime t.minDate t.maxDate

/-- The test for a least size. -/
def atLeast (size : Int64) : NodeTest := { minSize := size }

/-- The test for an extension in a list. -/
def ofExtension (list : String) : NodeTest := { extension := list }

/-- The test for a start of the path. -/
def under (start : String) : NodeTest := { pathPrefixes := [start] }

end NodeTest

/-! ## Users -/

/-- A test of a user: a `UserMatch`. -/
structure UserTest where
  /-- The login matches this pattern. -/
  login : String := ""
  /-- The path of the group starts with this. -/
  groupPath : String := ""
  /-- The profile. -/
  profile : String := ""
  /-- The user has one of these roles. -/
  roles : List String := []
  deriving DecidableEq

namespace UserTest

/-- Whether the test accepts a user. -/
def accepts (t : UserTest) (u : User) : Bool :=
  (t.login == "" || Glob.matches t.login u.login)
  && (t.groupPath == "" || t.groupPath.toList.isPrefixOf u.groupPath.toList)
  && (t.profile == "" || u.profile == t.profile)
  && (t.roles.isEmpty || t.roles.any fun r => u.roles.contains r)

/-- The test for a login. -/
def ofLogin (pattern : String) : UserTest := { login := pattern }

end UserTest

/-! ## Sources -/

/-- Where a message comes from, a `SourceContext`: the event that started the task and the newest
output. -/
structure Source where
  /-- The event. -/
  event : Option Event := none
  /-- The newest output. -/
  lastOutput : Option Output := none

/-- The source of a message. -/
def Message.source (m : Message) : Source := ⟨m.event, m.lastOutput⟩

/-- The metadata of the request under a key; nothing is the empty text. -/
def Source.metadata (s : Source) (key : String) : String :=
  (s.event.bind (·.metadata? key)).getD ""

/-- A test of a source: a `SourceMatch`. -/
structure SourceTest where
  /-- The address of the client lies in this block. -/
  ipMask : String := ""
  /-- The program of the client matches this pattern. -/
  userAgent : String := ""
  /-- The workspace. -/
  workspaceId : String := ""
  /-- The login of the user. -/
  userLogin : String := ""
  /-- Whether the newest output is a success. -/
  outputSuccess : Option Bool := none
  /-- The text of the newest output matches this pattern. -/
  outputBody : String := ""
  deriving DecidableEq

namespace SourceTest

/-- Whether the test accepts a source. -/
def accepts (t : SourceTest) (s : Source) : Bool :=
  (t.ipMask == "" || Net.inMask (s.metadata RequestKey.remoteAddress) t.ipMask)
  && (t.userAgent == "" || Glob.matches t.userAgent (s.metadata RequestKey.userAgent))
  && (t.workspaceId == "" || s.metadata RequestKey.workspaceId == t.workspaceId)
  && (t.userLogin == "" || s.metadata RequestKey.userLogin == t.userLogin)
  && (match t.outputSuccess with
    | none => true
    | some wanted => s.lastOutput.map (·.success) == some wanted)
  && (t.outputBody == ""
    || Glob.matches t.outputBody ((s.lastOutput.map (·.text)).getD ""))

end SourceTest

/-! ## Queries of tests -/

/-- Whether a query accepts a node. -/
def Query.acceptsNode (q : Query NodeTest) (n : Node) : Bool := q.holds (·.accepts n)

/-- Whether a query accepts a user. -/
def Query.acceptsUser (q : Query UserTest) (u : User) : Bool := q.holds (·.accepts u)

/-- Whether a query accepts a source. -/
def Query.acceptsSource (q : Query SourceTest) (s : Source) : Bool := q.holds (·.accepts s)

end Taskyard
