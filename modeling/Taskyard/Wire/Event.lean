import Taskyard.Json.Decoder
import Taskyard.Json.Printer
import Taskyard.Json.Reader
import Taskyard.Message
import Taskyard.Text.Utf8

/-!
# Wire — nodes, users, events and messages

The JSON forms of the values that flow through tasks. A record is written as an object with its
fields in a fixed order; empty dictionaries, empty texts and absent values are left out where the
form says so.

Main definitions:

* `Node.toJson`, `Node.ofJson` — nodes; likewise for users, events, outputs and messages.
-/

namespace Taskyard

/-! ## Parts of records -/

namespace Wire

/-- A field that is always written. -/
def member (name : String) (j : Json) : List (String × Json) := [(name, j)]

/-- A field that is left out when the condition fails. -/
def memberWhen (given : Bool) (name : String) (j : Json) : List (String × Json) :=
  if given then [(name, j)] else []

/-- A field that is left out when there is no value. -/
def memberOf {α : Type} (name : String) (f : α → Json) : Option α → List (String × Json)
  | none => []
  | some a => [(name, f a)]

/-- A list of texts. -/
def texts (l : List String) : Json := .array (l.map .string)

/-- A dictionary of texts. -/
def textDict (d : Dict String) : Json := .object (d.entries.map fun e => (e.1, .string e.2))

/-- A dictionary that is left out when it is empty. -/
def dictMember (name : String) (d : Dict String) : List (String × Json) :=
  memberWhen (!d.isEmpty) name (textDict d)

/-- A text that is left out when it is empty. -/
def textMember (name s : String) : List (String × Json) := memberWhen (s != "") name (.string s)

/-- The name of a variant: a text, or an object with that name alone and no content. Content that
was held back while another part of the record was looked for may also be an empty object. -/
def variant (heldBack : Bool) : Decoder String
  | _, .string s => some s
  | _ + 1, .object [(s, .null)] => some s
  | _ + 2, .object [(s, .object [])] => if heldBack then some s else none
  | _, _ => none

end Wire

open Wire Decoder

/-! ## Nodes -/

namespace NodeKind

/-- The name of a kind of node. -/
def wireName : NodeKind → String
  | .unknown => "UNKNOWN"
  | .leaf => "LEAF"
  | .collection => "COLLECTION"

/-- The kind of node with a name. -/
def ofWireName? (s : String) : Option NodeKind :=
  [unknown, leaf, collection].find? fun k => k.wireName == s

/-- The form of a kind of node. -/
def toJson (k : NodeKind) : Json := .string k.wireName

/-- The kind of node of a form. -/
def ofJson (heldBack : Bool) : Decoder NodeKind := (variant heldBack).mapOption ofWireName?

end NodeKind

/-- The form of a node. -/
def Node.toJson (n : Node) : Json := .object <|
  member "uuid" (.string n.uuid) ++ member "path" (.string n.path) ++
  member "type" n.kind.toJson ++ member "size" (.ofInt64 n.size) ++
  member "mtime" (.ofInt64 n.mtime) ++ member "etag" (.string n.etag) ++
  dictMember "meta" n.attributes

/-- The node of a form. -/
def Node.ofJson : Decoder Node := fun depth j => do
  let r ← Record.open? ["uuid", "path", "type", "size", "mtime", "etag", "meta"] depth j
  let uuid ← r.field "uuid" text ""
  let path ← r.required "path" text
  let kind ← r.field "type" (NodeKind.ofJson false) .unknown
  let size ← r.field "size" int64 0
  let mtime ← r.field "mtime" int64 0
  let etag ← r.field "etag" text ""
  let attributes ← r.field "meta" (dict text) Dict.empty
  return { uuid, path, kind, size, mtime, etag, attributes }

/-! ## Users -/

/-- The form of a user. -/
def User.toJson (u : User) : Json := .object <|
  member "uuid" (.string u.uuid) ++ member "login" (.string u.login) ++
  member "group_path" (.string u.groupPath) ++ member "profile" (.string u.profile) ++
  member "roles" (texts u.roles) ++ dictMember "attributes" u.attributes

/-- The user of a form. -/
def User.ofJson : Decoder User := fun depth j => do
  let r ← Record.open? ["uuid", "login", "group_path", "profile", "roles", "attributes"] depth j
  let uuid ← r.field "uuid" text ""
  let login ← r.required "login" text
  let groupPath ← r.field "group_path" text ""
  let profile ← r.field "profile" text ""
  let roles ← r.field "roles" (list text) []
  let attributes ← r.field "attributes" (dict text) Dict.empty
  return { uuid, login, groupPath, profile, roles, attributes }

/-! ## Events -/

/-- The form of a kind of change. -/
def ChangeKind.toJson (k : ChangeKind) : Json := .ofNat k.code

/-- The kind of change of a form. -/
def ChangeKind.ofJson : Decoder ChangeKind := int32.mapOption ofCode?

/-- The form of a change. -/
def NodeChange.toJson (c : NodeChange) : Json := .object <|
  member "type" c.kind.toJson ++ memberOf "source" Node.toJson c.source ++
  memberOf "target" Node.toJson c.target ++ dictMember "metadata" c.metadata

/-- The change of a form. -/
def NodeChange.ofJson : Decoder NodeChange := fun depth j => do
  let r ← Record.open? ["type", "source", "target", "metadata"] depth j
  let kind ← r.required "type" ChangeKind.ofJson
  let source ← r.field "source" (optional Node.ofJson) none
  let target ← r.field "target" (optional Node.ofJson) none
  let metadata ← r.field "metadata" (dict text) Dict.empty
  return { kind, source, target, metadata }

/-- The form of a trigger. -/
def JobTrigger.toJson (t : JobTrigger) : Json := .object <|
  member "job_id" (.string t.jobId) ++ member "run_now" (.bool t.runNow) ++
  memberOf "schedule" Document.json t.schedule

/-- The trigger of a form. -/
def JobTrigger.ofJson : Decoder JobTrigger := fun depth j => do
  let r ← Record.open? ["job_id", "run_now", "schedule"] depth j
  let jobId ← r.required "job_id" text
  let runNow ← r.field "run_now" truth false
  let schedule ← r.field "schedule" (optional document) none
  return { jobId, runNow, schedule }

/-- The form of an event: an object with the name of the kind alone. -/
def Event.toJson : Event → Json
  | .nodeChange c => .object [("node_change", c.toJson)]
  | .timer t => .object [("timer", t.toJson)]

/-- The event of a form. -/
def Event.ofJson : Decoder Event
  | depth + 1, .object [(name, content)] =>
    if name = "node_change" then (NodeChange.ofJson depth content).map .nodeChange
    else if name = "timer" then (JobTrigger.ofJson depth content).map .timer
    else none
  | _, _ => none

/-! ## Messages -/

/-- The form of an output. -/
def Output.toJson (o : Output) : Json := .object <|
  member "success" (.bool o.success) ++ member "ignored" (.bool o.ignored) ++
  textMember "string_body" o.text ++
  memberWhen (!o.jsonBytes.isEmpty) "json_body"
    (.array (o.jsonBytes.map fun b => .ofNat b.toNat)) ++
  textMember "error_string" o.errorText ++ member "time" (.ofInt64 o.time)

/-- The output of a form. -/
def Output.ofJson : Decoder Output := fun depth j => do
  let r ← Record.open?
    ["success", "ignored", "string_body", "json_body", "error_string", "time"] depth j
  let success ← r.required "success" truth
  let ignored ← r.field "ignored" truth false
  let body ← r.field "string_body" Decoder.text ""
  let jsonBytes ← r.field "json_body" (list byte) []
  let errorText ← r.field "error_string" Decoder.text ""
  let time ← r.field "time" int64 0
  return { success, ignored, text := body, jsonBytes, errorText, time }

/-- The bytes of the compact text of a document. -/
def Document.bytes (d : Document) : List UInt8 := Text.bytes d.json.compact

/-- The output with a document. -/
def Output.withDocument (o : Output) (d : Document) : Output := { o with jsonBytes := d.bytes }

/-- The document of an output, if its bytes are one. -/
def Output.document? (o : Output) : Option Document :=
  (Text.decode? o.jsonBytes).bind fun s => (Json.parse? s).bind (Decoder.document Json.maxDepth)

/-- The form of a message. -/
def Message.toJson (m : Message) : Json := .object <|
  memberOf "event" Event.toJson m.event ++
  member "nodes" (.array (m.nodes.map Node.toJson)) ++
  member "users" (.array (m.users.map User.toJson)) ++
  member "output_chain" (.array (m.outputs.map Output.toJson))

/-- The message of a form. -/
def Message.ofJson : Decoder Message := fun depth j => do
  let r ← Record.open? ["event", "nodes", "users", "output_chain"] depth j
  let event ← r.field "event" (optional Event.ofJson) none
  let nodes ← r.field "nodes" (list Node.ofJson) []
  let users ← r.field "users" (list User.ofJson) []
  let outputs ← r.field "output_chain" (list Output.ofJson) []
  return { event, nodes, users, outputs }

end Taskyard
