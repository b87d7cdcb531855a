import Taskyard.Json.Value
import Taskyard.Text.Numeral
import Taskyard.Tree.Node

/-!
# Events

What starts a task: a change of a node, or a timer.

Main definitions:

* `ChangeKind`, `NodeChange` — changes of nodes, with the metadata of the request that made them.
* `JobTrigger` — a timer that names a job.
* `Event` — either of the two.
-/

namespace Taskyard

/-- The kind of a change: a `NodeChangeType`. -/
inductive ChangeKind where
  /-- The node came into being. -/
  | create
  /-- The node was read. -/
  | read
  /-- The node moved. -/
  | updatePath
  /-- The content of the node changed. -/
  | updateContent
  /-- The attributes of the node changed. -/
  | updateMeta
  /-- The node was removed. -/
  | delete
  deriving DecidableEq, Repr

namespace ChangeKind

/-- The number of a kind of change. -/
def code : ChangeKind → Nat
  | .create => 0
  | .read => 1
  | .updatePath => 2
  | .updateContent => 3
  | .updateMeta => 4
  | .delete => 5

/-- The kind of change with a number. -/
def ofCode? : Int → Option ChangeKind
  | 0 => some .create
  | 1 => some .read
  | 2 => some .updatePath
  | 3 => some .updateContent
  | 4 => some .updateMeta
  | 5 => some .delete
  | _ => none

/-- What is said of a number that no kind of change has. -/
def unknownCode (n : Int) : String := "unknown node change type " ++ Text.integer n

/-- The name under which jobs subscribe to the kind of change. -/
def eventName (k : ChangeKind) : String := "NODE_CHANGE:" ++ Text.numeral k.code

/-- Reading a number gives back the kind that has it. -/
theorem ofCode?_code (k : ChangeKind) : ofCode? k.code = some k := by cases k <;> rfl

end ChangeKind

namespace RequestKey

/-- The metadata key of the address of the client. -/
def remoteAddress : String := "remote-address"

/-- The metadata key of the program of the client. -/
def userAgent : String := "user-agent"

/-- The metadata key of the workspace. -/
def workspaceId : String := "workspace-id"

/-- The metadata key of the login of the user. -/
def userLogin : String := "user-login"

end RequestKey

/-- A change of a node: a `NodeChangeEvent`. -/
structure NodeChange where
  /-- The kind of change. -/
  kind : ChangeKind
  /-- The node as it was before. -/
  source : Option Node := none
  /-- The node as it is now. -/
  target : Option Node := none
  /-- Metadata of the request that made the change. -/
  metadata : Dict String := Dict.empty
  deriving DecidableEq

namespace NodeChange

/-- A node that came into being. -/
def created (target : Node) : NodeChange := { kind := .create, target := some target }

/-- A node that was removed. -/
def deleted (source : Node) : NodeChange := { kind := .delete, source := some source }

/-- The change with one more piece of metadata. -/
def withMetadata (c : NodeChange) (key value : String) : NodeChange :=
  { c with metadata := c.metadata.insert key value }

/-- The node as it is now, or else as it was before. -/
def node? (c : NodeChange) : Option Node := c.target <|> c.source

/-- The name under which jobs subscribe to the change. -/
def eventName (c : NodeChange) : String := c.kind.eventName

end NodeChange

/-- A timer that names a job: a `JobTriggerEvent`. -/
structure JobTrigger where
  /-- The job. -/
  jobId : String
  /-- Whether the job runs even when it is inactive. -/
  runNow : Bool := false
  /-- The schedule that fired, as it was given. -/
  schedule : Option Document := none

namespace JobTrigger

/-- A trigger that runs a job at once. -/
def immediate (jobId : String) : JobTrigger := { jobId, runNow := true }

/-- A trigger of a schedule. -/
def scheduled (jobId : String) (schedule : Document) : JobTrigger :=
  { jobId, schedule := some schedule }

end JobTrigger

/-- What starts a task: a `TriggerEvent`. -/
inductive Event where
  /-- A change of a node. -/
  | nodeChange (change : NodeChange)
  /-- A timer. -/
  | timer (trigger : JobTrigger)

namespace Event

/-- The change, if the event is one. -/
def nodeChange? : Event → Option NodeChange
  | .nodeChange c => some c
  | .timer _ => none

/-- The metadata of the request under a key, if the event is a change that has it. -/
def metadata? (e : Event) (key : String) : Option String :=
  e.nodeChange?.bind fun c => c.metadata.get? key

end Event

end Taskyard
