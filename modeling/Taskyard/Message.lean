import Taskyard.Event
import Taskyard.User

/-!
# Messages

The value that flows through the actions of a task: the event that started it, the nodes and users
at hand, and the outputs of the actions run so far on this branch.

Main definitions:

* `Output` — the result of one action.
* `Message` — the value that flows.
* `Message.ofEvent` — the message that a task starts with.
* `Message.logInput`, `Message.logOutput` — the parts of a message that are kept in a log.
-/

namespace Taskyard

/-- The result of one action: an `ActionOutput`. -/
structure Output where
  /-- Whether the action succeeded. -/
  success : Bool
  /-- Whether the action was skipped. -/
  ignored : Bool := false
  /-- A text. -/
  text : String := ""
  /-- The bytes of a JSON text. -/
  jsonBytes : List UInt8 := []
  /-- What went wrong. -/
  errorText : String := ""
  /-- When the action ended, in seconds. -/
  time : Int64 := 0
  deriving DecidableEq

namespace Output

/-- A success at a time. -/
def succeeded (now : Int64) : Output := { success := true, time := now }

/-- A failure at a time. -/
def failed (now : Int64) (error : String) : Output :=
  { success := false, errorText := error, time := now }

/-- A skipped action, which counts as a success. -/
def skipped (now : Int64) : Output := { success := true, ignored := true, time := now }

/-- The text that later actions see: the error of a failure, the text of a success. -/
def visibleText (o : Output) : String := if o.success then o.text else o.errorText

end Output

/-- The value that flows through the actions of a task: an `ActionMessage`. -/
structure Message where
  /-- What started the task. -/
  event : Option Event := none
  /-- The nodes at hand. -/
  nodes : List Node := []
  /-- The users at hand. -/
  users : List User := []
  /-- The outputs of the actions run so far, the oldest first. -/
  outputs : List Output := []

namespace Message

instance : Inhabited Message := ⟨{}⟩

/-- The message that a task starts with, from `from_event`: the node of a change is at hand, and
nothing else. -/
def ofEvent (e : Event) : Message :=
  { event := some e, nodes := (e.nodeChange?.bind NodeChange.node?).toList }

/-- The message with other nodes. -/
def withNodes (m : Message) (nodes : List Node) : Message := { m with nodes }

/-- The message with other users. -/
def withUsers (m : Message) (users : List User) : Message := { m with users }

/-- The message with one more output. -/
def withOutput (m : Message) (o : Output) : Message := { m with outputs := m.outputs ++ [o] }

/-- The message with one more output, a failure. -/
def withError (m : Message) (now : Int64) (error : String) : Message :=
  m.withOutput (.failed now error)

/-- The newest output. -/
def lastOutput (m : Message) : Option Output := m.outputs.getLast?

/-- Whether there are neither nodes nor users at hand. -/
def isEmpty (m : Message) : Bool := m.nodes.isEmpty && m.users.isEmpty

/-- What is kept of a message that an action is given, by `as_log_input`: its nodes and users. -/
def logInput (m : Message) : Message := { m with event := none, outputs := [] }

/-- What is kept of a message that an action returns, by `as_log_output`: its nodes, its users and
the newest output. -/
def logOutput (m : Message) : Message := { m with event := none, outputs := m.lastOutput.toList }

end Message

end Taskyard
