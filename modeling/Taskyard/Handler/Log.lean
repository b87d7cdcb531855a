import Taskyard.Handler.Script

/-!
# Handlers — logging of a line

Main definitions:

* `Handler.log` — renders a template, writes it to the log and passes it on as the output.
-/

namespace Taskyard.Handler

/-- The identifier of the action. -/
def logId : String := "actions.log"

/-- The template of an action that does not give one. -/
def defaultLine : String :=
  "job \x7b\x7bjob.id\x7d\x7d touched \x7b\x7bnodes.count\x7d\x7d node(s), " ++
    "first: \x7b\x7bnode.path\x7d\x7d"

/-- The names of the levels of the log. -/
def levels : List String := ["debug", "info", "warn", "warning", "error"]

/-- A level, if one is given, has to be one of those that the log has. -/
def checkLevel : Option String → Except Fault Unit
  | none => .ok ()
  | some raw =>
    if levels.contains (Text.lowerAscii raw) then .ok ()
    else .error (.badRequest (logId ++ ": unknown level '" ++ raw ++ "'"))

/-- The run: the rendered line is the output. -/
def runLog (template : String) (c : Context) (m : Message) : Script :=
  .finish fun now => m.withOutput { Output.succeeded now with text := c.render template m }

/-- Logging of a line: `LogAction`. -/
def log : Handler where
  name := logId
  prepare _ a := .ofExcept <|
    (checkLevel (a.param "level")).map fun _ => runLog ((a.param "message").getD defaultLine)

end Taskyard.Handler
