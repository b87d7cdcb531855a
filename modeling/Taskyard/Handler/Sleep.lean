import Taskyard.Handler.Script

/-!
# Handlers — sleep

Main definitions:

* `Handler.sleep` — waits for a while, or fails when the limit of the run comes first.
-/

namespace Taskyard.Handler

/-- The identifier of the action. -/
def sleepId : String := "actions.scheduler.sleep"

/-- The milliseconds of an action that does not give them. -/
def defaultSleep : Nat := 1000

/-- The run: the wait, and after the whole of it the report that all is done. -/
def runSleep (millis : Nat) (c : Context) (m : Message) : Script :=
  let allowed := c.bounded millis
  .wait allowed <|
    if allowed < millis then
      .finish fun now =>
        m.withError now ("deadline reached after " ++ Text.numeral allowed ++ "ms")
    else
      .report (.one .single) <| .finish fun now =>
        m.withOutput { Output.succeeded now with text := "slept " ++ Text.numeral millis ++ "ms" }

/-- Waiting for a while: `SleepAction`. -/
def sleep : Handler where
  name := sleepId
  prepare _ a := .ofExcept ((a.numberParam "duration_ms" defaultSleep).map runSleep)

end Taskyard.Handler
