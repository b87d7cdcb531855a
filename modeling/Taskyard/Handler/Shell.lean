import Taskyard.Handler.Webhook

/-!
# Handlers — shell commands

Main definitions:

* `Handler.shell` — runs a command and passes on what it writes.
-/

namespace Taskyard.Handler

/-- The identifier of the action. -/
def shellId : String := "actions.cmd.shell"

/-- The seconds after which an action that does not say otherwise gives up. -/
def shellSeconds : Nat := 60

/-- The settings of an action. -/
structure Shell where
  /-- The template of the command. -/
  command : String
  /-- The directory that the command is run in. -/
  workdir : Option String
  /-- The limit in seconds. -/
  seconds : Nat

/-- The settings that the parameters give. -/
def Shell.ofAction (a : Action) : Except Fault Shell := do
  let command ← a.requiredParam "command"
  let seconds ← a.numberParam "timeout_secs" shellSeconds
  return { command, workdir := a.param "workdir", seconds }

/-- The variables that a command finds in its environment. -/
def bindings (c : Context) (m : Message) : List (String × String) :=
  let paths := m.nodes.map (·.path)
  [("CELLAR_JOB_ID", c.job.id), ("CELLAR_TASK_ID", c.taskId),
    ("CELLAR_NODE_PATH", paths.head?.getD ""), ("CELLAR_NODE_PATHS", Text.joinWith "\n" paths)]

/-- The names of the signals that end a command. -/
def signalNames : List (Nat × String) :=
  [(1, "SIGHUP"), (2, "SIGINT"), (3, "SIGQUIT"), (4, "SIGILL"), (5, "SIGTRAP"), (6, "SIGABRT"),
   (7, "SIGBUS"), (8, "SIGFPE"), (9, "SIGKILL"), (10, "SIGUSR1"), (11, "SIGSEGV"), (12, "SIGUSR2"),
   (13, "SIGPIPE"), (14, "SIGALRM"), (15, "SIGTERM"), (16, "SIGSTKFLT"), (17, "SIGCHLD"),
   (18, "SIGCONT"), (19, "SIGSTOP"), (20, "SIGTSTP"), (21, "SIGTTIN"), (22, "SIGTTOU"),
   (23, "SIGURG"), (24, "SIGXCPU"), (25, "SIGXFSZ"), (26, "SIGVTALRM"), (27, "SIGPROF"),
   (28, "SIGWINCH"), (29, "SIGIO"), (30, "SIGPWR"), (31, "SIGSYS")]

/-- How a command ended, in words. -/
def endText : CommandEnd → String
  | .status code => "exit status: " ++ Text.numeral code
  | .signal number =>
    "signal: " ++ Text.numeral number ++
      match signalNames.lookup number with
      | some name => " (" ++ name ++ ")"
      | none => ""

/-- What a command wrote, as a text without blanks at its end and cut to the limit. -/
def written (bytes : List UInt8) : Except String String :=
  Text.truncate textLimit (Text.trimEnd (Text.decodeLossy bytes))

/-- The message after a command that was given so many milliseconds. -/
def afterCommand (millis : Nat) (m : Message) : CommandResult → Except String (Int64 → Message)
  | .unstarted why => .ok fun now => m.withError now ("spawn failed: " ++ why)
  | .ended how taken output errors =>
    if millis ≤ taken then
      .ok fun now =>
        m.withError now ("command timed out after " ++ Text.numeral (millis / 1000) ++ "s")
    else do
      let output ← written output
      if how = .status 0 then
        return fun now => m.withOutput { Output.succeeded now with text := output }
      else
        let errors ← written errors
        return fun now => m.withError now (endText how ++ ": " ++ errors)

/-- The run: one command, and what it wrote as the output. -/
def Shell.run (s : Shell) (c : Context) (m : Message) : Script :=
  let command : Command :=
    { text := c.render s.command m, workdir := s.workdir, bindings := bindings c m }
  let result := c.site.host.execute command
  .ofWork (afterCommand (c.bounded (s.seconds * 1000)) m result)

/-- A shell command: `ShellAction`. -/
def shell : Handler where
  name := shellId
  prepare _ a := .ofExcept ((Shell.ofAction a).map Shell.run)

end Taskyard.Handler
