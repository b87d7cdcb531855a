import Taskyard.Message
import Taskyard.Text.Numeral
import Taskyard.Text.Split

/-!
# Handlers — templates

A template is a text with placeholders between double braces, for which the values at hand are put.
The placeholders are replaced one after another, each everywhere, so a value that holds a later
placeholder is itself replaced. Unknown placeholders stay.

Main definitions:

* `Placeholder` — the placeholders.
* `Template.render` — the text with the values.
-/

namespace Taskyard

/-- What a template can ask for. -/
inductive Placeholder where
  /-- The job. -/
  | jobId
  /-- The task. -/
  | taskId
  /-- The path of the first node. -/
  | nodePath
  /-- The number of nodes. -/
  | nodeCount
  /-- The login of the first user. -/
  | userLogin
  /-- The visible text of the newest output. -/
  | output
  deriving DecidableEq, Repr

namespace Placeholder

/-- How a placeholder is written. -/
def mark : Placeholder → String
  | .jobId => "\x7b\x7bjob.id\x7d\x7d"
  | .taskId => "\x7b\x7btask.id\x7d\x7d"
  | .nodePath => "\x7b\x7bnode.path\x7d\x7d"
  | .nodeCount => "\x7b\x7bnodes.count\x7d\x7d"
  | .userLogin => "\x7b\x7buser.login\x7d\x7d"
  | .output => "\x7b\x7boutput\x7d\x7d"

/-- The placeholders in the order in which `render` replaces them. -/
def all : List Placeholder := [.jobId, .taskId, .nodePath, .nodeCount, .userLogin, .output]

/-- The value of a placeholder. -/
def value (jobId taskId : String) (m : Message) : Placeholder → String
  | .jobId => jobId
  | .taskId => taskId
  | .nodePath => (m.nodes.head?.map (·.path)).getD ""
  | .nodeCount => Text.numeral m.nodes.length
  | .userLogin => (m.users.head?.map (·.login)).getD ""
  | .output => (m.lastOutput.map (·.visibleText)).getD ""

end Placeholder

/-- The template with the values of its placeholders: `render`, which replaces them one after
another. -/
def Template.render (template jobId taskId : String) (m : Message) : String :=
  Placeholder.all.foldl (fun s p => Text.replaceAll s p.mark (p.value jobId taskId m)) template

end Taskyard
