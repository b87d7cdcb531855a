import Taskyard.Catalog.Service
import Taskyard.Console.Arguments
import Taskyard.Console.Trigger
import Taskyard.Settings.Text
import Taskyard.Text.Path
import Taskyard.Tree.Node

/-!
# Console — commands

The plans of the commands. Every command reads the configuration first and opens the catalog then,
before it looks at anything else.

Main definitions:

* `commandPlan` — the plan of a request on an open catalog.
* `plan` — the plan of a list of arguments.
-/

namespace Taskyard.Console

/-! ## Configuration -/

/-- The usual place of the configuration. -/
def usualConfig (home : String) : String := home ++ "/.cellar/config.toml"

/-- A plan that goes on with the settings of a file. -/
def loadSettings (path : String) (next : Settings → Plan) : Plan :=
  .readText path fun
    | .error f => .fail (.ofFault (.config ("Failed to read config: " ++ f.text)))
    | .ok text =>
      match Settings.load (some text) with
      | .ok s => next s
      | .error f => .fail (.ofFault f)

/-- A plan that goes on with the configuration: that of a file, or the usual one, or the defaults
where there is none. -/
def withSettings (e : Surroundings) (config : Option String) (next : Settings → Plan) : Plan :=
  match config with
  | some path => loadSettings path next
  | none =>
    .readText (usualConfig e.home) fun
      | .error f => if f.exists then loadSettings (usualConfig e.home) next else next {}
      | .ok _ => loadSettings (usualConfig e.home) next

/-- A plan that goes on with the catalog that the settings name. -/
def withCatalog (e : Surroundings) (s : Settings) (next : String → Catalog → Plan) : Plan :=
  let path := Path.expandHome e.home s.store.path
  .openCatalog path fun
    | .error f => .fail (.during ("opening " ++ path) f)
    | .ok c => next path c

/-! ## Jobs -/

/-- The job in the text of a file. Files with the extension of the settings' format are read as
that. -/
def jobOfText (file text : String) : Except String Job :=
  if (Node.ofPath file).extension? = some "toml" then
    match Toml.parse? text with
    | none => .error "TOML parse error"
    | some j => (Job.ofJson Json.maxDepth j).elim (.error "TOML parse error") .ok
  else
    match Json.parse? text with
    | none => .error "JSON parse error"
    | some j => (Job.ofJson Json.maxDepth j).elim (.error "invalid job") .ok

/-- The command that saves the job of a file. -/
def putJobPlan (path : String) (c : Catalog) (file : String) : Plan :=
  .readText file fun
    | .error f => .fail ⟨"reading " ++ file, [f.text]⟩
    | .ok text =>
      match jobOfText file text with
      | .error why => .fail ⟨why, []⟩
      | .ok j =>
        let (c, j, _) := c.saveJob j
        .keep path c (.say ("✅ Job '" ++ j.label ++ "' (" ++ j.id ++ ") saved\n"))

/-- The state of a name, or the complaint about it. -/
def statusNamed (raw : String) : Except Complaint TaskStatus :=
  match TaskStatus.ofName? raw with
  | some s => .ok s
  | none => .error ⟨"unknown task status '" ++ raw ++ "'", []⟩

/-- A result, or the complaint about its fault. -/
def orComplain {α : Type} (r : Except Fault α) : Except Complaint α := r.mapError .ofFault

/-- The job as it is shown, with its tasks in a state. -/
def shownJob (c : Catalog) (id : String) (tasks : Option String) : Except Complaint String := do
  let load ← match tasks with
    | some raw => statusNamed raw
    | none => .ok .unknown
  let j ← orComplain (c.getJob id load)
  return j.toJson.pretty ++ "\n"

/-- The list of jobs. -/
def jobList (c : Catalog) (l : JobListing) : Except Complaint String := do
  let jobs ← orComplain (c.listJobs l)
  return String.join (jobs.map jobLine) ++ countLine jobs.length "job"

/-! ## Tasks -/

/-- The list of tasks. -/
def taskList (c : Catalog) (job status : String) : Except Complaint String := do
  let status ← statusNamed status
  let tasks ← orComplain (c.listTasks job status)
  return String.join (tasks.map taskLine) ++ countLine tasks.length "task"

/-- The states of a list of names with commas between them. -/
def statusesNamed (raw : String) : Except Complaint (List TaskStatus) :=
  (((Text.splitChar ',' raw).map Text.trim).filter (· ≠ "")).mapM statusNamed

/-- The catalog without old tasks of a job, and what is said about it. -/
def pruned (c : Catalog) (job : String) (keep : Nat) (statuses : String) :
    Except Complaint (Catalog × String) := do
  let statuses ← statusesNamed statuses
  let (c, ids, _) ← orComplain (c.removeTasks { scope := job, statuses, keep })
  return (c, "🧹 " ++ Text.numeral ids.length ++ " task(s) of " ++ job ++ " deleted\n")

/-! ## Requests -/

/-- The plan of what was said, or of a complaint. -/
def saying (r : Except Complaint String) : Plan :=
  match r with
  | .ok s => .say s
  | .error c => .fail c

/-- The plan of a request on an open catalog. -/
def commandPlan (e : Surroundings) (s : Settings) (path : String) (c : Catalog) : Request → Plan
  | .putJob file => putJobPlan path c file
  | .showJob id tasks => saying (shownJob c id tasks)
  | .listJobs owner eventsOnly timersOnly => saying (jobList c { owner, eventsOnly, timersOnly })
  | .deleteJob id => .keep path (c.removeJob id).1 (.say ("🗑️ Job " ++ id ++ " deleted\n"))
  | .listTasks job status => saying (taskList c job status)
  | .pruneTasks job keep statuses =>
    match pruned c job keep statuses with
    | .ok (c, said) => .keep path c (.say said)
    | .error c => .fail c
  | .trigger job seconds => triggerPlan e s path c job seconds
  | .serve => .fail ⟨"a console that only answers does not serve", []⟩

/-- The name of the program with its version. -/
def versionLine : String := "cellar 0.3.0\n"

/-- How the program is used. -/
def usage : String := "Usage: cellar [OPTIONS] <COMMAND>\n"

/-- The outcome where nothing can be done. -/
def Stop.outcome : Stop → Outcome
  | .help => .saying usage
  | .version => .saying versionLine
  | .misuse => { code := 2, errors := "error: no such request\n\n" ++ usage }

/-- The plan of a list of arguments. -/
def plan (e : Surroundings) (args : List String) : Plan :=
  match Invocation.read args with
  | .error stop => .finish stop.outcome
  | .ok i =>
    withSettings e i.config fun s => withCatalog e s fun path c => commandPlan e s path c i.request

end Taskyard.Console
