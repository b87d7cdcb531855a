import Std.Time.DateTime.Timestamp
import Taskyard.Catalog.Archive
import Taskyard.Console.Command
import Taskyard.Console.Identifier
import Taskyard.Shell.Run

/-!
# The command line

The plan of the arguments, carried out on the real disk. Everything else is decided by the plan.
-/

namespace Taskyard.Console

/-- The text of a file. -/
def readText (path : String) : IO (Except ReadFault String) := do
  let file := (← IO.currentDir) / path
  if ← file.isDir then return .error .folder
  match ← (IO.FS.readFile file).toBaseIO with
  | .ok text => return .ok text
  | .error (.noFileOrDirectory ..) => return .error .missing
  | .error (.userError _) => return .error .garbled
  | .error _ => return .error .blocked

/-- The catalog at a path, which is created if it is not there. -/
def openCatalog (path : String) : IO (Except Fault Catalog) := do
  let file := (← IO.currentDir) / path
  if let some folder := file.parent then
    if let .error e ← (IO.FS.createDirAll folder).toBaseIO then
      return .error (.io (toString e))
  match ← readText path with
  | .ok "" | .error .missing => return .ok .empty
  | .ok text =>
    match Catalog.ofArchive? text with
    | some c => return .ok c
    | none => return .error (.database "file is not a database")
  | .error _ => return .error (.database ("unable to open database file: " ++ path))

/-- The catalog at a path is kept. -/
def keepCatalog (path : String) (c : Catalog) : IO Unit := do
  IO.FS.writeFile ((← IO.currentDir) / path) c.archive

/-- A plan is carried out; the result is the exit code. -/
def Plan.perform : Plan → IO UInt32
  | .finish o => do
    (← IO.getStdout).putStr o.output
    (← IO.getStderr).putStr o.errors
    return UInt32.ofNat o.code
  | .readText path next => do (next (← Console.readText path)).perform
  | .openCatalog path next => do (next (← Console.openCatalog path)).perform
  | .keep path c next => do
    keepCatalog path c
    next.perform

/-- What the console finds around it: the variables of the environment, the clock, and commands as
the small shell runs them; no endpoint can be reached. -/
def findSurroundings : IO Surroundings := do
  let home := (← IO.getEnv "HOME").getD "."
  let seconds := (← Std.Time.Timestamp.now).toSecondsSinceUnixEpoch.val
  let high ← IO.rand 0 (UInt64.size / 4)
  let low ← IO.rand 0 (UInt64.size / 4)
  let host : Host := { execute := Shell.execute, exchange := fun _ _ => .unsent "unreachable" }
  return {
    home
    now := Int64.ofInt seconds
    site := { backend := .empty, host }
    taskId := fun n =>
      identifier (high * UInt64.size + low + n * 0x9e3779b97f4a7c15f39cc0605cedc835) }

end Taskyard.Console

/-- The program: the arguments make a plan, and the plan is carried out. -/
def main (args : List String) : IO UInt32 := do
  (Taskyard.Console.plan (← Taskyard.Console.findSurroundings) args).perform
