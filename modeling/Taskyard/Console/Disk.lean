import Taskyard.Console.Plan
import Taskyard.Text.Path

/-!
# Console — an imagined disk

Files with their texts, and catalogs at their paths. Folders are there because something is in them
or because they were created for a catalog.

Main definitions:

* `Disk` — the disk, seen from a directory.
* `Plan.onDisk` — a plan carried out on a disk.
-/

namespace Taskyard.Console

/-- A disk. -/
structure Disk where
  /-- The directory from which names are seen. -/
  directory : String
  /-- The texts of the files, by path. -/
  files : Dict String := Dict.empty
  /-- The catalogs, by path. -/
  catalogs : Dict Catalog := Dict.empty
  /-- Folders that were created. -/
  folders : List String := []

namespace Disk

/-- Whether there is a file at a path. -/
def isFile (d : Disk) (path : String) : Bool := d.files.contains path || d.catalogs.contains path

/-- Whether there is a folder at a path. -/
def isFolder (d : Disk) (path : String) : Bool :=
  path = "/" || d.directory = path || d.folders.contains path ||
    (d.directory :: d.files.keys ++ d.catalogs.keys ++ d.folders).any fun p =>
      (Path.ancestors p).contains path

/-- The text of a file. -/
def read (d : Disk) (name : String) : Except ReadFault String :=
  let path := Path.resolve d.directory name
  if (Path.ancestors path).any d.isFile then .error .blocked
  else if d.isFolder path then .error .folder
  else if d.catalogs.contains path then .error .garbled
  else match d.files.get? path with
    | some text => .ok text
    | none => .error .missing

/-- The disk with the folder of a path, or why it cannot be created. -/
def makeFolder (d : Disk) (path : String) : Except Fault Disk :=
  if (Path.ancestors path).any d.isFile then .error (.io ReadFault.blocked.text)
  else if d.isFile path then .error (.io "File exists (os error 17)")
  else .ok { d with folders := path :: d.folders }

/-- What is in the catalog at a path, where there is a folder for it. A file that is there already
holds one only if it is empty. -/
def catalogAt (d : Disk) (path : String) : Except Fault Catalog :=
  if d.isFolder path then .error (.database ("unable to open database file: " ++ path))
  else match d.catalogs.get? path, d.files.get? path with
    | some c, _ => .ok c
    | none, none => .ok .empty
    | none, some text =>
      if text = "" then .ok .empty else .error (.database "file is not a database")

/-- Whether the catalog of a name is gone when the command has ended. -/
def isPassing (name : String) : Bool := name = "" || name = ":memory:"

/-- The disk with the catalog at a path as it has become. -/
def keep (d : Disk) (name : String) (c : Catalog) : Disk :=
  if isPassing name then d
  else
    let path := Path.resolve d.directory name
    { d with catalogs := d.catalogs.insert path c, files := d.files.erase path }

/-- The disk after a catalog was opened, and the catalog. -/
def openCatalog (d : Disk) (name : String) : Disk × Except Fault Catalog :=
  if isPassing name then (d, .ok .empty)
  else
    let path := Path.resolve d.directory name
    match d.makeFolder (Path.parent path) with
    | .error f => (d, .error f)
    | .ok d =>
      match d.catalogAt path with
      | .error f => (d, .error f)
      | .ok c => (d.keep name c, .ok c)

end Disk

/-- The disk after a plan, and its outcome. -/
def Plan.onDisk : Disk → Plan → Disk × Outcome
  | d, .finish o => (d, o)
  | d, .readText path next => (next (d.read path)).onDisk d
  | d, .openCatalog path next =>
    let (d, r) := d.openCatalog path
    (next r).onDisk d
  | d, .keep path c next => next.onDisk (d.keep path c)

end Taskyard.Console
