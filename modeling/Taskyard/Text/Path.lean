import Taskyard.Text.Split

/-!
# Text — paths

A path is names with slashes between them. A name that does not start with a slash is seen from a
directory.

Main definitions:

* `Path.resolve` — the path of a name seen from a directory, without detours.
* `Path.parent` — the path of the folder around it.
* `Path.ancestors` — the paths of all folders around it.
-/

namespace Taskyard.Path

/-- The names of a path from the root, with steps upwards taken. -/
def walk : List String → List String → List String
  | done, [] => done
  | done, name :: rest =>
    if name = "" || name = "." then walk done rest
    else if name = ".." then walk done.dropLast rest
    else walk (done ++ [name]) rest

/-- The path of names from the root. -/
def ofNames (names : List String) : String := "/" ++ Text.joinWith "/" names

/-- The names of a path from the root. -/
def names (path : String) : List String := walk [] (Text.splitChar '/' path)

/-- The path of a name seen from a directory, without detours. -/
def resolve (directory name : String) : String :=
  ofNames (names (if name.startsWith "/" then name else directory ++ "/" ++ name))

/-- The path of the folder around a path. -/
def parent (path : String) : String := ofNames (names path).dropLast

/-- The paths of all folders around a path, the root first. -/
def ancestors (path : String) : List String :=
  let ns := names path
  (List.range ns.length).map fun n => ofNames (ns.take n)

/-- The path with a tilde at its beginning replaced by the home directory. -/
def expandHome (home path : String) : String :=
  match path.toList with
  | ['~'] => home
  | '~' :: '/' :: rest => home ++ "/" ++ String.ofList rest
  | _ => path

end Taskyard.Path
