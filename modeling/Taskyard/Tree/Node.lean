import Taskyard.Dict
import Taskyard.Text.Split

/-!
# Tree — nodes

A node is a file or folder, known by its path. The segments of a path are separated by slashes, and
slashes at the end do not count.

Main definitions:

* `Node` — a node with its size, times and free attributes.
* `Node.name` — the last segment of the path.
* `Node.extension?` — what follows the last point of the name, unless the name starts with it.
-/

namespace Taskyard

/-- The kind of a node. -/
inductive NodeKind where
  /-- Not known. -/
  | unknown
  /-- A file. -/
  | leaf
  /-- A folder. -/
  | collection
  deriving DecidableEq, Repr

/-- A file or folder of the tree. -/
structure Node where
  /-- A stable identifier. -/
  uuid : String := ""
  /-- The path. -/
  path : String
  /-- File or folder. -/
  kind : NodeKind := .unknown
  /-- The size in bytes. -/
  size : Int64 := 0
  /-- The time of the last change, in seconds. -/
  mtime : Int64 := 0
  /-- A tag of the content. -/
  etag : String := ""
  /-- Free attributes. -/
  attributes : Dict String := Dict.empty
  deriving DecidableEq

namespace Node

/-- A node known only by its path. -/
def ofPath (path : String) : Node where
  path := path

/-- A file of a size. -/
def leaf (path : String) (size : Int64) : Node where
  path := path
  kind := .leaf
  size := size

/-- A folder. -/
def collection (path : String) : Node where
  path := path
  kind := .collection

/-- The characters of a path without the slashes at its end. -/
def trimSlashes (path : List Char) : List Char :=
  (path.reverse.dropWhile (· = '/')).reverse

/-- The last segment of a path, slashes at its end aside. -/
def lastSegment (path : List Char) : List Char :=
  ((trimSlashes path).reverse.takeWhile (· ≠ '/')).reverse

/-- What follows the last point of a name, if something precedes the point. -/
def extensionOf (name : List Char) : Option (List Char) :=
  match Text.breakOnce '.' name.reverse with
  | none => none
  | some (_, []) => none
  | some (e, _ :: _) => some e.reverse

/-- The last segment of the path. -/
def name (n : Node) : String := String.ofList (lastSegment n.path.toList)

/-- The extension of the last segment of the path, without the point. -/
def extension? (n : Node) : Option String :=
  (extensionOf (lastSegment n.path.toList)).map String.ofList

/-- Whether the node is a file. -/
def isLeaf (n : Node) : Bool := n.kind = .leaf

end Node

end Taskyard
