import Taskyard.Catalog.Basic

/-!
# Catalog — as a text

A catalog outlives a command as one JSON text that holds its rows as they are.

Main definitions:

* `Catalog.archive` — the text of a catalog.
* `Catalog.ofArchive?` — the catalog of a text.
-/

namespace Taskyard

/-- A dictionary as an object. -/
def dictToJson {α : Type} (f : α → Json) (d : Dict α) : Json :=
  .object (d.entries.map fun (k, a) => (k, f a))

/-- The form of the row of a job. -/
def JobRow.toJson (r : JobRow) : Json :=
  .object [("owner", .string r.owner), ("text", .string r.text)]

/-- The row of a job of a form. -/
def JobRow.ofJson : Decoder JobRow := fun depth j => do
  let r ← Record.open? ["owner", "text"] depth j
  let owner ← r.required "owner" Decoder.text
  let text ← r.required "text" Decoder.text
  return { owner, text }

/-- The form of the row of a task. -/
def TaskRow.toJson (r : TaskRow) : Json :=
  .object [("status", r.status.toJson), ("text", .string r.text)]

/-- The row of a task of a form. -/
def TaskRow.ofJson : Decoder TaskRow := fun depth j => do
  let r ← Record.open? ["status", "text"] depth j
  let status ← r.required "status" TaskStatus.ofJson
  let text ← r.required "text" Decoder.text
  return { status, text }

namespace Catalog

/-- The form of a catalog. -/
def toJson (c : Catalog) : Json :=
  .object [("jobs", dictToJson JobRow.toJson c.jobs),
    ("tasks", dictToJson (dictToJson TaskRow.toJson) c.buckets)]

/-- The catalog of a form. -/
def ofJson : Decoder Catalog := fun depth j => do
  let r ← Record.open? ["jobs", "tasks"] depth j
  let jobs ← r.required "jobs" (Decoder.dict JobRow.ofJson)
  let buckets ← r.required "tasks" (Decoder.dict (Decoder.dict TaskRow.ofJson))
  return { jobs, buckets }

/-- The text of a catalog. -/
def archive (c : Catalog) : String := c.toJson.compact

/-- The catalog of a text. -/
def ofArchive? (s : String) : Option Catalog := (Json.parse? s).bind (ofJson Json.maxDepth)

end Catalog

end Taskyard
