import Taskyard.Settings.Basic
import Taskyard.Toml.Document
import Taskyard.Toml.Printer

/-!
# Settings — as a document

Settings are kept as a document with one table for each part.

Main definitions:

* `Settings.parse?` — the settings of a document.
* `Settings.print?` — the document of settings.
* `Settings.load`, `Settings.save` — the same with the fault where that fails.
-/

namespace Taskyard

namespace Settings

/-- The settings of a document. -/
def parse? (s : String) : Option Settings := (Toml.parse? s).bind (ofJson Json.maxDepth)

/-- The tables of settings. -/
def tables (s : Settings) : List (String × List (String × Toml.Scalar)) :=
  [("scheduler",
      [("default_max_concurrency", .number s.scheduler.defaultWorkers.toNat),
       ("selection_buffer", .number s.scheduler.selectionBuffer.toNat),
       ("task_update_buffer", .number s.scheduler.updateBuffer.toNat),
       ("action_timeout_secs", .number s.scheduler.timeoutSeconds.toNat)]),
   ("store", [("path", .text s.store.path)]),
   ("bus", [("capacity", .number s.bus.capacity.toNat)])]

/-- The document of settings, unless a number is too great for it. -/
def print? (s : Settings) : Option String := Toml.print? s.tables

/-- The settings of a document that may be missing. -/
def load : Option String → Except Fault Settings
  | none => .error (.config "Failed to read config")
  | some text =>
    match parse? text with
    | some s => .ok s
    | none => .error (.config "Failed to parse config")

/-- The document of settings. -/
def save (s : Settings) : Except Fault String :=
  match s.print? with
  | some text => .ok text
  | none => .error (.config "Failed to serialize config")

end Settings

end Taskyard
