import Taskyard.Json.Decoder
import Taskyard.Scheduler.Floor

/-!
# Settings

What can be configured: the scheduler, the place of the catalog, and the bus. Whatever is not given
takes its default.

Main definitions:

* `SchedulerSettings`, `StoreSettings`, `BusSettings`, `Settings` — the settings.
* `Settings.toJson`, `Settings.ofJson` — their JSON form.
* `SchedulerSettings.setup` — the setup of a scheduler.
-/

namespace Taskyard

open Decoder

/-- The settings of the scheduler. -/
structure SchedulerSettings where
  /-- The number of workers of jobs that do not say it. -/
  defaultWorkers : UInt32 := defaultConcurrency
  /-- The capacity of the channels between selectors and their consumers. -/
  selectionBuffer : UInt64 := 64
  /-- The capacity of the writer's stream. -/
  updateBuffer : UInt64 := 256
  /-- The limit of each run in seconds; zero for none. -/
  timeoutSeconds : UInt64 := 0
  deriving DecidableEq

/-- The settings of the catalog. -/
structure StoreSettings where
  /-- Where it is kept. -/
  path : String := "~/.cellar/jobs.db"
  deriving DecidableEq

/-- The settings of the bus. -/
structure BusSettings where
  /-- The number of messages that a topic keeps for slow subscribers. -/
  capacity : UInt64 := 1024
  deriving DecidableEq

/-- All settings. -/
structure Settings where
  /-- Of the scheduler. -/
  scheduler : SchedulerSettings := {}
  /-- Of the catalog. -/
  store : StoreSettings := {}
  /-- Of the bus. -/
  bus : BusSettings := {}
  deriving DecidableEq

namespace SchedulerSettings

/-- The form of the settings of the scheduler. -/
def toJson (s : SchedulerSettings) : Json := .object
  [("default_max_concurrency", .ofNat s.defaultWorkers.toNat),
   ("selection_buffer", .ofNat s.selectionBuffer.toNat),
   ("task_update_buffer", .ofNat s.updateBuffer.toNat),
   ("action_timeout_secs", .ofNat s.timeoutSeconds.toNat)]

/-- The settings of the scheduler of a form. -/
def ofJson : Decoder SchedulerSettings := fun depth j => do
  let r ← Record.open? ["default_max_concurrency", "selection_buffer", "task_update_buffer",
    "action_timeout_secs"] depth j
  let d : SchedulerSettings := {}
  let defaultWorkers ← r.field "default_max_concurrency" uint32 d.defaultWorkers
  let selectionBuffer ← r.field "selection_buffer" uint64 d.selectionBuffer
  let updateBuffer ← r.field "task_update_buffer" uint64 d.updateBuffer
  let timeoutSeconds ← r.field "action_timeout_secs" uint64 d.timeoutSeconds
  return { defaultWorkers, selectionBuffer, updateBuffer, timeoutSeconds }

/-- The setup of a scheduler. -/
def setup (s : SchedulerSettings) (registry : Registry) (site : Site) (taskId : Nat → String) :
    Setup where
  registry := registry
  site := site
  selectionBuffer := s.selectionBuffer.toNat
  allowance := if s.timeoutSeconds = 0 then none else some (s.timeoutSeconds.toNat * 1000)
  defaultWorkers := s.defaultWorkers
  updateBuffer := s.updateBuffer.toNat
  taskId := taskId

end SchedulerSettings

namespace StoreSettings

/-- The form of the settings of the catalog. -/
def toJson (s : StoreSettings) : Json := .object [("path", .string s.path)]

/-- The settings of the catalog of a form. -/
def ofJson : Decoder StoreSettings := fun depth j => do
  let r ← Record.open? ["path"] depth j
  let path ← r.field "path" text ({} : StoreSettings).path
  return { path }

end StoreSettings

namespace BusSettings

/-- The form of the settings of the bus. -/
def toJson (s : BusSettings) : Json := .object [("capacity", .ofNat s.capacity.toNat)]

/-- The settings of the bus of a form. -/
def ofJson : Decoder BusSettings := fun depth j => do
  let r ← Record.open? ["capacity"] depth j
  let capacity ← r.field "capacity" uint64 ({} : BusSettings).capacity
  return { capacity }

end BusSettings

namespace Settings

/-- The form of the settings. -/
def toJson (s : Settings) : Json := .object
  [("scheduler", s.scheduler.toJson), ("store", s.store.toJson), ("bus", s.bus.toJson)]

/-- The settings of a form. -/
def ofJson : Decoder Settings := fun depth j => do
  let r ← Record.open? ["scheduler", "store", "bus"] depth j
  let scheduler ← r.field "scheduler" SchedulerSettings.ofJson {}
  let store ← r.field "store" StoreSettings.ofJson {}
  let bus ← r.field "bus" BusSettings.ofJson {}
  return { scheduler, store, bus }

end Settings

end Taskyard
