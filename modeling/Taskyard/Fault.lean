/-!
# Faults

What can go wrong in the catalog and its services, by cause, with the class that a caller is told.

Main definitions:

* `Fault` — the causes.
* `Fault.message` — the text of a fault.
* `FaultClass`, `Fault.class` — the four classes, with a status code each.
-/

namespace Taskyard

/-- A cause of failure, with its own words: a `CellarError`. -/
inductive Fault where
  /-- Something named does not exist. -/
  | notFound (what : String)
  /-- The caller asked for something senseless. -/
  | badRequest (why : String)
  /-- The caller may not do this. -/
  | forbidden (why : String)
  /-- A failure of the service itself. -/
  | internal (why : String)
  /-- The configuration is unusable. -/
  | config (why : String)
  /-- The database failed. -/
  | database (why : String)
  /-- A stored or transmitted value could not be read or written. -/
  | serialization (why : String)
  /-- A file could not be read or written. -/
  | io (why : String)
  deriving DecidableEq, Repr

/-- The classes of faults that callers tell apart: an `ErrorKind`. -/
inductive FaultClass where
  /-- The named thing does not exist. -/
  | notFound
  /-- The request is at fault. -/
  | badRequest
  /-- The caller lacks a right. -/
  | forbidden
  /-- The service is at fault. -/
  | internal
  deriving DecidableEq, Repr

/-- The class of a fault. All failures below the service count as its own. -/
def Fault.kind : Fault → FaultClass
  | .notFound _ => .notFound
  | .badRequest _ => .badRequest
  | .forbidden _ => .forbidden
  | .internal _ | .config _ | .database _ | .serialization _ | .io _ => .internal

/-- The status code of a class. -/
def FaultClass.code : FaultClass → Nat
  | .notFound => 404
  | .badRequest => 400
  | .forbidden => 403
  | .internal => 500

/-- The name of a class. -/
def FaultClass.name : FaultClass → String
  | .notFound => "NotFound"
  | .badRequest => "BadRequest"
  | .forbidden => "Forbidden"
  | .internal => "InternalServerError"

/-- The text of a fault: its class or origin, and its own words. -/
def Fault.message : Fault → String
  | .notFound what => "not found: " ++ what
  | .badRequest why => "bad request: " ++ why
  | .forbidden why => "forbidden: " ++ why
  | .internal why => "internal error: " ++ why
  | .config why => "config error: " ++ why
  | .database why => "database error: " ++ why
  | .serialization why => "serialization error: " ++ why
  | .io why => "io error: " ++ why

end Taskyard
