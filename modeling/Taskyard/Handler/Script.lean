import Taskyard.Catalog.Prune
import Taskyard.Handler.Template

/-!
# Handlers — what an action does when it runs

A handler is the implementation of an action. It is prepared for one action of one job, and then run
on a message. What the run does is told as a script: reports of progress, waiting and deletion of
tasks happen one after another, with other work in between, and at the end there is a message, a
fault or a crash. Commands and web requests are put to the host, which is a parameter: nothing here
depends on what a command or an endpoint answers.

Main definitions:

* `Host` — what commands and endpoints answer.
* `Site` — everything that an action can look at.
* `Script` — the course of a run.
* `Start`, `Handler` — implementations of actions.
-/

namespace Taskyard

/-! ## The host -/

/-- A command for the shell. -/
structure Command where
  /-- The text. -/
  text : String
  /-- The directory that it is run in, if not the present one. -/
  workdir : Option String := none
  /-- Variables of the environment. -/
  bindings : List (String × String) := []

/-- How a command ended. -/
inductive CommandEnd where
  /-- By itself, with a status. -/
  | status (code : Nat)
  /-- By a signal. -/
  | signal (number : Nat)
  deriving DecidableEq, Repr

/-- What came of a command. -/
inductive CommandResult where
  /-- It could not be started. -/
  | unstarted (why : String)
  /-- It ended after so many milliseconds, having written to its two outputs. -/
  | ended (how : CommandEnd) (millis : Nat) (output errors : List UInt8)

/-- A request to an endpoint. -/
structure WebRequest where
  /-- The address. -/
  url : String
  /-- The method. -/
  method : String
  /-- The headers. -/
  headers : List (String × String)
  /-- The body, if the method has one. -/
  body : Option Json

/-- What came of a request. -/
inductive WebResult where
  /-- Nothing was answered. -/
  | unsent (why : String)
  /-- An answer, with the phrase that belongs to its code and the text of the body, or why that
  could not be read. -/
  | answered (code : Nat) (phrase : String) (body : Except String String)

/-- What commands and endpoints answer, within a number of milliseconds. -/
structure Host where
  /-- The result of a command. -/
  execute : Command → CommandResult
  /-- The result of a request. -/
  exchange : WebRequest → Nat → WebResult

/-- What an action can look at. -/
structure Site where
  /-- The tree and the users. -/
  backend : Backend
  /-- Commands and endpoints. -/
  host : Host

/-! ## Scripts -/

/-- The course of a run: what a `ConcreteAction` does in its `run`, cut where others can come
between. -/
inductive Script where
  /-- It ends with a message, given the time of the end. -/
  | finish (result : Int64 → Message)
  /-- It ends with a fault. -/
  | refuse (fault : Fault)
  /-- It crashes. -/
  | crash (reason : String)
  /-- It reports how far it has come. -/
  | report (progress : Decimal.Single) (next : Script)
  /-- It waits for so many milliseconds. -/
  | wait (millis : Nat) (next : Script)
  /-- It deletes tasks and goes on with the identifiers of those that are gone. -/
  | prune (deletion : Deletion) (next : Except Fault (List String) → Script)

/-- The script of a result that is known at once. -/
def Script.ofExcept : Except Fault (Int64 → Message) → Script
  | .ok result => .finish result
  | .error fault => .refuse fault

/-- The script of a result that is worked out at once, and may crash in that. -/
def Script.ofWork : Except String (Int64 → Message) → Script
  | .ok result => .finish result
  | .error reason => .crash reason

/-- What a run is given besides its message: a `RunContext`. -/
structure Context where
  /-- The job of the task. -/
  job : Job
  /-- The task. -/
  taskId : String
  /-- What can be looked at. -/
  site : Site
  /-- How many milliseconds are left for the run, if it is limited. -/
  allowance : Option Nat := none

/-- A wished duration, cut to what is left before the deadline: `bounded`. -/
def Context.bounded (c : Context) (millis : Nat) : Nat :=
  match c.allowance with
  | none => millis
  | some left => min millis left

/-- A template with the values of a run. -/
def Context.render (c : Context) (template : String) (m : Message) : String :=
  Template.render template c.job.id c.taskId m

/-! ## Handlers -/

/-- What comes of the preparation of a handler: of `init`. -/
inductive Start where
  /-- It can be run. -/
  | ready (run : Context → Message → Script)
  /-- The action does not suit it. -/
  | refused (fault : Fault)
  /-- The preparation crashed. -/
  | crashed (reason : String)

/-- The start of a handler that may find fault with the action. -/
def Start.ofExcept : Except Fault (Context → Message → Script) → Start
  | .ok run => .ready run
  | .error fault => .refused fault

/-- An implementation of an action: a `ConcreteAction`. -/
structure Handler where
  /-- Its own name. -/
  name : String
  /-- Its preparation for an action of a job. -/
  prepare : Job → Action → Start

/-- Handlers by the identifier of the action that they implement: an `ActionRegistry`. -/
structure Registry where
  /-- The handlers. -/
  handlers : Dict Handler := Dict.empty

namespace Registry

/-- The registry with a handler, in place of one for the same action. -/
def register (r : Registry) (id : String) (h : Handler) : Registry := ⟨r.handlers.insert id h⟩

/-- The handler of an action. -/
def create (r : Registry) (id : String) : Except Fault Handler :=
  match r.handlers.get? id with
  | some h => .ok h
  | none => .error (.notFound ("action " ++ id))

/-- Whether an action has a handler. -/
def contains (r : Registry) (id : String) : Bool := r.handlers.contains id

/-- The identifiers of the actions that have a handler, in order. -/
def ids (r : Registry) : List String := r.handlers.keys

/-- The number of actions that have a handler. -/
def size (r : Registry) : Nat := r.handlers.size

end Registry

/-! ## Parameters of actions -/

namespace Action

/-- A parameter that has to hold more than blanks: `required`. -/
def requiredParam (a : Action) (key : String) : Except Fault String :=
  match (a.param key).filter fun v => !Text.allBlank v with
  | some v => .ok v
  | none => .error (.badRequest (a.id ++ ": missing parameter '" ++ key ++ "'"))

/-- A parameter that is a natural number of 64 bits, blanks around it aside: `number`. -/
def numberParam (a : Action) (key : String) (default : Nat) : Except Fault Nat :=
  match a.param key with
  | none => .ok default
  | some raw =>
    match Text.numeral64? (Text.trim raw) with
    | some n => .ok n
    | none => .error (.badRequest (a.id ++ ": '" ++ key ++ "' is not a number: " ++ raw))

end Action

end Taskyard
