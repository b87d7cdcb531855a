import Taskyard.Decimal.Literal
import Taskyard.Handler.Builtin

/-!
# Handlers — rehearsals

Handlers with a prescribed outcome, for trying jobs out before their real actions exist: successes,
failures, faults and crashes, with or without preparation, waiting, reports of progress, and changes
of the nodes and users at hand.

Main definitions:

* `Handler.rehearsals` — the handlers.
* `Registry.withRehearsals` — a registry with all of them.
-/

namespace Taskyard.Handler

/-- A parameter, empty where it is not given. -/
def given (a : Action) (key : String) : String := (a.param key).getD ""

/-- The fault of a kind with a text. -/
def faultNamed (kind message : String) : Fault :=
  match kind with
  | "not_found" => .notFound message
  | "bad_request" => .badRequest message
  | "forbidden" => .forbidden message
  | _ => .internal message

/-- The fault that an action prescribes. -/
def prescribedFault (a : Action) : Fault := faultNamed (given a "kind") (given a "message")

/-- A success with the text that an action prescribes. -/
def prescribedSuccess (a : Action) (m : Message) : Script :=
  .finish fun now => m.withOutput { Output.succeeded now with text := given a "body" }

/-- A handler that is always ready. -/
def always (name : String) (run : Action → Context → Message → Script) : Handler where
  name := name
  prepare _ a := .ready (run a)

/-- The items of a list with commas that are not empty. -/
def listed (raw : String) : List String := (Text.splitChar ',' raw).filter (· ≠ "")

/-- The reports of progress that a list prescribes, and what follows them. -/
def reports (raw : String) (next : Script) : Script :=
  let values := (Text.splitChar ',' raw).filterMap fun v =>
    Decimal.Binary.ofLiteral? .single (Text.trim v)
  values.foldr Script.report next

/-- The message with the nodes and users that an action prescribes. -/
def exchangeContent (a : Action) (m : Message) : Message :=
  let m := match a.param "paths" with
    | some raw => m.withNodes ((listed raw).map Node.ofPath)
    | none => m
  match a.param "logins" with
  | some raw => m.withUsers ((listed raw).map User.standard)
  | none => m

/-- The result of a look-up in the tree. -/
def lookUp (path : String) (c : Context) (m : Message) : Script :=
  .ofExcept ((c.site.backend.tree.read path).map fun n now =>
    m.withOutput { Output.succeeded now with jsonBytes := Text.bytes n.toJson.compact })

/-- The handlers with a prescribed outcome. -/
def rehearsals : List Handler :=
  [always "test.ok" fun a _ m => prescribedSuccess a m,
   always "test.ignore" fun _ _ m => .finish fun now => m.withOutput (.skipped now),
   always "test.error" fun a _ _ => .refuse (prescribedFault a),
   always "test.fail" fun a _ m => .finish fun now => m.withError now (given a "message"),
   always "test.panic" fun a _ _ => .crash (given a "message"),
   always "test.panic_str" fun _ _ _ => .crash "static kaboom",
   always "test.panic_other" fun _ _ _ => .crash "unknown panic",
   { name := "test.init_error", prepare := fun _ a => .refused (prescribedFault a) },
   { name := "test.init_panic", prepare := fun _ a => .crashed (given a "message") },
   always "test.sleep" fun a _ m =>
    .wait ((Text.numeral64? (given a "ms")).getD 0) (prescribedSuccess a m),
   always "test.progress" fun a _ m => reports (given a "values") (prescribedSuccess a m),
   always "test.lookup" fun a c m => lookUp (given a "path") c m,
   always "test.set" fun a _ m =>
    let m := exchangeContent a m
    if given a "silent" = "yes" then .finish fun _ => m else prescribedSuccess a m]

end Taskyard.Handler

namespace Taskyard

/-- The registry with every handler of a rehearsal. -/
def Registry.withRehearsals (r : Registry) : Registry := r.registerAll Handler.rehearsals

end Taskyard
