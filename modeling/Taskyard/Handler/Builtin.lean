import Taskyard.Handler.Log
import Taskyard.Handler.Prune
import Taskyard.Handler.Shell
import Taskyard.Handler.Sleep

/-!
# Handlers — the built-in ones

Main definitions:

* `Registry.withBuiltins` — a registry with every built-in handler.
-/

namespace Taskyard

/-- The built-in handlers. -/
def Handler.builtins : List Handler :=
  [Handler.log, Handler.webhook, Handler.shell, Handler.prune, Handler.sleep]

/-- The registry with handlers under their own names. -/
def Registry.registerAll (r : Registry) (hs : List Handler) : Registry :=
  hs.foldl (fun r h => r.register h.name h) r

/-- The registry with every built-in handler. -/
def Registry.withBuiltins (r : Registry) : Registry := r.registerAll Handler.builtins

end Taskyard
