import Taskyard.Handler.Script
import Taskyard.Text.Uppercase
import Taskyard.Wire.Event

/-!
# Handlers — web requests

Main definitions:

* `Handler.webhook` — sends the message to an endpoint and passes on what is answered.
-/

namespace Taskyard.Handler

/-- The identifier of the action. -/
def webhookId : String := "actions.cmd.webhook"

/-- The greatest number of bytes that are passed on of what a command or an endpoint says. -/
def textLimit : Nat := 5000

/-- The seconds after which an action that does not say otherwise gives up. -/
def webhookSeconds : Nat := 30

/-- The methods that can be used. -/
def methods : List String := ["GET", "POST", "PUT", "PATCH", "DELETE"]

/-- The method with a name, whatever the case of its letters. -/
def methodNamed (raw : String) : Except Fault String :=
  let name := Text.upper raw
  if methods.contains name then .ok name
  else .error (.badRequest (webhookId ++ ": unsupported method " ++ name))

/-- The headers of a parameter: a JSON object of texts. -/
def headersIn (raw : String) : Except Fault (Dict String) :=
  match (Json.parse? raw).bind (Decoder.dict Decoder.text Json.maxDepth) with
  | some d => .ok d
  | none => .error (.badRequest (webhookId ++ ": headers: "))

/-- The settings of an action. -/
structure Webhook where
  /-- The template of the address. -/
  url : String
  /-- The method. -/
  method : String
  /-- Further headers. -/
  headers : Dict String
  /-- The limit in seconds. -/
  seconds : Nat

/-- The settings that the parameters give. -/
def Webhook.ofAction (a : Action) : Except Fault Webhook := do
  let url ← a.requiredParam "url"
  let method ← match a.param "method" with
    | some raw => methodNamed raw
    | none => .ok "POST"
  let headers ← match a.param "headers" with
    | some raw => headersIn raw
    | none => .ok Dict.empty
  let seconds ← a.numberParam "timeout_secs" webhookSeconds
  return { url, method, headers, seconds }

/-- What is sent of a message. -/
def payload (jobId taskId : String) (m : Message) : Json := .object <|
  Wire.member "job_id" (.string jobId) ++ Wire.member "task_id" (.string taskId) ++
  Wire.member "nodes" (.array (m.nodes.map Node.toJson)) ++
  Wire.member "users" (.array (m.users.map User.toJson)) ++
  Wire.memberOf "last_output" Output.toJson m.lastOutput

/-- The request of a run. -/
def Webhook.request (w : Webhook) (c : Context) (m : Message) : WebRequest where
  url := c.render w.url m
  method := w.method
  headers := ("Content-Type", "application/json") :: w.headers.entries
  body := if w.method = "GET" then none else some (payload c.job.id c.taskId m)

/-- Whether a code tells of success. -/
def isSuccess (code : Nat) : Bool := 200 ≤ code && code < 300

/-- A code with its phrase. -/
def statusLine (code : Nat) (phrase : String) : String :=
  "HTTP " ++ Text.numeral code ++ " " ++ phrase

/-- The message after an answer. -/
def afterAnswer (url : String) (m : Message) : WebResult → Except String (Int64 → Message)
  | .unsent why => .ok fun now => m.withError now ("webhook " ++ url ++ ": " ++ why)
  | .answered code phrase (.error why) => .ok fun now =>
    m.withError now
      ("webhook " ++ url ++ ": " ++ statusLine code phrase ++ ": reading body: " ++ why)
  | .answered code phrase (.ok body) => do
    let body ← Text.truncate textLimit body
    return fun now =>
      if isSuccess code then m.withOutput { Output.succeeded now with text := body }
      else m.withError now ("webhook " ++ url ++ ": " ++ statusLine code phrase ++ ": " ++ body)

/-- The run: one request, and its answer as the output. -/
def Webhook.run (w : Webhook) (c : Context) (m : Message) : Script :=
  let request := w.request c m
  let answer := c.site.host.exchange request (c.bounded (w.seconds * 1000))
  .ofWork (afterAnswer request.url m answer)

/-- A web request: `WebhookAction`. -/
def webhook : Handler where
  name := webhookId
  prepare _ a := .ofExcept ((Webhook.ofAction a).map Webhook.run)

end Taskyard.Handler
