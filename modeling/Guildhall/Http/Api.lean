import Guildhall.Command.Tree
import Guildhall.Json.Reader
import Guildhall.Service.Service
import Guildhall.Text.Case
import Guildhall.Text.Utf8

/-!
# The HTTP interface

Connectors post messages, operators look at commands, jobs and subscribers, and anybody may ask
whether the service is up. All but the last need the administration secret, if there is one.
-/

namespace Guildhall.Http

open Chat (Message)

/-- A request. The path comes without its query; the body is bytes. -/
structure Request where
  method : String
  path : String
  authorization : Option String
  body : List Nat

/-- The value of a header, whatever case its name is written in. -/
def header? (name : String) (headers : List (String × String)) : Option String :=
  (headers.find? fun (given, _) => Text.lower given == name).map (·.2)

def Request.ofTarget (method target : String) (headers : List (String × String))
    (body : List Nat) : Request where
  method := method
  path := String.ofList (target.toList.takeWhile (· ≠ '?'))
  authorization := header? "authorization" headers
  body := body

/-- An answer: data, or a plain refusal, perhaps with the methods that are allowed. -/
inductive Response
  | data (status : Nat) (body : Value)
  | refusal (status : Nat) (text : String) (allowed : Option (List String))

def publicPaths : List String := ["/health"]

/-- Whether a text has characters of seven bits only. -/
def isAscii (s : String) : Bool := s.toList.all fun c => c.toNat < 128

/-- Whether a request may pass: it needs no secret or it brings the right one. Texts with other
than seven-bit characters cannot be compared safely. -/
def authorised (secret path : String) (authorization : Option String) : Except Failure Bool :=
  if secret.isEmpty || publicPaths.contains path then .ok true
  else
    let given := authorization.getD ""
    let expected := "Bearer " ++ secret
    if isAscii given && isAscii expected then .ok (given == expected) else .error .wrongType

inductive Endpoint
  | health
  | messages
  | commands
  | tasks
  | hooks
  deriving DecidableEq, Repr

/-- The endpoint at a path and the methods it knows, sorted. -/
def endpoint? : String → Option (Endpoint × List String)
  | "/health" => some (.health, ["GET", "HEAD"])
  | "/api/messages" => some (.messages, ["POST"])
  | "/api/commands" => some (.commands, ["GET", "HEAD"])
  | "/api/tasks" => some (.tasks, ["GET", "HEAD"])
  | "/api/hooks" => some (.hooks, ["GET", "HEAD"])
  | _ => none

def healthValue (s : Service) : Value :=
  .record [("status", .str "ok"), ("version", .str s.options.version),
    ("commands", .count s.registry.size), ("tasks", .count s.body.jobs.scheduler.jobs.length),
    ("scheduler_running", .bool s.body.jobs.scheduler.running)]

def hooksValue (s : Service) : Value :=
  .record (Hook.Kind.all.filterMap fun kind =>
    match s.body.hooks.bus.listed (some kind) with
    | [] => none
    | subscriptions => some (kind.name, .list (subscriptions.map (·.toValue))))

def badRequest (detail : Value) : Response :=
  .data 400 (.record [("status", .str "error"), ("message", detail)])

def readMessage (body : List Nat) : Except Value Message :=
  match Text.ofUtf8 body with
  | .error m => .error (.str m.message)
  | .ok source =>
    match Json.parse source with
    | .error e => .error (.str (e.message source))
    | .ok data => (Message.ofValue data).mapError fun faults => .list (faults.map (·.toValue true))

def textOrNull (s : String) : Value := if s.isEmpty then .null else .str s

/-- What the connector is told about the outcome of a message. -/
def outcomeValue (s : Service) (outcome : Option Dispatch.Outcome) : Value :=
  match outcome with
  | none => .record [("status", .str "ignored"), ("kind", .null), ("reply", .null)]
  | some o =>
    .record [("status", .str (if o.ok then "ok" else "error")), ("kind", .str o.kind),
      ("command", textOrNull o.context.command), ("reply", textOrNull (s.manners.reply o))]

def serveEndpoint (endpoint : Endpoint) (body : List Nat) (s : Service) : Response × Service :=
  match endpoint with
  | .health => (.data 200 (healthValue s), s)
  | .commands => (.data 200 (.record [("commands", s.registry.toValue)]), s)
  | .tasks =>
    let jobs := s.body.jobs.scheduler.listed.map (·.toValue)
    (.data 200 (.record [("tasks", .list jobs)]), s)
  | .hooks => (.data 200 (.record [("hooks", hooksValue s)]), s)
  | .messages =>
    match readMessage body with
    | .error detail => (badRequest detail, s)
    | .ok m =>
      let (outcome, s) := s.handle m
      (.data 200 (outcomeValue s outcome), s)

/-- Answers a request by its path and its method. -/
def route (r : Request) (s : Service) : Response × Service :=
  match endpoint? r.path with
  | none => (.refusal 404 "404: Not Found" none, s)
  | some (endpoint, methods) =>
    if methods.contains r.method then serveEndpoint endpoint r.body s
    else (.refusal 405 "405: Method Not Allowed" (some methods), s)

def unauthorised : Response :=
  .data 401 (.record [("status", .str "unauthorized"),
    ("message", .str "Invalid or missing admin secret")])

/-- Lets the requests that may pass through to a handler. -/
def guarded {σ : Type} (secret : String)
    (handler : Request → σ → Except Failure Response × σ) (r : Request) (s : σ) :
    Except Failure Response × σ :=
  match authorised secret r.path r.authorization with
  | .error e => (.error e, s)
  | .ok false => (.ok unauthorised, s)
  | .ok true => handler r s

def respond (secret : String) : Request → Service → Except Failure Response × Service :=
  guarded secret fun r s => let (response, s) := route r s; (.ok response, s)

end Guildhall.Http
