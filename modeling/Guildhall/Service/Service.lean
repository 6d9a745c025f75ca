import Guildhall.Chat.Bot
import Guildhall.Feature.Jobs
import Guildhall.Feature.Permissions
import Guildhall.Service.Body

/-!
# Service

The bot put together. Modules add commands, jobs and subscribers while it is set up; then the
command tree is closed and the service can be started.
-/

namespace Guildhall

open Chat (About Action Entry Manners Message)
open Command (Registry)
open Dispatch (Caller Dispatcher Outcome)
open Service (Archive Body)
open Simulation (Clockwork)

structure Service.Options where
  sigil : String
  superusers : List String
  ignoreBots : Bool
  workers : Int
  grace : Double
  zone : String
  version : String
  built : String

structure Service where
  options : Service.Options
  registry : Registry (Action Body)
  modules : List String
  body : Body

namespace Service

def Options.usual : Options :=
  ⟨"!", [], true, Job.Scheduler.defaultWorkers, .ofInt 10, "UTC", "", ""⟩

def new (options : Options) (archive : Archive) (now : Time.Moment) : Except Failure Service := do
  let scheduler ← Job.Scheduler.new options.workers options.zone
  let body : Body :=
    ⟨archive, Clockwork.new scheduler now, .new Hook.Bus.defaultBacklog, none⟩
  match Chat.addAll Registry.empty (Chat.builtins.map fun d => ([], d)) with
  | .ok registry => return ⟨options, registry, [], body⟩
  | .error e => throw (.invalidValue e.message)

def manners (s : Service) : Manners := ⟨s.options.sigil, s.options.ignoreBots⟩

def about (s : Service) : About Body :=
  { sigil := s.options.sigil, version := s.options.version, built := s.options.built
    uptime := fun b => Int.ofNat (b.jobs.now / 1000000) }

def dispatcher (s : Service) : Dispatcher (Action Body) Body where
  registry := s.registry
  source := Body.access.source
  superusers := s.options.superusers
  perform := Action.script s.registry s.about

/-- Adds commands; a refused one leaves the service as it was. -/
def addCommands (entries : List (Entry Body)) (s : Service) : Except RegistrationError Service := do
  return { s with registry := ← Chat.addAll s.registry entries }

structure Module where
  name : String
  setup : Service → Except RegistrationError Service

/-- The module with the permission commands; there are none when nothing can be changed. -/
def permissionModule : Module where
  name := "perms"
  setup s :=
    if s.body.archive.isReadOnly then .ok s
    else s.addCommands (Feature.permissionEntries Body.access)

def jobModule : Module where
  name := "tasks"
  setup s := s.addCommands (Feature.jobEntries fun b => Job.listing b.jobs.scheduler)

/-- The modules that are loaded unless told otherwise. -/
def usualModules : List Module := [permissionModule, jobModule]

/-- Loads modules and closes the command tree. A module that is refused ends it, and the tree
stays open. -/
def load : List Module → Service → Option RegistrationError × Service
  | [], s => (none, { s with registry := s.registry.close })
  | m :: rest, s =>
    match m.setup s with
    | .error e => (some e, s)
    | .ok s => load rest { s with modules := s.modules ++ [m.name] }

/-- Starts the service; the command tree is closed by then. -/
def start (s : Service) : Service :=
  { s with registry := s.registry.close, body := s.body.start }

/-- A grace period in microseconds; none when it never ends. -/
def graceMicros (grace : Double) : Option Nat :=
  match Time.durationOfSeconds grace with
  | some micros => some micros.toNat
  | none => if grace.isNegative then some 0 else none

def stop (s : Service) : Service :=
  { s with body := s.body.stop (graceMicros s.options.grace) }

def dispatch (message : String) (caller : Caller) (s : Service) : Outcome × Service :=
  match s.dispatcher.prepare message caller s.body with
  | (.settled outcome events, body) => (outcome, { s with body := body.publish events })
  | (.ready invocation, body) =>
    let (result, body) := Body.follow s.dispatcher.source invocation.context
      (s.dispatcher.script invocation) invocation.cache body
    let (outcome, events) := Dispatcher.conclude invocation result
    (outcome, { s with body := body.publish events })

/-- Handles an inbound message: its outcome, unless it is no command for us. -/
def handle (m : Message) (s : Service) : Option Outcome × Service :=
  let s := { s with body := s.body.publish [m.event] }
  match s.manners.command? m with
  | none => (none, s)
  | some text =>
    let (outcome, s) := s.dispatch text m.caller
    (some outcome, s)

end Service

end Guildhall
