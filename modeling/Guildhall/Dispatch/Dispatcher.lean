import Guildhall.Command.Registry
import Guildhall.Command.Token
import Guildhall.Dispatch.Script
import Guildhall.Hook.Event

/-!
# Dispatcher

Turns a message into an invocation: split it into tokens, find the command, check what the
command requires, run it and tell what happened. Every failure ends up in the outcome.
-/

namespace Guildhall.Dispatch

open Command (Registry)
open Hook (Event)
open Permission (Grants Source)

structure Dispatcher (ε σ : Type) where
  registry : Registry ε
  source : Source σ
  superusers : List String
  perform : ε → Context → Script σ

structure Invocation (ε : Type) where
  context : Context
  executor : ε
  usage : String
  cache : Cache

/-- How far a message gets before anything runs. -/
inductive Stage (ε : Type)
  | settled (outcome : Outcome) (events : List Event)
  | ready (invocation : Invocation ε)

def Context.start (message : String) (caller : Caller) (superuser : Bool) : Context :=
  ⟨caller, message, superuser, [], none, "", []⟩

def Context.refuse (ctx : Context) (e : DispatchError) : Outcome := ⟨ctx, .error e⟩

namespace Dispatcher

variable {ε σ : Type}

/-- What is missing for a command that requires `required`, if anything. Superusers need
nothing; outside guilds nobody else has anything. -/
def firstMissing (d : Dispatcher ε σ) (ctx : Context) (required : List String) (s : σ) :
    Except DispatchError (Option String) × Cache × σ :=
  match required with
  | [] => (.ok none, .empty, s)
  | first :: _ =>
    if ctx.superuser then (.ok none, .empty, s)
    else if ctx.caller.guild.isNone then (.ok (some first), .empty, s)
    else
      let (told, cache, s) :=
        Cache.empty.replies d.source ctx.caller.guild ctx.caller.author 1 s
      match told with
      | .ok grants :: _ =>
        match grants.firstMissing required with
        | .ok missing => (.ok missing, cache, s)
        | .error _ => (.ok (some first), cache, s)
      | .error e :: _ => (.error e, cache, s)
      | [] => (.ok (some first), cache, s)

/-- How a command without an executor is to be used: with the name of a command below it. -/
def subcommandUsage (d : Dispatcher ε σ) (id : Nat) (usage : String) : String :=
  let names := "|".intercalate ((d.registry.children id).map d.registry.name)
  if names.isEmpty then usage
  else d.registry.qualifiedName (some id) ++ s!" <{names}>"

/-- Takes a message as far as it gets before anything runs. -/
def prepare (d : Dispatcher ε σ) (message : String) (caller : Caller) (s : σ) :
    Stage ε × σ :=
  let ctx := Context.start message caller (d.superusers.contains caller.author)
  match Command.tokenize message with
  | .error unclosed =>
    (.settled (ctx.refuse (.invalidArguments unclosed.message "")) [], s)
  | .ok tokens =>
    let ctx := { ctx with tokens := tokens }
    let (found, args) := d.registry.lookup tokens
    match found.bind fun id => (d.registry.definition? id).map (id, ·) with
    | none => (.settled (ctx.refuse (.unknownCommand (tokens.headD ""))) [], s)
    | some (id, definition) =>
      let ctx := { ctx with
        node := some id, args := args, command := d.registry.qualifiedName (some id) }
      if definition.guildOnly && caller.guild.isNone then
        (.settled (ctx.refuse (.guildOnly ctx.command)) [], s)
      else
        match d.firstMissing ctx definition.permissions s with
        | (.error e, _, s) => (.settled (ctx.refuse e) [], s)
        | (.ok (some missing), _, s) =>
          (.settled (ctx.refuse (.permissionDenied missing)) [.commandDenied ctx missing], s)
        | (.ok none, cache, s) =>
          match definition.executor with
          | some executor => (.ready ⟨ctx, executor, definition.usage, cache⟩, s)
          | none =>
            let e := .invalidArguments s!"'{ctx.command}' needs a subcommand"
              (d.subcommandUsage id definition.usage)
            (.settled (ctx.refuse e) [.commandFailed ctx e], s)

/-- The outcome of a command that has run. Wrong arguments are reported with the command's
usage; every other failure is contained. -/
def conclude (invocation : Invocation ε) (result : Except Failure Value) :
    Outcome × List Event :=
  let ctx := invocation.context
  match result with
  | .ok v => (⟨ctx, .ok v⟩, [.commandExecuted ctx v])
  | .error failure =>
    let e := match failure with
      | .dispatch (.invalidArguments message usage) =>
        .invalidArguments message (if usage.isEmpty then invocation.usage else usage)
      | failure => .execution ctx.command failure
    (ctx.refuse e, [.commandFailed ctx e])

def script (d : Dispatcher ε σ) (invocation : Invocation ε) : Script σ :=
  d.perform invocation.executor invocation.context

/-- Carries out a message: its outcome and what subscribers are told. -/
def dispatch (d : Dispatcher ε σ) (message : String) (caller : Caller) (s : σ) :
    Outcome × List Event × σ :=
  match d.prepare message caller s with
  | (.settled outcome events, s) => (outcome, events, s)
  | (.ready invocation, s) =>
    let (result, _, s) :=
      (d.script invocation).run d.source invocation.context invocation.cache s
    let (outcome, events) := conclude invocation result
    (outcome, events, s)

end Dispatcher

end Guildhall.Dispatch
