import Guildhall.Dispatch.Cache
import Guildhall.Dispatch.Context

/-!
# Scripts

What a command does, step by step: ask for the author's permissions, let time pass, look at or
change the surrounding state, and end with a result or a failure.
-/

namespace Guildhall.Dispatch

open Permission (Grants Source)

/-- The steps of a command in surroundings of type `σ`. -/
inductive Script (σ : Type)
  | done (result : Except Failure Value)
  | permissions (askers : Nat) (next : List (Except DispatchError Grants) → Script σ)
  | pause (microseconds : Nat) (next : Script σ)
  | act (change : σ → σ) (next : σ → Script σ)

namespace Script

variable {σ : Type}

def give (v : Value) : Script σ := .done (.ok v)

def fail (e : Failure) : Script σ := .done (.error e)

/-- Does something to the surroundings and goes on with what it yields. -/
def call {α : Type} (step : σ → α × σ) (next : α → Script σ) : Script σ :=
  .act (fun s => (step s).2) (fun s => next (step s).1)

/-- Does something that may fail; a failure ends the script. -/
def attempt {α : Type} (step : σ → Except Failure α × σ) (next : α → Script σ) : Script σ :=
  .call step fun result =>
    match result with
    | .ok a => next a
    | .error e => .fail e

/-- Goes on with the author's permissions; a failed lookup ends the script. -/
def withPermissions (next : Grants → Script σ) : Script σ :=
  .permissions 1 fun replies =>
    match replies with
    | .ok grants :: _ => next grants
    | .error e :: _ => .fail (.dispatch e)
    | [] => next .none

/-- Goes on with whether the author holds a permission: superusers hold every one, and outside
guilds nobody else holds any. -/
def hasPermission (ctx : Context) (required : String) (next : Bool → Script σ) : Script σ :=
  if ctx.superuser then next true
  else if ctx.caller.guild.isNone then next false
  else
    .withPermissions fun grants =>
      match grants.hasText required with
      | .ok b => next b
      | .error fault => .fail fault.failure

/-- Where a script stands when it can go no further by itself. -/
inductive Progress (σ : Type)
  | finished (result : Except Failure Value)
  | paused (microseconds : Nat) (next : Script σ)

/-- Runs a script to its end or to a pause. -/
def advance (source : Source σ) (ctx : Context) :
    Script σ → Cache → σ → Progress σ × Cache × σ
  | .done result, c, s => (.finished result, c, s)
  | .permissions askers next, c, s =>
    let (told, c, s) := c.replies source ctx.caller.guild ctx.caller.author askers s
    (next told).advance source ctx c s
  | .pause microseconds next, c, s => (.paused microseconds next, c, s)
  | .act change next, c, s => (next s).advance source ctx c (change s)

/-- Runs a script to its end, whatever the time that passes in between. -/
def run (source : Source σ) (ctx : Context) :
    Script σ → Cache → σ → Except Failure Value × Cache × σ
  | .done result, c, s => (result, c, s)
  | .permissions askers next, c, s =>
    let (told, c, s) := c.replies source ctx.caller.guild ctx.caller.author askers s
    (next told).run source ctx c s
  | .pause _ next, c, s => next.run source ctx c s
  | .act change next, c, s => (next s).run source ctx c (change s)

end Script

end Guildhall.Dispatch
