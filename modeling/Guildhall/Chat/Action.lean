import Guildhall.Command.Help
import Guildhall.Dispatch.Script
import Guildhall.Feature.Uptime

/-!
# Actions

What commands do: the built-in ones, which tell about the bot and its commands, and scripts.
-/

namespace Guildhall.Chat

open Command (Definition Registry)
open Dispatch (Context Script)

inductive Action (σ : Type)
  | help
  | uptime
  | version
  | custom (run : Context → Script σ)

/-- What the built-in commands tell: what commands begin with, the version, when it was built,
and the seconds since the start. -/
structure About (σ : Type) where
  sigil : String
  version : String
  built : String
  uptime : σ → Int

variable {σ : Type}

/-- The help on the command that the arguments begin with, or on all commands. -/
def helpText (r : Registry (Action σ)) (sigil : String) (args : List String) : String :=
  match (r.lookup args).1 with
  | some id => Command.commandHelp r id sigil
  | none => Command.globalHelp r sigil

def orNone (s : String) : String := if s.isEmpty then "None" else s

def Action.script (r : Registry (Action σ)) (about : About σ) (action : Action σ)
    (ctx : Context) : Script σ :=
  match action with
  | help => .give (.str (helpText r about.sigil ctx.args))
  | uptime => .call (fun s => (about.uptime s, s)) fun t => .give (.str (Feature.uptimeText t))
  | version => .give (.str s!"{orNone about.version}\nBuilt: {orNone about.built}")
  | custom run => run ctx

/-- A definition without help texts, aliases or requirements. -/
def plain (feature name : String) (action : Option (Action σ)) (description : String) :
    Definition (Action σ) :=
  ⟨name, action, description, "", "", [], [], false, feature⟩

def builtins : List (Definition (Action σ)) :=
  [{ plain "builtin" "help" (some Action.help)
        "Show the global help message or a help message for a command." with
      usage := "[Path to Command]", sample := "help" },
    plain "builtin" "uptime" (some .uptime) "Show the bot uptime.",
    plain "builtin" "version" (some .version) "Show the bot version."]

/-- A definition and the path it is to be registered under. -/
abbrev Entry (σ : Type) := List String × Definition (Action σ)

/-- Adds definitions in order; the first that is refused ends it. -/
def addAll (r : Registry (Action σ)) : List (Entry σ) →
    Except RegistrationError (Registry (Action σ))
  | [] => .ok r
  | (path, d) :: rest => do
    let grown ← r.add path d
    addAll grown rest

end Guildhall.Chat
