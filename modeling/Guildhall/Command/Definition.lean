import Guildhall.Command.Path
import Guildhall.Failure
import Guildhall.Permission.Node

/-!
# Command definitions

What is known about a command before it has a place in the tree.
-/

namespace Guildhall.Command

/-- A command with its names, its help texts, what it requires and what it does. A command
without an executor only groups others. -/
structure Definition (ε : Type) where
  name : String
  executor : Option ε
  description : String
  usage : String
  sample : String
  aliases : List String
  permissions : List String
  guildOnly : Bool
  feature : String

/-- The complaint about a text that cannot name a command; `role` says what it was to be. -/
def nameFault? (role value : String) : Option String :=
  if value.isEmpty || value.toList.any isPathSeparator then
    some (s!"Invalid command {role}: " ++ Text.quoted value)
  else none

/-- The first complaint about the names of a command. -/
def namesFault? (name : String) (aliases : List String) : Option String :=
  (nameFault? "name" name).orElse fun _ => aliases.findSome? (nameFault? "alias")

namespace Definition

variable {ε : Type}

/-- The definition with its permissions in canonical form, if its names and permissions are
well formed. -/
def check (d : Definition ε) : Except RegistrationError (Definition ε) :=
  match namesFault? d.name d.aliases with
  | some message => .error (.invalid message)
  | none =>
    match Permission.parseAll d.permissions with
    | .error fault => .error (.invalid fault.message)
    | .ok nodes => .ok { d with permissions := nodes.map (·.value) }

/-- What a command answers to: its name and aliases in lower case. -/
def keys (d : Definition ε) : List String :=
  (d.name :: d.aliases).map Text.lower

end Definition

end Guildhall.Command
