import Guildhall.Command.Definition
import Guildhall.Command.Registry
import Guildhall.Value

/-!
# Described commands

Commands as data: definitions read from descriptions, and what is known about a registered one.
-/

namespace Guildhall.Command

variable {ε : Type}

/-- The definition that a description stands for; `executor` reads what the command does. -/
def Definition.ofValue (executor : Value → Option ε) (description : Value) : Definition ε where
  name := (description.get "name").text
  executor := executor (description.get "exec")
  description := description.textOr "description" ""
  usage := description.textOr "usage" ""
  sample := description.textOr "example" ""
  aliases := (description.get "aliases").words
  permissions := (description.get "permissions").words
  guildOnly := (description.get "guild_only").isTrue
  feature := description.textOr "module" ""

/-- A command path as data: nothing, a text, or a list of names. -/
def pathOfValue : Value → List String
  | .atom (.str s) => pathOfText s
  | .list names => pathOfNames (names.map Value.text)
  | _ => []

/-- What is known about a registered command, or null. -/
def Registry.describe (r : Registry ε) (id : Option Nat) : Value :=
  match id, id.bind r.definition? with
  | some id, some d =>
    .record [("id", .count id), ("parent", ((r.parent id).map Value.count).getD .null),
      ("path", .str (r.qualifiedName (some id))), ("keys", .texts d.keys),
      ("permissions", .texts d.permissions), ("children", .list ((r.children id).map .count))]
  | _, _ => .null

end Guildhall.Command
