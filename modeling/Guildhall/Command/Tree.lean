import Guildhall.Command.Registry
import Guildhall.Value

/-!
# The command tree as data

The tree for the administration interface, and as a drawing. The drawing shows the texts of
commands as they are: brackets in them are not taken for markup, and long lines are not wrapped.
-/

namespace Guildhall.Command.Registry

variable {ε : Type}

def nodeValue (r : Registry ε) : Nat → Nat → Value
  | 0, _ => .null
  | fuel + 1, id =>
    match r.definition? id with
    | none => .null
    | some d => .record [("name", .str d.name), ("path", .str (r.qualifiedName (some id))),
        ("aliases", .texts d.aliases), ("description", .str d.description),
        ("usage", .str d.usage), ("permissions", .texts d.permissions),
        ("guild_only", .bool d.guildOnly), ("module", .str d.feature),
        ("runnable", .bool d.executor.isSome),
        ("children", .list ((r.children id).map (nodeValue r fuel)))]

def toValue (r : Registry ε) : Value :=
  .list (r.roots.map (r.nodeValue r.size))

/-- A command in one line: its name, its aliases, what it requires and what it is for. -/
def label (r : Registry ε) (id : Nat) : String :=
  match r.definition? id with
  | none => ""
  | some d =>
    let aliases := if d.aliases.isEmpty then "" else " (" ++ ", ".intercalate d.aliases ++ ")"
    let required := if d.permissions.isEmpty then "" else " " ++ ", ".intercalate d.permissions
    let purpose := if d.description.isEmpty then "" else " -- " ++ d.description
    d.name ++ aliases ++ required ++ purpose

/-- Commands with what is below them, drawn with branches; `fuel` bounds the steps from a command
to one below it or to the next beside it. -/
def branches (r : Registry ε) : Nat → String → List Nat → List String
  | 0, _, _ => []
  | _ + 1, _, [] => []
  | fuel + 1, margin, id :: rest =>
    let (branch, below) := if rest.isEmpty then ("└── ", "    ") else ("├── ", "│   ")
    (margin ++ branch ++ r.label id) :: r.branches fuel (margin ++ below) (r.children id) ++
      r.branches fuel margin rest

def drawing (r : Registry ε) : List String :=
  "commands" :: r.branches (r.size + 1) "" r.roots

end Guildhall.Command.Registry
