import Guildhall.Command.Registry

/-!
# Help texts
-/

namespace Guildhall.Command

variable {ε : Type}

/-- The list of root commands; `sigil` is what commands begin with. -/
def globalHelp (r : Registry ε) (sigil : String) : String :=
  "\n".intercalate (
    ["__**Commands:**__"] ++ r.roots.map (fun id => s!"- {r.name id}") ++
    ["", s!"**Use `{sigil}help` *`command`* to get more details about a command.**"])

def commandHelp (r : Registry ε) (id : Nat) (sigil : String) : String :=
  match r.definition? id with
  | none => ""
  | some d =>
    let path := r.qualifiedName (some id)
    let below := r.children id
    let aliases := ", ".intercalate d.aliases
    let required := "`,`".intercalate d.permissions
    "\n".intercalate (
      [s!"**Name**: {d.name}", s!"**Description**: {d.description}"] ++
      (if d.aliases.isEmpty then [] else [s!"**Aliases**: {aliases}"]) ++
      (if d.executor.isSome then
        [Text.trimEnd s!"**Usage**: {sigil}{path} {d.usage}",
          Text.trimEnd s!"**Example**: {sigil}{path} {d.sample}"]
        else []) ++
      (if below.isEmpty then []
        else "**Sub-Commands**:" :: below.map (fun id => s!"- {r.name id}")) ++
      (if d.permissions.isEmpty then [] else [s!"**Required Permissions**: `{required}`"]))

end Guildhall.Command
