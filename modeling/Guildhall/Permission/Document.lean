import Guildhall.Failure
import Guildhall.Permission.Store
import Guildhall.Value

/-!
# Permission documents

A store written as nested mappings and lists, and the reading of such a document. Sections may
be absent or empty; a section of the wrong shape is refused.
-/

namespace Guildhall.Permission

def textList (texts : List String) : Value :=
  .list (texts.map .str)

def setsValue (sets : List (String × List String)) : Value :=
  .map ((Assoc.sorted sets).map fun (name, items) => (.str name, textList (sortTexts items)))

/-- The overrides of one member: the identifiers allowed and those denied. -/
def overrideValue (entries : List (String × Bool)) : Value :=
  let side (allow : Bool) : Value :=
    textList (sortTexts ((entries.filter (·.2 == allow)).map (·.1)))
  .map [(.str "allow", side true), (.str "deny", side false)]

def overridesValue (overrides : List (String × List (String × Bool))) : Value :=
  .map (((Assoc.sorted overrides).filter fun entry => !entry.2.isEmpty).map
    fun (user, entries) => (.str user, overrideValue entries))

def GuildRecord.toValue (record : GuildRecord) : Value :=
  .map [(.str "roles", setsValue record.roles), (.str "members", setsValue record.members),
    (.str "overrides", overridesValue record.overrides)]

def Store.toValue (s : Store) : Value :=
  .map [(.str "guilds",
    .map ((Assoc.sorted s.guilds).map fun (id, record) => (.str id, record.toValue)))]

def sectionEntries (value : Option Value) : Except Failure (List (Scalar × Value)) :=
  match value with
  | none => .ok []
  | some v =>
    if !v.isTrue then .ok []
    else
      match v with
      | .map entries => .ok entries
      | _ => .error .wrongShape

/-- The items of a list that may be absent or empty: a text stands for its characters and a
mapping for its keys. -/
def listItems (value : Option Value) : Except Failure (List Value) :=
  match value with
  | none => .ok []
  | some v =>
    if !v.isTrue then .ok []
    else
      match v with
      | .list items => .ok items
      | .map entries => .ok (entries.map fun entry => .atom entry.1)
      | .atom (.str s) => .ok (s.toList.map fun c => .str (String.ofList [c]))
      | .atom _ => .error .wrongType

/-- The identifier that an item of a document names, in canonical form. -/
def readNode : Value → Except Failure String
  | .atom (.str s) =>
    match Node.parse s with
    | .ok node => .ok node.value
    | .error fault => .error (.invalidValue fault.message)
  | _ => .error .wrongShape

def readNodes (value : Option Value) : Except Failure (List String) := do
  (← listItems value).mapM readNode

def readRoles : List (Scalar × Value) → List (String × List String) →
    Except Failure (List (String × List String))
  | [], done => .ok done
  | (name, items) :: rest, done => do
    let nodes ← readNodes (some items)
    readRoles rest (Assoc.put name.text (distinct nodes) done)

def readMembers : List (Scalar × Value) → List (String × List String) →
    Except Failure (List (String × List String))
  | [], done => .ok done
  | (name, items) :: rest, done => do
    let roles ← listItems (some items)
    readMembers rest (Assoc.put name.text (distinct (roles.map Value.text)) done)

/-- The decisions on the identifiers of two lists; a denial wins. -/
def mergeDecisions (allowed denied : List String) : List (String × Bool) :=
  denied.foldl (fun entries node => Assoc.put node false entries)
    (allowed.foldl (fun entries node => Assoc.put node true entries) [])

def readOverride (entry : Value) : Except Failure (List (String × Bool)) := do
  let lists ← sectionEntries (some entry)
  let allowed ← readNodes (Value.entry? "allow" lists)
  let denied ← readNodes (Value.entry? "deny" lists)
  return mergeDecisions allowed denied

def readOverrideSection : List (Scalar × Value) → List (String × List (String × Bool)) →
    Except Failure (List (String × List (String × Bool)))
  | [], done => .ok done
  | (name, entry) :: rest, done => do
    let entries ← readOverride entry
    readOverrideSection rest (Assoc.put name.text entries done)

def readGuild (value : Value) : Except Failure GuildRecord := do
  let parts ← sectionEntries (some value)
  let roles ← readRoles (← sectionEntries (Value.entry? "roles" parts)) []
  let members ← readMembers (← sectionEntries (Value.entry? "members" parts)) []
  let overrides ← readOverrideSection (← sectionEntries (Value.entry? "overrides" parts)) []
  return ⟨roles, members, overrides⟩

def readGuilds : List (Scalar × Value) → List (String × GuildRecord) →
    Except Failure (List (String × GuildRecord))
  | [], done => .ok done
  | (id, value) :: rest, done => do
    let record ← readGuild value
    readGuilds rest (Assoc.put id.text record done)

def Store.ofValue (document : Value) : Except Failure Store :=
  match document with
  | .map entries => do
    return ⟨← readGuilds (← sectionEntries (Value.entry? "guilds" entries)) []⟩
  | _ => .error .wrongShape

end Guildhall.Permission
