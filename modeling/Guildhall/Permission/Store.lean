import Guildhall.Assoc
import Guildhall.Permission.Grants

/-!
# Permission store

Roles of members, permissions of roles and overrides of members, guild by guild.
-/

namespace Guildhall.Permission

/-- What one guild records. Sets are lists without repetitions, identifiers are in canonical
form. -/
structure GuildRecord where
  roles : List (String × List String)
  members : List (String × List String)
  overrides : List (String × List (String × Bool))
  deriving DecidableEq, Repr

def GuildRecord.empty : GuildRecord := ⟨[], [], []⟩

structure Store where
  guilds : List (String × GuildRecord)
  deriving DecidableEq, Repr

/-- A change to a store. Identifiers are as the user wrote them until `canonical`. -/
inductive Write
  | setMemberRoles (guild user : String) (roles : List String)
  | grantRole (guild role node : String)
  | revokeRole (guild role node : String)
  | setOverride (guild user node : String) (allow : Bool)
  | clearOverride (guild user node : String)
  deriving DecidableEq, Repr

/-- The change with its identifier in canonical form, or what is wrong with the identifier. -/
def Write.canonical : Write → Except Malformed Write
  | setMemberRoles guild user roles => .ok (.setMemberRoles guild user (distinct roles))
  | grantRole guild role node => do return .grantRole guild role (← Node.parse node).value
  | revokeRole guild role node => do return .revokeRole guild role (← Node.parse node).value
  | setOverride guild user node allow => do
    return .setOverride guild user (← Node.parse node).value allow
  | clearOverride guild user node => do
    return .clearOverride guild user (← Node.parse node).value

namespace Store

def empty : Store := ⟨[]⟩

/-- The record of a guild; an unknown guild has an empty one. -/
def guild (s : Store) (id : String) : GuildRecord :=
  (s.guilds.lookup id).getD .empty

def setGuild (s : Store) (id : String) (record : GuildRecord) : Store :=
  ⟨Assoc.put id record s.guilds⟩

def memberRoles (s : Store) (guild user : String) : List String :=
  ((s.guild guild).members.lookup user).getD []

def rolePermissions (s : Store) (guild role : String) : List String :=
  ((s.guild guild).roles.lookup role).getD []

/-- The recorded overrides of a member, as identifiers and decisions. -/
def overrideEntries (s : Store) (guild user : String) : List (String × Bool) :=
  ((s.guild guild).overrides.lookup user).getD []

def readOverrides : List (String × Bool) → Except Malformed (List Override)
  | [] => .ok []
  | (value, allow) :: rest => do
    let node ← Node.parse value
    let overrides ← readOverrides rest
    return ⟨node, allow⟩ :: overrides

def overrides (s : Store) (guild user : String) : Except Malformed (List Override) :=
  readOverrides (s.overrideEntries guild user)

/-- The store after a canonical change, and whether there was anything to change: clearing an
override that is not there leaves nothing to save. -/
def apply (s : Store) : Write → Store × Bool
  | .setMemberRoles guild user roles =>
    let record := s.guild guild
    (s.setGuild guild { record with members := Assoc.put user roles record.members }, true)
  | .grantRole guild role node =>
    let record := s.guild guild
    let nodes := Assoc.withItem node ((record.roles.lookup role).getD [])
    (s.setGuild guild { record with roles := Assoc.put role nodes record.roles }, true)
  | .revokeRole guild role node =>
    let record := s.guild guild
    match record.roles.lookup role with
    | none => (s.setGuild guild record, true)
    | some nodes =>
      (s.setGuild guild
        { record with roles := Assoc.put role (nodes.filter (· ≠ node)) record.roles }, true)
  | .setOverride guild user node allow =>
    let record := s.guild guild
    let entries := Assoc.put node allow ((record.overrides.lookup user).getD [])
    (s.setGuild guild { record with overrides := Assoc.put user entries record.overrides }, true)
  | .clearOverride guild user node =>
    let record := s.guild guild
    match record.overrides.lookup user with
    | none => (s.setGuild guild record, false)
    | some entries =>
      if (entries.lookup node).isSome then
        (s.setGuild guild
          { record with overrides := Assoc.put user (Assoc.remove node entries) record.overrides },
          true)
      else (s.setGuild guild record, false)

/-- The store after a change as the user wrote it. -/
def write (s : Store) (w : Write) : Except Malformed (Store × Bool) := do
  return s.apply (← w.canonical)

end Store

end Guildhall.Permission
