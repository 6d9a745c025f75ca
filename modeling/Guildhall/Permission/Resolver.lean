import Guildhall.Failure
import Guildhall.Permission.Store

/-!
# Resolving permissions

The permissions of a member, from three reads of a store that may fail and may change the state
the store lives in.
-/

namespace Guildhall.Permission

structure Source (σ : Type) where
  memberRoles : String → String → σ → Except Failure (List String) × σ
  rolePermissions : String → String → σ → Except Failure (List String) × σ
  overrides : String → String → σ → Except Failure (List Override) × σ

variable {σ : Type}

def Malformed.failure (fault : Malformed) : Failure :=
  .invalidValue fault.message

def orFailure {α : Type} : Except Malformed α → Except Failure α
  | .ok a => .ok a
  | .error fault => .error fault.failure

def Source.memory : Source Store where
  memberRoles guild user s := (.ok (s.memberRoles guild user), s)
  rolePermissions guild role s := (.ok (s.rolePermissions guild role), s)
  overrides guild user s := (orFailure (s.overrides guild user), s)

def Source.allRolePermissions (source : Source σ) (guild : String) :
    List String → σ → Except Failure (List String) × σ
  | [], s => (.ok [], s)
  | role :: rest, s =>
    match source.rolePermissions guild role s with
    | (.error e, s) => (.error e, s)
    | (.ok nodes, s) =>
      match source.allRolePermissions guild rest s with
      | (.error e, s) => (.error e, s)
      | (.ok more, s) => (.ok (nodes ++ more), s)

/-- The permissions of a member of a guild, or what the store failed with. -/
def Source.read (source : Source σ) (guild user : String) (s : σ) :
    Except Failure Grants × σ :=
  match source.memberRoles guild user s with
  | (.error e, s) => (.error e, s)
  | (.ok roles, s) =>
    match source.allRolePermissions guild (sortTexts roles) s with
    | (.error e, s) => (.error e, s)
    | (.ok texts, s) =>
      match source.overrides guild user s with
      | (.error e, s) => (.error e, s)
      | (.ok overrides, s) =>
        match parseAll texts with
        | .error fault => (.error fault.failure, s)
        | .ok nodes => (.ok (.build nodes overrides), s)

/-- The permissions of a user: none outside guilds, else those of the member; a failure of the
store is reported as a failed lookup. -/
def Source.resolve (source : Source σ) (guild : Option String) (user : String) (s : σ) :
    Except DispatchError Grants × σ :=
  match guild with
  | none => (.ok .none, s)
  | some guild =>
    match source.read guild user s with
    | (.ok grants, s) => (.ok grants, s)
    | (.error e, s) => (.error (.lookupFailed (some guild) user e.message e), s)

end Guildhall.Permission
