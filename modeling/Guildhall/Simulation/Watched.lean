import Guildhall.Permission.Resolver

/-!
# Watched stores

A permission store whose look-ups of member roles are counted, and one of whose reads may fail.
-/

namespace Guildhall.Simulation

open Permission (Source)

structure Counted (σ : Type) where
  inner : σ
  lookups : Nat

variable {σ : Type}

def uncounted {α : Type} (read : σ → Except Failure α × σ) (s : Counted σ) :
    Except Failure α × Counted σ :=
  let (result, inner) := read s.inner
  (result, { s with inner := inner })

def orFail {α : Type} (failing : Option (String × Failure)) (method : String)
    (read : Counted σ → Except Failure α × Counted σ) (s : Counted σ) :
    Except Failure α × Counted σ :=
  match failing with
  | some (name, failure) => if name = method then (.error failure, s) else read s
  | none => read s

def watched (source : Source σ) (failing : Option (String × Failure)) : Source (Counted σ) where
  memberRoles guild user s :=
    orFail failing "get_member_roles" (uncounted (source.memberRoles guild user))
      { s with lookups := s.lookups + 1 }
  rolePermissions guild role :=
    orFail failing "get_role_permissions" (uncounted (source.rolePermissions guild role))
  overrides guild user :=
    orFail failing "get_overrides" (uncounted (source.overrides guild user))

end Guildhall.Simulation
