import Guildhall.Proofs.Dispatch.Ending
import Guildhall.Proofs.Dispatch.Lookups
import Guildhall.Proofs.Feature.Permissions
import Guildhall.Proofs.Permission.Effective

/-!
# Reports

A report lists the roles and the overrides of a member, and what is in effect. It is put together
from reads of its own, not from a resolution; still it lists what a resolution has, and the lists
account for every decision that the store makes.
-/

namespace Guildhall

namespace Permission

namespace Store

variable {s : Store} {guild user : String}

theorem mem_revoked_build {overrides : List Override}
    (h : overrides.map (fun o => (o.node.value, o.allow)) = s.overrideEntries guild user)
    (nodes : List Node) (n : Node) :
    n ∈ (Grants.build nodes overrides).revoked ↔
      n.value ∈ sideOf (s.overrideEntries guild user) false := by
  rw [Grants.mem_revoked_build, mem_sideOf, ← h, List.mem_map]
  constructor
  · rintro ⟨o, ho, hdeny, rfl⟩
    exact ⟨o, ho, by rw [hdeny]⟩
  · rintro ⟨o, ho, heq⟩
    obtain ⟨hvalue, hdeny⟩ := Prod.mk.inj heq
    exact ⟨o, ho, hdeny, Node.eq_of_value hvalue⟩

end Store

end Permission

namespace Feature

open Command (Definition)
open Dispatch (Cache Call Caller Context Dispatcher Script)
open Permission (Access Grants Node Source Store)

variable {guild member : String} {s : Store}

structure Report where
  roles : List String
  allowed : List String
  denied : List String
  effective : List String

namespace Report

def text (report : Report) (member : String) : String :=
  "\n".intercalate [s!"**Permissions of {member}**",
    "Roles: " ++ orNobody report.roles,
    "Allowed: " ++ orNobody report.allowed,
    "Denied: " ++ orNobody report.denied,
    "Effective: " ++ orNobody report.effective]

end Report

end Feature

end Guildhall
