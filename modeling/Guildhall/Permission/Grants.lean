import Guildhall.Permission.Node

/-!
# Resolved permissions

What one member may do in one guild: identifiers granted by roles and overrides, and
identifiers revoked by overrides, which win.
-/

namespace Guildhall.Permission

structure Override where
  node : Node
  allow : Bool
  deriving DecidableEq, Repr

/-- The items in order, each at its first place only. -/
def distinct {α : Type} [DecidableEq α] : List α → List α
  | [] => []
  | item :: rest => item :: (distinct rest).filter (· ≠ item)

def sortTexts (texts : List String) : List String :=
  texts.mergeSort fun a b => decide (a ≤ b)

structure Grants where
  granted : List Node
  revoked : List Node
  deriving DecidableEq, Repr

namespace Grants

def none : Grants := ⟨[], []⟩

/-- The permissions given by role grants and overrides. -/
def build (roleGrants : List Node) (overrides : List Override) : Grants where
  granted := distinct (roleGrants ++ (overrides.filter (·.allow)).map (·.node))
  revoked := distinct ((overrides.filter (!·.allow)).map (·.node))

def has (g : Grants) (required : Node) : Bool :=
  !g.revoked.any (·.covers required) && g.granted.any (·.covers required)

def hasText (g : Grants) (required : String) : Except Malformed Bool :=
  (Node.parse required).map g.has

/-- The first of the required texts whose identifier is not held. -/
def firstMissing (g : Grants) : List String → Except Malformed (Option String)
  | [] => .ok .none
  | required :: rest => do
    if ← g.hasText required then g.firstMissing rest else return some required

/-- The granted identifiers that no revocation covers, sorted. -/
def effective (g : Grants) : List String :=
  sortTexts ((g.granted.filter fun n => !g.revoked.any (·.covers n)).map (·.value))

def grantedTexts (g : Grants) : List String :=
  sortTexts (g.granted.map (·.value))

def revokedTexts (g : Grants) : List String :=
  sortTexts (g.revoked.map (·.value))

end Grants

end Guildhall.Permission
