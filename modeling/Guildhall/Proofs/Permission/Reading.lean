import Guildhall.Permission.Resolver
import Guildhall.Proofs.Permission.Grants

/-!
# What a resolution reads

A resolution reads the roles of a member, the permissions of each role and the overrides. What it
arrives at is told here in terms of these readings, whatever kind of store gives them.
-/

namespace Guildhall.Permission

structure Reading where
  roles : List (String × List String)
  overrides : List Override

namespace Reading

variable {r : Reading} {n : Node}

def GrantedByRole (r : Reading) (n : Node) : Prop :=
  ∃ role ∈ r.roles, ∃ text ∈ role.2, ∃ held, Node.parse text = .ok held ∧ held.covers n = true

def Overridden (r : Reading) (allow : Bool) (n : Node) : Prop :=
  ∃ o ∈ r.overrides, o.allow = allow ∧ o.node.covers n = true

def Holds (r : Reading) (n : Node) : Prop :=
  (r.GrantedByRole n ∨ r.Overridden true n) ∧ ¬ r.Overridden false n

/-- The permissions that the readings amount to, unless a role has a malformed one. -/
def resolved (r : Reading) : Except Malformed Grants := do
  return .build (← parseAll (r.roles.flatMap (·.2))) r.overrides

theorem resolved_has {g : Grants} (h : r.resolved = .ok g) : g.has n = true ↔ r.Holds n := by
  obtain ⟨nodes, hnodes, hg⟩ := bind_eq_ok.mp h
  cases hg
  rw [Grants.build_has_iff]
  refine and_congr (or_congr ?_ Iff.rfl) Iff.rfl
  simp only [mem_of_parseAll hnodes, List.mem_flatMap]
  constructor
  · rintro ⟨held, ⟨text, ⟨role, hrole, htext⟩, hp⟩, hc⟩
    exact ⟨role, hrole, text, htext, held, hp, hc⟩
  · rintro ⟨role, hrole, text, htext, held, hp, hc⟩
    exact ⟨held, ⟨text, ⟨role, hrole, htext⟩, hp⟩, hc⟩

end Reading

namespace Source

variable {σ : Type} (source : Source σ)

def roleReadings (guild : String) :
    List String → σ → Except Failure (List (String × List String)) × σ
  | [], s => (.ok [], s)
  | role :: rest, s =>
    match source.rolePermissions guild role s with
    | (.error e, s) => (.error e, s)
    | (.ok nodes, s) =>
      match roleReadings guild rest s with
      | (.error e, s) => (.error e, s)
      | (.ok more, s) => (.ok ((role, nodes) :: more), s)

/-- Everything that is read about a member, or what the store failed with. -/
def reading (guild user : String) (s : σ) : Except Failure Reading × σ :=
  match source.memberRoles guild user s with
  | (.error e, s) => (.error e, s)
  | (.ok roles, s) =>
    match source.roleReadings guild (sortTexts roles) s with
    | (.error e, s) => (.error e, s)
    | (.ok roles, s) =>
      match source.overrides guild user s with
      | (.error e, s) => (.error e, s)
      | (.ok overrides, s) => (.ok ⟨roles, overrides⟩, s)

theorem allRolePermissions_eq (guild : String) (roles : List String) (s : σ) :
    source.allRolePermissions guild roles s =
      ((source.roleReadings guild roles s).1.map (·.flatMap (·.2)),
        (source.roleReadings guild roles s).2) := by
  induction roles generalizing s with
  | nil => rfl
  | cons role rest ih =>
    unfold allRolePermissions roleReadings
    obtain ⟨told, s'⟩ := source.rolePermissions guild role s
    cases told with
    | error e => rfl
    | ok nodes =>
      simp only [ih]
      obtain ⟨more, s''⟩ := source.roleReadings guild rest s'
      cases more <;> rfl

theorem read_eq (guild user : String) (s : σ) :
    source.read guild user s =
      ((source.reading guild user s).1.bind fun r => orFailure r.resolved,
        (source.reading guild user s).2) := by
  unfold read reading
  obtain ⟨roles, s⟩ := source.memberRoles guild user s
  cases roles with
  | error e => rfl
  | ok roles =>
    simp only [allRolePermissions_eq]
    obtain ⟨readings, s⟩ := source.roleReadings guild (sortTexts roles) s
    cases readings with
    | error e => rfl
    | ok readings =>
      simp only [Except.map]
      obtain ⟨overrides, s⟩ := source.overrides guild user s
      cases overrides with
      | error e => rfl
      | ok overrides =>
        simp only [Except.bind, Reading.resolved]
        cases parseAll (readings.flatMap (·.2)) <;> rfl

theorem resolve_eq_ok {guild user : String} {s : σ} {g : Grants} :
    (source.resolve (some guild) user s).1 = .ok g ↔
      ∃ r, (source.reading guild user s).1 = .ok r ∧ r.resolved = .ok g := by
  simp only [resolve, read_eq]
  cases (source.reading guild user s).1 with
  | error e => simp [Except.bind]
  | ok r => cases h : r.resolved <;> simp [Except.bind, orFailure, h]

end Source

@[simp] theorem Source.memory_memberRoles (guild user : String) (s : Store) :
    Source.memory.memberRoles guild user s = (.ok (s.memberRoles guild user), s) := rfl

@[simp] theorem Source.memory_rolePermissions (guild role : String) (s : Store) :
    Source.memory.rolePermissions guild role s = (.ok (s.rolePermissions guild role), s) := rfl

@[simp] theorem Source.memory_overrides (guild user : String) (s : Store) :
    Source.memory.overrides guild user s = (orFailure (s.overrides guild user), s) := rfl

/-- What a store in memory records about a member; their overrides must be well formed. -/
def Store.reading (s : Store) (guild user : String) : Except Malformed Reading := do
  let overrides ← s.overrides guild user
  return ⟨(sortTexts (s.memberRoles guild user)).map fun role =>
    (role, s.rolePermissions guild role), overrides⟩

theorem Source.reading_memory (s : Store) (guild user : String) :
    Source.memory.reading guild user s = (orFailure (s.reading guild user), s) := by
  have hroles (roles : List String) : Source.memory.roleReadings guild roles s =
      (.ok (roles.map fun role => (role, s.rolePermissions guild role)), s) := by
    induction roles with
    | nil => rfl
    | cons role rest ih => simp [roleReadings, ih]
  simp only [Source.reading, Source.memory_memberRoles, Source.memory_overrides, hroles,
    Store.reading]
  cases s.overrides guild user <;> rfl

end Guildhall.Permission
