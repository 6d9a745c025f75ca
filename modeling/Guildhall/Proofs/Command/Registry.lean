import Guildhall.Command.Registry
import Guildhall.Proofs.Permission.Node

/-!
# Registries in use

The registries that come about by registering commands and closing the tree. What their commands
require is in canonical form.
-/

namespace Guildhall.Command

open Permission (CanonicalTexts)

variable {ε : Type}

theorem Definition.check_eq_ok {d checked : Definition ε} :
    d.check = .ok checked ↔ namesFault? d.name d.aliases = none ∧
      ∃ nodes, Permission.parseAll d.permissions = .ok nodes ∧
        checked = { d with permissions := nodes.map (·.value) } := by
  unfold check
  cases namesFault? d.name d.aliases with
  | some complaint => simp
  | none =>
    cases Permission.parseAll d.permissions with
    | error fault => simp
    | ok nodes => simp [eq_comm]

theorem Definition.check_permissions {d checked : Definition ε} (h : d.check = .ok checked) :
    CanonicalTexts checked.permissions := by
  obtain ⟨-, nodes, hnodes, rfl⟩ := check_eq_ok.mp h
  refine ⟨nodes, fun n hn => ?_, rfl⟩
  obtain ⟨text, -, hparse⟩ := (Permission.mem_of_parseAll hnodes).mp hn
  exact Permission.Node.canonical_of_parse hparse

theorem nameFault?_eq_none {role value : String} :
    nameFault? role value = none ↔ value ≠ "" ∧ ∀ c ∈ value.toList, isPathSeparator c = false := by
  simp [nameFault?]

theorem Definition.check_name {d checked : Definition ε} (h : d.check = .ok checked) :
    checked.name ≠ "" ∧ ∀ c ∈ checked.name.toList, isPathSeparator c = false := by
  obtain ⟨hnames, nodes, -, rfl⟩ := check_eq_ok.mp h
  cases hname : nameFault? "name" d.name with
  | none => exact nameFault?_eq_none.mp hname
  | some complaint => simp [namesFault?, hname] at hnames

namespace Registry

/-- A registry that comes about from an empty one by registering well-formed definitions, added
at once or drafted before, and by closing it. -/
inductive Reachable : Registry ε → Prop
  | empty : Reachable empty
  | register {r grown : Registry ε} {d checked : Definition ε} {path : List String}
      (before : Reachable r) (check : d.check = .ok checked)
      (registered : r.register path checked = .ok grown) : Reachable grown
  | close {r : Registry ε} (before : Reachable r) : Reachable r.close

/-- A definition is registered in an open registry, below the command at its path, if what it
answers to is new at its level and nothing comes twice. -/
theorem register_eq_ok {r grown : Registry ε} {path : List String} {d : Definition ε} :
    r.register path d = .ok grown ↔
      r.isSealed = false ∧ ∃ parent, r.walkPath path none path = .ok parent ∧
        (∀ key ∈ d.keys, key ∉ (r.levelOf parent).keys.map (·.1)) ∧ d.keys.Nodup ∧
        grown = r.insert parent d := by
  unfold register
  constructor
  · intro h
    split at h
    case isTrue => cases h
    case isFalse hopen =>
      split at h
      case h_1 => cases h
      case h_2 parent hparent =>
        dsimp only at h
        split at h
        case h_1 => cases h
        case h_2 hfree =>
          split at h
          case isFalse => cases h
          case isTrue hnodup =>
            refine ⟨by simpa using hopen, parent, hparent, fun key hkey => ?_, hnodup, ?_⟩
            · simpa using List.find?_eq_none.mp hfree key hkey
            · exact (Except.ok.inj h).symm
  · rintro ⟨hopen, parent, hparent, hfree, hnodup, rfl⟩
    have hnone : (d.keys.find? fun key =>
        ((r.levelOf parent).keys.map (·.1)).contains key) = none := by
      rw [List.find?_eq_none]
      intro key hkey
      simpa using hfree key hkey
    simp only [hopen, Bool.false_eq_true, if_false, hparent, hnone, if_pos hnodup]

theorem insert_definitions (r : Registry ε) (parent : Option Nat) (d : Definition ε) :
    (r.insert parent d).nodes.map (·.definition) = r.nodes.map (·.definition) ++ [d] := by
  cases parent with
  | none => simp [insert]
  | some p =>
    have hmodify (nodes : List (Node ε)) (f : Level → Level) :
        (nodes.modify p fun above => { above with level := f above.level }).map
          (·.definition) = nodes.map (·.definition) := by
      induction nodes generalizing p with
      | nil => simp
      | cons node rest ih =>
        cases p with
        | zero => simp
        | succ p => simp [ih]
    simp only [insert, List.map_append, List.map_cons, List.map_nil]
    rw [hmodify r.nodes fun level => level.insert d.keys r.size]

theorem Reachable.checked {P : Definition ε → Prop}
    (hcheck : ∀ d checked : Definition ε, d.check = .ok checked → P checked) {r : Registry ε}
    (hr : r.Reachable) : ∀ d ∈ r.nodes.map (·.definition), P d := by
  induction hr with
  | empty => simp [Registry.empty]
  | register before check registered ih =>
    obtain ⟨-, parent, -, -, -, rfl⟩ := register_eq_ok.mp registered
    intro d hd
    rw [insert_definitions, List.mem_append, List.mem_singleton] at hd
    rcases hd with hd | rfl
    · exact ih d hd
    · exact hcheck _ _ check
  | close before ih => exact ih

theorem Reachable.canonicalTexts {r : Registry ε} (hr : r.Reachable) {id : Nat}
    {d : Definition ε} (h : r.definition? id = some d) : CanonicalTexts d.permissions := by
  obtain ⟨node, hnode, rfl⟩ := Option.map_eq_some_iff.mp h
  exact hr.checked (fun _ _ => Definition.check_permissions) _
    (List.mem_map.mpr ⟨node, List.mem_of_getElem? hnode, rfl⟩)

end Registry

end Guildhall.Command
