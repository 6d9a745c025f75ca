import Guildhall.Proofs.Base
import Guildhall.Proofs.Command.Registry
import Mathlib.Data.List.Basic

/-!
# The commands form a forest

A command stands under one that was registered before it. Each level lists the commands under one
command, in the order of their registration, and its index leads from what they answer to to them
and nowhere else.
-/

namespace Guildhall.Command

variable {ε : Type}

namespace Registry

def keysOf (r : Registry ε) (id : Nat) : List String := (r.definition? id).elim [] Definition.keys

/-- The level at which a command stands: under which one, or none for the root. -/
def place (r : Registry ε) (id : Nat) : Option (Option Nat) := r.nodes[id]?.map (·.parent)

def namesTo (r : Registry ε) (id : Option Nat) : List String := r.namesUp (r.size + 1) id

/-- Commands stand under earlier ones; the members of a level are the commands that stand under its
command, in order; the index of a level is made of what they answer to, and never names a key
twice. -/
structure Forest (r : Registry ε) : Prop where
  parent_lt : ∀ (id : Nat) (node : Node ε) (p : Nat), r.nodes[id]? = some node →
    node.parent = some p → p < id
  members : ∀ p : Option Nat, (r.levelOf p).members =
    (List.range r.size).filter fun id => r.place id = some p
  keys : ∀ p : Option Nat, (r.levelOf p).keys =
    (r.levelOf p).members.flatMap fun id => (r.keysOf id).map (·, id)
  apart : ∀ p : Option Nat, ((r.levelOf p).keys.map (·.1)).Nodup

variable {r grown : Registry ε} {parent : Option Nat} {d : Definition ε}

theorem size_insert : (r.insert parent d).size = r.size + 1 := by
  cases parent <;> simp [insert, size]

/-- A new command comes last; of the others only the level of its parent changes. -/
theorem nodes_insert (id : Nat) :
    (r.insert parent d).nodes[id]? =
      if id = r.size then some ⟨d, parent, .empty⟩
      else r.nodes[id]?.map fun node => { node with
        level := if parent = some id then node.level.insert d.keys r.size else node.level } := by
  have hlast (nodes : List (Node ε)) (hlength : nodes.length = r.size) :
      (nodes ++ [⟨d, parent, .empty⟩])[id]? =
        if id = r.size then some ⟨d, parent, .empty⟩ else nodes[id]? := by
    rcases Nat.lt_trichotomy id nodes.length with hlt | heq | hgt
    · rw [List.getElem?_append_left hlt, if_neg (by omega)]
    · simp [heq, hlength]
    · rw [if_neg (by omega), List.getElem?_eq_none (by simp; omega),
        List.getElem?_eq_none (by omega)]
  cases parent with
  | none => simp [insert, hlast r.nodes rfl]
  | some p =>
    simp only [insert]
    rw [hlast _ (by simp [size]), List.getElem?_modify]
    split
    · rfl
    · cases r.nodes[id]? with
      | none => rfl
      | some node => by_cases hp : p = id <;> simp [hp]

/-- The level of the parent grows by the new command, the other levels stay as they are. -/
theorem levelOf_insert (hparent : ∀ p, parent = some p → p < r.size) (q : Option Nat) :
    (r.insert parent d).levelOf q =
      if q = parent then (r.levelOf q).insert d.keys r.size else r.levelOf q := by
  cases q with
  | none => cases parent <;> simp [levelOf, insert]
  | some id =>
    simp only [levelOf, nodes_insert]
    by_cases hid : id = r.size
    · have hne : some id ≠ parent := by
        intro heq
        have hlt := hparent id heq.symm
        omega
      have hnone : r.nodes[id]? = none := List.getElem?_eq_none (by simp [hid, size])
      simp [if_pos hid, if_neg hne, hnone]
    · rw [if_neg hid]
      cases hnode : r.nodes[id]? with
      | none =>
        have hne : some id ≠ parent := by
          intro heq
          have hlt := hparent id heq.symm
          rw [List.getElem?_eq_none_iff] at hnode
          exact Nat.not_lt.mpr hnode hlt
        rw [if_neg hne]
        rfl
      | some node =>
        by_cases heq : some id = parent
        · simp [heq]
        · simp [heq, Ne.symm heq]

theorem place_insert (id : Nat) :
    (r.insert parent d).place id = if id = r.size then some parent else r.place id := by
  unfold place
  rw [nodes_insert]
  split
  · rfl
  · rw [Option.map_map]
    rfl

theorem keysOf_insert (id : Nat) :
    (r.insert parent d).keysOf id = if id = r.size then d.keys else r.keysOf id := by
  unfold keysOf definition?
  rw [nodes_insert]
  split
  · rfl
  · rw [Option.map_map]
    rfl

theorem keys_insertLevel (l : Level) (keys : List String) (id : Nat) :
    ((l.insert keys id).keys.map (·.1)) = l.keys.map (·.1) ++ keys := by
  simp [Level.insert, Function.comp_def]

namespace Forest

theorem lt_size_of_mem (hf : r.Forest) {p : Option Nat} {id : Nat}
    (h : id ∈ (r.levelOf p).members) : id < r.size := by
  rw [hf.members] at h
  exact List.mem_range.mp (List.mem_of_mem_filter h)

theorem empty : (Registry.empty : Registry ε).Forest := by
  have hlevel (p : Option Nat) : (Registry.empty : Registry ε).levelOf p = .empty := by
    cases p <;> rfl
  refine ⟨fun id node p h => ?_, fun p => ?_, fun p => ?_, fun p => ?_⟩
  · simp [Registry.empty] at h
  · rw [hlevel]
    rfl
  · rw [hlevel]
    rfl
  · rw [hlevel]
    exact List.nodup_nil

/-- A command whose keys are new at its level joins the forest. -/
theorem insert (hf : r.Forest) (hparent : ∀ p, parent = some p → p < r.size)
    (hfree : ∀ key ∈ d.keys, key ∉ (r.levelOf parent).keys.map (·.1)) (hnodup : d.keys.Nodup) :
    (r.insert parent d).Forest := by
  have hnew : (r.insert parent d).keysOf r.size = d.keys := by rw [keysOf_insert, if_pos rfl]
  -- Older members answer to what they answered to before.
  have hkeysOf (q : Option Nat) : ((r.levelOf q).members.flatMap fun id =>
      ((r.insert parent d).keysOf id).map (·, id)) = (r.levelOf q).keys := by
    rw [hf.keys, List.flatMap_def, List.flatMap_def]
    congr 1
    apply List.map_congr_left
    intro id hid
    rw [keysOf_insert, if_neg (Nat.ne_of_lt (hf.lt_size_of_mem hid))]
  refine ⟨fun id node p hnode hp => ?_, fun q => ?_, fun q => ?_, fun q => ?_⟩
  · have hplace : (r.insert parent d).place id = _ := place_insert id
    rw [place, hnode, Option.map_some, hp] at hplace
    split at hplace
    case isTrue heq => exact heq ▸ hparent p (Option.some.inj hplace).symm
    case isFalse =>
      obtain ⟨old, hold, hparent⟩ := Option.map_eq_some_iff.mp hplace.symm
      exact hf.parent_lt id old p hold hparent
  · have hlast : (r.insert parent d).place r.size = some parent := by
      rw [place_insert, if_pos rfl]
    have hfilter : ((List.range r.size).filter fun id => (r.insert parent d).place id = some q) =
        (r.levelOf q).members := by
      rw [hf.members]
      apply List.filter_congr
      intro id hid
      rw [place_insert, if_neg (Nat.ne_of_lt (List.mem_range.mp hid))]
    rw [levelOf_insert hparent, size_insert, List.range_succ, List.filter_append, hfilter]
    by_cases heq : q = parent
    · simp [heq, hlast, Level.insert]
    · simp [heq, hlast, Ne.symm heq]
  · rw [levelOf_insert hparent]
    split
    · simp only [Level.insert, List.flatMap_append, hkeysOf, List.flatMap_singleton, hnew]
    · exact (hkeysOf q).symm
  · rw [levelOf_insert hparent]
    split
    case isTrue heq =>
      subst heq
      rw [keys_insertLevel, List.nodup_append]
      refine ⟨hf.apart q, hnodup, fun old hmem fresh hfresh heq => ?_⟩
      exact hfree fresh hfresh (heq ▸ hmem)
    case isFalse => exact hf.apart q

theorem lookup_eq_some (hf : r.Forest) {p : Option Nat} {key : String} {id : Nat} :
    (r.levelOf p).keys.lookup key = some id ↔
      ∃ node, r.nodes[id]? = some node ∧ node.parent = p ∧ key ∈ node.definition.keys := by
  rw [← Assoc.mem_iff_lookup (hf.apart p), hf.keys, List.mem_flatMap]
  constructor
  · rintro ⟨other, hmember, hkey⟩
    obtain ⟨word, hword, heq⟩ := List.mem_map.mp hkey
    cases heq
    rw [hf.members, List.mem_filter, decide_eq_true_eq] at hmember
    obtain ⟨node, hnode, hparent⟩ := Option.map_eq_some_iff.mp hmember.2
    refine ⟨node, hnode, hparent, ?_⟩
    simpa [keysOf, definition?, hnode] using hword
  · rintro ⟨node, hnode, hparent, hkey⟩
    refine ⟨id, ?_, List.mem_map.mpr ⟨key, ?_, rfl⟩⟩
    · have hlt : id < r.size := (List.getElem?_eq_some_iff.mp hnode).1
      rw [hf.members, List.mem_filter, decide_eq_true_eq]
      exact ⟨List.mem_range.mpr hlt, by rw [place, hnode, Option.map_some, hparent]⟩
    · simpa [keysOf, definition?, hnode] using hkey

theorem count_members (hf : r.Forest) (p : Option Nat) (id : Nat) :
    (r.levelOf p).members.count id = if r.place id = some p then 1 else 0 := by
  have hnodup : (r.levelOf p).members.Nodup := by
    rw [hf.members]
    exact List.nodup_range.filter _
  rw [hnodup.count]
  have hmem : id ∈ (r.levelOf p).members ↔ r.place id = some p := by
    rw [hf.members, List.mem_filter, List.mem_range, decide_eq_true_eq, and_iff_right_iff_imp]
    intro hplace
    obtain ⟨node, hnode, -⟩ := Option.map_eq_some_iff.mp hplace
    exact (List.getElem?_eq_some_iff.mp hnode).1
  simp only [hmem]

theorem walkPath_lt (hf : r.Forest) {path words : List String} {here there : Option Nat}
    (hhere : ∀ p, here = some p → p < r.size) (h : r.walkPath path here words = .ok there) :
    ∀ p, there = some p → p < r.size := by
  induction words generalizing here with
  | nil =>
    cases h
    exact hhere
  | cons word rest ih =>
    rw [walkPath] at h
    split at h
    case h_1 id hchild =>
      refine ih (fun p hp => ?_) h
      obtain ⟨node, hnode, -, -⟩ := hf.lookup_eq_some.mp hchild
      cases hp
      exact (List.getElem?_eq_some_iff.mp hnode).1
    case h_2 => cases h

end Forest

theorem Reachable.forest (hr : r.Reachable) : r.Forest := by
  induction hr with
  | empty => exact .empty
  | register before check registered ih =>
    obtain ⟨-, parent, hparent, hfree, hnodup, rfl⟩ := register_eq_ok.mp registered
    exact ih.insert (ih.walkPath_lt (fun p hp => by cases hp) hparent) hfree hnodup
  | @close r before ih =>
    have hlevel (p : Option Nat) : r.close.levelOf p = r.levelOf p := by cases p <;> rfl
    exact ⟨ih.parent_lt, fun p => (hlevel p).symm ▸ ih.members p,
      fun p => (hlevel p).symm ▸ ih.keys p, fun p => (hlevel p).symm ▸ ih.apart p⟩

/-- Words that spell a path from the root: for each command on it a name or an alias, in whatever
case. -/
inductive Spells (r : Registry ε) : Option Nat → List String → Prop
  | root : Spells r none []
  | child {id : Nat} {node : Node ε} {words : List String} {word : String}
      (found : r.nodes[id]? = some node) (above : Spells r node.parent words)
      (answers : Text.lower word ∈ node.definition.keys) : Spells r (some id) (words ++ [word])

def Leads (r : Registry ε) (here : Option Nat) (word : String) : Prop :=
  ∃ (id : Nat) (node : Node ε), r.nodes[id]? = some node ∧ node.parent = here ∧
    Text.lower word ∈ node.definition.keys

theorem Spells.descend_append {here : Option Nat} {words : List String} (h : r.Spells here words)
    (hf : r.Forest) (rest : List String) :
    r.descend none (words ++ rest) = r.descend here rest := by
  induction h generalizing rest with
  | root => rfl
  | @child id node words word found above answers ih =>
    have hchild : r.child? node.parent word = some id :=
      hf.lookup_eq_some.mpr ⟨node, found, rfl, answers⟩
    rw [List.append_assoc, ih, List.singleton_append, descend, hchild]

theorem Forest.descend_lt (hf : r.Forest) (words : List String) {here : Option Nat}
    (hhere : ∀ p, here = some p → p < r.size) :
    ∀ p, (r.descend here words).1 = some p → p < r.size := by
  induction words generalizing here with
  | nil => exact hhere
  | cons word rest ih =>
    rw [descend]
    split
    case h_1 id hchild =>
      obtain ⟨node, hnode, -, -⟩ := hf.lookup_eq_some.mp hchild
      have hlt : id < r.size := (List.getElem?_eq_some_iff.mp hnode).1
      exact ih fun p hp => Option.some.inj hp ▸ hlt
    case h_2 => exact hhere

theorem Forest.exists_definition (hf : r.Forest) {words args : List String} {id : Nat}
    (h : r.lookup words = (some id, args)) : ∃ definition, r.definition? id = some definition := by
  have hlt : id < r.nodes.length :=
    hf.descend_lt words (fun p (hp : none = some p) => by cases hp) id
      (congrArg Prod.fst h)
  exact ⟨r.nodes[id].definition, by rw [definition?, List.getElem?_eq_getElem hlt]; rfl⟩

theorem Forest.descend_stop (hf : r.Forest) {here : Option Nat} {words : List String}
    (h : ∀ word ∈ words.head?, ¬ r.Leads here word) : r.descend here words = (here, words) := by
  cases words with
  | nil => rfl
  | cons word rest =>
    have hchild : r.child? here word = none := by
      rw [Option.eq_none_iff_forall_not_mem]
      intro id hid
      obtain ⟨node, hnode, hparent, hkey⟩ := hf.lookup_eq_some.mp hid
      exact h word rfl ⟨id, node, hnode, hparent, hkey⟩
    rw [descend, hchild]

theorem Spells.lookup_append {here : Option Nat} {words rest : List String}
    (h : r.Spells here words) (hf : r.Forest) (hrest : ∀ word ∈ rest.head?, ¬ r.Leads here word) :
    r.lookup (words ++ rest) = (here, rest) := by
  rw [lookup, h.descend_append hf, hf.descend_stop hrest]

theorem namesUp_none (r : Registry ε) (fuel : Nat) : r.namesUp fuel none = [] := by
  cases fuel <;> rfl

theorem Forest.namesUp_eq (hf : r.Forest) {id fuel : Nat} (hfuel : id < fuel) :
    r.namesUp fuel (some id) = r.namesUp (id + 1) (some id) := by
  induction id using Nat.strongRecOn generalizing fuel with
  | _ id ih =>
    obtain ⟨fuel, rfl⟩ := Nat.exists_eq_add_one_of_ne_zero (Nat.ne_zero_of_lt hfuel)
    simp only [namesUp]
    cases hnode : r.nodes[id]? with
    | none => rfl
    | some node =>
      cases hparent : node.parent with
      | none => simp [hparent, namesUp_none]
      | some p =>
        have hlt := hf.parent_lt id node p hnode hparent
        simp only [hparent, ih p hlt (show p < fuel by omega), ih p hlt hlt]

theorem Forest.namesTo_eq (hf : r.Forest) {id : Nat} {node : Node ε}
    (hnode : r.nodes[id]? = some node) :
    r.namesTo (some id) = r.namesTo node.parent ++ [node.definition.name] := by
  have hlt : id < r.size := (List.getElem?_eq_some_iff.mp hnode).1
  rw [namesTo, namesUp, hnode]
  dsimp only
  cases hparent : node.parent with
  | none => simp [namesTo, namesUp_none]
  | some p =>
    have hp := hf.parent_lt id node p hnode hparent
    rw [namesTo, hf.namesUp_eq (show p < r.size by omega),
      hf.namesUp_eq (show p < r.size + 1 by omega)]

end Registry

end Guildhall.Command
