import Guildhall.Proofs.Command.Forest

/-!
# The order of registrations

Features register their commands when they are loaded. In whatever order this happens, as long as
every registration succeeds, each command ends up at the same place, under the same full name, and
the same words lead to it.
-/

namespace Guildhall.Command

variable {ε : Type}

structure Registration (ε : Type) where
  path : List String
  definition : Definition ε

def Registration.identity (c : Registration ε) : List String × String × List String × Option ε :=
  (c.path, c.definition.name, c.definition.aliases, c.definition.executor)

theorem Registration.keys_congr {c c' : Registration ε} (h : c.identity = c'.identity) :
    c.definition.keys = c'.definition.keys := by
  simp only [identity, Prod.mk.injEq] at h
  rw [Definition.keys, h.2.1, h.2.2.1, Definition.keys]

namespace Registry

variable {r r' grown : Registry ε} {parent p q : Option Nat} {d : Definition ε}

def registerAll : List (Registration ε) → Registry ε → Except RegistrationError (Registry ε)
  | [], r => .ok r
  | c :: rest, r =>
    match r.register c.path c.definition with
    | .error e => .error e
    | .ok grown => registerAll rest grown

/-- Counted from the root, a command comes after the place below which it stands. -/
theorem Forest.parent_above (hf : r.Forest) {id : Nat} {node : Node ε}
    (hnode : r.nodes[id]? = some node) : node.parent.elim 0 (· + 1) < id + 1 := by
  cases hparent : node.parent with
  | none => exact Nat.succ_pos id
  | some k => exact Nat.succ_lt_succ (hf.parent_lt id node k hnode hparent)

theorem Spells.lt_size {id : Nat} {words : List String} (h : r.Spells (some id) words) :
    id < r.size := by
  cases h with
  | child found above answers => exact (List.getElem?_eq_some_iff.mp found).1

theorem Spells.unique {words : List String} (h : r.Spells p words) (h' : r.Spells q words)
    (hf : r.Forest) : p = q := by
  have hp := h.descend_append hf []
  rw [h'.descend_append hf []] at hp
  exact (congrArg Prod.fst hp).symm

theorem spells_of_walkPath {path words before : List String} {here there : Option Nat}
    (hf : r.Forest) (hbefore : r.Spells here before)
    (h : r.walkPath path here words = .ok there) : r.Spells there (before ++ words) := by
  induction words generalizing here before with
  | nil =>
    cases h
    simpa using hbefore
  | cons word rest ih =>
    rw [walkPath] at h
    split at h
    case h_1 id hchild =>
      obtain ⟨node, hnode, hparent, hkey⟩ := hf.lookup_eq_some.mp hchild
      simpa using ih (.child hnode (hparent ▸ hbefore) hkey) h
    case h_2 => cases h

theorem Forest.descend_spells (hf : r.Forest) {here : Option Nat} {before : List String}
    (hbefore : r.Spells here before) (words : List String) :
    ∃ taken rest, words = taken ++ rest ∧ r.Spells (r.descend here words).1 (before ++ taken) ∧
      (r.descend here words).2 = rest ∧
      ∀ word ∈ rest.head?, ¬ r.Leads (r.descend here words).1 word := by
  induction words generalizing here before with
  | nil => exact ⟨[], [], rfl, by simpa [descend] using hbefore, rfl, by simp⟩
  | cons word rest ih =>
    rw [descend]
    split
    case h_1 id hchild =>
      obtain ⟨node, hnode, hparent, hkey⟩ := hf.lookup_eq_some.mp hchild
      obtain ⟨taken, left, rfl, hspells, hleft, hstuck⟩ :=
        ih (.child hnode (hparent ▸ hbefore) hkey)
      exact ⟨word :: taken, left, rfl, by simpa using hspells, hleft, hstuck⟩
    case h_2 hchild =>
      refine ⟨[], word :: rest, rfl, by simpa using hbefore, rfl, fun other hother => ?_⟩
      cases hother
      rintro ⟨id, node, hnode, hparent, hkey⟩
      have hfound : r.child? here word = some id :=
        hf.lookup_eq_some.mpr ⟨node, hnode, hparent, hkey⟩
      rw [hchild] at hfound
      cases hfound

theorem exists_node_insert (parent : Option Nat) (d : Definition ε) {id : Nat} {node : Node ε}
    (h : r.nodes[id]? = some node) :
    ∃ node', (r.insert parent d).nodes[id]? = some node' ∧
      node'.definition = node.definition ∧ node'.parent = node.parent := by
  have hne : id ≠ r.size := Nat.ne_of_lt (List.getElem?_eq_some_iff.mp h).1
  rw [nodes_insert, if_neg hne, h]
  exact ⟨_, rfl, rfl, rfl⟩

theorem Spells.insert {words : List String} (h : r.Spells p words) :
    (r.insert parent d).Spells p words := by
  induction h with
  | root => exact .root
  | child found above answers ih =>
    obtain ⟨node', hnode, hdefinition, hparent⟩ := exists_node_insert parent d found
    exact .child hnode (hparent ▸ ih) (hdefinition ▸ answers)

structure Holds (r : Registry ε) (calls : List (Registration ε)) : Prop where
  forest : r.Forest
  size : r.size = calls.length
  placed : ∀ (id : Nat) (c : Registration ε), calls[id]? = some c →
    ∃ node, r.nodes[id]? = some node ∧ node.definition = c.definition ∧
      r.Spells node.parent c.path

namespace Holds

variable {calls calls' : List (Registration ε)}

theorem empty : (empty : Registry ε).Holds [] := ⟨.empty, rfl, by simp⟩

theorem register {c : Registration ε} (h : r.Holds calls)
    (registered : r.register c.path c.definition = .ok grown) : grown.Holds (calls ++ [c]) := by
  obtain ⟨-, parent, hparent, hfree, hnodup, rfl⟩ := register_eq_ok.mp registered
  have hlt := h.forest.walkPath_lt (fun p hp => by cases hp) hparent
  have hspells : r.Spells parent c.path := by
    simpa using spells_of_walkPath h.forest .root hparent
  refine ⟨h.forest.insert hlt hfree hnodup, by simp [size_insert, h.size],
    fun id other hother => ?_⟩
  rcases Nat.lt_or_ge id calls.length with hold | hnew
  · rw [List.getElem?_append_left hold] at hother
    obtain ⟨node, hnode, hdefinition, hpath⟩ := h.placed id other hother
    obtain ⟨node', hnode', hdefinition', hparent'⟩ := exists_node_insert parent c.definition hnode
    exact ⟨node', hnode', hdefinition'.trans hdefinition, hparent' ▸ hpath.insert⟩
  · rw [List.getElem?_append_right hnew, List.getElem?_singleton] at hother
    split at hother
    case isFalse => cases hother
    case isTrue hzero =>
      cases hother
      have hlast : id = r.size := by
        rw [h.size]
        omega
      exact ⟨⟨c.definition, parent, .empty⟩, by rw [nodes_insert, if_pos hlast], rfl,
        hspells.insert⟩

theorem registerAll (h : r.Holds calls) (registered : registerAll calls' r = .ok r') :
    r'.Holds (calls ++ calls') := by
  induction calls' generalizing r calls with
  | nil =>
    cases registered
    simpa using h
  | cons c rest ih =>
    rw [Registry.registerAll] at registered
    split at registered
    case h_1 => cases registered
    case h_2 grown hgrown => simpa using ih (h.register hgrown) registered

theorem definition?_eq (h : r.Holds calls) (id : Nat) (c : Registration ε)
    (hc : calls[id]? = some c) : r.definition? id = some c.definition := by
  obtain ⟨node, hnode, hdefinition, -⟩ := h.placed id c hc
  rw [definition?, hnode, Option.map_some, hdefinition]

/-- No two registrations are the same: the second one would have found its name taken. -/
theorem identity_injective {i j : Nat} {c c' : Registration ε} (h : r.Holds calls)
    (hi : calls[i]? = some c) (hj : calls[j]? = some c') (hsame : c.identity = c'.identity) :
    i = j := by
  obtain ⟨node, hnode, hdefinition, hpath⟩ := h.placed i c hi
  obtain ⟨node', hnode', hdefinition', hpath'⟩ := h.placed j c' hj
  have hkeys := Registration.keys_congr hsame
  simp only [Registration.identity, Prod.mk.injEq] at hsame
  rw [← hsame.1] at hpath'
  have hparent : node.parent = node'.parent := hpath.unique hpath' h.forest
  have hkey : Text.lower c.definition.name ∈ c.definition.keys := List.mem_cons_self
  have hfirst : (r.levelOf node.parent).keys.lookup (Text.lower c.definition.name) = some i :=
    h.forest.lookup_eq_some.mpr ⟨node, hnode, rfl, hdefinition ▸ hkey⟩
  have hsecond : (r.levelOf node.parent).keys.lookup (Text.lower c.definition.name) = some j :=
    h.forest.lookup_eq_some.mpr ⟨node', hnode', hparent.symm, hdefinition' ▸ hkeys ▸ hkey⟩
  rw [hfirst] at hsecond
  exact Option.some.inj hsecond

end Holds

/-- Places in two registries that are the same: both are the root, or the commands at them come
from the same registration. -/
inductive Twins (calls calls' : List (Registration ε)) : Option Nat → Option Nat → Prop
  | root : Twins calls calls' none none
  | command {i j : Nat} {c c' : Registration ε} (first : calls[i]? = some c)
      (second : calls'[j]? = some c') (same : c.identity = c'.identity) :
      Twins calls calls' (some i) (some j)

namespace Twins

variable {calls calls' : List (Registration ε)}

theorem symm (h : Twins calls calls' p q) : Twins calls' calls q p := by
  cases h with
  | root => exact .root
  | command first second same => exact .command second first same.symm

theorem unique {q' : Option Nat} (hr' : r'.Holds calls') (h : Twins calls calls' p q)
    (h' : Twins calls calls' p q') : q = q' := by
  cases h with
  | root =>
    cases h'
    rfl
  | command first second same =>
    cases h' with
    | command first' second' same' =>
      rw [first] at first'
      cases first'
      exact congrArg some (hr'.identity_injective second second' (same.symm.trans same'))

theorem exists_twin (hperm : (calls.map Registration.identity).Perm
    (calls'.map Registration.identity)) {i : Nat} (hi : i < calls.length) :
    ∃ j, Twins calls calls' (some i) (some j) := by
  have hmem : calls[i].identity ∈ calls'.map Registration.identity :=
    hperm.mem_iff.mp (List.mem_map_of_mem (List.getElem_mem hi))
  obtain ⟨c', hc', hsame⟩ := List.mem_map.mp hmem
  obtain ⟨j, hj⟩ := List.getElem?_of_mem hc'
  exact ⟨j, .command (List.getElem?_eq_getElem hi) hj hsame.symm⟩

end Twins

structure Reordered (r r' : Registry ε) (calls calls' : List (Registration ε)) : Prop where
  left : r.Holds calls
  right : r'.Holds calls'
  perm : (calls.map Registration.identity).Perm (calls'.map Registration.identity)

namespace Reordered

variable {calls calls' : List (Registration ε)}

theorem symm (h : Reordered r r' calls calls') : Reordered r' r calls' calls :=
  ⟨h.right, h.left, h.perm.symm⟩

theorem exists_twin (h : Reordered r r' calls calls') (hp : ∀ i, p = some i → i < r.size) :
    ∃ q, Twins calls calls' p q := by
  cases p with
  | none => exact ⟨none, .root⟩
  | some i =>
    obtain ⟨j, hj⟩ := Twins.exists_twin h.perm (h.left.size ▸ hp i rfl)
    exact ⟨some j, hj⟩

/-- Twins answer to the same words, and a path spells the place below which each of them stands. -/
theorem exists_nodes {i j : Nat} (h : Reordered r r' calls calls')
    (htwins : Twins calls calls' (some i) (some j)) :
    ∃ node node' path, r.nodes[i]? = some node ∧ r'.nodes[j]? = some node' ∧
      node.definition.name = node'.definition.name ∧
      node.definition.keys = node'.definition.keys ∧
      r.Spells node.parent path ∧ r'.Spells node'.parent path := by
  cases htwins with
  | @command _ _ c c' first second same =>
    obtain ⟨node, hnode, hdefinition, hpath⟩ := h.left.placed i c first
    obtain ⟨node', hnode', hdefinition', hpath'⟩ := h.right.placed j c' second
    have hkeys := Registration.keys_congr same
    simp only [Registration.identity, Prod.mk.injEq] at same
    rw [← hdefinition, ← hdefinition'] at hkeys
    refine ⟨node, node', c.path, hnode, hnode', ?_, hkeys, hpath, same.1 ▸ hpath'⟩
    rw [hdefinition, hdefinition', same.2.1]

theorem twins_of_spells {path : List String} (h : Reordered r r' calls calls')
    (hp : r.Spells p path) (hq : r'.Spells q path)
    (hspells : ∀ q', Twins calls calls' p q' → r'.Spells q' path) : Twins calls calls' p q := by
  obtain ⟨q', hq'⟩ := h.exists_twin fun i hi => Spells.lt_size (hi ▸ hp : r.Spells (some i) path)
  exact (hspells q' hq').unique hq h.right.forest ▸ hq'

/-- What spells the path to a place spells the path to its twin. The recursion goes up to the root:
the path at which a command was registered may use other names than the words at hand, but it
spells the same place above. -/
theorem spells {p q : Option Nat} {words : List String} (h : Reordered r r' calls calls')
    (htwins : Twins calls calls' p q) (hwords : r.Spells p words) : r'.Spells q words := by
  cases hwords with
  | root =>
    cases htwins
    exact .root
  | @child i node words word found above answers =>
    obtain ⟨j, rfl⟩ : ∃ j, q = some j := by
      cases htwins
      exact ⟨_, rfl⟩
    obtain ⟨node₁, node', path, hnode, hnode', -, hkeys, hpath, hpath'⟩ := h.exists_nodes htwins
    rw [found] at hnode
    cases hnode
    have hup := h.left.forest.parent_above found
    have hparents := h.twins_of_spells hpath hpath' fun q' hq' => spells h hq' hpath
    exact .child hnode' (spells h hparents above) (hkeys ▸ answers)
termination_by p.elim 0 (· + 1)

theorem exists_twin_nodes {i j : Nat} (h : Reordered r r' calls calls')
    (htwins : Twins calls calls' (some i) (some j)) :
    ∃ node node', r.nodes[i]? = some node ∧ r'.nodes[j]? = some node' ∧
      node.definition.name = node'.definition.name ∧
      node.definition.keys = node'.definition.keys ∧
      Twins calls calls' node.parent node'.parent := by
  obtain ⟨node, node', path, hnode, hnode', hname, hkeys, hpath, hpath'⟩ := h.exists_nodes htwins
  exact ⟨node, node', hnode, hnode', hname, hkeys,
    h.twins_of_spells hpath hpath' fun q' hq' => h.spells hq' hpath⟩

theorem namesTo_eq {p q : Option Nat} (h : Reordered r r' calls calls')
    (htwins : Twins calls calls' p q) : r.namesTo p = r'.namesTo q := by
  cases htwins with
  | root => rw [namesTo, namesTo, namesUp_none, namesUp_none]
  | @command i j c c' first second same =>
    obtain ⟨node, node', hnode, hnode', hname, -, hparents⟩ :=
      h.exists_twin_nodes (.command first second same)
    have hup := h.left.forest.parent_above hnode
    rw [h.left.forest.namesTo_eq hnode, h.right.forest.namesTo_eq hnode', hname,
      namesTo_eq h hparents]
termination_by p.elim 0 (· + 1)

theorem leads {word : String} (h : Reordered r r' calls calls') (htwins : Twins calls calls' p q)
    (hleads : r.Leads p word) : r'.Leads q word := by
  obtain ⟨i, node, hnode, rfl, hword⟩ := hleads
  obtain ⟨q', hq'⟩ := h.exists_twin (p := some i) fun k hk =>
    Option.some.inj hk ▸ (List.getElem?_eq_some_iff.mp hnode).1
  cases hq' with
  | @command _ j c c' first second same =>
    obtain ⟨node₁, node', hnode₁, hnode', -, hkeys, hparents⟩ :=
      h.exists_twin_nodes (.command first second same)
    rw [hnode] at hnode₁
    cases hnode₁
    exact ⟨j, node', hnode', hparents.unique h.right htwins, hkeys ▸ hword⟩

theorem lookup_twins (h : Reordered r r' calls calls') (words : List String) :
    Twins calls calls' (r.lookup words).1 (r'.lookup words).1 ∧
      (r.lookup words).2 = (r'.lookup words).2 := by
  obtain ⟨taken, rest, rfl, hspells, hrest, hstuck⟩ := h.left.forest.descend_spells .root words
  obtain ⟨q, htwins⟩ := h.exists_twin (p := (r.lookup (taken ++ rest)).1)
    (h.left.forest.descend_lt _ fun p hp => by cases hp)
  have hlookup : r'.lookup (taken ++ rest) = (q, rest) :=
    (h.spells htwins hspells).lookup_append h.right.forest fun word hword hleads =>
      hstuck word hword (h.symm.leads htwins.symm hleads)
  rw [hlookup]
  exact ⟨htwins, hrest⟩

theorem existsUnique_twin (h : Reordered r r' calls calls') {i : Nat} (hi : i < r.size) :
    ∃! j, Twins calls calls' (some i) (some j) := by
  obtain ⟨q, hq⟩ := h.exists_twin (p := some i) fun k hk => Option.some.inj hk ▸ hi
  cases hq with
  | command first second same =>
    exact ⟨_, .command first second same, fun j' hj' =>
      Option.some.inj (hj'.unique h.right (.command first second same))⟩

theorem qualifiedName_eq (h : Reordered r r' calls calls') (htwins : Twins calls calls' p q) :
    r.qualifiedName p = r'.qualifiedName q :=
  congrArg (" ".intercalate ·) (h.namesTo_eq htwins)

end Reordered

/-- When the same registrations succeed in two orders, each command of one registry has exactly one
twin in the other, which stands below the twin of its parent and has the same full name; and any
words lead to twins, if to a command at all, and leave the same words over. -/
theorem order_of_registrations_is_irrelevant {calls calls' : List (Registration ε)}
    (hperm : (calls.map Registration.identity).Perm (calls'.map Registration.identity))
    (h : registerAll calls .empty = .ok r) (h' : registerAll calls' .empty = .ok r') :
    ((∀ id c, calls[id]? = some c → r.definition? id = some c.definition) ∧
      ∀ id c, calls'[id]? = some c → r'.definition? id = some c.definition) ∧
    ((∀ i, i < r.size → ∃! j, Twins calls calls' (some i) (some j)) ∧
      ∀ j, j < r'.size → ∃! i, Twins calls calls' (some i) (some j)) ∧
    (∀ i j, Twins calls calls' (some i) (some j) →
      Twins calls calls' (r.parent i) (r'.parent j) ∧
        r.qualifiedName (some i) = r'.qualifiedName (some j)) ∧
    ∀ words, Twins calls calls' (r.lookup words).1 (r'.lookup words).1 ∧
      r.qualifiedName (r.lookup words).1 = r'.qualifiedName (r'.lookup words).1 ∧
      (r.lookup words).2 = (r'.lookup words).2 := by
  have hr : Reordered r r' calls calls' := by
    refine ⟨?_, ?_, hperm⟩
    · simpa using Holds.empty.registerAll h
    · simpa using Holds.empty.registerAll h'
  refine ⟨⟨hr.left.definition?_eq, hr.right.definition?_eq⟩, ⟨fun i hi => hr.existsUnique_twin hi,
    fun j hj => ?_⟩, fun i j htwins => ?_, fun words => ?_⟩
  · obtain ⟨i, hi, honly⟩ := hr.symm.existsUnique_twin hj
    exact ⟨i, hi.symm, fun i' hi' => honly i' hi'.symm⟩
  · obtain ⟨node, node', hnode, hnode', -, -, hparents⟩ := hr.exists_twin_nodes htwins
    rw [parent, parent, hnode, hnode']
    exact ⟨hparents, hr.qualifiedName_eq htwins⟩
  · obtain ⟨htwins, hrest⟩ := hr.lookup_twins words
    exact ⟨htwins, hr.qualifiedName_eq htwins, hrest⟩

/-- A command is registered below an alias, before or after a command that has nothing to do with
it. -/
theorem two_orders_of_three_commands :
    let roles : Definition Unit := ⟨"Roles", none, "", "", "", ["r"], [], true, ""⟩
    let grant : Definition Unit := ⟨"grant", some (), "", "", "", [], [], true, ""⟩
    let help : Definition Unit := ⟨"help", some (), "", "", "", [], [], true, ""⟩
    let calls : List (Registration Unit) := [⟨[], roles⟩, ⟨["R"], grant⟩, ⟨[], help⟩]
    let calls' : List (Registration Unit) := [⟨[], help⟩, ⟨[], roles⟩, ⟨["R"], grant⟩]
    ∃ r r' : Registry Unit, registerAll calls .empty = .ok r ∧ registerAll calls' .empty = .ok r' ∧
      r.lookup ["roles", "GRANT", "me"] = (some 1, ["me"]) ∧
      r'.lookup ["roles", "GRANT", "me"] = (some 2, ["me"]) ∧
      r.qualifiedName (some 1) = r'.qualifiedName (some 2) := by
  intro roles grant help calls calls'
  obtain ⟨r, hr⟩ := exists_of_isOk (x := registerAll calls .empty) (by decide +kernel)
  obtain ⟨r', hr'⟩ := exists_of_isOk (x := registerAll calls' .empty) (by decide +kernel)
  have hperm : (calls.map Registration.identity).Perm (calls'.map Registration.identity) := by
    decide +kernel
  have hlookup : (registerAll calls .empty).toOption.map (·.lookup ["roles", "GRANT", "me"]) =
      some (some 1, ["me"]) := by decide +kernel
  have hlookup' : (registerAll calls' .empty).toOption.map (·.lookup ["roles", "GRANT", "me"]) =
      some (some 2, ["me"]) := by decide +kernel
  rw [hr] at hlookup
  rw [hr'] at hlookup'
  obtain ⟨-, -, -, hwords⟩ := order_of_registrations_is_irrelevant hperm hr hr'
  obtain ⟨-, hname, -⟩ := hwords ["roles", "GRANT", "me"]
  have hfirst : r.lookup ["roles", "GRANT", "me"] = (some 1, ["me"]) := Option.some.inj hlookup
  have hsecond : r'.lookup ["roles", "GRANT", "me"] = (some 2, ["me"]) := Option.some.inj hlookup'
  rw [hfirst, hsecond] at hname
  exact ⟨r, r', hr, hr', hfirst, hsecond, hname⟩

end Registry

end Guildhall.Command
