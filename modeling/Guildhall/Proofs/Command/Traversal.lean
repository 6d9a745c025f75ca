import Guildhall.Command.Tree
import Guildhall.Proofs.Command.Forest
import Mathlib.Data.List.Forall2
import Mathlib.Logic.Relation

/-!
# Traversals

A walk, the tree as data and its drawing list the commands in one order, which the parents of the
commands determine: a command comes before those below it, and commands beside each other come in
the order of their registration.
-/

namespace Guildhall.Command

variable {ε : Type}

/-- The records of a tree as data depth first: each before those it has as its children. -/
inductive Flattened : List Value → List Value → Prop
  | nil : Flattened [] []
  | cons {record : Value} {children below rest others : List Value}
      (has : record.field? "children" = some (.list children)) (down : Flattened children below)
      (beside : Flattened rest others) : Flattened (record :: rest) (record :: below ++ others)

namespace Registry

/-- The commands that stand directly under a command, or at the root, in order of registration. -/
def under (r : Registry ε) (p : Option Nat) : List Nat :=
  (List.range r.size).filter fun id => r.parent id = p

inductive Preorder (r : Registry ε) : Nat → List Nat → List (Nat × Nat) → Prop
  | nil (depth : Nat) : Preorder r depth [] []
  | cons {depth id : Nat} {rest : List Nat} {below others : List (Nat × Nat)}
      (down : Preorder r (depth + 1) (r.under (some id)) below)
      (beside : Preorder r depth rest others) :
      Preorder r depth (id :: rest) ((depth, id) :: below ++ others)

def Ancestor (r : Registry ε) : Nat → Nat → Prop :=
  Relation.TransGen fun p id => r.parent id = some p

inductive Trail (r : Registry ε) : Option Nat → List Nat → Prop
  | root : Trail r none []
  | down {id : Nat} {above : List Nat} (before : Trail r (r.parent id) above) :
      Trail r (some id) (above ++ [id])

def IsLast (r : Registry ε) (id : Nat) : Prop := (r.under (r.parent id)).getLast? = some id

instance (r : Registry ε) (id : Nat) : Decidable (r.IsLast id) :=
  inferInstanceAs (Decidable (_ = _))

/-- What a line of the drawing begins with below some commands: a bar for each one that others come
after, a gap for each last one. -/
def margin (r : Registry ε) (above : List Nat) : String :=
  String.join (above.map fun a => if r.IsLast a then "    " else "│   ")

def Draws (r : Registry ε) (entry : Nat × Nat) (line : String) : Prop :=
  ∃ above, r.Trail (r.parent entry.2) above ∧ above.length = entry.1 ∧
    line = r.margin above ++ (if r.IsLast entry.2 then "└── " else "├── ") ++ r.label entry.2

/-- A record of the tree as data is about a command. -/
def Presents (r : Registry ε) (id : Nat) (record : Value) : Prop :=
  ∃ d children, r.definition? id = some d ∧
    record = .record [("name", .str d.name), ("path", .str (r.qualifiedName (some id))),
      ("aliases", .texts d.aliases), ("description", .str d.description), ("usage", .str d.usage),
      ("permissions", .texts d.permissions), ("guild_only", .bool d.guildOnly),
      ("module", .str d.feature), ("runnable", .bool d.executor.isSome),
      ("children", .list children)]

variable {r : Registry ε} {p : Option Nat} {id depth fuel : Nat} {ids above : List Nat}
  {out : List (Nat × Nat)}

theorem mem_under : id ∈ r.under p ↔ id < r.size ∧ r.parent id = p := by
  simp [under]

theorem pairwise_under : (r.under p).Pairwise (· < ·) := List.pairwise_lt_range.filter _

theorem nodup_under : (r.under p).Nodup := List.nodup_range.filter _

theorem count_under (hid : id < r.size) :
    (r.under p).count id = if r.parent id = p then 1 else 0 := by
  simp only [nodup_under.count, mem_under, hid, true_and]

theorem place_eq (hid : id < r.size) : r.place id = some (r.parent id) := by
  have hnode : r.nodes[id]? = some r.nodes[id] := List.getElem?_eq_getElem hid
  rw [place, parent, hnode, Option.map_some, Option.bind_some]

namespace Forest

theorem members_eq (hf : r.Forest) (p : Option Nat) : (r.levelOf p).members = r.under p := by
  rw [hf.members, under]
  apply List.filter_congr
  intro id hid
  rw [place_eq (List.mem_range.mp hid)]
  simp

theorem lt_of_parent (hf : r.Forest) {q : Nat} (h : r.parent id = some q) : q < id := by
  obtain ⟨node, hnode, hparent⟩ := Option.bind_eq_some_iff.mp h
  exact hf.parent_lt id node q hnode hparent

theorem lt_of_ancestor (hf : r.Forest) {a : Nat} (h : r.Ancestor a id) : a < id := by
  induction h with
  | single hstep => exact hf.lt_of_parent hstep
  | tail _ hstep ih => exact Nat.lt_trans ih (hf.lt_of_parent hstep)

/-- A command comes after the one it stands under, so a step down leaves fewer commands to come. -/
theorem enough_below (hf : r.Forest) (hfuel : r.size ≤ id + (fuel + 1)) :
    ∀ child ∈ r.under (some id), child < r.size ∧ r.size ≤ child + fuel := by
  intro child hchild
  obtain ⟨hlt, hparent⟩ := mem_under.mp hchild
  have habove := hf.lt_of_parent hparent
  omega

theorem exists_preorder (hf : r.Forest) (fuel depth : Nat) (ids : List Nat)
    (hids : ∀ id ∈ ids, id < r.size ∧ r.size ≤ id + fuel) : ∃ out, r.Preorder depth ids out := by
  induction fuel generalizing depth ids with
  | zero =>
    cases ids with
    | nil => exact ⟨[], .nil depth⟩
    | cons id rest =>
      have hid := hids id List.mem_cons_self
      omega
  | succ fuel ihdown =>
    induction ids with
    | nil => exact ⟨[], .nil depth⟩
    | cons id rest ihbeside =>
      obtain ⟨others, hothers⟩ := ihbeside fun other hother => hids other (.tail _ hother)
      obtain ⟨below, hbelow⟩ := ihdown (depth + 1) (r.under (some id))
        (hf.enough_below (hids id List.mem_cons_self).2)
      exact ⟨_, .cons hbelow hothers⟩

end Forest

/-- What holds of the commands that an order begins with, and with a command of those under it,
holds of all commands in the order. -/
theorem Preorder.forall_mem {P : Nat → Nat → Prop} (h : r.Preorder depth ids out)
    (hids : ∀ id ∈ ids, P depth id)
    (hdown : ∀ depth id, P depth id → ∀ child ∈ r.under (some id), P (depth + 1) child) :
    ∀ x ∈ out, P x.1 x.2 := by
  induction h with
  | nil => simp
  | @cons depth top rest below others down beside ihdown ihbeside =>
    have htop : P depth top := hids top List.mem_cons_self
    intro x hx
    rcases List.mem_append.mp hx with hx | hx
    · rcases List.mem_cons.mp hx with rfl | hx
      · exact htop
      · exact ihdown (hdown depth top htop) x hx
    · exact ihbeside (fun other hother => hids other (.tail _ hother)) x hx

theorem Preorder.walkFrom_append (h : r.Preorder depth ids out) (hf : r.Forest) (fuel : Nat)
    (stack : List (Nat × Nat)) :
    r.walkFrom (out.length + fuel) (stack ++ ids.reverse.map (depth, ·)) =
      out ++ r.walkFrom fuel stack := by
  induction h generalizing fuel stack with
  | nil => simp
  | @cons depth id rest below others down beside ihdown ihbeside =>
    have hlength : ((depth, id) :: below ++ others).length + fuel =
        (below.length + (others.length + fuel)) + 1 := by
      simp only [List.cons_append, List.length_cons, List.length_append]
      omega
    have hstack : stack ++ (id :: rest).reverse.map (depth, ·) =
        (stack ++ rest.reverse.map (depth, ·)) ++ [(depth, id)] := by simp
    rw [hlength, hstack, walkFrom, List.getLast?_concat, List.dropLast_concat]
    dsimp only
    rw [children, hf.members_eq, ihdown, ihbeside]
    simp

/-- A command comes as often as the one it stands under, and once more for each time that it is
among those the order begins with. -/
theorem Preorder.count (h : r.Preorder depth ids out) (hid : id < r.size) :
    (out.map (·.2)).count id =
      ids.count id + (r.parent id).elim 0 fun q => (out.map (·.2)).count q := by
  induction h with
  | nil => cases r.parent id <;> rfl
  | @cons depth top rest below others down beside ihdown ihbeside =>
    simp only [List.cons_append, List.map_cons, List.map_append, List.count_cons,
      List.count_append, ihdown, ihbeside, count_under hid]
    cases r.parent id with
    | none => simp only [reduceCtorEq, if_false, Option.elim_none]; omega
    | some q =>
      -- `top` is the command above exactly when `id` is among those under `top`.
      have hturn : (some q = some top) = ((top == q) = true) := by
        rw [beq_iff_eq, Option.some.injEq, @eq_comm _ q]
      simp only [hturn, Option.elim_some]
      omega

/-- Depth first from the root every command comes exactly once. -/
theorem Preorder.perm_range (h : r.Preorder 0 (r.under none) out) (hf : r.Forest) :
    (out.map (·.2)).Perm (List.range r.size) := by
  have honce (id : Nat) (hid : id < r.size) : (out.map (·.2)).count id = 1 := by
    induction id using Nat.strongRecOn with
    | _ id ih =>
      rw [h.count hid, count_under hid]
      cases hparent : r.parent id with
      | none => rfl
      | some q =>
        have hlt := hf.lt_of_parent hparent
        simp [ih q hlt (Nat.lt_trans hlt hid)]
  have hroots : ∀ id ∈ r.under none, id < r.size := fun id hid => (mem_under.mp hid).1
  have hbelow (_ id : Nat) (_ : id < r.size) : ∀ child ∈ r.under (some id), child < r.size :=
    fun child hchild => (mem_under.mp hchild).1
  rw [List.perm_iff_count]
  intro id
  by_cases hid : id < r.size
  · rw [honce id hid, List.nodup_range.count, if_pos (List.mem_range.mpr hid)]
  · rw [List.count_eq_zero.mpr, List.count_eq_zero.mpr]
    · simpa using hid
    · intro hmem
      obtain ⟨x, hx, rfl⟩ := List.mem_map.mp hmem
      exact hid (h.forall_mem hroots hbelow x hx)

theorem Preorder.length_eq (h : r.Preorder 0 (r.under none) out) (hf : r.Forest) :
    out.length = r.size := by
  simpa using (h.perm_range hf).length_eq

/-- Once every command has been walked through, nothing is pending any more. -/
theorem Preorder.walkFrom_roots (h : r.Preorder 0 (r.under none) out) (hf : r.Forest)
    (hfuel : r.size ≤ fuel) : r.walkFrom fuel (r.roots.reverse.map (0, ·)) = out := by
  have hwalk := h.walkFrom_append hf (fuel - r.size) []
  have hempty (steps : Nat) : r.walkFrom steps [] = [] := by cases steps <;> rfl
  rw [h.length_eq hf, List.nil_append, hempty, List.append_nil] at hwalk
  have hroots : r.roots = r.under none := hf.members_eq none
  rw [hroots, ← hwalk]
  congr 1
  omega

theorem Forest.preorder_walk (hf : r.Forest) : r.Preorder 0 (r.under none) r.walk := by
  obtain ⟨out, hout⟩ := hf.exists_preorder r.size 0 (r.under none) fun id hid =>
    ⟨(mem_under.mp hid).1, Nat.le_add_left ..⟩
  rw [walk, hout.walkFrom_roots hf (Nat.le_refl _)]
  exact hout

theorem Trail.mem_iff (h : r.Trail p above) (hid : r.parent id = p) (a : Nat) :
    a ∈ above ↔ r.Ancestor a id := by
  induction h generalizing id with
  | root => simp [Ancestor, Relation.TransGen.tail'_iff, hid]
  | @down q above before ih =>
    have hstep : r.Ancestor a id ↔
        Relation.ReflTransGen (fun p id => r.parent id = some p) a q := by
      simp [Ancestor, Relation.TransGen.tail'_iff, hid]
    rw [List.mem_append, List.mem_singleton, ih rfl, hstep,
      Relation.reflTransGen_iff_eq_or_transGen, or_comm, eq_comm]
    rfl

theorem Trail.nodup (h : r.Trail p above) (hf : r.Forest) : above.Nodup := by
  induction h with
  | root => exact List.nodup_nil
  | @down q above before ih =>
    have hnew : q ∉ above := by
      rw [before.mem_iff rfl]
      exact fun hself => Nat.lt_irrefl q (hf.lt_of_ancestor hself)
    rw [List.nodup_append]
    refine ⟨ih, by simp, fun a ha b hb heq => hnew ?_⟩
    rw [List.mem_singleton] at hb
    exact hb ▸ heq ▸ ha

/-- Going down from the root, the depth and the commands above grow together. -/
theorem Preorder.trail (h : r.Preorder 0 (r.under none) out) :
    ∀ x ∈ out, ∃ above, r.Trail (r.parent x.2) above ∧ above.length = x.1 := by
  apply h.forall_mem (P := fun depth id => ∃ above, r.Trail (r.parent id) above ∧
    above.length = depth)
  · intro id hid
    rw [(mem_under.mp hid).2]
    exact ⟨[], .root, rfl⟩
  · rintro depth id ⟨above, htrail, hlength⟩ child hchild
    rw [(mem_under.mp hchild).2]
    exact ⟨above ++ [id], .down htrail, by simp [hlength]⟩

theorem nodeValue_presents (hid : id < r.size) (fuel : Nat) :
    r.Presents id (r.nodeValue (fuel + 1) id) ∧
      (r.nodeValue (fuel + 1) id).field? "children" =
        some (.list ((r.children id).map (r.nodeValue fuel))) := by
  have hnode : r.nodes[id]? = some r.nodes[id] := List.getElem?_eq_getElem hid
  have hdefinition : r.definition? id = some r.nodes[id].definition := by
    rw [definition?, hnode, Option.map_some]
  rw [nodeValue, hdefinition]
  exact ⟨⟨_, _, hdefinition, rfl⟩, by rfl⟩

theorem Preorder.flattened (h : r.Preorder depth ids out) (hf : r.Forest)
    (hids : ∀ id ∈ ids, id < r.size ∧ r.size ≤ id + fuel) :
    ∃ records, Flattened (ids.map (r.nodeValue fuel)) records ∧
      List.Forall₂ (fun x record => r.Presents x.2 record) out records := by
  induction h generalizing fuel with
  | nil => exact ⟨[], .nil, .nil⟩
  | @cons depth id rest below others down beside ihdown ihbeside =>
    obtain ⟨hid, henough⟩ := hids id List.mem_cons_self
    obtain ⟨fuel, rfl⟩ := Nat.exists_eq_add_one_of_ne_zero (show fuel ≠ 0 by omega)
    obtain ⟨records, hflat, hrecords⟩ := ihdown (hf.enough_below henough)
    obtain ⟨more, hflatmore, hmore⟩ := ihbeside fun other hother => hids other (.tail _ hother)
    obtain ⟨hpresents, hchildren⟩ := nodeValue_presents hid fuel
    rw [children, hf.members_eq] at hchildren
    exact ⟨_, .cons hchildren hflat hflatmore, .cons hpresents (List.rel_append hrecords hmore)⟩

theorem Forest.qualifiedName_eq (hf : r.Forest) (hid : id < r.size) :
    r.qualifiedName (some id) = match r.parent id with
      | none => r.name id
      | some q => r.qualifiedName (some q) ++ " " ++ r.name id := by
  have hnode : r.nodes[id]? = some r.nodes[id] := List.getElem?_eq_getElem hid
  have hname : r.name id = r.nodes[id].definition.name := by
    rw [name, definition?, hnode, Option.map_some, Option.map_some, Option.getD_some]
  have hparent : r.parent id = r.nodes[id].parent := by rw [parent, hnode, Option.bind_some]
  have hnames := hf.namesTo_eq hnode
  rw [← hparent, ← hname] at hnames
  have hqualified (p : Option Nat) : r.qualifiedName p = " ".intercalate (r.namesTo p) := rfl
  rw [hqualified, hnames]
  cases habove : r.parent id with
  | none => rw [namesTo, namesUp_none, List.nil_append, String.intercalate_singleton]
  | some q =>
    have hlt : q < r.size := Nat.lt_trans (hf.lt_of_parent habove) hid
    have hsome : r.namesTo (some q) ≠ [] := by
      rw [hf.namesTo_eq (List.getElem?_eq_getElem hlt)]
      simp
    rw [String.intercalate_append_of_ne_nil hsome (by simp), String.intercalate_singleton]
    rfl

theorem isLast_iff {rest : List Nat} (h : id :: rest <:+ r.under p) :
    r.IsLast id ↔ rest = [] := by
  have hparent : r.parent id = p := (mem_under.mp (h.subset List.mem_cons_self)).2
  have hfresh : id ∉ rest := (List.nodup_cons.mp (h.sublist.nodup nodup_under)).1
  have hlast : (r.under p).getLast? = (id :: rest).getLast? := by
    obtain ⟨before, hbefore⟩ := h
    rw [← hbefore, List.getLast?_append_cons]
  rw [IsLast, hparent, hlast]
  cases rest with
  | nil => simp
  | cons next rest =>
    rw [List.getLast?_cons_cons]
    refine ⟨fun hid => absurd (List.mem_of_getLast? hid) hfresh, fun hnil => ?_⟩
    cases hnil

theorem margin_concat : r.margin (above ++ [id]) =
    r.margin above ++ (if r.IsLast id then "    " else "│   ") := by
  simp [margin]

/-- The line of a command is followed by the lines of those below it, then by those beside it. -/
theorem branches_cons {rest : List Nat} (h : id :: rest <:+ r.under p) :
    r.branches (fuel + 1) (r.margin above) (id :: rest) =
      (r.margin above ++ (if r.IsLast id then "└── " else "├── ") ++ r.label id) ::
        r.branches fuel (r.margin (above ++ [id])) (r.children id) ++
      r.branches fuel (r.margin above) rest := by
  rw [branches, margin_concat]
  simp only [isLast_iff h, List.isEmpty_iff]
  split <;> rfl

theorem Preorder.draws (h : r.Preorder depth ids out) (hf : r.Forest) (habove : r.Trail p above)
    (hdepth : above.length = depth) (hids : ids <:+ r.under p)
    (hfuel : ∀ id ∈ ids, r.size ≤ id + fuel) :
    List.Forall₂ r.Draws out (r.branches fuel (r.margin above) ids) := by
  induction h generalizing p above fuel with
  | nil => cases fuel <;> exact .nil
  | @cons depth id rest below others down beside ihdown ihbeside =>
    obtain ⟨hid, hparent⟩ := mem_under.mp (hids.subset List.mem_cons_self)
    have henough := hfuel id List.mem_cons_self
    obtain ⟨fuel, rfl⟩ := Nat.exists_eq_add_one_of_ne_zero (show fuel ≠ 0 by omega)
    -- The bound is spent on the way down and beside alike, and positions grow on both.
    have hrest : ∀ other ∈ rest, r.size ≤ other + fuel := by
      intro other hother
      have hlt := List.rel_of_pairwise_cons (pairwise_under.sublist hids.sublist) hother
      omega
    have hbelow := ihdown (.down (hparent ▸ habove)) (by simp [hdepth]) (List.suffix_refl _)
      fun child hchild => (hf.enough_below henough child hchild).2
    have hothers := ihbeside habove hdepth ((List.suffix_cons id rest).trans hids) hrest
    rw [branches_cons hids, children, hf.members_eq]
    exact .cons ⟨above, hparent ▸ habove, hdepth, rfl⟩ (List.rel_append hbelow hothers)

/-- A walk of a reachable registry comes to an end, after as many steps as there are commands. It
lists every command once, depth first and in order of registration, and its depths count the
commands above. The tree as data and the drawing list the same commands in the same order, under
names and behind margins that follow the commands above. -/
theorem traversals_agree (hr : r.Reachable) :
    (∀ bound, r.size ≤ bound → r.walkFrom bound (r.roots.reverse.map (0, ·)) = r.walk) ∧
    (r.walk.map (·.2)).Perm (List.range r.size) ∧
    r.Preorder 0 (r.under none) r.walk ∧
    (∀ depth id, (depth, id) ∈ r.walk → ∃ above : List Nat, above.Nodup ∧
      (∀ a, a ∈ above ↔ r.Ancestor a id) ∧ above.length = depth) ∧
    (∃ trees records, r.toValue = .list trees ∧ Flattened trees records ∧
      List.Forall₂ (fun x record => r.Presents x.2 record) r.walk records) ∧
    (∀ id, id < r.size → r.qualifiedName (some id) = match r.parent id with
      | none => r.name id
      | some q => r.qualifiedName (some q) ++ " " ++ r.name id) ∧
    ∃ lines, r.drawing = "commands" :: lines ∧ List.Forall₂ r.Draws r.walk lines := by
  have hf := hr.forest
  have hwalk := hf.preorder_walk
  have hroots : r.roots = r.under none := hf.members_eq none
  refine ⟨fun bound hbound => hwalk.walkFrom_roots hf hbound, hwalk.perm_range hf, hwalk,
    fun depth id hmem => ?_, ?_, fun id hid => hf.qualifiedName_eq hid, _, rfl, ?_⟩
  · obtain ⟨above, htrail, hlength⟩ := hwalk.trail (depth, id) hmem
    exact ⟨above, htrail.nodup hf, htrail.mem_iff rfl, hlength⟩
  · obtain ⟨records, hflattened, hpresents⟩ := hwalk.flattened hf fun id hid =>
      ⟨(mem_under.mp hid).1, Nat.le_add_left r.size id⟩
    exact ⟨_, records, rfl, hroots ▸ hflattened, hpresents⟩
  · rw [hroots]
    exact hwalk.draws hf .root rfl (List.suffix_refl _) fun id _ => by omega

/-- A command below the first of two root commands, registered after both, is walked through and
drawn between them. -/
theorem grant_between_two_roots :
    ∃ r : Registry Unit, r.Reachable ∧
      (∀ bound, 3 ≤ bound → r.walkFrom bound [(0, 1), (0, 0)] = [(0, 0), (1, 2), (0, 1)]) ∧
      (∃ above : List Nat, above.Nodup ∧ (∀ a, a ∈ above ↔ r.Ancestor a 2) ∧ above.length = 1) ∧
      r.qualifiedName (some 2) = r.qualifiedName (some 0) ++ " " ++ r.name 2 ∧
      r.drawing = ["commands", "├── roles", "│   └── grant", "└── help"] := by
  let roles : Definition Unit := ⟨"roles", none, "", "", "", [], [], true, ""⟩
  let help : Definition Unit := ⟨"help", some (), "", "", "", [], [], true, ""⟩
  let grant : Definition Unit := ⟨"grant", some (), "", "", "", [], [], true, ""⟩
  have hroles : roles.check = .ok roles :=
    Definition.check_eq_ok.mpr ⟨by decide +kernel, [], rfl, rfl⟩
  have hhelp : help.check = .ok help :=
    Definition.check_eq_ok.mpr ⟨by decide +kernel, [], rfl, rfl⟩
  have hgrant : grant.check = .ok grant :=
    Definition.check_eq_ok.mpr ⟨by decide +kernel, [], rfl, rfl⟩
  let first : Registry Unit := .insert .empty none roles
  let second : Registry Unit := first.insert none help
  let r : Registry Unit := second.insert (some 0) grant
  have hfirst : Registry.empty.register [] roles = .ok first :=
    register_eq_ok.mpr ⟨rfl, none, rfl, by decide +kernel, by decide +kernel, rfl⟩
  have hsecond : first.register [] help = .ok second :=
    register_eq_ok.mpr ⟨rfl, none, rfl, by decide +kernel, by decide +kernel, rfl⟩
  have hchild : second.child? none "roles" = some 0 := by decide +kernel
  have hthird : second.register ["roles"] grant = .ok r :=
    register_eq_ok.mpr ⟨rfl, some 0, by simp [walkPath, hchild], by decide +kernel,
      by decide +kernel, rfl⟩
  have hr : r.Reachable :=
    .register (.register (.register .empty hroles hfirst) hhelp hsecond) hgrant hthird
  obtain ⟨hends, -, -, hdepths, -, hnames, -⟩ := traversals_agree hr
  have hwalk : r.walk = [(0, 0), (1, 2), (0, 1)] := by decide +kernel
  refine ⟨r, hr, fun bound hbound => (hends bound hbound).trans hwalk, hdepths 1 2 ?_,
    hnames 2 (by decide), by decide +kernel⟩
  rw [hwalk]
  decide

end Registry

end Guildhall.Command
