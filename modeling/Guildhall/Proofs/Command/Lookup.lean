import Guildhall.Proofs.Command.Order
import Guildhall.Proofs.Text.Pieces

/-!
# Looking commands up

The words of a message are followed down the forest as far as they lead. A path that is read as a
whole leads to a command exactly when it spells the path of this command, so the full name of a
command leads to it, whatever separators are written between the names.
-/

namespace Guildhall.Command

variable {ε : Type}

inductive Respaced : List Char → List Char → Prop
  | nil : Respaced [] []
  | keep {c : Char} {cs ds : List Char} (solid : c ≠ ' ') (rest : Respaced cs ds) :
      Respaced (c :: cs) (c :: ds)
  | gap {run cs ds : List Char} (some : run ≠ []) (separators : ∀ c ∈ run, isPathSeparator c = true)
      (rest : Respaced cs ds) : Respaced (' ' :: cs) (run ++ ds)

namespace Respaced

variable {cs ds : List Char}

theorem refl (cs : List Char) : Respaced cs cs := by
  induction cs with
  | nil => exact .nil
  | cons c rest ih =>
    by_cases hc : c = ' '
    · subst hc
      have hgap : Respaced (' ' :: rest) ([' '] ++ rest) :=
        .gap (by simp) (List.all_eq_true.mp (by decide)) ih
      exact hgap
    · exact .keep hc ih

theorem append {cs' ds' : List Char} (h : Respaced cs ds) (h' : Respaced cs' ds') :
    Respaced (cs ++ cs') (ds ++ ds') := by
  induction h with
  | nil => exact h'
  | keep solid rest ih => exact .keep solid ih
  | gap some separators rest ih =>
    rw [List.append_assoc]
    exact .gap some separators ih

theorem fieldsFrom_eq (h : Respaced cs ds) (word : List Char) :
    Text.fieldsFrom isPathSeparator word ds = Text.fieldsFrom isPathSeparator word cs := by
  induction h generalizing word with
  | nil => rfl
  | keep solid rest ih => rw [Text.fieldsFrom, Text.fieldsFrom, ih, ih]
  | gap some separators rest ih =>
    have hspace : isPathSeparator ' ' = true := by decide
    rw [Text.fieldsFrom_gap some separators, Text.fieldsFrom, if_pos hspace, ih]

/-- The path that a text writes does not depend on which separators it has, nor how many. -/
theorem pathOfText_eq {text other : String} (h : Respaced text.toList other.toList) :
    pathOfText other = pathOfText text := by
  rw [pathOfText, pathOfText, Text.fields, Text.fields, h.fieldsFrom_eq]

end Respaced

namespace Registry

variable {r : Registry ε} {id : Nat}

theorem Forest.lookup_spells (hf : r.Forest) (words : List String) :
    ∃ used, words = used ++ (r.lookup words).2 ∧ r.Spells (r.lookup words).1 used ∧
      ∀ word ∈ (r.lookup words).2.head?, ¬ r.Leads (r.lookup words).1 word := by
  obtain ⟨used, rest, hwords, hspells, hrest, hstuck⟩ := hf.descend_spells .root words
  rw [List.nil_append] at hspells
  rw [lookup, hrest]
  exact ⟨used, hwords, hspells, hstuck⟩

/-- No command is found exactly when the first word, if there is one, leads to no root command. -/
theorem Forest.lookup_eq_none_iff (hf : r.Forest) {words : List String} :
    r.lookup words = (none, words) ↔ ∀ word ∈ words.head?, ¬ r.Leads none word := by
  constructor
  · intro h
    obtain ⟨used, -, -, hstuck⟩ := hf.lookup_spells words
    rw [h] at hstuck
    exact hstuck
  · intro h
    exact hf.descend_stop h

theorem Forest.get_eq_some_iff (hf : r.Forest) {path : List String} :
    r.get path = some id ↔ r.Spells (some id) path := by
  constructor
  · intro h
    obtain ⟨used, hwords, hspells, -⟩ := hf.lookup_spells path
    unfold get at h
    split at h
    case h_1 found hlookup =>
      rw [hlookup, List.append_nil] at hwords
      rw [hlookup, h, ← hwords] at hspells
      exact hspells
    case h_2 => cases h
  · intro h
    have hlookup : r.lookup (path ++ []) = (some id, []) := h.lookup_append hf (by simp)
    rw [List.append_nil] at hlookup
    rw [get, hlookup]

theorem mem_namesUp {fuel : Nat} {p : Option Nat} {name : String} (h : name ∈ r.namesUp fuel p) :
    ∃ d ∈ r.nodes.map (·.definition), d.name = name := by
  induction fuel generalizing p with
  | zero => cases h
  | succ fuel ih =>
    cases p with
    | none => cases h
    | some id =>
      rw [namesUp] at h
      split at h
      case h_1 => cases h
      case h_2 node hnode =>
        rw [List.mem_append, List.mem_singleton] at h
        rcases h with h | rfl
        · exact ih h
        · exact ⟨_, List.mem_map_of_mem (List.mem_of_getElem? hnode), rfl⟩

theorem Forest.spells_namesTo (hf : r.Forest) (hid : id < r.size) :
    r.Spells (some id) (r.namesTo (some id)) := by
  induction id using Nat.strongRecOn with
  | _ id ih =>
    have hnode : r.nodes[id]? = some r.nodes[id] := List.getElem?_eq_getElem hid
    have habove : r.Spells r.nodes[id].parent (r.namesTo r.nodes[id].parent) := by
      cases hparent : r.nodes[id].parent with
      | none =>
        rw [namesTo, namesUp_none]
        exact .root
      | some p =>
        have hp : p < id := hf.parent_lt id _ p hnode hparent
        exact ih p hp (Nat.lt_trans hp hid)
    rw [hf.namesTo_eq hnode]
    exact .child hnode habove List.mem_cons_self

/-- Names hold no separators, so they are found again in a full name. -/
theorem Reachable.pathOfText_qualifiedName (hr : r.Reachable) (p : Option Nat) :
    pathOfText (r.qualifiedName p) = r.namesTo p := by
  apply Text.fields_intercalate (show isPathSeparator ' ' = true by decide)
  intro name hname
  obtain ⟨d, hd, rfl⟩ := mem_namesUp hname
  exact hr.checked (fun _ _ => Definition.check_name) d hd

/-- Words are followed as far as they lead: those used spell the path of the command that is found,
and the first one left over leads nowhere from it. No command is found exactly when the first word
leads to no root command. A text is the path of a command exactly when it spells its path, name
after name; so is the full name, with any separators for its spaces. -/
theorem lookup_follows_the_forest (hr : r.Reachable) :
    (∀ words : List String, ∃ used, words = used ++ (r.lookup words).2 ∧
      r.Spells (r.lookup words).1 used ∧
      ∀ word ∈ (r.lookup words).2.head?, ¬ r.Leads (r.lookup words).1 word) ∧
    (∀ words : List String,
      r.lookup words = (none, words) ↔ ∀ word ∈ words.head?, ¬ r.Leads none word) ∧
    (∀ (id : Nat) (text : String),
      r.get (pathOfText text) = some id ↔ r.Spells (some id) (pathOfText text)) ∧
    ∀ id : Nat, id < r.size → r.get (pathOfText (r.qualifiedName (some id))) = some id ∧
      ∀ text : String, Respaced (r.qualifiedName (some id)).toList text.toList →
        r.get (pathOfText text) = some id := by
  have hf := hr.forest
  have hnamed (id : Nat) (hid : id < r.size) :
      r.get (pathOfText (r.qualifiedName (some id))) = some id := by
    rw [hr.pathOfText_qualifiedName, hf.get_eq_some_iff]
    exact hf.spells_namesTo hid
  refine ⟨hf.lookup_spells, fun words => hf.lookup_eq_none_iff, fun id text => hf.get_eq_some_iff,
    fun id hid => ⟨hnamed id hid, fun text hspaced => ?_⟩⟩
  rw [hspaced.pathOfText_eq]
  exact hnamed id hid

/-- A command below another one: found by an alias, with an argument left over, and by its full name
with a slash, a dot and a tab for the space. -/
theorem grant_is_found :
    ∃ r : Registry Unit, r.Reachable ∧ r.lookup ["ROLES", "g", "me"] = (some 1, ["me"]) ∧
      ¬ r.Leads (some 1) "me" ∧ ¬ r.Leads none "help" ∧
      r.qualifiedName (some 1) = "Roles grant" ∧ r.get (pathOfText "Roles/.\tgrant") = some 1 := by
  let roles : Definition Unit := ⟨"Roles", none, "", "", "", [], [], true, ""⟩
  let grant : Definition Unit := ⟨"grant", some (), "", "", "", ["G"], [], true, ""⟩
  have hroles : roles.check = .ok roles := by
    refine Definition.check_eq_ok.mpr ⟨?_, [], rfl, rfl⟩
    decide +kernel
  have hgrant : grant.check = .ok grant := by
    refine Definition.check_eq_ok.mpr ⟨?_, [], rfl, rfl⟩
    decide +kernel
  let first : Registry Unit := .insert .empty none roles
  let r : Registry Unit := first.insert (some 0) grant
  have hfirst : Registry.empty.register [] roles = .ok first :=
    register_eq_ok.mpr ⟨rfl, none, rfl, by decide +kernel, by decide +kernel, rfl⟩
  have hchild : first.child? none "roles" = some 0 := by decide +kernel
  have hsecond : first.register ["roles"] grant = .ok r :=
    register_eq_ok.mpr ⟨rfl, some 0, by simp [walkPath, hchild], by decide +kernel,
      by decide +kernel, rfl⟩
  have hr : r.Reachable := .register (.register .empty hroles hfirst) hgrant hsecond
  obtain ⟨hgreedy, hnone, -, hnamed⟩ := lookup_follows_the_forest hr
  have hname : r.qualifiedName (some 1) = "Roles grant" := by decide +kernel
  have hspaced : Respaced (r.qualifiedName (some 1)).toList "Roles/.\tgrant".toList := by
    have hgap : Respaced (' ' :: "grant".toList) (['/', '.', '\t'] ++ "grant".toList) :=
      .gap (by simp) (List.all_eq_true.mp (by decide)) (.refl _)
    rw [hname]
    exact (Respaced.refl "Roles".toList).append hgap
  have hlookup : r.lookup ["ROLES", "g", "me"] = (some 1, ["me"]) := by decide +kernel
  obtain ⟨used, -, -, hstuck⟩ := hgreedy ["ROLES", "g", "me"]
  rw [hlookup] at hstuck
  have hhelp : r.lookup ["help"] = (none, ["help"]) := by decide +kernel
  exact ⟨r, hr, hlookup, hstuck "me" rfl, (hnone _).mp hhelp "help" rfl, hname,
    (hnamed 1 (by decide)).2 _ hspaced⟩

end Registry

end Guildhall.Command
