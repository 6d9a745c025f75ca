import Guildhall.Proofs.Command.Forest

/-!
# Calls on a registry

A registry is filled by one call after another until it is closed. Each call is carried out
assignment by assignment, and a call that fails has assigned nothing by then.
-/

namespace Guildhall.Command

variable {ε : Type}

namespace Level

/-- The level whose index leads from a key to a command. -/
def enter (id : Nat) (key : String) (l : Level) : Level :=
  { l with keys := Assoc.put key id l.keys }

def list (id : Nat) (l : Level) : Level := { l with members := l.members ++ [id] }

theorem list_foldl_enter {l : Level} {keys : List String} {id : Nat}
    (hfree : ∀ key ∈ keys, key ∉ l.keys.map (·.1)) (hnodup : keys.Nodup) :
    (keys.foldl (fun l key => l.enter id key) l).list id = l.insert keys id := by
  have hfold (keys : List String) (l : Level) : keys.foldl (fun l key => l.enter id key) l =
      { l with keys := keys.foldl (fun entries key => Assoc.put key id entries) l.keys } := by
    induction keys generalizing l with
    | nil => rfl
    | cons key rest ih => rw [List.foldl_cons, ih, List.foldl_cons, enter]
  rw [hfold, Assoc.foldl_put hfree hnodup]
  rfl

end Level

namespace Registry

/-- The first of some keys that a level leads from already. -/
def clash? (r : Registry ε) (parent : Option Nat) (keys : List String) : Option String :=
  keys.find? (((r.levelOf parent).keys.map (·.1)).contains ·)

def modifyLevel (f : Level → Level) (r : Registry ε) : Option Nat → Registry ε
  | none => { r with top := f r.top }
  | some p => { r with nodes := r.nodes.modify p fun node => { node with level := f node.level } }

/-- The registry with one more node, of which no level knows yet. -/
def append (r : Registry ε) (node : Node ε) : Registry ε := { r with nodes := r.nodes ++ [node] }

theorem modifyLevel_id (r : Registry ε) (parent : Option Nat) :
    r.modifyLevel (fun level => level) parent = r := by
  cases parent with
  | none => rfl
  | some p =>
    have hsame : r.nodes.modify p (fun node => { node with level := node.level }) = r.nodes :=
      List.modify_id p r.nodes
    rw [modifyLevel, hsame]

theorem modifyLevel_modifyLevel (f g : Level → Level) (r : Registry ε) (parent : Option Nat) :
    (r.modifyLevel f parent).modifyLevel g parent =
      r.modifyLevel (fun level => g (f level)) parent := by
  cases parent with
  | none => rfl
  | some p =>
    simp only [modifyLevel, List.modify_modify_eq]
    rfl

theorem foldl_modifyLevel {α : Type} (items : List α) (change : α → Level → Level)
    (r : Registry ε) (parent : Option Nat) :
    items.foldl (fun r item => r.modifyLevel (change item) parent) r =
      r.modifyLevel (fun level => items.foldl (fun level item => change item level) level)
        parent := by
  induction items generalizing r with
  | nil => simp [modifyLevel_id]
  | cons item rest ih => simp [ih, modifyLevel_modifyLevel]

/-- A node is inserted when it has been put last and the level of its parent has been changed as
inserting changes it. -/
theorem modifyLevel_append {r : Registry ε} {parent : Option Nat} {d : Definition ε}
    {f : Level → Level} (hparent : ∀ p, parent = some p → p < r.size)
    (hf : f (r.levelOf parent) = (r.levelOf parent).insert d.keys r.size) :
    (r.append ⟨d, parent, .empty⟩).modifyLevel f parent = r.insert parent d := by
  cases parent with
  | none =>
    have htop : f r.top = r.top.insert d.keys r.size := hf
    simp [append, modifyLevel, insert, htop]
  | some p =>
    have hp : p < r.nodes.length := hparent p rfl
    have hlevel : r.levelOf (some p) = (r.nodes[p]).level := by simp [levelOf, hp]
    rw [hlevel] at hf
    simp only [append, modifyLevel, insert]
    congr 1
    apply List.ext_getElem?
    intro id
    rw [List.getElem?_modify]
    rcases Nat.lt_or_ge id r.nodes.length with hlt | hge
    · rw [List.getElem?_append_left hlt, List.getElem?_append_left (by simpa using hlt),
        List.getElem?_modify]
      by_cases heq : p = id
      · subst heq
        simp [hp, hf]
      · simp [heq]
    · have hne : p ≠ id := by omega
      rw [List.getElem?_append_right hge, List.getElem?_append_right (by simpa using hge),
        List.length_modify]
      simp [hne]

end Registry

structure Session (ε : Type) where
  registry : Registry ε
  drafts : List (Draft ε)
  placed : List Nat

/-- What callers ask of a registry: to register a command that they hold, to register a new one,
or to close it. -/
inductive Call (ε : Type)
  | register (path : List String) (number : Nat)
  | add (path : List String) (d : Definition ε)
  | close

namespace Session

/-- An empty registry, and the commands that its callers hold. -/
def begin (drafts : List (Draft ε)) : Session ε := ⟨.empty, drafts, []⟩

/-- The session with a draft under a number, which may be the first free one. -/
def keep (w : Session ε) (number : Nat) (draft : Draft ε) : Session ε :=
  { w with drafts := w.drafts.take number ++ draft :: w.drafts.drop (number + 1) }

def place (w : Session ε) (path : List String) (number : Nat) (draft : Draft ε) :
    Except RegistrationError (Session ε) :=
  (w.registry.registerDraft path draft).map fun (grown, placed) =>
    { w.keep number placed with registry := grown, placed := w.placed ++ [number] }

def perform (w : Session ε) : Call ε → Except RegistrationError (Session ε)
  | .register path number =>
    match w.drafts[number]? with
    | none => .ok w
    | some draft => w.place path number draft
  | .add path d =>
    match d.check with
    | .error e => .error e
    | .ok checked => w.place path w.drafts.length ⟨checked, none⟩
  | .close => .ok { w with registry := w.registry.close }

/-- The assignments that put a command in the registry: the command learns its number, it is put
last, and the level of its parent learns of its keys, one by one, and of it. -/
def assign (number : Nat) (d : Definition ε) (parent : Option Nat) (id : Nat) :
    EStateM RegistrationError (Session ε) Unit := do
  modify fun w => w.keep number ⟨d, some id⟩
  modify fun w => { w with
    registry := w.registry.append ⟨d, parent, .empty⟩
    placed := w.placed ++ [number] }
  d.keys.forM fun key => modify fun w => { w with
    registry := w.registry.modifyLevel (Level.enter id key) parent }
  modify fun w => { w with registry := w.registry.modifyLevel (Level.list id) parent }

/-- Registering a draft as it is carried out: a failure leaves in force what has been assigned
before it. -/
def enter (path : List String) (number : Nat) (draft : Draft ε) :
    EStateM RegistrationError (Session ε) Unit := do
  if draft.id.isSome then
    throw (.invalid s!"Command '{draft.definition.name}' is already part of a registry")
  let r := (← get).registry
  if r.isSealed then throw .locked
  match r.walkPath path none path with
  | .error e => throw e
  | .ok parent =>
    match r.clash? parent draft.definition.keys with
    | some key => throw (.duplicateCommand key (r.qualifiedName parent))
    | none =>
      if ¬ draft.definition.keys.Nodup then
        throw (.duplicateCommand draft.definition.name (r.qualifiedName parent))
      assign number draft.definition parent r.size

def carryOut : Call ε → EStateM RegistrationError (Session ε) Unit
  | .register path number => do
    match (← get).drafts[number]? with
    | none => pure ()
    | some draft => enter path number draft
  | .add path d => do
    match d.check with
    | .error e => throw e
    | .ok checked => enter path (← get).drafts.length ⟨checked, none⟩
  | .close => modify fun w => { w with registry := w.registry.close }

def after (w : Session ε) (c : Call ε) : Session ε :=
  match (carryOut c).run w with
  | .ok _ w' => w'
  | .error _ w' => w'

/-- A session that comes about from an empty registry and well-formed commands by calls, successful
or not. Some of the commands may be in other registries. -/
inductive Reachable : Session ε → Prop
  | begin {drafts : List (Draft ε)}
      (checked : ∀ draft ∈ drafts, ∃ d : Definition ε, d.check = .ok draft.definition) :
      Reachable (begin drafts)
  | call {w : Session ε} (before : Reachable w) (c : Call ε) : Reachable (w.after c)

variable {w w' : Session ε} {path : List String} {number : Nat} {draft : Draft ε}

/-- Entering the keys of a command changes the registry only, at one level. -/
theorem foldl_enter (id : Nat) (parent : Option Nat) (keys : List String) (w : Session ε) :
    keys.foldl (fun w key => { w with
        registry := w.registry.modifyLevel (Level.enter id key) parent }) w =
      { w with
        registry := w.registry.modifyLevel
          (fun l => keys.foldl (fun l key => l.enter id key) l) parent } := by
  rw [← Registry.foldl_modifyLevel]
  induction keys generalizing w with
  | nil => rfl
  | cons key rest ih => rw [List.foldl_cons, ih, List.foldl_cons]

theorem assign_run {d : Definition ε} {parent : Option Nat}
    (hparent : ∀ p, parent = some p → p < w.registry.size)
    (hfree : ∀ key ∈ d.keys, key ∉ (w.registry.levelOf parent).keys.map (·.1))
    (hnodup : d.keys.Nodup) :
    (assign number d parent w.registry.size).run w =
      .ok () { w.keep number ⟨d, some w.registry.size⟩ with
        registry := w.registry.insert parent d
        placed := w.placed ++ [number] } := by
  have hinsert := Registry.modifyLevel_append
    (f := fun l => (d.keys.foldl (fun l key => l.enter w.registry.size key) l).list w.registry.size)
    hparent (Level.list_foldl_enter hfree hnodup)
  simp only [assign, EStateM.run_bind, EStateM.run_modify, run_forM_modify, foldl_enter,
    Registry.modifyLevel_modifyLevel]
  rw [show (w.keep number ⟨d, some w.registry.size⟩).registry = w.registry from rfl, hinsert]
  rfl

/-- A draft is not registered if it is in a registry, if the registry is closed, if its path leads
nowhere, or if one of its keys is taken or comes twice. -/
theorem place_eq (w : Session ε) (path : List String) (number : Nat) (draft : Draft ε) :
    w.place path number draft =
      if draft.id.isSome then
        .error (.invalid s!"Command '{draft.definition.name}' is already part of a registry")
      else if w.registry.isSealed then .error .locked
      else
        match w.registry.walkPath path none path with
        | .error e => .error e
        | .ok parent =>
          match w.registry.clash? parent draft.definition.keys with
          | some key => .error (.duplicateCommand key (w.registry.qualifiedName parent))
          | none =>
            if draft.definition.keys.Nodup then
              .ok { w.keep number { draft with id := some w.registry.size } with
                registry := w.registry.insert parent draft.definition
                placed := w.placed ++ [number] }
            else
              .error (.duplicateCommand draft.definition.name
                (w.registry.qualifiedName parent)) := by
  unfold place Registry.registerDraft Registry.register
  cases hid : draft.id with
  | some id => rfl
  | none =>
    by_cases hsealed : w.registry.isSealed
    · simp [hsealed, bind, Except.bind, Except.map]
    · simp only [if_neg hsealed, Option.isSome_none, Bool.false_eq_true, if_false]
      cases w.registry.walkPath path none path with
      | error e => rfl
      | ok parent =>
        dsimp only
        rw [← Registry.clash?]
        cases w.registry.clash? parent draft.definition.keys with
        | some key => rfl
        | none =>
          by_cases hnodup : draft.definition.keys.Nodup
          · simp only [if_pos hnodup]
            rfl
          · simp only [if_neg hnodup]
            rfl

/-- Registering a draft as it is carried out comes to the same, and a failure has changed
nothing. -/
theorem enter_run (hf : w.registry.Forest) :
    (enter path number draft).run w =
      match w.place path number draft with
      | .ok w' => .ok () w'
      | .error e => .error e w := by
  rw [place_eq]
  by_cases hid : draft.id.isSome
  · simp [enter, hid]
  by_cases hsealed : w.registry.isSealed
  · simp [enter, hid, hsealed]
  cases hparent : w.registry.walkPath path none path with
  | error e => simp [enter, hid, hsealed, hparent]
  | ok parent =>
    cases hkey : w.registry.clash? parent draft.definition.keys with
    | some key => simp [enter, hid, hsealed, hparent, hkey]
    | none =>
      by_cases hnodup : draft.definition.keys.Nodup
      · have hlt := hf.walkPath_lt (fun p hp => by cases hp) hparent
        have hfree : ∀ key ∈ draft.definition.keys,
            key ∉ (w.registry.levelOf parent).keys.map (·.1) := by
          intro key hmem
          simpa using List.find?_eq_none.mp hkey key hmem
        have hassigned : (assign number _ parent w.registry.size).run w = _ :=
          assign_run hlt hfree hnodup
        simp [enter, hid, hsealed, hparent, hkey, hnodup, hassigned]
      · simp [enter, hid, hsealed, hparent, hkey, hnodup]

/-- A call as it is carried out comes to the call, and a call that fails has changed nothing. -/
theorem carryOut_run (hf : w.registry.Forest) (c : Call ε) :
    (carryOut c).run w =
      match w.perform c with
      | .ok w' => .ok () w'
      | .error e => .error e w := by
  cases c with
  | register path number =>
    cases hdraft : w.drafts[number]? with
    | none => simp [carryOut, perform, hdraft]
    | some draft => simp [carryOut, perform, hdraft, enter_run hf]
  | add path d =>
    cases hcheck : d.check with
    | error e => simp [carryOut, perform, hcheck]
    | ok checked => simp [carryOut, perform, hcheck, enter_run hf]
  | close => simp [carryOut, perform]

theorem after_eq (hf : w.registry.Forest) (c : Call ε) :
    w.after c = match w.perform c with
      | .ok w' => w'
      | .error _ => w := by
  rw [after, carryOut_run hf]
  cases w.perform c <;> rfl

theorem place_eq_ok (h : w.place path number draft = .ok w') :
    draft.id = none ∧ ∃ grown, w.registry.register path draft.definition = .ok grown ∧
      w' = { w.keep number { draft with id := some w.registry.size } with
        registry := grown
        placed := w.placed ++ [number] } := by
  unfold place Registry.registerDraft at h
  cases hid : draft.id with
  | some id => simp [hid, Except.map] at h
  | none =>
    rw [hid] at h
    cases hgrown : w.registry.register path draft.definition with
    | error e => simp [hgrown, bind, Except.bind, Except.map] at h
    | ok grown =>
      rw [hgrown] at h
      exact ⟨rfl, grown, rfl, (Except.ok.inj h).symm⟩

theorem getElem?_keep (hnumber : number ≤ w.drafts.length) (other : Nat) :
    (w.keep number draft).drafts[other]? =
      if other = number then some draft else w.drafts[other]? := by
  have hlength : (w.drafts.take number).length = number := List.length_take_of_le hnumber
  simp only [keep]
  rcases Nat.lt_trichotomy other number with hlt | rfl | hgt
  · rw [List.getElem?_append_left (by omega), List.getElem?_take_of_lt hlt, if_neg (by omega)]
  · rw [List.getElem?_append_right (by omega), hlength]
    simp
  · obtain ⟨gap, rfl⟩ := Nat.exists_eq_add_of_lt hgt
    rw [List.getElem?_append_right (by omega), hlength, if_neg (by omega),
      show number + gap + 1 - number = gap + 1 by omega, List.getElem?_cons_succ,
      List.getElem?_drop]
    congr 1
    omega

structure Placed (w : Session ε) : Prop where
  size : w.placed.length = w.registry.size
  ids : ∀ id number : Nat, w.placed[id]? = some number → ∃ node, w.registry.nodes[id]? = some node ∧
    w.drafts[number]? = some ⟨node.definition, some id⟩

theorem Placed.place (h : w.Placed) (hnumber : w.drafts[number]? = some draft ∨
    number = w.drafts.length) (hplace : w.place path number draft = .ok w') : w'.Placed := by
  obtain ⟨hid, grown, hgrown, rfl⟩ := place_eq_ok hplace
  obtain ⟨-, parent, -, -, -, rfl⟩ := Registry.register_eq_ok.mp hgrown
  have hle : number ≤ w.drafts.length := by
    rcases hnumber with hdraft | heq
    · exact Nat.le_of_lt (List.getElem?_eq_some_iff.mp hdraft).1
    · exact Nat.le_of_eq heq
  refine ⟨by simp [h.size, Registry.size_insert], fun id other hother => ?_⟩
  dsimp only at hother ⊢
  rw [Registry.nodes_insert, getElem?_keep hle]
  rcases Nat.lt_or_ge id w.placed.length with hlt | hge
  · rw [List.getElem?_append_left hlt] at hother
    obtain ⟨node, hnode, hdraft⟩ := h.ids id other hother
    -- A draft that is in the registry has a position, so it is not the one registered now.
    have hne : other ≠ number := by
      rintro rfl
      rcases hnumber with hnew | heq
      · rw [hdraft] at hnew
        cases hnew
        cases hid
      · rw [heq, List.getElem?_eq_none (Nat.le_refl _)] at hdraft
        cases hdraft
    rw [if_neg (Nat.ne_of_lt (h.size ▸ hlt)), if_neg hne, hnode]
    exact ⟨_, rfl, hdraft⟩
  · rw [List.getElem?_append_right hge, List.getElem?_singleton] at hother
    split at hother
    case isFalse => cases hother
    case isTrue hzero =>
      have hlast : id = w.registry.size := by
        rw [← h.size]
        omega
      rw [if_pos hlast, if_pos (Option.some.inj hother).symm, hlast]
      exact ⟨_, rfl, rfl⟩

/-- What holds of a session throughout: its registry is filled by registrations alone, the commands
that callers hold are well formed, and registered ones know their positions. -/
structure Kept (w : Session ε) : Prop where
  registry : w.registry.Reachable
  checked : ∀ draft ∈ w.drafts, ∃ d : Definition ε, d.check = .ok draft.definition
  placed : w.Placed

theorem Kept.place (h : w.Kept) (hcheck : ∃ d : Definition ε, d.check = .ok draft.definition)
    (hnumber : w.drafts[number]? = some draft ∨ number = w.drafts.length)
    (hplace : w.place path number draft = .ok w') : w'.Kept := by
  have hplaced := h.placed.place hnumber hplace
  obtain ⟨-, grown, hgrown, rfl⟩ := place_eq_ok hplace
  obtain ⟨d, hd⟩ := hcheck
  refine ⟨h.registry.register hd hgrown, fun other hother => ?_, hplaced⟩
  simp only [keep, List.mem_append, List.mem_cons] at hother
  rcases hother with hold | rfl | hold
  · exact h.checked other (List.mem_of_mem_take hold)
  · exact ⟨d, hd⟩
  · exact h.checked other (List.mem_of_mem_drop hold)

theorem Kept.perform (h : w.Kept) {c : Call ε} (hperform : w.perform c = .ok w') : w'.Kept := by
  cases c with
  | register path number =>
    cases hdraft : w.drafts[number]? with
    | none =>
      simp only [Session.perform, hdraft, Except.ok.injEq] at hperform
      exact hperform ▸ h
    | some draft =>
      simp only [Session.perform, hdraft] at hperform
      exact h.place (h.checked draft (List.mem_of_getElem? hdraft)) (.inl hdraft) hperform
  | add path d =>
    cases hcheck : d.check with
    | error e => simp [Session.perform, hcheck] at hperform
    | ok checked =>
      simp only [Session.perform, hcheck] at hperform
      exact h.place ⟨d, hcheck⟩ (.inr rfl) hperform
  | close =>
    cases hperform
    exact ⟨h.registry.close, h.checked, h.placed.size, h.placed.ids⟩

theorem Reachable.calls (hw : w.Reachable) (calls : List (Call ε)) :
    (calls.foldl after w).Reachable := by
  induction calls generalizing w with
  | nil => exact hw
  | cons c rest ih => exact ih (hw.call c)

theorem Reachable.kept (hw : w.Reachable) : w.Kept := by
  induction hw with
  | begin checked => exact ⟨.empty, checked, rfl, by simp [Session.begin]⟩
  | @call w before c ih =>
    rw [after_eq ih.registry.forest]
    cases hperform : w.perform c with
    | error e => exact ih
    | ok w' => exact ih.perform hperform

theorem registry_after_of_isSealed (hf : w.registry.Forest) (hsealed : w.registry.isSealed = true)
    (c : Call ε) : (w.after c).registry = w.registry := by
  have hplace (path : List String) (number : Nat) (draft : Draft ε) :
      ∀ w', w.place path number draft ≠ .ok w' := by
    intro w' h
    obtain ⟨-, grown, hgrown, -⟩ := place_eq_ok h
    obtain ⟨hopen, -⟩ := Registry.register_eq_ok.mp hgrown
    rw [hsealed] at hopen
    cases hopen
  rw [after_eq hf]
  cases c with
  | register path number =>
    cases hdraft : w.drafts[number]? with
    | none => simp [perform, hdraft]
    | some draft =>
      cases h : w.place path number draft with
      | error e => simp [perform, hdraft, h]
      | ok w' => exact absurd h (hplace _ _ _ w')
  | add path d =>
    cases hcheck : d.check with
    | error e => simp [perform, hcheck]
    | ok checked =>
      cases h : w.place path w.drafts.length ⟨checked, none⟩ with
      | error e => simp [perform, hcheck, h]
      | ok w' => exact absurd h (hplace _ _ _ w')
  | close => simp [perform, Registry.close, ← hsealed]

theorem registry_foldl_of_isSealed (hw : w.Reachable) (hsealed : w.registry.isSealed = true)
    (calls : List (Call ε)) : (calls.foldl after w).registry = w.registry := by
  induction calls generalizing w with
  | nil => rfl
  | cons c rest ih =>
    have hsame := registry_after_of_isSealed hw.kept.registry.forest hsealed c
    rw [List.foldl_cons, ih (hw.call c) (by rw [hsame, hsealed]), hsame]

/-- Whatever calls are made on an empty registry, the commands form a forest: they stand under
earlier ones, so that their full names end; each is a member of one level, once, and levels list
their members in order; the index of a level leads from what its members answer to, in lower case,
to them, and no key comes twice. The numbers of commands are their positions. A call, as it is
carried out, comes to what the library says, and when it fails it has changed nothing. Once the
registry is closed, no calls change it. -/
theorem calls_keep_the_forest {w : Session ε} (hw : w.Reachable) :
    w.registry.Forest ∧
    (∀ (id : Nat) (node : Node ε), w.registry.nodes[id]? = some node →
      w.registry.namesTo (some id) = w.registry.namesTo node.parent ++ [node.definition.name]) ∧
    (∀ (p : Option Nat) (id : Nat), (w.registry.levelOf p).members.count id =
      if w.registry.place id = some p then 1 else 0) ∧
    (∀ (p : Option Nat) (key : String) (id : Nat),
      (w.registry.levelOf p).keys.lookup key = some id ↔
        ∃ node, w.registry.nodes[id]? = some node ∧ node.parent = p ∧
          key ∈ node.definition.keys) ∧
    w.Placed ∧
    (∀ c : Call ε, (carryOut c).run w =
      match w.perform c with
      | .ok w' => .ok () w'
      | .error e => .error e w) ∧
    (w.registry.isSealed = true →
      ∀ calls : List (Call ε), (calls.foldl after w).registry = w.registry) := by
  have hkept := hw.kept
  have hf := hkept.registry.forest
  refine ⟨hf, fun id node hnode => hf.namesTo_eq hnode, fun p id => hf.count_members p id,
    fun p key id => hf.lookup_eq_some, hkept.placed, carryOut_run hf, fun hsealed calls => ?_⟩
  exact registry_foldl_of_isSealed hw hsealed calls

/-- A command below another one, found by its alias, in a registry that refused a third
registration and was closed. -/
theorem forest_of_two_commands :
    let roles : Definition Unit := ⟨"Roles", none, "", "", "", [], [], true, ""⟩
    let grant : Definition Unit := ⟨"grant", some (), "", "", "", ["G"], [], true, ""⟩
    let calls : List (Call Unit) :=
      [.register [] 0, .register ["ROLES"] 1,
        .add ["roles"] ⟨"g", none, "", "", "", [], [], true, ""⟩, .close]
    let w : Session Unit := calls.foldl after (begin [⟨roles, none⟩, ⟨grant, none⟩])
    w.Reachable ∧ w.registry.namesTo (some 1) = ["Roles", "grant"] ∧
      (w.registry.levelOf (some 0)).keys.lookup "g" = some 1 ∧
      ∀ more : List (Call Unit), (more.foldl after w).registry = w.registry := by
  intro roles grant calls w
  have hroles : roles.check = .ok roles := by
    refine Definition.check_eq_ok.mpr ⟨?_, [], rfl, rfl⟩
    decide +kernel
  have hgrant : grant.check = .ok grant := by
    refine Definition.check_eq_ok.mpr ⟨?_, [], rfl, rfl⟩
    decide +kernel
  have hbegin : (begin [⟨roles, none⟩, ⟨grant, none⟩]).Reachable := by
    refine .begin fun draft hdraft => ?_
    simp only [List.mem_cons, List.not_mem_nil, or_false] at hdraft
    rcases hdraft with rfl | rfl
    · exact ⟨roles, hroles⟩
    · exact ⟨grant, hgrant⟩
  have hw : w.Reachable := hbegin.calls calls
  obtain ⟨-, hnames, -, hindex, -, -, hclosed⟩ := calls_keep_the_forest hw
  have hnodes : w.registry.nodes.map (fun node => (node.parent, node.definition.name,
      node.definition.keys)) = [(none, "Roles", ["roles"]), (some 0, "grant", ["grant", "g"])] := by
    decide +kernel
  have hnode (id : Nat) := congrArg (fun facts => facts[id]?) hnodes
  simp only [List.getElem?_map] at hnode
  obtain ⟨first, hfirst, hroot⟩ := Option.map_eq_some_iff.mp (hnode 0)
  obtain ⟨second, hsecond, hbelow⟩ := Option.map_eq_some_iff.mp (hnode 1)
  simp only [Prod.mk.injEq] at hroot hbelow
  refine ⟨hw, ?_, (hindex (some 0) "g" 1).mpr ⟨second, hsecond, hbelow.1, ?_⟩,
    hclosed (by decide +kernel)⟩
  · rw [hnames 1 second hsecond, hbelow.1, hnames 0 first hfirst, hroot.1, hroot.2.1, hbelow.2.1]
    rfl
  · simp [hbelow.2.2]

end Session

end Guildhall.Command
