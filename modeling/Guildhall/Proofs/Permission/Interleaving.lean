import Guildhall.Proofs.Permission.Coverage
import Guildhall.Proofs.Permission.Document
import Mathlib.Data.List.Infix
import Mathlib.Logic.Function.Iterate

/-!
# Resolutions amid changes

A resolution reads a store piece by piece: the roles of the member, the permissions of one role
after the other, and the overrides. Between its reads others may change the store. What it comes to
is put together from different moments then, and belongs to one of them if all changes concern the
same piece.
-/

namespace Guildhall.Permission

structure Busy where
  store : Store
  coming : List (List Write)

namespace Busy

def pass (b : Busy) : Busy := ⟨(b.coming.headD []).foldl Store.after b.store, b.coming.tail⟩

def changesAfter (b : Busy) (reads : Nat) : List Write := (b.coming.take reads).flatten

def storeAt (b : Busy) (reads : Nat) : Store := (b.changesAfter reads).foldl Store.after b.store

def told {α : Type} (read : Store → Except Failure α × Store) (b : Busy) :
    Except Failure α × Busy :=
  ((read b.store).1, pass { b with store := (read b.store).2 })

@[simp] theorem storeAt_zero (b : Busy) : b.storeAt 0 = b.store := rfl

theorem storeAt_pass (b : Busy) (reads : Nat) : b.pass.storeAt reads = b.storeAt (reads + 1) := by
  obtain ⟨s, coming⟩ := b
  cases coming with
  | nil => simp [pass, storeAt, changesAfter]
  | cons changes rest => simp [pass, storeAt, changesAfter]

theorem store_iterate (b : Busy) (reads : Nat) : (pass^[reads] b).store = b.storeAt reads := by
  induction reads generalizing b with
  | zero => rfl
  | succ reads ih => rw [Function.iterate_succ_apply, ih, storeAt_pass]

end Busy

def Source.busy : Source Busy where
  memberRoles guild user := Busy.told (Source.memory.memberRoles guild user)
  rolePermissions guild role := Busy.told (Source.memory.rolePermissions guild role)
  overrides guild user := Busy.told (Source.memory.overrides guild user)

namespace Busy

def rolesRead (b : Busy) (guild : String) (roles : List String) (reads : Nat) :
    List (String × List String) :=
  roles.mapIdx fun i role => (role, (b.storeAt (i + reads)).rolePermissions guild role)

theorem roleReadings_eq (b : Busy) (guild : String) (roles : List String) :
    Source.busy.roleReadings guild roles b =
      (.ok (b.rolesRead guild roles 0), pass^[roles.length] b) := by
  induction roles generalizing b with
  | nil => rfl
  | cons role rest ih =>
    have hread : Source.busy.rolePermissions guild role b =
        (.ok (b.store.rolePermissions guild role), b.pass) := rfl
    simp only [Source.roleReadings, hread, ih, rolesRead, List.mapIdx_cons, storeAt_pass,
      Nat.add_zero, storeAt_zero, List.length_cons, Function.iterate_succ_apply]

/-- Everything that is read about a member: after their roles the permissions of each, and at last
the overrides. -/
theorem reading_eq (b : Busy) (guild user : String) {roles : List String} {os : List Override}
    (hroles : sortTexts (b.store.memberRoles guild user) = roles)
    (hos : (b.storeAt (roles.length + 1)).overrides guild user = .ok os) :
    (Source.busy.reading guild user b).1 = .ok ⟨b.rolesRead guild roles 1, os⟩ := by
  have hmember : Source.busy.memberRoles guild user b =
      (.ok (b.store.memberRoles guild user), b.pass) := rfl
  have hpieces : b.pass.rolesRead guild roles 0 = b.rolesRead guild roles 1 := by
    simp only [rolesRead, storeAt_pass, Nat.add_zero]
  have hlast : (Source.busy.overrides guild user (pass^[roles.length] b.pass)).1 = .ok os := by
    show orFailure ((pass^[roles.length] b.pass).store.overrides guild user) = .ok os
    rw [store_iterate, storeAt_pass, hos]
    rfl
  simp only [Source.reading, hmember, hroles, roleReadings_eq, hpieces]
  cases hoverrides : Source.busy.overrides guild user (pass^[roles.length] b.pass) with
  | mk told left =>
    rw [hoverrides] at hlast
    cases hlast
    rfl

end Busy

inductive Piece
  | memberRoles
  | role (name : String)
  | overrides

/-- The piece that a change concerns, if it concerns what is read about a member with some roles. -/
def Write.piece? (guild user : String) (roles : List String) : Write → Option Piece
  | .setMemberRoles g u _ => if g = guild ∧ u = user then some .memberRoles else none
  | .grantRole g r _ => if g = guild ∧ r ∈ roles then some (.role r) else none
  | .revokeRole g r _ => if g = guild ∧ r ∈ roles then some (.role r) else none
  | .setOverride g u _ _ => if g = guild ∧ u = user then some .overrides else none
  | .clearOverride g u _ => if g = guild ∧ u = user then some .overrides else none

namespace Store

structure SameBut (piece : Piece) (guild user : String) (roles : List String) (s t : Store) :
    Prop where
  memberRoles : piece ≠ .memberRoles → t.memberRoles guild user = s.memberRoles guild user
  rolePermissions : ∀ role ∈ roles, piece ≠ .role role →
    t.rolePermissions guild role = s.rolePermissions guild role
  overrides : piece ≠ .overrides → t.overrideEntries guild user = s.overrideEntries guild user

namespace SameBut

variable {piece : Piece} {guild user : String} {roles : List String} {s t u : Store}

theorem refl (s : Store) : SameBut piece guild user roles s s :=
  ⟨fun _ => rfl, fun _ _ _ => rfl, fun _ => rfl⟩

theorem trans (h : SameBut piece guild user roles s t) (h' : SameBut piece guild user roles t u) :
    SameBut piece guild user roles s u where
  memberRoles hne := (h'.memberRoles hne).trans (h.memberRoles hne)
  rolePermissions role hrole hne :=
    (h'.rolePermissions role hrole hne).trans (h.rolePermissions role hrole hne)
  overrides hne := (h'.overrides hne).trans (h.overrides hne)

theorem after {w : Write} (s : Store)
    (h : ∀ p, w.piece? guild user roles = some p → p = piece) :
    SameBut piece guild user roles s (s.after w) := by
  cases hw : w.canonical with
  | error fault => rw [after_of_malformed hw]; exact refl s
  | ok changed =>
    rw [after_of_canonical hw]
    have hnamed := Write.named_of_canonical hw
    constructor
    · intro hne
      rw [memberRoles_apply]
      cases hnamed with
      | setMemberRoles g u given =>
        refine if_neg fun hplace => hne ?_
        exact (h _ (if_pos hplace)).symm
      | _ => rfl
    · intro role hrole hne
      rw [rolePermissions_apply]
      cases hnamed with
      | grantRole g r =>
        refine if_neg fun ⟨hg, hr⟩ => hne ?_
        exact (h (.role role) (hr ▸ if_pos ⟨hg, hr ▸ hrole⟩)).symm
      | revokeRole g r =>
        refine if_neg fun ⟨hg, hr⟩ => hne ?_
        exact (h (.role role) (hr ▸ if_pos ⟨hg, hr ▸ hrole⟩)).symm
      | _ => rfl
    · intro hne
      rw [overrideEntries_apply]
      cases hnamed with
      | setOverride g u allow =>
        refine if_neg fun hplace => hne ?_
        exact (h _ (if_pos hplace)).symm
      | clearOverride g u =>
        refine if_neg fun hplace => hne ?_
        exact (h _ (if_pos hplace)).symm
      | _ => rfl

theorem foldl_after {changes : List Write} (s : Store)
    (h : ∀ w ∈ changes, ∀ p, w.piece? guild user roles = some p → p = piece) :
    SameBut piece guild user roles s (changes.foldl Store.after s) := by
  induction changes generalizing s with
  | nil => exact refl s
  | cons w rest ih =>
    exact (after s (h w List.mem_cons_self)).trans
      (ih (s.after w) fun w' hw' => h w' (List.mem_cons_of_mem w hw'))

end SameBut

end Store

namespace Busy

variable {b : Busy} {guild user : String} {piece : Piece} {roles : List String}

theorem changesAfter_mono {reads later : Nat} (h : reads ≤ later) :
    b.changesAfter reads ⊆ b.changesAfter later := by
  intro w hw
  obtain ⟨changes, hchanges, hw⟩ := List.mem_flatten.mp hw
  exact List.mem_flatten.mpr ⟨changes, (List.take_sublist_take_left h).subset hchanges, hw⟩

theorem sameBut_storeAt {reads last : Nat} (hle : reads ≤ last)
    (h : ∀ w ∈ b.changesAfter last, ∀ p, w.piece? guild user roles = some p → p = piece) :
    Store.SameBut piece guild user roles b.store (b.storeAt reads) :=
  .foldl_after b.store fun w hw => h w (changesAfter_mono hle hw)

/-- One of the roles has, when its turn comes, an identifier that covers `n`. -/
def GrantedInTurn (b : Busy) (guild : String) (roles : List String) (n : Node) : Prop :=
  ∃ i role, roles[i]? = some role ∧ ∃ held : Node,
    held.value ∈ (b.storeAt (i + 1)).rolePermissions guild role ∧ held.covers n = true

theorem mem_rolesRead {entry : String × List String} :
    entry ∈ b.rolesRead guild roles 1 ↔ ∃ i role, roles[i]? = some role ∧
      entry = (role, (b.storeAt (i + 1)).rolePermissions guild role) := by
  simp only [rolesRead, List.mem_mapIdx, List.getElem?_eq_some_iff]
  constructor
  · rintro ⟨i, hi, rfl⟩
    exact ⟨i, roles[i], ⟨hi, rfl⟩, rfl⟩
  · rintro ⟨i, role, ⟨hi, rfl⟩, rfl⟩
    exact ⟨i, hi, rfl⟩

theorem storeAt_canonical (hb : b.store.Reachable) (reads : Nat) : (b.storeAt reads).Canonical :=
  (hb.foldl (b.changesAfter reads)).sound.2

theorem grantedByRole_iff (hb : b.store.Reachable) {os : List Override} {n : Node} :
    Reading.GrantedByRole ⟨b.rolesRead guild roles 1, os⟩ n ↔ b.GrantedInTurn guild roles n := by
  constructor
  · rintro ⟨entry, hentry, text, htext, held, hparse, hcovers⟩
    obtain ⟨i, role, hrole, rfl⟩ := mem_rolesRead.mp hentry
    rw [(storeAt_canonical hb (i + 1)).parse_eq_ok htext] at hparse
    exact ⟨i, role, hrole, held, hparse ▸ htext, hcovers⟩
  · rintro ⟨i, role, hrole, held, hheld, hcovers⟩
    exact ⟨_, mem_rolesRead.mpr ⟨i, role, hrole, rfl⟩, held.value, hheld, held,
      ((storeAt_canonical hb (i + 1)).parse_eq_ok hheld).mpr rfl, hcovers⟩

theorem exists_resolved (hb : b.store.Reachable) (guild : String) (roles : List String)
    (os : List Override) : ∃ g, Reading.resolved ⟨b.rolesRead guild roles 1, os⟩ = .ok g := by
  obtain ⟨nodes, hnodes⟩ : ∃ nodes, parseAll ((b.rolesRead guild roles 1).flatMap (·.2)) =
      .ok nodes := by
    apply exists_parseAll
    intro text htext
    obtain ⟨entry, hentry, htext⟩ := List.mem_flatMap.mp htext
    obtain ⟨i, role, -, rfl⟩ := mem_rolesRead.mp hentry
    obtain ⟨n, hn, rfl⟩ := (storeAt_canonical hb (i + 1)).roles guild role text htext
    exact ⟨n, hn⟩
  exact ⟨.build nodes os, by rw [Reading.resolved, hnodes]; rfl⟩

/-- What an uninterrupted resolution at some moment comes to, if every piece is at that moment what
it was when it was read. -/
theorem resolve_of_agrees {t : Store} {os : List Override} {g : Grants}
    (hresolved : Reading.resolved ⟨b.rolesRead guild roles 1, os⟩ = .ok g)
    (hos : t.overrides guild user = .ok os)
    (hroles : sortTexts (t.memberRoles guild user) = roles)
    (hagree : ∀ i role, roles[i]? = some role →
      t.rolePermissions guild role = (b.storeAt (i + 1)).rolePermissions guild role) :
    Source.memory.resolve (some guild) user t = (.ok g, t) := by
  have hpieces : (roles.map fun role => (role, t.rolePermissions guild role)) =
      b.rolesRead guild roles 1 := by
    apply List.ext_getElem?
    intro i
    rw [rolesRead, List.getElem?_map, List.getElem?_mapIdx]
    cases hrole : roles[i]? with
    | none => rfl
    | some role => simp [hagree i role hrole]
  have hread : t.reading guild user = .ok ⟨b.rolesRead guild roles 1, os⟩ := by
    rw [Store.reading, hos, hroles, hpieces]
    rfl
  simp only [Source.resolve, Source.read_eq, Source.reading_memory, hread, orFailure, Except.bind,
    hresolved]

/-- While only one piece changes, it is read at a moment at which every other piece is what it is
whenever it is read. -/
theorem exists_moment (hnodup : (sortTexts (b.store.memberRoles guild user)).Nodup)
    (hroles : sortTexts (b.store.memberRoles guild user) = roles)
    (h : ∀ w ∈ b.changesAfter (roles.length + 1), ∀ p,
      w.piece? guild user roles = some p → p = piece)
    {os : List Override} {g : Grants}
    (hos : (b.storeAt (roles.length + 1)).overrides guild user = .ok os)
    (hresolved : Reading.resolved ⟨b.rolesRead guild roles 1, os⟩ = .ok g) :
    ∃ reads ≤ roles.length + 1,
      Source.memory.resolve (some guild) user (b.storeAt reads) = (.ok g, b.storeAt reads) := by
  have hsame {reads : Nat} (hle : reads ≤ roles.length + 1) :
      Store.SameBut piece guild user roles b.store (b.storeAt reads) := sameBut_storeAt hle h
  have hoverrides (hne : piece ≠ .overrides) {reads : Nat} (hle : reads ≤ roles.length + 1) :
      (b.storeAt reads).overrides guild user = .ok os := by
    rw [← hos, Store.overrides, Store.overrides, (hsame hle).overrides hne,
      (hsame (Nat.le_refl _)).overrides hne]
  have hmember (hne : piece ≠ .memberRoles) {reads : Nat} (hle : reads ≤ roles.length + 1) :
      sortTexts ((b.storeAt reads).memberRoles guild user) = roles := by
    rw [(hsame hle).memberRoles hne, hroles]
  have hgranted {i reads : Nat} {role : String} (hrole : roles[i]? = some role)
      (hne : piece ≠ .role role) (hle : reads ≤ roles.length + 1) :
      (b.storeAt reads).rolePermissions guild role =
        (b.storeAt (i + 1)).rolePermissions guild role := by
    obtain ⟨hi, -⟩ := List.getElem?_eq_some_iff.mp hrole
    have hmem := List.mem_of_getElem? hrole
    have hturn : i + 1 ≤ roles.length + 1 := by omega
    rw [(hsame hle).rolePermissions role hmem hne, (hsame hturn).rolePermissions role hmem hne]
  cases piece with
  | memberRoles =>
    refine ⟨0, by omega, resolve_of_agrees hresolved ?_ hroles ?_⟩
    · exact hoverrides (by simp) (by omega)
    · exact fun i role hrole => hgranted hrole (by simp) (by omega)
  | overrides =>
    refine ⟨roles.length + 1, (Nat.le_refl _), resolve_of_agrees hresolved hos ?_ ?_⟩
    · exact hmember (by simp) (Nat.le_refl _)
    · exact fun i role hrole => hgranted hrole (by simp) (Nat.le_refl _)
  | role name =>
    by_cases hread : name ∈ roles
    · obtain ⟨k, hk⟩ := List.mem_iff_getElem?.mp hread
      obtain ⟨hlt, -⟩ := List.getElem?_eq_some_iff.mp hk
      refine ⟨k + 1, by omega, resolve_of_agrees hresolved ?_ ?_ fun i role hrole => ?_⟩
      · exact hoverrides (by simp) (by omega)
      · exact hmember (by simp) (by omega)
      · by_cases heq : role = name
        · -- No role is read twice.
          subst heq
          rw [hroles] at hnodup
          rw [(List.getElem?_inj hlt hnodup).mp (hk.trans hrole.symm)]
        · exact hgranted hrole (by simpa using Ne.symm heq) (by omega)
    · refine ⟨0, by omega, resolve_of_agrees hresolved ?_ hroles fun i role hrole => ?_⟩
      · exact hoverrides (by simp) (by omega)
      · refine hgranted hrole ?_ (by omega)
        rintro heq
        cases heq
        exact hread (List.mem_of_getElem? hrole)

/-- A resolution amid changes never fails. It is put together from the roles of the member as they
are at first, the permissions that each of them has when its turn comes, and the overrides as they
are at last: so it grants what one of these roles has in its turn, or an override allows at last, as
far as none denies it then. If all changes meanwhile concern the same piece of what is read, it is
what an uninterrupted resolution comes to at one of these moments. -/
theorem resolve_amid_changes (hb : b.store.Reachable) (guild user : String) :
    let roles := sortTexts (b.store.memberRoles guild user)
    let last := b.storeAt (roles.length + 1)
    ∃ os g, last.overrides guild user = .ok os ∧
      (Source.busy.resolve (some guild) user b).1 = .ok g ∧
      Reading.resolved ⟨b.rolesRead guild roles 1, os⟩ = .ok g ∧
      (∀ n, g.has n = true ↔
        (b.GrantedInTurn guild roles n ∨ last.Overridden guild user true n) ∧
          ¬ last.Overridden guild user false n) ∧
      ∀ piece, (∀ w ∈ b.changesAfter (roles.length + 1), ∀ p,
          w.piece? guild user roles = some p → p = piece) →
        ∃ reads ≤ roles.length + 1,
          Source.memory.resolve (some guild) user (b.storeAt reads) = (.ok g, b.storeAt reads) ∧
          ∀ n, g.has n = true ↔ (b.storeAt reads).Holds guild user n := by
  intro roles last
  obtain ⟨os, hos, hdecided⟩ :=
    (storeAt_canonical hb (roles.length + 1)).exists_decisions guild user
  obtain ⟨g, hresolved⟩ := exists_resolved hb guild roles os
  have hread := b.reading_eq guild user rfl hos
  refine ⟨os, g, hos, (Source.busy.resolve_eq_ok).mpr ⟨_, hread, hresolved⟩, hresolved,
    fun n => ?_, fun piece hpiece => ?_⟩
  · rw [Reading.resolved_has hresolved, Reading.Holds, grantedByRole_iff hb, Reading.Overridden,
      Reading.Overridden, hdecided, hdecided]
  · have hnodup : roles.Nodup :=
      (sortTexts_perm _).nodup_iff.mpr (hb.sound.1.nodup_memberRoles guild user)
    obtain ⟨reads, hle, hresolve⟩ := exists_moment hnodup rfl hpiece hos hresolved
    obtain ⟨g', hresolve', hholds⟩ := (storeAt_canonical hb reads).exists_resolve guild user
    rw [hresolve] at hresolve'
    cases hresolve'
    exact ⟨reads, hle, hresolve, hholds⟩

/-- While the permissions of a moderator are read, their role is given the identifier that is asked
for: they hold it from then on, and the resolution says so. -/
theorem granted_while_it_is_read :
    let b : Busy := ⟨Store.empty.after (.setMemberRoles "1" "42" ["mod"]),
      [[.grantRole "1" "mod" "kick"]]⟩
    ∃ g n, Node.parse "kick" = .ok n ∧
      (Source.busy.resolve (some "1") "42" b).1 = .ok g ∧ g.has n = true ∧
      ∃ reads ≤ 2, (b.storeAt reads).Holds "1" "42" n := by
  intro b
  have hroles : sortTexts (b.store.memberRoles "1" "42") = ["mod"] := by
    rw [show b.store.memberRoles "1" "42" = ["mod"] by decide]
    exact List.mergeSort_singleton _
  obtain ⟨n, hn⟩ : ∃ n, Node.parse "kick" = .ok n := ⟨_, rfl⟩
  have hvalue : n.value = "kick" := by
    cases hn
    rfl
  have hb : b.store.Reachable := .change .empty (.setMemberRoles "1" "42" ["mod"])
  obtain ⟨os, g, -, hresolve, -, hhas, hmoment⟩ := resolve_amid_changes hb "1" "42"
  simp only [hroles] at hhas hmoment
  have hgranted : b.GrantedInTurn "1" ["mod"] n :=
    ⟨0, "mod", rfl, n, by rw [hvalue]; decide, n.covers_self⟩
  have hdenied : ¬ (b.storeAt 2).Overridden "1" "42" false n := by
    rintro ⟨held, hlookup, -⟩
    rw [show (b.storeAt 2).overrideEntries "1" "42" = [] by decide] at hlookup
    cases hlookup
  have hheld : g.has n = true := (hhas n).mpr ⟨.inl hgranted, hdenied⟩
  obtain ⟨reads, hle, -, hholds⟩ := hmoment (.role "mod") (by
    intro w hw p hp
    rw [List.mem_singleton.mp (show w ∈ [Write.grantRole "1" "mod" "kick"] from hw)] at hp
    exact (Option.some.inj hp).symm)
  exact ⟨g, n, hn, hresolve, hheld, reads, hle, (hholds n).mp hheld⟩

/-- A member loses their role, and then the role is given an identifier. A resolution that has read
the roles before and reads the permissions after that grants it, though the member holds it at no
moment. -/
theorem granted_but_never_held :
    let s := Store.empty.after (.setMemberRoles "1" "42" ["mod"])
    let changes : List Write := [.setMemberRoles "1" "42" [], .grantRole "1" "mod" "kick"]
    ∃ g n, Node.parse "kick" = .ok n ∧ s.Reachable ∧
      (Source.busy.resolve (some "1") "42" ⟨s, [changes]⟩).1 = .ok g ∧ g.has n = true ∧
      ∀ before, before <+: changes → ∃ g',
        Source.memory.resolve (some "1") "42" (before.foldl Store.after s) =
          (.ok g', before.foldl Store.after s) ∧ g'.has n = false := by
  intro s changes
  let b : Busy := ⟨s, [changes]⟩
  have hs : s.Reachable := .change .empty _
  have hroles : sortTexts (b.store.memberRoles "1" "42") = ["mod"] := by
    rw [show b.store.memberRoles "1" "42" = ["mod"] by decide]
    exact List.mergeSort_singleton _
  have hlast : (b.storeAt 2).overrides "1" "42" = .ok [] := by decide
  have hread := b.reading_eq "1" "42" hroles hlast
  obtain ⟨n, hn⟩ : ∃ n, Node.parse "kick" = .ok n := ⟨_, rfl⟩
  refine ⟨.build [n] [], n, hn, hs, ?_, ?_, fun before hbefore => ?_⟩
  · refine Source.busy.resolve_eq_ok.mpr ⟨_, hread, ?_⟩
    rw [show b.rolesRead "1" ["mod"] 1 = [("mod", ["kick"])] by decide]
    cases hn
    rfl
  · exact Grants.build_has_iff.mpr ⟨.inl ⟨n, List.mem_singleton_self n, n.covers_self⟩, by simp⟩
  · have hfree : ∀ before ∈ changes.inits,
        (∀ role ∈ (before.foldl Store.after s).memberRoles "1" "42",
          (before.foldl Store.after s).rolePermissions "1" role = []) ∧
        (before.foldl Store.after s).overrideEntries "1" "42" = [] := by decide
    obtain ⟨hnothing, hnone⟩ := hfree before ((List.mem_inits _ _).mpr hbefore)
    obtain ⟨g', hresolve, hholds⟩ := (hs.foldl before).sound.2.exists_resolve "1" "42"
    refine ⟨g', hresolve, Bool.eq_false_iff.mpr fun hheld => ?_⟩
    obtain ⟨hgranted | ⟨held, hlookup, -⟩, -⟩ := (hholds n).mp hheld
    · obtain ⟨role, hrole, held, hmem, -⟩ := hgranted
      rw [hnothing role hrole] at hmem
      cases hmem
    · rw [hnone] at hlookup
      cases hlookup

end Busy

end Guildhall.Permission
