import Guildhall.Proofs.Permission.Document
import Mathlib.Data.List.Nodup

/-!
# Stores that record the same

Stores may record the same things in another order, and with empty sets or without them. Such
stores answer alike, and changes keep them alike. A store that is written as a document and read
again records the same.
-/

namespace Guildhall.Permission

structure GuildRecord.Alike (r t : GuildRecord) : Prop where
  roles : ∀ role, ((r.roles.lookup role).getD []).Perm ((t.roles.lookup role).getD [])
  members : ∀ user, ((r.members.lookup user).getD []).Perm ((t.members.lookup user).getD [])
  overrides : ∀ user,
    ((r.overrides.lookup user).getD []).Perm ((t.overrides.lookup user).getD [])

theorem GuildRecord.Alike.refl (r : GuildRecord) : r.Alike r :=
  ⟨fun _ => .rfl, fun _ => .rfl, fun _ => .rfl⟩

def Store.Alike (s t : Store) : Prop := ∀ guild, (s.guild guild).Alike (t.guild guild)

namespace Store.Alike

variable {s t u : Store}

theorem refl (s : Store) : s.Alike s := fun guild => .refl (s.guild guild)

theorem symm (h : s.Alike t) : t.Alike s := fun guild =>
  ⟨fun role => ((h guild).roles role).symm, fun user => ((h guild).members user).symm,
    fun user => ((h guild).overrides user).symm⟩

theorem trans (h : s.Alike t) (h' : t.Alike u) : s.Alike u := fun guild =>
  ⟨fun role => ((h guild).roles role).trans ((h' guild).roles role),
    fun user => ((h guild).members user).trans ((h' guild).members user),
    fun user => ((h guild).overrides user).trans ((h' guild).overrides user)⟩

theorem memberRoles (h : s.Alike t) (guild user : String) :
    (s.memberRoles guild user).Perm (t.memberRoles guild user) := (h guild).members user

theorem rolePermissions (h : s.Alike t) (guild role : String) :
    (s.rolePermissions guild role).Perm (t.rolePermissions guild role) := (h guild).roles role

theorem overrideEntries (h : s.Alike t) (guild user : String) :
    (s.overrideEntries guild user).Perm (t.overrideEntries guild user) := (h guild).overrides user

theorem of_perm
    (hmembers : ∀ guild user, (s.memberRoles guild user).Perm (t.memberRoles guild user))
    (hroles : ∀ guild role, (s.rolePermissions guild role).Perm (t.rolePermissions guild role))
    (hoverrides : ∀ guild user,
      (s.overrideEntries guild user).Perm (t.overrideEntries guild user)) : s.Alike t :=
  fun guild => ⟨hroles guild, hmembers guild, hoverrides guild⟩

theorem apply (h : s.Alike t) (hs : s.Canonical) (w : Write) :
    (s.apply w).1.Alike (t.apply w).1 ∧ (s.apply w).2 = (t.apply w).2 := by
  have ht (guild user : String) : ((t.overrideEntries guild user).map (·.1)).Nodup :=
    ((h.overrideEntries guild user).map _).nodup_iff.mp (hs.distinct guild user)
  constructor
  · refine of_perm (fun guild user => ?_) (fun guild role => ?_) fun guild user => ?_
    · rw [memberRoles_apply, memberRoles_apply]
      split
      · split
        · exact .rfl
        · exact h.memberRoles guild user
      · exact h.memberRoles guild user
    · have hroles := h.rolePermissions guild role
      rw [rolePermissions_apply, rolePermissions_apply]
      split
      · split
        · unfold Assoc.withItem
          simp only [hroles.mem_iff]
          split
          · exact hroles
          · exact hroles.append_right _
        · exact hroles
      · split
        · exact hroles.filter _
        · exact hroles
      · exact hroles
    · have hentries := h.overrideEntries guild user
      rw [overrideEntries_apply, overrideEntries_apply]
      split
      · split
        · refine (Assoc.put_perm (hs.distinct guild user)).trans (.trans ?_
            (Assoc.put_perm (ht guild user)).symm)
          exact (hentries.filter _).cons _
        · exact hentries
      · split
        · exact hentries.filter _
        · exact hentries
      · exact hentries
  · cases w with
    | clearOverride guild user node =>
      rw [apply_clearOverride, apply_clearOverride,
        Assoc.lookup_perm (h.overrideEntries guild user) (hs.distinct guild user)]
    | revokeRole guild role node =>
      unfold Store.apply
      dsimp only
      split <;> split <;> rfl
    | _ => rfl

end Store.Alike

theorem sectionEntries_map (entries : List (Scalar × Value)) :
    sectionEntries (some (.map entries)) = .ok entries := by
  cases entries <;> rfl

theorem listItems_texts (texts : List String) :
    listItems (some (textList texts)) = .ok (texts.map .str) := by
  cases texts <;> rfl

theorem readNodes_texts {texts : List String}
    (h : ∀ text ∈ texts, ∃ n : Node, n.Canonical ∧ n.value = text) :
    readNodes (some (textList texts)) = .ok texts := by
  have hread : (texts.map Value.str).mapM readNode =
      .ok ((texts.map Value.str).map Value.text) := by
    apply mapM_eq_ok_of_forall
    intro v hv
    obtain ⟨text, htext, rfl⟩ := List.mem_map.mp hv
    obtain ⟨n, hn, rfl⟩ := h text htext
    simp [readNode, show Node.parse n.value = .ok n from hn, Value.text, Scalar.text]
  have htexts : (texts.map Value.str).map Value.text = texts := by
    rw [List.map_map]
    exact List.map_id texts
  rw [readNodes, listItems_texts]
  exact hread.trans (by rw [htexts])

theorem readNodes_sortTexts {texts : List String} (hnodup : texts.Nodup)
    (h : ∀ text ∈ texts, ∃ n : Node, n.Canonical ∧ n.value = text) :
    (do return distinct (← readNodes (some (textList (sortTexts texts)))) :
      Except Failure (List String)) = .ok (sortTexts texts) := by
  have hcanonical : ∀ text ∈ sortTexts texts, ∃ n : Node, n.Canonical ∧ n.value = text :=
    fun text htext => h text (mem_sortTexts.mp htext)
  refine bind_eq_ok.mpr ⟨_, readNodes_texts hcanonical, ?_⟩
  rw [distinct_eq_self ((sortTexts_perm texts).nodup_iff.mpr hnodup)]
  rfl

theorem listItems_sortTexts {texts : List String} (hnodup : texts.Nodup) :
    (do return distinct ((← listItems (some (textList (sortTexts texts)))).map Value.text) :
      Except Failure (List String)) = .ok (sortTexts texts) := by
  have htexts : ((sortTexts texts).map Value.str).map Value.text = sortTexts texts := by
    rw [List.map_map]
    exact List.map_id _
  refine bind_eq_ok.mpr ⟨_, listItems_texts _, ?_⟩
  rw [htexts, distinct_eq_self ((sortTexts_perm texts).nodup_iff.mpr hnodup)]
  rfl

theorem perm_getD {α : Type} {a b : Option (List α)} (h : Option.Rel List.Perm a b) :
    (a.getD []).Perm (b.getD []) := by
  cases h with
  | none => exact .rfl
  | some h => exact h

theorem exists_readSets {sets : List (String × List String)} (hsets : TidySets sets)
    {read : Value → Except Failure (List String)}
    (hread : ∀ entry ∈ sets, read (textList (sortTexts entry.2)) = .ok (sortTexts entry.2))
    {v : Value} (hsame : (setsValue sets).same v = true) :
    ∃ ys out, v = .map ys ∧ readEntries read ys [] = .ok out ∧
      ∀ name, ((sets.lookup name).getD []).Perm ((out.lookup name).getD []) := by
  have hnames := Assoc.nodup_sorted hsets.names
  obtain ⟨ys, rfl, hlength, hentries⟩ := Value.map_same.mp hsame
  rw [List.length_map] at hlength
  have hitem : ∀ x ∈ Assoc.sorted sets, ∀ v, (textList (sortTexts x.2)).same v = true →
      ∃ items, read v = .ok items ∧ x.2.Perm items := by
    intro x hx v hv
    obtain rfl := Value.texts_same.mp hv
    have hentry := (Assoc.perm_sorted sets).mem_iff.mp hx
    exact ⟨_, hread x hentry, (sortTexts_perm x.2).symm⟩
  obtain ⟨out, hout, hlookup⟩ := exists_readEntries (f := fun items => textList (sortTexts items))
    (R := List.Perm) hnames hlength hentries hitem
  refine ⟨ys, out, rfl, hout, fun name => perm_getD ?_⟩
  rw [← Assoc.lookup_sorted hsets.names]
  exact hlookup name

theorem exists_readRoles {roles : List (String × List String)} (hroles : TidySets roles)
    (hgrants : ∀ entry ∈ roles, ∀ text ∈ entry.2, ∃ n : Node, n.Canonical ∧ n.value = text)
    {v : Value} (hsame : (setsValue roles).same v = true) :
    ∃ ys out, v = .map ys ∧ readRoles ys [] = .ok out ∧
      ∀ role, ((roles.lookup role).getD []).Perm ((out.lookup role).getD []) := by
  simp only [readRoles_eq]
  exact exists_readSets hroles
    (fun entry hentry => readNodes_sortTexts (hroles.items entry hentry) (hgrants entry hentry))
    hsame

theorem exists_readMembers {members : List (String × List String)} (hmembers : TidySets members)
    {v : Value} (hsame : (setsValue members).same v = true) :
    ∃ ys out, v = .map ys ∧ readMembers ys [] = .ok out ∧
      ∀ user, ((members.lookup user).getD []).Perm ((out.lookup user).getD []) := by
  simp only [readMembers_eq]
  exact exists_readSets hmembers
    (fun entry hentry => listItems_sortTexts (hmembers.items entry hentry)) hsame

/-- The identifiers that are allowed, or those that are denied, in order. -/
def sideOf (entries : List (String × Bool)) (allow : Bool) : List String :=
  sortTexts ((entries.filter (·.2 == allow)).map (·.1))

def sides (entries : List (String × Bool)) : List (String × Bool) :=
  (sideOf entries true).map (·, true) ++ (sideOf entries false).map (·, false)

section Sides

variable {entries : List (String × Bool)}

theorem overrideValue_eq : overrideValue entries =
    .map [(.str "allow", textList (sideOf entries true)),
      (.str "deny", textList (sideOf entries false))] := rfl

theorem mem_sideOf {allow : Bool} {text : String} :
    text ∈ sideOf entries allow ↔ (text, allow) ∈ entries := by
  rw [sideOf, mem_sortTexts]
  simp

theorem nodup_sideOf (h : (entries.map (·.1)).Nodup) (allow : Bool) :
    (sideOf entries allow).Nodup :=
  (sortTexts_perm _).nodup_iff.mpr ((List.filter_sublist.map _).nodup h)

theorem sideOf_apart (h : (entries.map (·.1)).Nodup) :
    ∀ text ∈ sideOf entries false, text ∉ sideOf entries true := by
  intro text hdenied hallowed
  have hfalse := (Assoc.mem_iff_lookup h).mp (mem_sideOf.mp hdenied)
  rw [(Assoc.mem_iff_lookup h).mp (mem_sideOf.mp hallowed)] at hfalse
  cases hfalse

theorem mergeDecisions_of_apart {allowed denied : List String} (hallowed : allowed.Nodup)
    (hdenied : denied.Nodup) (hapart : ∀ text ∈ denied, text ∉ allowed) :
    mergeDecisions allowed denied = allowed.map (·, true) ++ denied.map (·, false) := by
  have hfirst : allowed.foldl (fun entries node => Assoc.put node true entries) [] =
      [] ++ allowed.map (·, true) := Assoc.foldl_put (by simp) hallowed
  have hfree : ∀ text ∈ denied, text ∉ (allowed.map (·, true)).map (·.1) := by
    intro text htext
    simpa using hapart text htext
  rw [mergeDecisions, hfirst, List.nil_append]
  exact Assoc.foldl_put hfree hdenied

theorem mem_sides {entry : String × Bool} : entry ∈ sides entries ↔ entry ∈ entries := by
  obtain ⟨text, allow⟩ := entry
  cases allow <;> simp [sides, mem_sideOf]

theorem perm_sides (h : (entries.map (·.1)).Nodup) : entries.Perm (sides entries) := by
  have hside (allow : Bool) : ((sideOf entries allow).map (·, allow)).Nodup :=
    (nodup_sideOf h allow).map fun a b heq => (Prod.mk.inj heq).1
  have hdisjoint : ∀ entry ∈ (sideOf entries true).map (·, true),
      ∀ other ∈ (sideOf entries false).map (·, false), entry ≠ other := by
    intro entry hentry other hother
    obtain ⟨text, -, rfl⟩ := List.mem_map.mp hentry
    obtain ⟨text', -, rfl⟩ := List.mem_map.mp hother
    simp
  have hsides : (sides entries).Nodup :=
    List.nodup_append.mpr ⟨hside true, hside false, hdisjoint⟩
  exact (List.perm_ext_iff_of_nodup (List.Nodup.of_map _ h) hsides).mpr fun entry =>
    mem_sides.symm

theorem readOverride_lists (hnodup : (entries.map (·.1)).Nodup)
    (hcanonical : ∀ entry ∈ entries, ∃ n : Node, n.Canonical ∧ n.value = entry.1)
    {lists : List (Scalar × Value)}
    (hallow : Value.entry? "allow" lists = some (textList (sideOf entries true)))
    (hdeny : Value.entry? "deny" lists = some (textList (sideOf entries false))) :
    readOverride (.map lists) = .ok (sides entries) := by
  have hread (allow : Bool) :
      readNodes (some (textList (sideOf entries allow))) = .ok (sideOf entries allow) :=
    readNodes_texts fun text htext => hcanonical _ (mem_sideOf.mp htext)
  refine bind_eq_ok.mpr ⟨lists, sectionEntries_map lists, ?_⟩
  rw [hallow, hdeny]
  refine bind_eq_ok.mpr ⟨_, hread true, bind_eq_ok.mpr ⟨_, hread false, ?_⟩⟩
  rw [mergeDecisions_of_apart (nodup_sideOf hnodup true) (nodup_sideOf hnodup false)
    (sideOf_apart hnodup)]
  rfl

theorem exists_readOverride (hnodup : (entries.map (·.1)).Nodup)
    (hcanonical : ∀ entry ∈ entries, ∃ n : Node, n.Canonical ∧ n.value = entry.1) {v : Value}
    (hsame : (overrideValue entries).same v = true) :
    ∃ out, readOverride v = .ok out ∧ entries.Perm out := by
  rw [overrideValue_eq] at hsame
  obtain ⟨lists, rfl, -, hentries⟩ := Value.map_same.mp hsame
  obtain ⟨first, hallow, hfirst⟩ := Value.exists_entry_of_sameEntries "allow" hentries
    List.mem_cons_self
  obtain ⟨second, hdeny, hsecond⟩ := Value.exists_entry_of_sameEntries "deny" hentries
    (List.mem_cons_of_mem _ List.mem_cons_self)
  obtain rfl := Value.texts_same.mp hfirst
  obtain rfl := Value.texts_same.mp hsecond
  exact ⟨_, readOverride_lists hnodup hcanonical hallow hdeny, perm_sides hnodup⟩

end Sides

theorem lookup_nonempty {α : Type} {entries : List (String × List α)}
    (h : (entries.map (·.1)).Nodup) (key : String) :
    ((entries.filter fun entry => !entry.2.isEmpty).lookup key).getD [] =
      (entries.lookup key).getD [] := by
  induction entries with
  | nil => rfl
  | cons entry rest ih =>
    obtain ⟨name, items⟩ := entry
    rw [List.map_cons, List.nodup_cons] at h
    rw [Assoc.lookup_cons]
    cases items with
    | cons item items =>
      rw [List.filter_cons_of_pos rfl, Assoc.lookup_cons]
      split
      · rfl
      · exact ih h.2
    | nil =>
      rw [List.filter_cons_of_neg (by simp), ih h.2]
      split
      case isTrue heq =>
        -- The key stands nowhere else.
        cases hrest : rest.lookup key with
        | none => rfl
        | some items =>
          have hmem := List.mem_map_of_mem (f := (·.1)) (Assoc.mem_of_lookup hrest)
          exact absurd (heq ▸ hmem) h.1
      case isFalse => rfl

/-- The decisions of a guild are read again; members without any are left out. -/
theorem exists_readOverrideSection {overrides : List (String × List (String × Bool))}
    (husers : (overrides.map (·.1)).Nodup)
    (hdecisions : ∀ member ∈ overrides, (member.2.map (·.1)).Nodup ∧
      ∀ entry ∈ member.2, ∃ n : Node, n.Canonical ∧ n.value = entry.1)
    {v : Value} (hsame : (overridesValue overrides).same v = true) :
    ∃ ys out, v = .map ys ∧ readOverrideSection ys [] = .ok out ∧
      ∀ user, ((overrides.lookup user).getD []).Perm ((out.lookup user).getD []) := by
  let kept := (Assoc.sorted overrides).filter fun entry => !entry.2.isEmpty
  have hsorted := Assoc.nodup_sorted husers
  have hnames : (kept.map (·.1)).Nodup := (List.filter_sublist.map _).nodup hsorted
  obtain ⟨ys, rfl, hlength, hentries⟩ := Value.map_same.mp hsame
  rw [List.length_map] at hlength
  have hitem : ∀ x ∈ kept, ∀ v, (overrideValue x.2).same v = true →
      ∃ out, readOverride v = .ok out ∧ x.2.Perm out := by
    intro x hx v hv
    have hmember := (Assoc.perm_sorted overrides).mem_iff.mp (List.mem_of_mem_filter hx)
    obtain ⟨hnodup, hcanonical⟩ := hdecisions x hmember
    exact exists_readOverride hnodup hcanonical hv
  obtain ⟨out, hout, hlookup⟩ := exists_readEntries (f := overrideValue)
    (R := List.Perm) hnames hlength hentries hitem
  refine ⟨ys, out, rfl, by rw [readOverrideSection_eq, hout], fun user => ?_⟩
  rw [← Assoc.lookup_sorted husers, ← lookup_nonempty hsorted]
  exact perm_getD (hlookup user)

theorem exists_readGuild {r : GuildRecord} (hr : r.Sound) {v : Value}
    (hsame : r.toValue.same v = true) : ∃ t, readGuild v = .ok t ∧ r.Alike t := by
  obtain ⟨parts, rfl, -, hparts⟩ := Value.map_same.mp hsame
  obtain ⟨first, hroles, hfirst⟩ := Value.exists_entry_of_sameEntries "roles" hparts
    List.mem_cons_self
  obtain ⟨second, hmembers, hsecond⟩ := Value.exists_entry_of_sameEntries "members" hparts
    (List.mem_cons_of_mem _ List.mem_cons_self)
  obtain ⟨third, hoverrides, hthird⟩ := Value.exists_entry_of_sameEntries "overrides" hparts
    (List.mem_cons_of_mem _ (List.mem_cons_of_mem _ List.mem_cons_self))
  obtain ⟨ys, roles, rfl, hys, hrolesAlike⟩ := exists_readRoles hr.roles hr.grants hfirst
  obtain ⟨zs, members, rfl, hzs, hmembersAlike⟩ := exists_readMembers hr.members hsecond
  obtain ⟨us, overrides, rfl, hus, hoverridesAlike⟩ :=
    exists_readOverrideSection hr.users hr.decisions hthird
  refine ⟨⟨roles, members, overrides⟩, ?_, hrolesAlike, hmembersAlike, hoverridesAlike⟩
  simp only [readGuild, sectionEntries_map, hroles, hmembers, hoverrides, hys, hzs, hus, bind,
    Except.bind, pure, Except.pure]

namespace Store

variable {s : Store}

theorem Tidy.sound (ht : s.Tidy) (hc : s.Canonical) {guild : String} {record : GuildRecord}
    (h : (guild, record) ∈ s.guilds) : record.Sound := by
  have hrecord : s.guild guild = record := by
    rw [Store.guild, (Assoc.mem_iff_lookup ht.names).mp h]
    rfl
  have htidy : record.Tidy := ht.records _ h
  refine ⟨htidy, fun entry hentry text htext => ?_, fun member hmember => ?_⟩
  · have hlookup := (Assoc.mem_iff_lookup htidy.roles.names).mp
      (show (entry.1, entry.2) ∈ _ from hentry)
    refine hc.roles guild entry.1 text ?_
    rw [rolePermissions, hrecord, hlookup]
    exact htext
  · have hlookup := (Assoc.mem_iff_lookup htidy.users).mp
      (show (member.1, member.2) ∈ _ from hmember)
    have hentries : s.overrideEntries guild member.1 = member.2 := by
      rw [overrideEntries, hrecord, hlookup]
      rfl
    rw [← hentries]
    exact ⟨hc.distinct guild member.1, hc.overrides guild member.1⟩

/-- A store that is written as a document and read again records the same. -/
theorem exists_ofValue (ht : s.Tidy) (hc : s.Canonical) {document : Value}
    (hsame : s.toValue.same document = true) : ∃ t, ofValue document = .ok t ∧ s.Alike t := by
  have hnames := Assoc.nodup_sorted ht.names
  obtain ⟨entries, rfl, -, hentries⟩ := Value.map_same.mp hsame
  obtain ⟨guilds, hguilds, hsame⟩ := Value.exists_entry_of_sameEntries "guilds" hentries
    List.mem_cons_self
  obtain ⟨ys, rfl, hlength, hys⟩ := Value.map_same.mp hsame
  rw [List.length_map] at hlength
  have hitem : ∀ x ∈ Assoc.sorted s.guilds, ∀ v, x.2.toValue.same v = true →
      ∃ t, readGuild v = .ok t ∧ x.2.Alike t := fun x hx v hv =>
    exists_readGuild (ht.sound hc ((Assoc.perm_sorted s.guilds).mem_iff.mp hx)) hv
  obtain ⟨out, hout, hlookup⟩ := exists_readEntries (f := GuildRecord.toValue)
    (R := GuildRecord.Alike) hnames hlength hys hitem
  refine ⟨⟨out⟩, ?_, fun guild => ?_⟩
  · simp only [ofValue, hguilds, sectionEntries_map, readGuilds_eq, hout, bind, Except.bind, pure,
      Except.pure]
  · have hrecord := hlookup guild
    rw [Assoc.lookup_sorted ht.names] at hrecord
    change GuildRecord.Alike ((s.guilds.lookup guild).getD .empty) ((out.lookup guild).getD .empty)
    generalize s.guilds.lookup guild = before at hrecord ⊢
    generalize out.lookup guild = after at hrecord ⊢
    cases hrecord with
    | none => exact .refl .empty
    | some h => exact h

end Store

end Guildhall.Permission
