import Guildhall.Proofs.Permission.Shared

/-!
# Reading undoes writing

What is read from the document of a store is the store in order: guilds, roles and members by name,
the items of a set by their texts, and of the overrides those that allow before those that deny.
Members whose overrides have all been cleared are left out. Nothing else is lost, and a store in
order is written as the same document.
-/

namespace Guildhall

namespace Assoc

variable {α : Type} {entries : List (String × α)}

theorem pairwise_sorted (entries : List (String × α)) :
    (sorted entries).Pairwise fun a b => a.1 ≤ b.1 :=
  Permission.pairwise_mergeSort_key (·.1) entries

theorem sorted_eq_self (h : entries.Pairwise fun a b => a.1 ≤ b.1) : sorted entries = entries :=
  List.mergeSort_of_pairwise (h.imp decide_eq_true)

end Assoc

namespace Permission

def orderedSets (sets : List (String × List String)) : List (String × List String) :=
  (Assoc.sorted sets).map fun entry => (entry.1, sortTexts entry.2)

def orderedOverrides (overrides : List (String × List (String × Bool))) :
    List (String × List (String × Bool)) :=
  ((Assoc.sorted overrides).filter fun entry => !entry.2.isEmpty).map
    fun entry => (entry.1, sides entry.2)

def GuildRecord.ordered (r : GuildRecord) : GuildRecord :=
  ⟨orderedSets r.roles, orderedSets r.members, orderedOverrides r.overrides⟩

def Store.ordered (s : Store) : Store :=
  ⟨(Assoc.sorted s.guilds).map fun entry => (entry.1, entry.2.ordered)⟩

theorem readRoles_setsValue {roles : List (String × List String)} (hroles : TidySets roles)
    (hgrants : ∀ entry ∈ roles, ∀ text ∈ entry.2, ∃ n : Node, n.Canonical ∧ n.value = text) :
    ∃ entries, setsValue roles = .map entries ∧ readRoles entries [] = .ok (orderedSets roles) := by
  refine ⟨_, rfl, ?_⟩
  rw [readRoles_eq]
  refine readEntries_map (f := fun items => textList (sortTexts items)) (fun x hx => ?_)
    (Assoc.nodup_sorted hroles.names)
  have hmem := (Assoc.perm_sorted roles).mem_iff.mp hx
  exact readNodes_sortTexts (hroles.items x hmem) (hgrants x hmem)

theorem readMembers_setsValue {members : List (String × List String)}
    (hmembers : TidySets members) :
    ∃ entries, setsValue members = .map entries ∧
      readMembers entries [] = .ok (orderedSets members) := by
  refine ⟨_, rfl, ?_⟩
  rw [readMembers_eq]
  refine readEntries_map (f := fun items => textList (sortTexts items)) (fun x hx => ?_)
    (Assoc.nodup_sorted hmembers.names)
  exact listItems_sortTexts (hmembers.items x ((Assoc.perm_sorted members).mem_iff.mp hx))

theorem readOverrideSection_overridesValue {overrides : List (String × List (String × Bool))}
    (husers : (overrides.map (·.1)).Nodup)
    (hdecisions : ∀ member ∈ overrides, (member.2.map (·.1)).Nodup ∧
      ∀ entry ∈ member.2, ∃ n : Node, n.Canonical ∧ n.value = entry.1) :
    ∃ entries, overridesValue overrides = .map entries ∧
      readOverrideSection entries [] = .ok (orderedOverrides overrides) := by
  refine ⟨_, rfl, ?_⟩
  rw [readOverrideSection_eq]
  refine readEntries_map (f := overrideValue) (fun x hx => ?_)
    ((List.filter_sublist.map _).nodup (Assoc.nodup_sorted husers))
  have hmem := (Assoc.perm_sorted overrides).mem_iff.mp (List.mem_of_mem_filter hx)
  obtain ⟨hnodup, hcanonical⟩ := hdecisions x hmem
  exact readOverride_lists hnodup hcanonical rfl rfl

theorem readGuild_toValue {r : GuildRecord} (hr : r.Sound) :
    readGuild r.toValue = .ok r.ordered := by
  obtain ⟨roles, hroles, hreadRoles⟩ := readRoles_setsValue hr.roles hr.grants
  obtain ⟨members, hmembers, hreadMembers⟩ := readMembers_setsValue hr.members
  obtain ⟨overrides, hoverrides, hreadOverrides⟩ :=
    readOverrideSection_overridesValue hr.users hr.decisions
  have hparts : sectionEntries (some r.toValue) = .ok [(.str "roles", .map roles),
      (.str "members", .map members), (.str "overrides", .map overrides)] := by
    rw [GuildRecord.toValue, hroles, hmembers, hoverrides, sectionEntries_map]
  refine bind_eq_ok.mpr ⟨_, hparts, ?_⟩
  refine bind_eq_ok.mpr ⟨_, sectionEntries_map roles, bind_eq_ok.mpr ⟨_, hreadRoles, ?_⟩⟩
  refine bind_eq_ok.mpr ⟨_, sectionEntries_map members, bind_eq_ok.mpr ⟨_, hreadMembers, ?_⟩⟩
  exact bind_eq_ok.mpr ⟨_, sectionEntries_map overrides, bind_eq_ok.mpr ⟨_, hreadOverrides, rfl⟩⟩

theorem Store.ofValue_toValue {s : Store} (ht : s.Tidy) (hc : s.Canonical) :
    ofValue s.toValue = .ok s.ordered := by
  have hguilds : readGuilds ((Assoc.sorted s.guilds).map fun x => (.str x.1, x.2.toValue)) [] =
      .ok s.ordered.guilds := by
    rw [readGuilds_eq]
    refine readEntries_map (fun x hx => ?_) (Assoc.nodup_sorted ht.names)
    exact readGuild_toValue (ht.sound hc ((Assoc.perm_sorted s.guilds).mem_iff.mp hx))
  exact bind_eq_ok.mpr ⟨_, sectionEntries_map _, bind_eq_ok.mpr ⟨_, hguilds, rfl⟩⟩

theorem sortTexts_sortTexts (texts : List String) : sortTexts (sortTexts texts) = sortTexts texts :=
  sortTexts_congr (sortTexts_perm texts)

theorem setsValue_ordered (sets : List (String × List String)) :
    setsValue (orderedSets sets) = setsValue sets := by
  have hsorted : Assoc.sorted (orderedSets sets) = orderedSets sets :=
    Assoc.sorted_eq_self (List.pairwise_map.mpr (Assoc.pairwise_sorted sets))
  rw [setsValue, hsorted, orderedSets, List.map_map]
  simp only [Function.comp_def, sortTexts_sortTexts]
  rfl

theorem sideOf_sides (entries : List (String × Bool)) (allow : Bool) :
    sideOf (sides entries) allow = sideOf entries allow := by
  have hkept : ((sides entries).filter (·.2 == allow)).map (·.1) = sideOf entries allow := by
    cases allow <;> simp [sides, List.filter_map, Function.comp_def]
  rw [sideOf, hkept]
  exact sortTexts_sortTexts _

theorem isEmpty_sides (entries : List (String × Bool)) :
    (sides entries).isEmpty = entries.isEmpty := by
  rw [Bool.eq_iff_iff, List.isEmpty_iff, List.isEmpty_iff, List.eq_nil_iff_forall_not_mem,
    List.eq_nil_iff_forall_not_mem]
  simp only [mem_sides]

theorem overridesValue_ordered (overrides : List (String × List (String × Bool))) :
    overridesValue (orderedOverrides overrides) = overridesValue overrides := by
  have hsorted : Assoc.sorted (orderedOverrides overrides) = orderedOverrides overrides :=
    Assoc.sorted_eq_self (List.pairwise_map.mpr ((Assoc.pairwise_sorted overrides).filter _))
  have hkept : (orderedOverrides overrides).filter (fun entry => !entry.2.isEmpty) =
      orderedOverrides overrides := by
    refine List.filter_eq_self.mpr fun entry hentry => ?_
    obtain ⟨member, hmember, rfl⟩ := List.mem_map.mp hentry
    rw [isEmpty_sides]
    exact (List.mem_filter.mp hmember).2
  rw [overridesValue, hsorted, hkept, orderedOverrides, List.map_map]
  simp only [Function.comp_def, overrideValue_eq, sideOf_sides]
  rfl

theorem GuildRecord.toValue_ordered (r : GuildRecord) : r.ordered.toValue = r.toValue := by
  simp only [toValue, ordered, setsValue_ordered, overridesValue_ordered]

theorem Store.toValue_ordered (s : Store) : s.ordered.toValue = s.toValue := by
  have hsorted : Assoc.sorted s.ordered.guilds = s.ordered.guilds :=
    Assoc.sorted_eq_self (List.pairwise_map.mpr (Assoc.pairwise_sorted s.guilds))
  rw [toValue, hsorted, ordered, List.map_map]
  simp only [Function.comp_def, GuildRecord.toValue_ordered]
  rfl

theorem lookup_orderedSets {sets : List (String × List String)} (h : TidySets sets)
    (name : String) : (orderedSets sets).lookup name = (sets.lookup name).map sortTexts := by
  rw [orderedSets, Assoc.lookup_map, Assoc.lookup_sorted h.names]

theorem perm_orderedSets {sets : List (String × List String)} (h : TidySets sets)
    (name : String) :
    ((sets.lookup name).getD []).Perm (((orderedSets sets).lookup name).getD []) := by
  rw [lookup_orderedSets h]
  cases sets.lookup name with
  | none => exact .rfl
  | some items => exact (sortTexts_perm items).symm

theorem perm_orderedOverrides {overrides : List (String × List (String × Bool))}
    (husers : (overrides.map (·.1)).Nodup)
    (hdecisions : ∀ member ∈ overrides, (member.2.map (·.1)).Nodup) (user : String) :
    ((overrides.lookup user).getD []).Perm (((orderedOverrides overrides).lookup user).getD []) := by
  have hsorted := Assoc.nodup_sorted husers
  rw [orderedOverrides, Assoc.lookup_map, ← Assoc.lookup_sorted husers, ← lookup_nonempty hsorted]
  cases hlookup : ((Assoc.sorted overrides).filter fun entry => !entry.2.isEmpty).lookup user with
  | none => exact .rfl
  | some entries =>
    have hmem := List.mem_of_mem_filter (Assoc.mem_of_lookup hlookup)
    exact perm_sides (hdecisions _ ((Assoc.perm_sorted overrides).mem_iff.mp hmem))

theorem GuildRecord.Sound.alike_ordered {r : GuildRecord} (hr : r.Sound) : r.Alike r.ordered :=
  ⟨perm_orderedSets hr.roles, perm_orderedSets hr.members,
    perm_orderedOverrides hr.users fun member hmember => (hr.decisions member hmember).1⟩

namespace Store

variable {s : Store}

theorem lookup_ordered (ht : s.Tidy) (id : String) :
    s.ordered.guilds.lookup id = (s.guilds.lookup id).map GuildRecord.ordered := by
  rw [ordered, Assoc.lookup_map, Assoc.lookup_sorted ht.names]

theorem guild_ordered (ht : s.Tidy) (id : String) : s.ordered.guild id = (s.guild id).ordered := by
  rw [guild, guild, lookup_ordered ht]
  cases s.guilds.lookup id with
  | none => simp [GuildRecord.ordered, GuildRecord.empty, orderedSets, orderedOverrides, Assoc.sorted]
  | some record => rfl

theorem alike_ordered (ht : s.Tidy) (hc : s.Canonical) : s.Alike s.ordered := fun id => by
  rw [guild_ordered ht]
  rcases guild_mem_or_empty s id with hmem | hempty
  · exact (ht.sound hc hmem).alike_ordered
  · rw [hempty]
    exact GuildRecord.Sound.alike_ordered ⟨⟨.nil, .nil, List.nodup_nil⟩, nofun, nofun⟩

/-- A new store that loads the document of a store, however that one has come about, is written as
the same document and gives the same answers. No identifier is both allowed and denied to a member.
Guilds about which nothing is recorded are still there, and so are members without roles and roles
that are granted nothing. -/
theorem loading_undoes_writing (h : s.Reachable) :
    ∃ t : Store, Access.memory.load s.toValue .empty = (.ok (), t) ∧ t.toValue = s.toValue ∧
      (∀ checks request, request.Elementary → t.told checks request = s.told checks request) ∧
      (∀ guild user text, ¬ ((text, true) ∈ t.overrideEntries guild user ∧
        (text, false) ∈ t.overrideEntries guild user)) ∧
      ∀ guild, (t.guilds.lookup guild).isSome = (s.guilds.lookup guild).isSome ∧
        (∀ user, ((t.guild guild).members.lookup user).isSome =
          ((s.guild guild).members.lookup user).isSome) ∧
        ∀ role, ((t.guild guild).roles.lookup role).isSome =
          ((s.guild guild).roles.lookup role).isSome := by
  obtain ⟨ht, hc⟩ := h.sound
  have hload := ofValue_toValue ht hc
  obtain ⟨-, hc'⟩ := sound_of_ofValue hload
  refine ⟨s.ordered, by simp only [Access.memory, hload], s.toValue_ordered,
    fun checks request helementary => ((alike_ordered ht hc).told hc checks helementary).symm,
    fun guild user text ⟨hallowed, hdenied⟩ => ?_, fun guild => ⟨?_, fun user => ?_, fun role => ?_⟩⟩
  · have hdistinct := hc'.distinct guild user
    rw [Assoc.mem_iff_lookup hdistinct] at hallowed hdenied
    rw [hallowed] at hdenied
    cases hdenied
  · rw [lookup_ordered ht, Option.isSome_map]
  · rw [guild_ordered ht, GuildRecord.ordered, lookup_orderedSets (ht.guild guild).members,
      Option.isSome_map]
  · rw [guild_ordered ht, GuildRecord.ordered, lookup_orderedSets (ht.guild guild).roles,
      Option.isSome_map]

/-- A member whose roles have been taken away, a role that is granted nothing any more, a guild in
which there was nothing to clear, and a member whose only override has been cleared. -/
theorem emptied_but_there :
    ∃ s t : Store, s.Reachable ∧ s.guilds = [("2", .empty), ("1", ⟨[("mod", [])], [("42", [])],
        [("7", [("music.*", true), ("ban", false)]), ("42", [])]⟩)] ∧
      Access.memory.load s.toValue .empty = (.ok (), t) ∧ t.toValue = s.toValue ∧
      (t.guilds.lookup "2").isSome ∧ ((t.guild "1").members.lookup "42").isSome ∧
      ((t.guild "1").roles.lookup "mod").isSome ∧
      ∀ checks, t.told checks (.memberRoles "1" "42") = .ok (.texts []) := by
  let writes : List Write :=
    [.clearOverride "2" "42" "kick", .grantRole "1" "mod" "Kick", .revokeRole "1" "mod" "kick",
      .setMemberRoles "1" "42" ["mod"], .setMemberRoles "1" "42" [],
      .setOverride "1" "7" "music.*" true, .setOverride "1" "7" "Ban" false,
      .setOverride "1" "42" "ban" true, .clearOverride "1" "42" "ban"]
  have hs : (writes.foldl after .empty).Reachable :=
    List.foldlRecOn writes after .empty fun s hs w _ => .change hs w
  have hguilds : (writes.foldl after .empty).guilds = [("2", .empty), ("1", ⟨[("mod", [])],
      [("42", [])], [("7", [("music.*", true), ("ban", false)]), ("42", [])]⟩)] := by
    decide +kernel
  generalize writes.foldl after .empty = s at hguilds hs
  obtain ⟨t, hload, hcontent, htold, -, hkept⟩ := loading_undoes_writing hs
  have hrecord : s.guild "1" = ⟨[("mod", [])], [("42", [])],
      [("7", [("music.*", true), ("ban", false)]), ("42", [])]⟩ := by
    rw [guild, hguilds]
    rfl
  refine ⟨s, t, hs, hguilds, hload, hcontent, ?_, ?_, ?_, fun checks => ?_⟩
  · rw [(hkept "2").1, hguilds]
    rfl
  · rw [(hkept "1").2.1, hrecord]
    rfl
  · rw [(hkept "1").2.2, hrecord]
    rfl
  · rw [htold checks _ (.memberRoles "1" "42")]
    simp [told, Access.ask, Access.memory, Source.memory, memberRoles, hrecord, answered,
      sortTexts, Answer.toValue, Except.map]

end Store

end Permission

end Guildhall
