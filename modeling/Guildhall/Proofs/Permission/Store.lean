import Guildhall.Permission.Request
import Guildhall.Proofs.Permission.Reading

/-!
# Changes to a store

What each change does to the roles, the grants and the overrides of every guild, and that a store
holds nothing but identifiers in canonical form.
-/

namespace Guildhall.Permission

namespace Write

inductive Named : Write → Write → Prop
  | setMemberRoles (guild user : String) (roles : List String) :
      Named (.setMemberRoles guild user roles) (.setMemberRoles guild user (distinct roles))
  | grantRole (guild role : String) {text : String} {n : Node} (h : Node.parse text = .ok n) :
      Named (.grantRole guild role text) (.grantRole guild role n.value)
  | revokeRole (guild role : String) {text : String} {n : Node} (h : Node.parse text = .ok n) :
      Named (.revokeRole guild role text) (.revokeRole guild role n.value)
  | setOverride (guild user : String) (allow : Bool) {text : String} {n : Node}
      (h : Node.parse text = .ok n) :
      Named (.setOverride guild user text allow) (.setOverride guild user n.value allow)
  | clearOverride (guild user : String) {text : String} {n : Node} (h : Node.parse text = .ok n) :
      Named (.clearOverride guild user text) (.clearOverride guild user n.value)

theorem named_of_canonical {w changed : Write} (h : w.canonical = .ok changed) :
    Named w changed := by
  cases w with
  | setMemberRoles guild user roles =>
    cases h
    exact .setMemberRoles guild user roles
  | grantRole guild role text =>
    obtain ⟨n, hn, hchanged⟩ := bind_eq_ok.mp h
    cases hchanged
    exact .grantRole guild role hn
  | revokeRole guild role text =>
    obtain ⟨n, hn, hchanged⟩ := bind_eq_ok.mp h
    cases hchanged
    exact .revokeRole guild role hn
  | setOverride guild user text allow =>
    obtain ⟨n, hn, hchanged⟩ := bind_eq_ok.mp h
    cases hchanged
    exact .setOverride guild user allow hn
  | clearOverride guild user text =>
    obtain ⟨n, hn, hchanged⟩ := bind_eq_ok.mp h
    cases hchanged
    exact .clearOverride guild user hn

end Write

namespace Store

/-- The store after a change as the user wrote it. A malformed identifier changes nothing. -/
def after (s : Store) (w : Write) : Store :=
  match s.write w with
  | .ok (changed, _) => changed
  | .error _ => s

@[simp] theorem guild_setGuild (s : Store) (id other : String) (record : GuildRecord) :
    (s.setGuild id record).guild other = if other = id then record else s.guild other := by
  unfold guild setGuild
  rw [Assoc.lookup_put]
  split <;> rfl

theorem guild_setGuild_self (s : Store) (id other : String) :
    (s.setGuild id (s.guild id)).guild other = s.guild other := by
  rw [guild_setGuild]
  split
  case isTrue h => rw [h]
  case isFalse => rfl

theorem memberRoles_apply (s : Store) (w : Write) (guild user : String) :
    (s.apply w).1.memberRoles guild user =
      match w with
      | .setMemberRoles g u roles =>
        if g = guild ∧ u = user then roles else s.memberRoles guild user
      | _ => s.memberRoles guild user := by
  unfold apply memberRoles
  cases w with
  | setMemberRoles g u roles =>
    by_cases hg : guild = g
    · by_cases hu : user = u
      · simp [Assoc.lookup_put, hg, hu]
      · simp [Assoc.lookup_put, hg, hu, Ne.symm hu]
    · simp [hg, Ne.symm hg]
  | grantRole g role node =>
    by_cases hg : guild = g <;> simp [hg]
  | revokeRole g role node =>
    simp only
    split
    · rw [guild_setGuild_self]
    · by_cases hg : guild = g <;> simp [hg]
  | setOverride g u node allow =>
    by_cases hg : guild = g <;> simp [hg]
  | clearOverride g u node =>
    simp only
    split
    · rw [guild_setGuild_self]
    · split
      · by_cases hg : guild = g <;> simp [hg]
      · rw [guild_setGuild_self]

theorem rolePermissions_apply (s : Store) (w : Write) (guild role : String) :
    (s.apply w).1.rolePermissions guild role =
      match w with
      | .grantRole g r node =>
        if g = guild ∧ r = role then Assoc.withItem node (s.rolePermissions guild role)
        else s.rolePermissions guild role
      | .revokeRole g r node =>
        if g = guild ∧ r = role then (s.rolePermissions guild role).filter (· ≠ node)
        else s.rolePermissions guild role
      | _ => s.rolePermissions guild role := by
  unfold apply rolePermissions
  cases w with
  | setMemberRoles g u roles =>
    by_cases hg : guild = g <;> simp [hg]
  | grantRole g r node =>
    by_cases hg : guild = g
    · by_cases hr : role = r
      · simp [Assoc.lookup_put, hg, hr]
      · simp [Assoc.lookup_put, hg, hr, Ne.symm hr]
    · simp [hg, Ne.symm hg]
  | revokeRole g r node =>
    simp only
    split
    case h_1 hnone =>
      rw [guild_setGuild_self]
      split
      case isTrue h =>
        obtain ⟨rfl, rfl⟩ := h
        simp [hnone]
      case isFalse => rfl
    case h_2 nodes hsome =>
      by_cases hg : guild = g
      · by_cases hr : role = r
        · simp [Assoc.lookup_put, hg, hr, hsome]
        · simp [Assoc.lookup_put, hg, hr, Ne.symm hr]
      · simp [hg, Ne.symm hg]
  | setOverride g u node allow =>
    by_cases hg : guild = g <;> simp [hg]
  | clearOverride g u node =>
    simp only
    split
    · rw [guild_setGuild_self]
    · split
      · by_cases hg : guild = g <;> simp [hg]
      · rw [guild_setGuild_self]

theorem overrideEntries_apply (s : Store) (w : Write) (guild user : String) :
    (s.apply w).1.overrideEntries guild user =
      match w with
      | .setOverride g u node allow =>
        if g = guild ∧ u = user then Assoc.put node allow (s.overrideEntries guild user)
        else s.overrideEntries guild user
      | .clearOverride g u node =>
        if g = guild ∧ u = user then Assoc.remove node (s.overrideEntries guild user)
        else s.overrideEntries guild user
      | _ => s.overrideEntries guild user := by
  unfold apply overrideEntries
  cases w with
  | setMemberRoles g u roles =>
    by_cases hg : guild = g <;> simp [hg]
  | grantRole g r node =>
    by_cases hg : guild = g <;> simp [hg]
  | revokeRole g r node =>
    simp only
    split
    · rw [guild_setGuild_self]
    · by_cases hg : guild = g <;> simp [hg]
  | setOverride g u node allow =>
    by_cases hg : guild = g
    · by_cases hu : user = u
      · simp [Assoc.lookup_put, hg, hu]
      · simp [Assoc.lookup_put, hg, hu, Ne.symm hu]
    · simp [hg, Ne.symm hg]
  | clearOverride g u node =>
    simp only
    split
    case h_1 hnone =>
      rw [guild_setGuild_self]
      split
      case isTrue h =>
        obtain ⟨rfl, rfl⟩ := h
        simp [hnone, Assoc.remove]
      case isFalse => rfl
    case h_2 entries hsome =>
      by_cases hg : guild = g
      · by_cases hu : user = u
        · by_cases hn : entries.lookup node = none
          · simp [hg, hu, hsome, hn, Assoc.remove_eq_self hn]
          · simp [Assoc.lookup_put, hg, hu, hsome, Option.isSome_iff_ne_none, hn]
        · split <;> simp [Assoc.lookup_put, hg, hu, Ne.symm hu]
      · split <;> simp [hg, Ne.symm hg]

theorem apply_clearOverride (s : Store) (guild user node : String) :
    (s.apply (.clearOverride guild user node)).2 =
      ((s.overrideEntries guild user).lookup node).isSome := by
  unfold apply overrideEntries
  simp only
  split
  case h_1 hnone => simp [hnone]
  case h_2 entries hsome =>
    rw [hsome, Option.getD_some]
    cases (entries.lookup node).isSome <;> simp

theorem after_of_canonical {s : Store} {w changed : Write} (h : w.canonical = .ok changed) :
    s.after w = (s.apply changed).1 := by
  simp [after, write, h, bind, Except.bind, pure, Except.pure]

theorem after_of_malformed {s : Store} {w : Write} {fault : Malformed}
    (h : w.canonical = .error fault) : s.after w = s := by
  simp [after, write, h, bind, Except.bind]

structure Canonical (s : Store) : Prop where
  roles : ∀ guild role, ∀ text ∈ s.rolePermissions guild role,
    ∃ n : Node, n.Canonical ∧ n.value = text
  overrides : ∀ guild user, ∀ entry ∈ s.overrideEntries guild user,
    ∃ n : Node, n.Canonical ∧ n.value = entry.1
  distinct : ∀ guild user, ((s.overrideEntries guild user).map (·.1)).Nodup

theorem canonical_empty : Canonical .empty where
  roles guild role text h := by simp [rolePermissions, Store.guild, empty, GuildRecord.empty] at h
  overrides guild user entry h := by
    simp [overrideEntries, Store.guild, empty, GuildRecord.empty] at h
  distinct guild user := by simp [overrideEntries, Store.guild, empty, GuildRecord.empty]

namespace Canonical

variable {s : Store} {w changed : Write}

theorem roles_apply (hs : s.Canonical) (hnamed : w.Named changed) {guild role text : String}
    (h : text ∈ (s.apply changed).1.rolePermissions guild role) :
    ∃ n : Node, n.Canonical ∧ n.value = text := by
  rw [rolePermissions_apply] at h
  cases hnamed with
  | @grantRole g r raw n hn =>
    simp only at h
    split at h
    · rw [Assoc.mem_withItem] at h
      rcases h with rfl | hmem
      · exact ⟨n, Node.canonical_of_parse hn, rfl⟩
      · exact hs.roles guild role text hmem
    · exact hs.roles guild role text h
  | @revokeRole g r raw n hn =>
    simp only at h
    split at h
    · exact hs.roles guild role text ((List.mem_filter.mp h).1)
    · exact hs.roles guild role text h
  | _ => exact hs.roles guild role text h

theorem overrides_apply (hs : s.Canonical) (hnamed : w.Named changed) {guild user : String}
    {entry : String × Bool} (h : entry ∈ (s.apply changed).1.overrideEntries guild user) :
    ∃ n : Node, n.Canonical ∧ n.value = entry.1 := by
  rw [overrideEntries_apply] at h
  cases hnamed with
  | @setOverride g u allow raw n hn =>
    simp only at h
    split at h
    · rcases Assoc.mem_of_mem_put h with rfl | hmem
      · exact ⟨n, Node.canonical_of_parse hn, rfl⟩
      · exact hs.overrides guild user entry hmem
    · exact hs.overrides guild user entry h
  | @clearOverride g u raw n hn =>
    simp only at h
    split at h
    · exact hs.overrides guild user entry ((List.mem_filter.mp h).1)
    · exact hs.overrides guild user entry h
  | _ => exact hs.overrides guild user entry h

theorem distinct_apply (hs : s.Canonical) (hnamed : w.Named changed) (guild user : String) :
    (((s.apply changed).1.overrideEntries guild user).map (·.1)).Nodup := by
  rw [overrideEntries_apply]
  cases hnamed with
  | @setOverride g u allow raw n hn =>
    simp only
    split
    · exact Assoc.nodup_put (hs.distinct guild user)
    · exact hs.distinct guild user
  | @clearOverride g u raw n hn =>
    simp only
    split
    · rw [Assoc.map_fst_remove]
      exact (hs.distinct guild user).filter _
    · exact hs.distinct guild user
  | _ => exact hs.distinct guild user

/-- Changes keep the store canonical, whatever they say. -/
theorem after (hs : s.Canonical) (w : Write) : (s.after w).Canonical := by
  cases h : w.canonical with
  | error fault => rwa [after_of_malformed h]
  | ok changed =>
    rw [after_of_canonical h]
    have hnamed := Write.named_of_canonical h
    exact ⟨fun _ _ _ => hs.roles_apply hnamed, fun _ _ _ => hs.overrides_apply hnamed,
      hs.distinct_apply hnamed⟩

end Canonical

theorem exists_readOverrides {entries : List (String × Bool)}
    (h : ∀ entry ∈ entries, ∃ n : Node, n.Canonical ∧ n.value = entry.1) :
    ∃ os, readOverrides entries = .ok os ∧ ∀ o, o ∈ os ↔ (o.node.value, o.allow) ∈ entries := by
  induction entries with
  | nil => exact ⟨[], rfl, by simp⟩
  | cons entry rest ih =>
    obtain ⟨n, hn, hvalue⟩ := h entry List.mem_cons_self
    obtain ⟨os, hos, hmem⟩ := ih fun other ho => h other (List.mem_cons_of_mem _ ho)
    obtain ⟨value, allow⟩ := entry
    cases hvalue
    refine ⟨⟨n, allow⟩ :: os, ?_, fun o => ?_⟩
    · rw [readOverrides, hn, hos]
      rfl
    · rw [List.mem_cons, List.mem_cons, hmem]
      refine or_congr ⟨fun ho => by rw [ho], fun ho => ?_⟩ Iff.rfl
      obtain ⟨node, decision⟩ := o
      simp only [Prod.mk.injEq] at ho
      rw [Node.eq_of_value ho.1, ho.2]

theorem Canonical.parse_eq_ok {s : Store} (hs : s.Canonical) {guild role text : String}
    (h : text ∈ s.rolePermissions guild role) {n : Node} :
    Node.parse text = .ok n ↔ n.value = text := by
  obtain ⟨m, hm, rfl⟩ := hs.roles guild role text h
  rw [hm, Except.ok.injEq]
  exact ⟨fun h => h ▸ rfl, fun h => (Node.eq_of_value h).symm⟩

theorem Canonical.exists_parseAll {s : Store} (hs : s.Canonical) (guild : String)
    (roles : List String) :
    ∃ nodes, parseAll (roles.flatMap (s.rolePermissions guild)) = .ok nodes := by
  apply Permission.exists_parseAll
  intro text htext
  obtain ⟨role, -, htext⟩ := List.mem_flatMap.mp htext
  obtain ⟨n, hn, rfl⟩ := hs.roles guild role text htext
  exact ⟨n, hn⟩

/-- Some role of the member has an identifier on record that covers `n`. -/
def GrantedByRole (s : Store) (guild user : String) (n : Node) : Prop :=
  ∃ role ∈ s.memberRoles guild user, ∃ held : Node,
    held.value ∈ s.rolePermissions guild role ∧ held.covers n = true

/-- The decision is on record for the member and an identifier that covers `n`. -/
def Overridden (s : Store) (guild user : String) (allow : Bool) (n : Node) : Prop :=
  ∃ held : Node, (s.overrideEntries guild user).lookup held.value = some allow ∧
    held.covers n = true

/-- By what is on record the member is granted or allowed `n`, and not denied it. -/
def Holds (s : Store) (guild user : String) (n : Node) : Prop :=
  (s.GrantedByRole guild user n ∨ s.Overridden guild user true n) ∧
    ¬ s.Overridden guild user false n

theorem Canonical.exists_decisions {s : Store} (hs : s.Canonical) (guild user : String) :
    ∃ os, s.overrides guild user = .ok os ∧ ∀ allow n,
      (∃ o ∈ os, o.allow = allow ∧ o.node.covers n = true) ↔ s.Overridden guild user allow n := by
  obtain ⟨os, hos, hmem⟩ := exists_readOverrides (hs.overrides guild user)
  refine ⟨os, hos, fun allow n => ⟨?_, ?_⟩⟩
  · rintro ⟨o, ho, rfl, hc⟩
    exact ⟨o.node, (Assoc.mem_iff_lookup (hs.distinct guild user)).mp ((hmem o).mp ho), hc⟩
  · rintro ⟨held, hlookup, hc⟩
    exact ⟨⟨held, allow⟩,
      (hmem _).mpr ((Assoc.mem_iff_lookup (hs.distinct guild user)).mpr hlookup), rfl, hc⟩

theorem Canonical.exists_reading {s : Store} (hs : s.Canonical) (guild user : String) :
    ∃ r g, s.reading guild user = .ok r ∧ r.resolved = .ok g ∧
      ∀ n, r.Holds n ↔ s.Holds guild user n := by
  obtain ⟨os, hos, hdecided⟩ := hs.exists_decisions guild user
  let r : Reading := ⟨(sortTexts (s.memberRoles guild user)).map fun role =>
    (role, s.rolePermissions guild role), os⟩
  have hgrant (n : Node) : r.GrantedByRole n ↔ s.GrantedByRole guild user n := by
    constructor
    · rintro ⟨entry, hrole, text, htext, held, hp, hc⟩
      obtain ⟨role, hmember, rfl⟩ := List.mem_map.mp hrole
      rw [hs.parse_eq_ok htext] at hp
      exact ⟨role, mem_sortTexts.mp hmember, held, hp ▸ htext, hc⟩
    · rintro ⟨role, hmember, held, hheld, hc⟩
      exact ⟨_, List.mem_map.mpr ⟨role, mem_sortTexts.mpr hmember, rfl⟩, held.value, hheld, held,
        (hs.parse_eq_ok hheld).mpr rfl, hc⟩
  have hover (allow : Bool) (n : Node) :
      r.Overridden allow n ↔ s.Overridden guild user allow n := hdecided allow n
  obtain ⟨nodes, hnodes⟩ := hs.exists_parseAll guild (sortTexts (s.memberRoles guild user))
  refine ⟨r, .build nodes os, ?_, ?_, fun n => ?_⟩
  · rw [Store.reading, hos]
    rfl
  · rw [Reading.resolved, List.flatMap_map, hnodes]
    rfl
  · rw [Reading.Holds, Holds, hgrant, hover, hover]

theorem Canonical.exists_resolve {s : Store} (hs : s.Canonical) (guild user : String) :
    ∃ g, Source.memory.resolve (some guild) user s = (.ok g, s) ∧
      ∀ n, g.has n = true ↔ s.Holds guild user n := by
  obtain ⟨r, g, hread, hresolved, hholds⟩ := hs.exists_reading guild user
  refine ⟨g, ?_, fun n => by rw [Reading.resolved_has hresolved, hholds]⟩
  simp only [Source.resolve, Source.read_eq, Source.reading_memory, hread, orFailure, Except.bind,
    hresolved]

/-- Asked whether a member holds an identifier, a canonical store answers by what is recorded. -/
theorem Canonical.ask_holds {s : Store} (hs : s.Canonical) (guild user : String) {text : String}
    {n : Node} (hn : Node.parse text = .ok n) :
    ∃ held, Access.memory.ask (.holds (some guild) user text) s = (.ok (.held held), s) ∧
      (held = true ↔ s.Holds guild user n) := by
  obtain ⟨g, hresolve, hholds⟩ := hs.exists_resolve guild user
  have hmemory : Access.memory.source.resolve (some guild) user s = (.ok g, s) := hresolve
  refine ⟨g.has n, ?_, hholds n⟩
  simp [Access.ask, hmemory, Grants.hasText, hn, orFailure, Except.map]

end Store

end Guildhall.Permission
