import Guildhall.Proofs.Permission.Shape

/-!
# Names that meet

The keys of a document are read as texts, and keys of different kinds may have the same text. Of
the entries of a section that meet in one name, the last one is in force, and what the others list
is lost, denials included. Where no names meet, everything that a document lists is in force.
-/

namespace Guildhall

namespace Value

variable {v : Value}

def valuesUnder (name : String) : List (Scalar × Value) → List Value
  | [] => []
  | (key, value) :: rest =>
    if key.text = name then value :: valuesUnder name rest else valuesUnder name rest

def under (v : Value) (name : String) : Value := (valuesUnder name v.entries).getLast?.getD .null

def Apart (v : Value) : Prop := (v.entries.map (·.1.text)).Nodup

instance (v : Value) : Decidable v.Apart := inferInstanceAs (Decidable (List.Nodup _))

theorem valuesUnder_eq_nil {name : String} {entries : List (Scalar × Value)}
    (h : name ∉ entries.map (·.1.text)) : valuesUnder name entries = [] := by
  induction entries with
  | nil => rfl
  | cons entry rest ih =>
    rw [List.map_cons, List.mem_cons, not_or] at h
    rw [valuesUnder, if_neg (Ne.symm h.1)]
    exact ih h.2

theorem valuesUnder_of_mem {entries : List (Scalar × Value)}
    (h : (entries.map (·.1.text)).Nodup) {entry : Scalar × Value} (hentry : entry ∈ entries) :
    valuesUnder entry.1.text entries = [entry.2] := by
  induction entries with
  | nil => cases hentry
  | cons first rest ih =>
    rw [List.map_cons, List.nodup_cons] at h
    rcases List.mem_cons.mp hentry with rfl | hrest
    · rw [valuesUnder, if_pos rfl, valuesUnder_eq_nil h.1]
    · have hne : first.1.text ≠ entry.1.text := by
        intro heq
        apply h.1
        exact List.mem_map.mpr ⟨entry, hrest, heq.symm⟩
      rw [valuesUnder, if_neg hne]
      exact ih h.2 hrest

theorem under_of_mem (h : v.Apart) {entry : Scalar × Value} (hentry : entry ∈ v.entries) :
    v.under entry.1.text = entry.2 := by
  rw [under, valuesUnder_of_mem h hentry]
  rfl

end Value

namespace Permission

section Last

variable {α : Type} {read : Value → Except Failure α} {v : Value}

theorem lookup_readEntries {entries : List (Scalar × Value)} {done out : List (String × α)}
    (h : readEntries read entries done = .ok out) (name : String) :
    match (Value.valuesUnder name entries).getLast? with
    | none => out.lookup name = done.lookup name
    | some last => ∃ item, read last = .ok item ∧ out.lookup name = some item := by
  induction entries generalizing done with
  | nil =>
    cases h
    rfl
  | cons entry rest ih =>
    obtain ⟨item, hitem, hrest⟩ := bind_eq_ok.mp h
    have hlast := ih hrest
    rw [Assoc.lookup_put] at hlast
    -- A later entry under the name decides. Without one it is this entry, if it has the name.
    by_cases hname : entry.1.text = name
    · rw [Value.valuesUnder, if_pos hname, List.getLast?_cons]
      cases hlater : (Value.valuesUnder name rest).getLast? with
      | none =>
        rw [hlater] at hlast
        exact ⟨item, hitem, hlast.trans (if_pos hname.symm)⟩
      | some last =>
        rw [hlater] at hlast
        exact hlast
    · rw [Value.valuesUnder, if_neg hname]
      rwa [if_neg (Ne.symm hname)] at hlast

/-- What is found under a name is read from the last entry under this name; where there is none, it
is what null is read as. -/
theorem read_under {out : List (String × α)} (h : readEntries read v.entries [] = .ok out)
    {nothing : α} (hnull : read .null = .ok nothing) (name : String) :
    read (v.under name) = .ok ((out.lookup name).getD nothing) := by
  have hlast := lookup_readEntries h name
  unfold Value.under
  cases hvalues : (Value.valuesUnder name v.entries).getLast? with
  | none =>
    rw [hvalues] at hlast
    have hlookup : out.lookup name = none := hlast
    rw [hlookup]
    exact hnull
  | some last =>
    rw [hvalues] at hlast
    obtain ⟨item, hitem, hlookup⟩ := hlast
    rw [hlookup]
    exact hitem

end Last

theorem mem_readNodes_iff {v : Value} {texts : List String} (h : readNodes (some v) = .ok texts)
    {text : String} : text ∈ texts ↔ ∃ item ∈ v.listed, Names item text := by
  obtain ⟨items, hitems, h⟩ := bind_eq_ok.mp h
  obtain ⟨-, rfl⟩ := listItems_some.mp hitems
  rw [mem_mapM_iff h]
  simp only [readNode_eq_ok]

theorem lookup_mergeDecisions (allowed denied : List String) (text : String) :
    (mergeDecisions allowed denied).lookup text =
      if text ∈ denied then some false else if text ∈ allowed then some true else none := by
  rw [mergeDecisions, Assoc.lookup_foldl_put, Assoc.lookup_foldl_put]
  rfl

def lastEntry (document : Value) (guild part name : String) : Value :=
  (((document.get "guilds").under guild).get part).under name

structure NamesApart (document : Value) : Prop where
  guilds : (document.get "guilds").Apart
  parts : ∀ g ∈ (document.get "guilds").entries, ∀ part ∈ ["roles", "members", "overrides"],
    (g.2.get part).Apart

instance (document : Value) : Decidable (NamesApart document) :=
  decidable_of_iff ((document.get "guilds").Apart ∧ ∀ g ∈ (document.get "guilds").entries,
    ∀ part ∈ ["roles", "members", "overrides"], (g.2.get part).Apart)
    ⟨fun h => ⟨h.1, h.2⟩, fun h => ⟨h.guilds, h.parts⟩⟩

theorem NamesApart.lastEntry_eq {document : Value} (h : NamesApart document)
    {g : Scalar × Value} (hg : g ∈ (document.get "guilds").entries) {part : String}
    (hpart : part ∈ ["roles", "members", "overrides"]) {entry : Scalar × Value}
    (hentry : entry ∈ (g.2.get part).entries) :
    lastEntry document g.1.text part entry.1.text = entry.2 := by
  rw [lastEntry, Value.under_of_mem h.guilds hg,
    Value.under_of_mem (h.parts g hg part hpart) hentry]

namespace Store

variable {s : Store} {entries : List (Scalar × Value)}

structure Follows (s : Store) (document : Value) : Prop where
  grants : ∀ guild role text, text ∈ s.rolePermissions guild role ↔
    ∃ item ∈ (lastEntry document guild "roles" role).listed, Names item text
  roles : ∀ guild user role, role ∈ s.memberRoles guild user ↔
    ∃ item ∈ (lastEntry document guild "members" user).listed, item.text = role
  denials : ∀ guild user text, (s.overrideEntries guild user).lookup text = some false ↔
    ∃ item ∈ ((lastEntry document guild "overrides" user).get "deny").listed, Names item text
  allowances : ∀ guild user text, (s.overrideEntries guild user).lookup text = some true ↔
    (∃ item ∈ ((lastEntry document guild "overrides" user).get "allow").listed, Names item text) ∧
      ¬ ∃ item ∈ ((lastEntry document guild "overrides" user).get "deny").listed, Names item text

structure InForce (s : Store) (document : Value) : Prop where
  denials : ∀ g ∈ (document.get "guilds").entries, ∀ member ∈ (g.2.get "overrides").entries,
    ∀ item ∈ (member.2.get "deny").listed, ∃ text, Names item text ∧
      (s.overrideEntries g.1.text member.1.text).lookup text = some false
  grants : ∀ g ∈ (document.get "guilds").entries, ∀ role ∈ (g.2.get "roles").entries,
    ∀ item ∈ role.2.listed, ∃ text, Names item text ∧ text ∈ s.rolePermissions g.1.text role.1.text
  roles : ∀ g ∈ (document.get "guilds").entries, ∀ member ∈ (g.2.get "members").entries,
    ∀ item ∈ member.2.listed, item.text ∈ s.memberRoles g.1.text member.1.text

theorem readGuild_under (h : ofValue (.map entries) = .ok s) (guild : String) :
    readGuild (((Value.map entries).get "guilds").under guild) = .ok (s.guild guild) := by
  obtain ⟨-, hguilds⟩ := ofValue_eq_ok.mp h
  rw [readGuilds_eq] at hguilds
  exact read_under hguilds rfl guild

theorem follows_of_ofValue (h : ofValue (.map entries) = .ok s) : s.Follows (.map entries) := by
  have hsections (guild : String) := readGuild_eq_ok.mp (readGuild_under h guild)
  have hdecisions (guild user : String) :
      readOverride (lastEntry (.map entries) guild "overrides" user) =
        .ok (s.overrideEntries guild user) := by
    obtain ⟨-, -, -, -, hoverrides⟩ := hsections guild
    rw [readOverrideSection_eq] at hoverrides
    exact read_under hoverrides rfl user
  constructor
  case grants =>
    intro guild role text
    obtain ⟨-, ⟨-, hroles⟩, -⟩ := hsections guild
    rw [readRoles_eq] at hroles
    obtain ⟨texts, htexts, hset⟩ := bind_eq_ok.mp (read_under hroles rfl role)
    have hset : distinct texts = s.rolePermissions guild role := Except.ok.inj hset
    rw [← hset, mem_distinct]
    exact mem_readNodes_iff htexts
  case roles =>
    intro guild user role
    obtain ⟨-, -, ⟨-, hmembers⟩, -⟩ := hsections guild
    rw [readMembers_eq] at hmembers
    obtain ⟨items, hitems, hset⟩ := bind_eq_ok.mp (read_under hmembers rfl user)
    obtain ⟨-, rfl⟩ := listItems_some.mp hitems
    have hset : distinct ((lastEntry (.map entries) guild "members" user).listed.map Value.text) =
        s.memberRoles guild user := Except.ok.inj hset
    rw [← hset, mem_distinct]
    exact List.mem_map
  case denials =>
    intro guild user text
    obtain ⟨-, allowed, denied, -, hdenied, hmerged⟩ :=
      readOverride_eq_ok.mp (hdecisions guild user)
    rw [← hmerged, lookup_mergeDecisions, ← mem_readNodes_iff hdenied]
    split
    case isTrue hmem => simp [hmem]
    case isFalse hmem => split <;> simp [hmem]
  case allowances =>
    intro guild user text
    obtain ⟨-, allowed, denied, hallowed, hdenied, hmerged⟩ :=
      readOverride_eq_ok.mp (hdecisions guild user)
    rw [← hmerged, lookup_mergeDecisions, ← mem_readNodes_iff hallowed, ← mem_readNodes_iff hdenied]
    split
    case isTrue hmem => simp [hmem]
    case isFalse hmem => split <;> simp_all

/-- In a list of identifiers of an accepted document, every item names one. -/
theorem exists_named {v item : Value} (h : Form.usable.identifiers v) (hitem : item ∈ v.listed) :
    ∃ text, Names item text := by
  obtain ⟨text, n, hvalue, hn⟩ := h.2 item hitem
  exact ⟨n.value, text, n, hvalue, hn, rfl⟩

theorem inForce_of_apart (h : ofValue (.map entries) = .ok s) (hapart : NamesApart (.map entries)) :
    s.InForce (.map entries) := by
  have hfollows := follows_of_ofValue h
  have hfits := exists_ofValue_iff.mp ⟨s, h⟩
  constructor
  case denials =>
    intro g hg member hmember item hitem
    have hdeny := (hfits.records g hg).decisions member hmember
    obtain ⟨text, htext⟩ := exists_named hdeny.deny hitem
    refine ⟨text, htext, (hfollows.denials _ _ _).mpr ⟨item, ?_, htext⟩⟩
    rwa [hapart.lastEntry_eq hg (by simp) hmember]
  case grants =>
    intro g hg role hrole item hitem
    obtain ⟨text, htext⟩ := exists_named ((hfits.records g hg).grants role hrole) hitem
    refine ⟨text, htext, (hfollows.grants _ _ _).mpr ⟨item, ?_, htext⟩⟩
    rwa [hapart.lastEntry_eq hg (by simp) hrole]
  case roles =>
    intro g hg member hmember item hitem
    refine (hfollows.roles _ _ _).mpr ⟨item, ?_, rfl⟩
    rwa [hapart.lastEntry_eq hg (by simp) hmember]

/-- What an accepted document leaves on record is exactly what its last entries list, a denial
winning over an allowance in the same entry. So where no names meet, every denial is in force, and
no grant and no role of a member is missing. -/
theorem last_entries_are_in_force (h : ofValue (.map entries) = .ok s) :
    s.Follows (.map entries) ∧ (NamesApart (.map entries) → s.InForce (.map entries)) :=
  ⟨follows_of_ofValue h, inForce_of_apart h⟩

/-- Numbers are the names of a guild and a member who is both allowed and denied an identifier. -/
theorem denied_under_a_number :
    let member : Value :=
      .map [(.str "allow", .list [.str "kick"]), (.str "deny", .list [.str "Kick"])]
    let document : Value := .map [(.str "guilds", .map [(.int 1,
      .map [(.str "overrides", .map [(.int 42, member), (.str "7", .null)])])])]
    ∃ s, ofValue document = .ok s ∧ NamesApart document ∧
      (s.overrideEntries "1" "42").lookup "kick" = some false := by
  intro member document
  have hload : ofValue document =
      .ok ⟨[("1", ⟨[], [], [("42", [("kick", false)]), ("7", [])]⟩)]⟩ := by decide +kernel
  have hapart : NamesApart document := by decide +kernel
  obtain ⟨-, hinForce⟩ := last_entries_are_in_force hload
  obtain ⟨text, ⟨raw, n, hraw, hn, rfl⟩, hlookup⟩ := (hinForce hapart).denials _ List.mem_cons_self
    (.int 42, member) List.mem_cons_self (.str "Kick") List.mem_cons_self
  cases hraw
  have hkick : Node.parse "Kick" = .ok ⟨"kick", by decide⟩ := by decide +kernel
  rw [hkick] at hn
  cases hn
  exact ⟨_, hload, hapart, hlookup⟩

/-- A denial is lost: the same member stands there again with a number for a name, and of the two
entries only the last one is on record. What has been denied is allowed. -/
theorem denial_lost_beside_a_number :
    let document : Value := .map [(.str "guilds", .map [(.str "1",
      .map [(.str "overrides", .map [
        (.str "42", .map [(.str "deny", .list [.str "kick"])]),
        (.int 42, .map [(.str "allow", .list [.str "kick"])])])])])]
    ∃ s, ofValue document = .ok s ∧ ¬ s.InForce document ∧
      s.overrideEntries "1" "42" = [("kick", true)] ∧
      Store.ofText "p.yaml" ("guilds:\n  '1':\n    overrides:\n      '42':\n" ++
        "        deny: [kick]\n      42:\n        allow: [kick]\n") = .ok s := by
  intro document
  have hentries : overrideEntries ⟨[("1", ⟨[], [], [("42", [("kick", true)])]⟩)]⟩ "1" "42" =
      [("kick", true)] := by decide
  refine ⟨_, by decide +kernel, fun hinForce => ?_, hentries, by decide +kernel⟩
  obtain ⟨text, -, hlookup⟩ := hinForce.denials _ List.mem_cons_self _ List.mem_cons_self
    (.str "kick") List.mem_cons_self
  have hmem := Assoc.mem_of_lookup hlookup
  simp only [Scalar.text, hentries, List.mem_singleton, Prod.mk.injEq] at hmem
  cases hmem.2

end Store

end Permission

end Guildhall
