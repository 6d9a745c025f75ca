import Guildhall.Proofs.Permission.Shared

/-!
# Documents that are accepted

A document is refused as soon as one of its values is of no use in its place. But more is of use
than what belongs there. A value that counts as absent passes for a section that is left out; and
where a list belongs, a text passes for its characters and a mapping for its keys.
-/

namespace Guildhall

namespace Value

/-- The entries of a mapping; other values have none. -/
def entries : Value → List (Scalar × Value)
  | map entries => entries
  | _ => []

/-- The items of what is used as a list: of a text its characters, of a mapping its keys. -/
def listed : Value → List Value
  | list items => items
  | map entries => entries.map fun entry => .atom entry.1
  | atom (.str s) => s.toList.map fun c => .str (String.ofList [c])
  | atom _ => []

inductive Blank : Value → Prop
  | no : Blank (.bool false)
  | zero : Blank (.int 0)
  | float {x : Double} (h : x.isZero = true) : Blank (.float x)

/-- Values that pass for a mapping without being one: those that count as absent. -/
def StandsForMapping (v : Value) : Prop := v.Blank ∨ v = .str "" ∨ v = .list []

/-- Values that pass for a list without being one: those that count as absent, any text and any
mapping. -/
def StandsForList (v : Value) : Prop := v.Blank ∨ (∃ s, v = .str s) ∨ ∃ entries, v = .map entries

theorem isTrue_eq_false {v : Value} : v.isTrue = false ↔
    v = .null ∨ v.Blank ∨ v = .str "" ∨ v = .list [] ∨ v = .map [] := by
  constructor
  · intro h
    cases v with
    | list items => simp_all [isTrue]
    | map entries => simp_all [isTrue]
    | atom s =>
      cases s with
      | null => exact .inl rfl
      | bool b =>
        obtain rfl : b = false := h
        exact .inr (.inl .no)
      | int i =>
        obtain rfl : i = 0 := by simpa [isTrue, Scalar.isTrue] using h
        exact .inr (.inl .zero)
      | float x => exact .inr (.inl (.float (by simpa [isTrue, Scalar.isTrue] using h)))
      | str s =>
        obtain rfl : s = "" := by simpa [isTrue, Scalar.isTrue] using h
        exact .inr (.inr (.inl rfl))
      | stamp text => cases h
  · rintro (rfl | hblank | rfl | rfl | rfl)
    · rfl
    · cases hblank with
      | no => rfl
      | zero => rfl
      | float h => simp [isTrue, Scalar.isTrue, h]
    all_goals rfl

theorem get_eq (v : Value) (key : String) : v.get key = (Value.entry? key v.entries).getD .null := by
  cases v <;> rfl

end Value

namespace Permission

structure Form where
  mapping : Value → Prop
  names : Value → Prop
  identifiers : Value → Prop

namespace Form

structure FitsMember (form : Form) (v : Value) : Prop where
  mapping : form.mapping v
  allow : form.identifiers (v.get "allow")
  deny : form.identifiers (v.get "deny")

structure FitsGuild (form : Form) (v : Value) : Prop where
  mapping : form.mapping v
  roles : form.mapping (v.get "roles")
  grants : ∀ entry ∈ (v.get "roles").entries, form.identifiers entry.2
  members : form.mapping (v.get "members")
  names : ∀ entry ∈ (v.get "members").entries, form.names entry.2
  overrides : form.mapping (v.get "overrides")
  decisions : ∀ entry ∈ (v.get "overrides").entries, form.FitsMember entry.2

structure Fits (form : Form) (document : Value) : Prop where
  guilds : form.mapping (document.get "guilds")
  records : ∀ entry ∈ (document.get "guilds").entries, form.FitsGuild entry.2

/-- What belongs in the places of a document, unless it is left out or null. -/
def proper : Form where
  mapping v := v = .null ∨ ∃ entries, v = .map entries
  names v := v = .null ∨ ∃ items, v = .list items
  identifiers v := v = .null ∨ ∃ texts : List String, v = .list (texts.map .str)

/-- Whatever is used as what belongs there, provided that identifiers are well formed. -/
def usable : Form where
  mapping v := proper.mapping v ∨ v.StandsForMapping
  names v := proper.names v ∨ v.StandsForList
  identifiers v := (proper.names v ∨ v.StandsForList) ∧
    ∀ item ∈ v.listed, ∃ text n, item = .str text ∧ Node.parse text = .ok n

def genuine : Form where
  mapping v := ¬ v.StandsForMapping
  names v := ¬ v.StandsForList
  identifiers v := ¬ v.StandsForList

/-- What meets two forms meets a third one, if every value does. -/
theorem Fits.combine {a b c : Form} {document : Value}
    (hmapping : ∀ v, a.mapping v → b.mapping v → c.mapping v)
    (hnames : ∀ v, a.names v → b.names v → c.names v)
    (hidentifiers : ∀ v, a.identifiers v → b.identifiers v → c.identifiers v)
    (ha : a.Fits document) (hb : b.Fits document) : c.Fits document := by
  refine ⟨hmapping _ ha.guilds hb.guilds, fun guild hguild => ?_⟩
  have ha := ha.records guild hguild
  have hb := hb.records guild hguild
  constructor
  case mapping => exact hmapping _ ha.mapping hb.mapping
  case roles => exact hmapping _ ha.roles hb.roles
  case members => exact hmapping _ ha.members hb.members
  case overrides => exact hmapping _ ha.overrides hb.overrides
  case grants =>
    exact fun entry hentry => hidentifiers _ (ha.grants entry hentry) (hb.grants entry hentry)
  case names => exact fun entry hentry => hnames _ (ha.names entry hentry) (hb.names entry hentry)
  case decisions =>
    intro entry hentry
    have ha := ha.decisions entry hentry
    have hb := hb.decisions entry hentry
    exact ⟨hmapping _ ha.mapping hb.mapping, hidentifiers _ ha.allow hb.allow,
      hidentifiers _ ha.deny hb.deny⟩

theorem exists_texts {items : List Value} (h : ∀ item ∈ items, ∃ text, item = .str text) :
    ∃ texts : List String, items = texts.map .str := by
  induction items with
  | nil => exact ⟨[], rfl⟩
  | cons item rest ih =>
    obtain ⟨text, rfl⟩ := h item List.mem_cons_self
    obtain ⟨texts, rfl⟩ := ih fun other hother => h other (List.mem_cons_of_mem _ hother)
    exact ⟨text :: texts, rfl⟩

theorem proper_of_usable {document : Value} (h : usable.Fits document)
    (hgenuine : genuine.Fits document) : proper.Fits document := by
  have hidentifiers (v : Value) (hv : usable.identifiers v) (hfree : genuine.identifiers v) :
      proper.identifiers v := by
    rcases hv.1.resolve_right hfree with rfl | ⟨items, rfl⟩
    · exact .inl rfl
    · obtain ⟨texts, rfl⟩ := exists_texts fun item hitem => by
        obtain ⟨text, n, rfl, -⟩ := hv.2 item hitem
        exact ⟨text, rfl⟩
      exact .inr ⟨texts, rfl⟩
  exact .combine (a := usable) (b := genuine) (fun v hv hfree => hv.resolve_right hfree)
    (fun v hv hfree => hv.resolve_right hfree) hidentifiers h hgenuine

end Form

section Places

variable {v : Value}

theorem usable_mapping_iff :
    Form.usable.mapping v ↔ v.isTrue = false ∨ ∃ entries, v = .map entries := by
  rw [Value.isTrue_eq_false]
  constructor
  · rintro ((rfl | hmap) | hblank | rfl | rfl)
    · exact .inl (.inl rfl)
    · exact .inr hmap
    · exact .inl (.inr (.inl hblank))
    · exact .inl (.inr (.inr (.inl rfl)))
    · exact .inl (.inr (.inr (.inr (.inl rfl))))
  · rintro ((rfl | hblank | rfl | rfl | rfl) | hmap)
    · exact .inl (.inl rfl)
    · exact .inr (.inl hblank)
    · exact .inr (.inr (.inl rfl))
    · exact .inr (.inr (.inr rfl))
    · exact .inl (.inr ⟨[], rfl⟩)
    · exact .inl (.inr hmap)

theorem usable_names_iff : Form.usable.names v ↔ v.isTrue = false ∨ (∃ items, v = .list items) ∨
    (∃ s, v = .str s) ∨ ∃ entries, v = .map entries := by
  rw [Value.isTrue_eq_false]
  constructor
  · rintro ((rfl | hlist) | hblank | htext | hmap)
    · exact .inl (.inl rfl)
    · exact .inr (.inl hlist)
    · exact .inl (.inr (.inl hblank))
    · exact .inr (.inr (.inl htext))
    · exact .inr (.inr (.inr hmap))
  · rintro ((rfl | hblank | rfl | rfl | rfl) | hlist | htext | hmap)
    · exact .inl (.inl rfl)
    · exact .inr (.inl hblank)
    · exact .inr (.inr (.inl ⟨"", rfl⟩))
    · exact .inl (.inr ⟨[], rfl⟩)
    · exact .inr (.inr (.inr ⟨[], rfl⟩))
    · exact .inl (.inr hlist)
    · exact .inr (.inr (.inl htext))
    · exact .inr (.inr (.inr hmap))

theorem sectionEntries_some {entries : List (Scalar × Value)} :
    sectionEntries (some v) = .ok entries ↔ Form.usable.mapping v ∧ v.entries = entries := by
  rw [usable_mapping_iff]
  cases v with
  | map entries => cases entries <;> simp [sectionEntries, Value.isTrue, Value.entries]
  | list items => cases items <;> simp [sectionEntries, Value.isTrue, Value.entries]
  | atom s => cases htrue : s.isTrue <;> simp [sectionEntries, Value.isTrue, Value.entries, htrue]

theorem sectionEntries_entry {key : String} {entries : List (Scalar × Value)} :
    sectionEntries (Value.entry? key v.entries) = .ok entries ↔
      Form.usable.mapping (v.get key) ∧ (v.get key).entries = entries := by
  rw [← sectionEntries_some, Value.get_eq]
  cases Value.entry? key v.entries <;> rfl

theorem listItems_some {items : List Value} :
    listItems (some v) = .ok items ↔ Form.usable.names v ∧ v.listed = items := by
  rw [usable_names_iff]
  cases v with
  | map entries => cases entries <;> simp [listItems, Value.isTrue, Value.listed]
  | list items => cases items <;> simp [listItems, Value.isTrue, Value.listed]
  | atom s =>
    cases htrue : s.isTrue <;> cases s <;>
      simp_all [listItems, Value.isTrue, Value.listed, Scalar.isTrue]

theorem readNodes_entry (v : Value) (key : String) :
    readNodes (Value.entry? key v.entries) = readNodes (some (v.get key)) := by
  rw [Value.get_eq]
  cases Value.entry? key v.entries <;> rfl

theorem exists_readNodes_iff :
    (∃ texts, readNodes (some v) = .ok texts) ↔ Form.usable.identifiers v := by
  have hitem (item : Value) : (∃ text, readNode item = .ok text) ↔
      ∃ text n, item = .str text ∧ Node.parse text = .ok n := by
    simp only [readNode_eq_ok, Names]
    constructor
    · rintro ⟨-, text, n, hitem, hn, -⟩
      exact ⟨text, n, hitem, hn⟩
    · rintro ⟨text, n, hitem, hn⟩
      exact ⟨n.value, text, n, hitem, hn, rfl⟩
  have hitems : (∃ texts, readNodes (some v) = .ok texts) ↔
      Form.usable.names v ∧ ∃ texts, v.listed.mapM readNode = .ok texts := by
    simp only [readNodes, bind_eq_ok, listItems_some]
    constructor
    · rintro ⟨texts, -, ⟨hnames, rfl⟩, htexts⟩
      exact ⟨hnames, texts, htexts⟩
    · rintro ⟨hnames, texts, htexts⟩
      exact ⟨texts, _, ⟨hnames, rfl⟩, htexts⟩
  rw [hitems, exists_mapM_iff]
  simp only [hitem]
  rfl

theorem mem_readNodes {texts : List String} (h : readNodes (some v) = .ok texts) {text : String}
    (htext : text ∈ texts) : ∃ item ∈ v.listed, Names item text := by
  obtain ⟨items, hitems, h⟩ := bind_eq_ok.mp h
  obtain ⟨-, rfl⟩ := listItems_some.mp hitems
  obtain ⟨item, hitem, hread⟩ := mem_of_mapM_eq_ok h htext
  exact ⟨item, hitem, readNode_eq_ok.mp hread⟩

theorem readOverride_eq_ok {entries : List (String × Bool)} :
    readOverride v = .ok entries ↔ Form.usable.mapping v ∧ ∃ allowed denied,
      readNodes (some (v.get "allow")) = .ok allowed ∧
        readNodes (some (v.get "deny")) = .ok denied ∧ mergeDecisions allowed denied = entries := by
  simp only [readOverride, bind_eq_ok, sectionEntries_some]
  constructor
  · rintro ⟨lists, ⟨hmapping, rfl⟩, allowed, hallowed, denied, hdenied, hmerged⟩
    rw [readNodes_entry] at hallowed hdenied
    exact ⟨hmapping, allowed, denied, hallowed, hdenied, Except.ok.inj hmerged⟩
  · rintro ⟨hmapping, allowed, denied, hallowed, hdenied, rfl⟩
    rw [← readNodes_entry] at hallowed hdenied
    exact ⟨v.entries, ⟨hmapping, rfl⟩, allowed, hallowed, denied, hdenied, rfl⟩

theorem exists_readOverride_iff :
    (∃ entries, readOverride v = .ok entries) ↔ Form.usable.FitsMember v := by
  simp only [readOverride_eq_ok]
  constructor
  · rintro ⟨-, hmapping, allowed, denied, hallowed, hdenied, -⟩
    exact ⟨hmapping, exists_readNodes_iff.mp ⟨allowed, hallowed⟩,
      exists_readNodes_iff.mp ⟨denied, hdenied⟩⟩
  · intro h
    obtain ⟨allowed, hallowed⟩ := exists_readNodes_iff.mpr h.allow
    obtain ⟨denied, hdenied⟩ := exists_readNodes_iff.mpr h.deny
    exact ⟨_, h.mapping, allowed, denied, hallowed, hdenied, rfl⟩

theorem exists_readRoles_iff {entries : List (Scalar × Value)} :
    (∃ roles, readRoles entries [] = .ok roles) ↔
      ∀ entry ∈ entries, Form.usable.identifiers entry.2 := by
  simp only [readRoles_eq, exists_readEntries_iff, bind_eq_ok, ← exists_readNodes_iff]
  refine forall₂_congr fun entry _ => ⟨?_, ?_⟩
  · rintro ⟨-, texts, htexts, -⟩
    exact ⟨texts, htexts⟩
  · rintro ⟨texts, htexts⟩
    exact ⟨_, texts, htexts, rfl⟩

theorem exists_readMembers_iff {entries : List (Scalar × Value)} :
    (∃ members, readMembers entries [] = .ok members) ↔
      ∀ entry ∈ entries, Form.usable.names entry.2 := by
  simp only [readMembers_eq, exists_readEntries_iff, bind_eq_ok, listItems_some]
  refine forall₂_congr fun entry _ => ⟨?_, ?_⟩
  · rintro ⟨-, -, ⟨hnames, -⟩, -⟩
    exact hnames
  · intro hnames
    exact ⟨_, _, ⟨hnames, rfl⟩, rfl⟩

theorem readGuild_eq_ok {r : GuildRecord} : readGuild v = .ok r ↔ Form.usable.mapping v ∧
    (Form.usable.mapping (v.get "roles") ∧ readRoles (v.get "roles").entries [] = .ok r.roles) ∧
    (Form.usable.mapping (v.get "members") ∧
      readMembers (v.get "members").entries [] = .ok r.members) ∧
    Form.usable.mapping (v.get "overrides") ∧
      readOverrideSection (v.get "overrides").entries [] = .ok r.overrides := by
  constructor
  · intro h
    obtain ⟨parts, hparts, h⟩ := bind_eq_ok.mp h
    obtain ⟨hmapping, rfl⟩ := sectionEntries_some.mp hparts
    obtain ⟨first, hfirst, h⟩ := bind_eq_ok.mp h
    obtain ⟨roles, hroles, h⟩ := bind_eq_ok.mp h
    obtain ⟨second, hsecond, h⟩ := bind_eq_ok.mp h
    obtain ⟨members, hmembers, h⟩ := bind_eq_ok.mp h
    obtain ⟨third, hthird, h⟩ := bind_eq_ok.mp h
    obtain ⟨overrides, hoverrides, h⟩ := bind_eq_ok.mp h
    cases h
    obtain ⟨hrolesMapping, rfl⟩ := sectionEntries_entry.mp hfirst
    obtain ⟨hmembersMapping, rfl⟩ := sectionEntries_entry.mp hsecond
    obtain ⟨hoverridesMapping, rfl⟩ := sectionEntries_entry.mp hthird
    exact ⟨hmapping, ⟨hrolesMapping, hroles⟩, ⟨hmembersMapping, hmembers⟩, hoverridesMapping,
      hoverrides⟩
  · rintro ⟨hmapping, ⟨hrolesMapping, hroles⟩, ⟨hmembersMapping, hmembers⟩, hoverridesMapping,
      hoverrides⟩
    refine bind_eq_ok.mpr ⟨v.entries, sectionEntries_some.mpr ⟨hmapping, rfl⟩, ?_⟩
    refine bind_eq_ok.mpr ⟨_, sectionEntries_entry.mpr ⟨hrolesMapping, rfl⟩, ?_⟩
    refine bind_eq_ok.mpr ⟨_, hroles, ?_⟩
    refine bind_eq_ok.mpr ⟨_, sectionEntries_entry.mpr ⟨hmembersMapping, rfl⟩, ?_⟩
    refine bind_eq_ok.mpr ⟨_, hmembers, ?_⟩
    refine bind_eq_ok.mpr ⟨_, sectionEntries_entry.mpr ⟨hoverridesMapping, rfl⟩, ?_⟩
    exact bind_eq_ok.mpr ⟨_, hoverrides, rfl⟩

theorem exists_readGuild_iff : (∃ r, readGuild v = .ok r) ↔ Form.usable.FitsGuild v := by
  simp only [readGuild_eq_ok]
  constructor
  · rintro ⟨r, hmapping, ⟨hroles, hgrants⟩, ⟨hmembers, hnames⟩, hoverrides, hdecisions⟩
    rw [readOverrideSection_eq] at hdecisions
    have hread := (exists_readEntries_iff []).mp ⟨_, hdecisions⟩
    exact ⟨hmapping, hroles, exists_readRoles_iff.mp ⟨_, hgrants⟩, hmembers,
      exists_readMembers_iff.mp ⟨_, hnames⟩, hoverrides,
      fun entry hentry => exists_readOverride_iff.mp (hread entry hentry)⟩
  · intro h
    obtain ⟨roles, hroles⟩ := exists_readRoles_iff.mpr h.grants
    obtain ⟨members, hmembers⟩ := exists_readMembers_iff.mpr h.names
    obtain ⟨overrides, hoverrides⟩ := (exists_readEntries_iff []).mpr
      fun entry hentry => exists_readOverride_iff.mpr (h.decisions entry hentry)
    rw [← readOverrideSection_eq] at hoverrides
    exact ⟨⟨roles, members, overrides⟩, h.mapping, ⟨h.roles, hroles⟩, ⟨h.members, hmembers⟩,
      h.overrides, hoverrides⟩

end Places

namespace Store

variable {s : Store} {entries : List (Scalar × Value)}

theorem ofValue_eq_ok : ofValue (.map entries) = .ok s ↔
    Form.usable.mapping ((Value.map entries).get "guilds") ∧
      readGuilds ((Value.map entries).get "guilds").entries [] = .ok s.guilds := by
  constructor
  · intro h
    obtain ⟨first, hfirst, h⟩ := bind_eq_ok.mp h
    obtain ⟨guilds, hguilds, h⟩ := bind_eq_ok.mp h
    cases h
    obtain ⟨hmapping, rfl⟩ := (sectionEntries_entry (v := .map entries)).mp hfirst
    exact ⟨hmapping, hguilds⟩
  · rintro ⟨hmapping, hguilds⟩
    refine bind_eq_ok.mpr ⟨_, sectionEntries_entry.mpr ⟨hmapping, rfl⟩, ?_⟩
    exact bind_eq_ok.mpr ⟨_, hguilds, rfl⟩

theorem exists_ofValue_iff :
    (∃ s, ofValue (.map entries) = .ok s) ↔ Form.usable.Fits (.map entries) := by
  simp only [ofValue_eq_ok, readGuilds_eq]
  constructor
  · rintro ⟨s, hmapping, hguilds⟩
    have hread := (exists_readEntries_iff []).mp ⟨_, hguilds⟩
    exact ⟨hmapping, fun entry hentry => exists_readGuild_iff.mp (hread entry hentry)⟩
  · intro h
    obtain ⟨guilds, hguilds⟩ := (exists_readEntries_iff []).mpr
      fun entry hentry => exists_readGuild_iff.mpr (h.records entry hentry)
    exact ⟨⟨guilds⟩, h.guilds, hguilds⟩

/-- Whether everything that a store records is listed in a document, in the place where it belongs:
identifiers by texts that name them, and roles of members by their texts. -/
structure Listed (s : Store) (document : Value) : Prop where
  grants : ∀ guild role text, text ∈ s.rolePermissions guild role →
    ∃ g ∈ (document.get "guilds").entries, g.1.text = guild ∧
      ∃ entry ∈ (g.2.get "roles").entries, entry.1.text = role ∧
        ∃ item ∈ entry.2.listed, Names item text
  roles : ∀ guild user role, role ∈ s.memberRoles guild user →
    ∃ g ∈ (document.get "guilds").entries, g.1.text = guild ∧
      ∃ entry ∈ (g.2.get "members").entries, entry.1.text = user ∧
        ∃ item ∈ entry.2.listed, item.text = role
  decisions : ∀ guild user text allow, (text, allow) ∈ s.overrideEntries guild user →
    ∃ g ∈ (document.get "guilds").entries, g.1.text = guild ∧
      ∃ entry ∈ (g.2.get "overrides").entries, entry.1.text = user ∧
        ∃ item ∈ (entry.2.get (if allow then "allow" else "deny")).listed, Names item text

theorem exists_entry_source {α : Type} {read : Value → Except Failure (List α)}
    {out : List (String × List α)} (h : readEntries read entries [] = .ok out) {key : String} {a : α}
    (ha : a ∈ (out.lookup key).getD []) :
    ∃ entry ∈ entries, entry.1.text = key ∧ ∃ items, read entry.2 = .ok items ∧ a ∈ items := by
  cases hlookup : out.lookup key with
  | none => simp [hlookup] at ha
  | some items =>
    rw [hlookup] at ha
    have hmem : (key, items) ∈ out := Assoc.mem_of_lookup hlookup
    obtain ⟨entry, hentry, hname, hread⟩ :=
      ((readEntries_ok h List.nodup_nil).2 _ hmem).resolve_left List.not_mem_nil
    exact ⟨entry, hentry, hname, items, hread, ha⟩

/-- The record of a guild is read from a value that stands under its name, if it is not empty. -/
theorem exists_guild_source (h : ofValue (.map entries) = .ok s) (guild : String) :
    s.guild guild = .empty ∨ ∃ g ∈ ((Value.map entries).get "guilds").entries,
      g.1.text = guild ∧ readGuild g.2 = .ok (s.guild guild) := by
  obtain ⟨-, hguilds⟩ := ofValue_eq_ok.mp h
  rw [readGuilds_eq] at hguilds
  obtain ⟨-, hread⟩ := readEntries_ok hguilds List.nodup_nil
  rcases guild_mem_or_empty s guild with hmem | hempty
  · exact .inr ((hread _ hmem).resolve_left List.not_mem_nil)
  · exact .inl hempty

theorem listed_of_ofValue (h : ofValue (.map entries) = .ok s) : s.Listed (.map entries) := by
  constructor
  case grants =>
    intro guild role text htext
    rcases exists_guild_source h guild with hempty | ⟨g, hg, hname, hguild⟩
    · simp [rolePermissions, hempty, GuildRecord.empty] at htext
    · obtain ⟨-, ⟨-, hroles⟩, -⟩ := readGuild_eq_ok.mp hguild
      rw [readRoles_eq] at hroles
      obtain ⟨entry, hentry, hrole, texts, hread, htext⟩ := exists_entry_source hroles htext
      obtain ⟨nodes, hnodes, heq⟩ := bind_eq_ok.mp hread
      have hset : distinct nodes = texts := Except.ok.inj heq
      rw [← hset, mem_distinct] at htext
      exact ⟨g, hg, hname, entry, hentry, hrole, mem_readNodes hnodes htext⟩
  case roles =>
    intro guild user role hrole
    rcases exists_guild_source h guild with hempty | ⟨g, hg, hname, hguild⟩
    · simp [memberRoles, hempty, GuildRecord.empty] at hrole
    · obtain ⟨-, -, ⟨-, hmembers⟩, -⟩ := readGuild_eq_ok.mp hguild
      rw [readMembers_eq] at hmembers
      obtain ⟨entry, hentry, huser, texts, hread, hrole⟩ := exists_entry_source hmembers hrole
      obtain ⟨items, hitems, heq⟩ := bind_eq_ok.mp hread
      obtain ⟨-, rfl⟩ := listItems_some.mp hitems
      have hset : distinct (entry.2.listed.map Value.text) = texts := Except.ok.inj heq
      rw [← hset, mem_distinct] at hrole
      obtain ⟨item, hitem, htext⟩ := List.mem_map.mp hrole
      exact ⟨g, hg, hname, entry, hentry, huser, item, hitem, htext⟩
  case decisions =>
    intro guild user text allow hdecision
    rcases exists_guild_source h guild with hempty | ⟨g, hg, hname, hguild⟩
    · simp [overrideEntries, hempty, GuildRecord.empty] at hdecision
    · obtain ⟨-, -, -, -, hoverrides⟩ := readGuild_eq_ok.mp hguild
      rw [readOverrideSection_eq] at hoverrides
      obtain ⟨entry, hentry, huser, decisions, hread, hdecision⟩ :=
        exists_entry_source hoverrides hdecision
      obtain ⟨-, allowed, denied, hallowed, hdenied, rfl⟩ := readOverride_eq_ok.mp hread
      have hlisted := (mergeDecisions_ok allowed denied).2 text allow hdecision
      refine ⟨g, hg, hname, entry, hentry, huser, ?_⟩
      cases allow with
      | true => exact mem_readNodes hallowed hlisted
      | false => exact mem_readNodes hdenied hlisted

theorem ofText_refused {path text : String} {failure : Failure}
    (hdocument : documentOf? text = some (.map entries))
    (hrefused : ofValue (.map entries) = .error failure) :
    Store.ofText path text = .error (documentFailure path failure) := by
  unfold documentOf? at hdocument
  cases hparse : Yaml.parse (Text.plainLines text.toList) with
  | error fault => simp [hparse] at hdocument
  | ok v =>
    rw [hparse, Option.some.injEq] at hdocument
    unfold Store.ofText
    simp only [hparse, hdocument, hrefused]

theorem exists_documentFailure (path : String) (failure : Failure) :
    ∃ detail fault, documentFailure path failure = loadFailure path detail fault := by
  unfold documentFailure
  split <;> exact ⟨_, _, rfl⟩

theorem refresh_refused {f : FileStore} {d : Disk} {text : String} (hfile : d.content = .file text)
    (hnew : f.seen ≠ some d.stamp) (hdocument : documentOf? text = some (.map entries))
    (hrefused : ¬ ∃ s, ofValue (.map entries) = .ok s) :
    ∃ detail fault, f.refresh d = .error (loadFailure f.path detail fault) := by
  cases hvalue : ofValue (.map entries) with
  | ok s => exact absurd ⟨s, hvalue⟩ hrefused
  | error failure =>
    obtain ⟨detail, fault, hfailure⟩ := exists_documentFailure f.path failure
    refine ⟨detail, fault, ?_⟩
    simp only [FileStore.refresh, hfile, if_neg hnew, ofText_refused hdocument hvalue, hfailure,
      bind, Except.bind]

/-- What is accepted is usable in its place, and nothing else is refused. Where nothing only passes
for what belongs there, an accepted document has the proper form. In any case everything that is
recorded is listed in the document. A store does not load a file with a document that is not
usable. -/
theorem accepts_what_is_usable (entries : List (Scalar × Value)) :
    ((∃ s, ofValue (.map entries) = .ok s) ↔ Form.usable.Fits (.map entries)) ∧
      (∀ s, ofValue (.map entries) = .ok s →
        (Form.genuine.Fits (.map entries) → Form.proper.Fits (.map entries)) ∧
          s.Listed (.map entries)) ∧
      ∀ (f : FileStore) (d : Disk) (text : String), d.content = .file text →
        f.seen ≠ some d.stamp → documentOf? text = some (.map entries) →
        ¬ Form.usable.Fits (.map entries) →
        ∃ detail fault, f.refresh d = .error (loadFailure f.path detail fault) := by
  refine ⟨exists_ofValue_iff, fun s hs => ⟨fun hgenuine => ?_, listed_of_ofValue hs⟩,
    fun f d text hfile hnew hdocument hunusable => ?_⟩
  · exact Form.proper_of_usable (exists_ofValue_iff.mp ⟨s, hs⟩) hgenuine
  · exact refresh_refused hfile hnew hdocument fun haccepted =>
      hunusable (exists_ofValue_iff.mp haccepted)

/-- A number passes for no list: a file with one is not loaded. -/
theorem number_for_a_list :
    ∃ detail fault, FileStore.openAt "p.yaml"
        (Disk.empty.put (.file "guilds:\n  '1':\n    members:\n      '42': 5\n")) =
      .error (loadFailure "p.yaml" detail fault) := by
  have hrefused : (documentOf? "guilds:\n  '1':\n    members:\n      '42': 5\n").map ofValue =
      some (.error .wrongType) := by decide +kernel
  obtain ⟨document, hdocument, hvalue⟩ := Option.map_eq_some_iff.mp hrefused
  cases document with
  | map entries =>
    obtain ⟨haccepts, -, hfile⟩ := accepts_what_is_usable entries
    refine hfile ⟨"p.yaml", .empty, none⟩ _ _ rfl (by simp) hdocument fun hfits => ?_
    obtain ⟨s, hs⟩ := haccepts.mpr hfits
    rw [hs] at hvalue
    cases hvalue
  | list items => cases hvalue
  | atom s => cases hvalue

/-- A text passes for a list: where a member is given a role without brackets, the file is loaded,
and the member has a role for each letter. -/
theorem text_for_a_list :
    let document : Value := .map [(.str "guilds", .map [(.str "1",
      .map [(.str "members", .map [(.str "42", .str "mod")])])])]
    ∃ s, ofValue document = .ok s ∧ ¬ Form.proper.Fits document ∧
      s.memberRoles "1" "42" = ["m", "o", "d"] ∧
      Store.ofText "p.yaml" "guilds:\n  '1':\n    members:\n      '42': mod\n" = .ok s := by
  intro document
  refine ⟨⟨[("1", ⟨[], [("42", ["m", "o", "d"])], []⟩)]⟩, by decide +kernel, fun hfits => ?_,
    by decide, by decide +kernel⟩
  have hguild := hfits.records (.str "1", _) List.mem_cons_self
  rcases hguild.names (.str "42", .str "mod") List.mem_cons_self with hnull | ⟨items, hlist⟩
  · cases hnull
  · cases hlist

end Store

end Permission

end Guildhall
