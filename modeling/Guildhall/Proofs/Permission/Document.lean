import Guildhall.Permission.Document
import Guildhall.Proofs.Permission.Store
import Guildhall.Proofs.Value

/-!
# Documents of a store

What is read from a document is tidy: no name stands twice, no set holds an item twice, and
identifiers are in canonical form. Changes keep a store tidy.
-/

namespace Guildhall.Permission

variable {α β : Type}

structure TidySets (sets : List (String × List String)) : Prop where
  names : (sets.map (·.1)).Nodup
  items : ∀ entry ∈ sets, entry.2.Nodup

structure GuildRecord.Tidy (r : GuildRecord) : Prop where
  roles : TidySets r.roles
  members : TidySets r.members
  users : (r.overrides.map (·.1)).Nodup

structure Store.Tidy (s : Store) : Prop where
  names : (s.guilds.map (·.1)).Nodup
  records : ∀ entry ∈ s.guilds, entry.2.Tidy

def readEntries (read : Value → Except Failure α) :
    List (Scalar × Value) → List (String × α) → Except Failure (List (String × α))
  | [], done => .ok done
  | (name, value) :: rest, done => do
    let item ← read value
    readEntries read rest (Assoc.put name.text item done)

theorem readRoles_eq (entries : List (Scalar × Value)) (done : List (String × List String)) :
    readRoles entries done =
      readEntries (fun v => do return distinct (← readNodes (some v))) entries done := by
  induction entries generalizing done with
  | nil => rfl
  | cons entry rest ih =>
    simp only [readRoles, readEntries, ih, bind_assoc, pure_bind]

theorem readMembers_eq (entries : List (Scalar × Value)) (done : List (String × List String)) :
    readMembers entries done =
      readEntries (fun v => do return distinct ((← listItems (some v)).map Value.text)) entries
        done := by
  induction entries generalizing done with
  | nil => rfl
  | cons entry rest ih =>
    simp only [readMembers, readEntries, ih, bind_assoc, pure_bind]

theorem readOverrideSection_eq (entries : List (Scalar × Value))
    (done : List (String × List (String × Bool))) :
    readOverrideSection entries done = readEntries readOverride entries done := by
  induction entries generalizing done with
  | nil => rfl
  | cons entry rest ih => simp only [readOverrideSection, readEntries, ih]

theorem readGuilds_eq (entries : List (Scalar × Value)) (done : List (String × GuildRecord)) :
    readGuilds entries done = readEntries readGuild entries done := by
  induction entries generalizing done with
  | nil => rfl
  | cons entry rest ih => simp only [readGuilds, readEntries, ih]

/-- No name is read twice, and every item is read from a value that stands under its name. -/
theorem readEntries_ok {read : Value → Except Failure α} {entries : List (Scalar × Value)}
    {done out : List (String × α)} (h : readEntries read entries done = .ok out)
    (hdone : (done.map (·.1)).Nodup) :
    (out.map (·.1)).Nodup ∧ ∀ entry ∈ out, entry ∈ done ∨
      ∃ source ∈ entries, source.1.text = entry.1 ∧ read source.2 = .ok entry.2 := by
  induction entries generalizing done with
  | nil =>
    cases h
    exact ⟨hdone, fun entry hentry => .inl hentry⟩
  | cons entry rest ih =>
    obtain ⟨item, hitem, hrest⟩ := bind_eq_ok.mp h
    obtain ⟨hnodup, hread⟩ := ih hrest (Assoc.nodup_put hdone)
    refine ⟨hnodup, fun other hother => ?_⟩
    rcases hread other hother with hput | ⟨source, hsource, hvalue⟩
    · rcases Assoc.mem_of_mem_put hput with rfl | hmem
      · exact .inr ⟨entry, List.mem_cons_self, rfl, hitem⟩
      · exact .inl hmem
    · exact .inr ⟨source, List.mem_cons_of_mem _ hsource, hvalue⟩

theorem exists_readEntries_iff {read : Value → Except Failure α}
    {entries : List (Scalar × Value)} (done : List (String × α)) :
    (∃ out, readEntries read entries done = .ok out) ↔
      ∀ entry ∈ entries, ∃ item, read entry.2 = .ok item := by
  induction entries generalizing done with
  | nil => simp [readEntries]
  | cons entry rest ih =>
    rw [List.forall_mem_cons]
    constructor
    · rintro ⟨out, h⟩
      obtain ⟨item, hitem, hrest⟩ := bind_eq_ok.mp h
      exact ⟨⟨item, hitem⟩, (ih _).mp ⟨out, hrest⟩⟩
    · rintro ⟨⟨item, hitem⟩, hrest⟩
      obtain ⟨out, hout⟩ := (ih _).mpr hrest
      exact ⟨out, bind_eq_ok.mpr ⟨item, hitem, hout⟩⟩

theorem exists_readEntries_forall₂ (done : List (String × β)) {read : Value → Except Failure β}
    {Q : α → Value → Prop} {R : α → β → Prop} {xs : List (String × α)}
    {ys : List (Scalar × Value)} (h : List.Forall₂ (fun x y => y.1 = .str x.1 ∧ Q x.2 y.2) xs ys)
    (hread : ∀ x ∈ xs, ∀ v, Q x.2 v → ∃ b, read v = .ok b ∧ R x.2 b)
    (hnodup : (done.map (·.1) ++ xs.map (·.1)).Nodup) :
    ∃ out, readEntries read ys done = .ok (done ++ out) ∧
      List.Forall₂ (fun x o => o.1 = x.1 ∧ R x.2 o.2) xs out := by
  induction h generalizing done with
  | nil => exact ⟨[], by rw [List.append_nil]; rfl, .nil⟩
  | @cons x y xs ys hxy hrest ih =>
    obtain ⟨hname, hQ⟩ := hxy
    obtain ⟨b, hb, hR⟩ := hread x List.mem_cons_self y.2 hQ
    -- No name has been read yet that is still to come, so each entry is put last.
    have hfree : x.1 ∉ done.map (·.1) := by
      intro hmem
      exact (List.nodup_append.mp hnodup).2.2 _ hmem _ List.mem_cons_self rfl
    have hput : Assoc.put x.1 b done = done ++ [(x.1, b)] := Assoc.put_of_notMem hfree
    have hnext : ((done ++ [(x.1, b)]).map (·.1) ++ xs.map (·.1)).Nodup := by
      simpa using hnodup
    obtain ⟨out, hout, hmatch⟩ :=
      ih _ (fun other hother => hread other (List.mem_cons_of_mem _ hother)) hnext
    refine ⟨(x.1, b) :: out, ?_, .cons ⟨rfl, hR⟩ hmatch⟩
    obtain ⟨name, value⟩ := y
    cases hname
    rw [List.append_assoc] at hout
    exact bind_eq_ok.mpr ⟨b, hb, by rw [Scalar.text, hput, hout]; rfl⟩

theorem readEntries_map {f : α → Value} {g : α → β} {read : Value → Except Failure β}
    {xs : List (String × α)} (hread : ∀ x ∈ xs, read (f x.2) = .ok (g x.2))
    (hnodup : (xs.map (·.1)).Nodup) :
    readEntries read (xs.map fun x => (.str x.1, f x.2)) [] =
      .ok (xs.map fun x => (x.1, g x.2)) := by
  have hwritten : List.Forall₂ (fun x y => y.1 = .str x.1 ∧ f x.2 = y.2) xs
      (xs.map fun x => (Scalar.str x.1, f x.2)) := by
    rw [List.forall₂_map_right_iff]
    exact List.forall₂_same.mpr fun x _ => ⟨rfl, rfl⟩
  obtain ⟨out, hout, hmatch⟩ := exists_readEntries_forall₂ [] (Q := fun a v => f a = v)
    (R := fun a b => b = g a) hwritten
    (fun x hx v hv => ⟨g x.2, hv ▸ hread x hx, rfl⟩) hnodup
  have heq : out = xs.map fun x => (x.1, g x.2) := by
    rw [← List.forall₂_eq_eq_eq, List.forall₂_map_right_iff]
    exact (hmatch.imp fun x o ho => Prod.ext ho.1 ho.2).flip
  rw [hout, heq, List.nil_append]

theorem lookup_forall₂ {R : α → β → Prop} {xs : List (String × α)} {ys : List (String × β)}
    (h : List.Forall₂ (fun x y => y.1 = x.1 ∧ R x.2 y.2) xs ys) (key : String) :
    Option.Rel R (xs.lookup key) (ys.lookup key) := by
  induction h with
  | nil => exact .none
  | @cons x y xs ys hxy hrest ih =>
    obtain ⟨name, a⟩ := x
    obtain ⟨_, b⟩ := y
    obtain ⟨rfl, hR⟩ := hxy
    rw [Assoc.lookup_cons, Assoc.lookup_cons]
    split
    · exact .some hR
    · exact ih

theorem exists_readEntries {f : α → Value} {read : Value → Except Failure β} {R : α → β → Prop}
    {xs : List (String × α)} {ys : List (Scalar × Value)} (hnodup : (xs.map (·.1)).Nodup)
    (hlength : xs.length = ys.length)
    (hsame : Value.sameEntries (xs.map fun x => (.str x.1, f x.2)) ys = true)
    (hread : ∀ x ∈ xs, ∀ v, (f x.2).same v = true → ∃ b, read v = .ok b ∧ R x.2 b) :
    ∃ out, readEntries read ys [] = .ok out ∧
      ∀ key, Option.Rel R (xs.lookup key) (out.lookup key) := by
  obtain ⟨zs, hperm, hzs⟩ := Value.exists_matching hnodup hlength hsame
  have hzsNodup : (zs.map (·.1)).Nodup := (hperm.map _).nodup_iff.mpr hnodup
  obtain ⟨out, hout, hmatch⟩ := exists_readEntries_forall₂ [] (Q := fun a v => (f a).same v = true)
    hzs (fun x hx => hread x (hperm.mem_iff.mp hx)) hzsNodup
  refine ⟨out, hout, fun key => ?_⟩
  rw [← Assoc.lookup_perm hperm hzsNodup key]
  exact lookup_forall₂ hmatch key

theorem nodup_distinct {α : Type} [DecidableEq α] (items : List α) : (distinct items).Nodup := by
  induction items with
  | nil => exact List.nodup_nil
  | cons item rest ih => exact List.nodup_cons.mpr ⟨by simp, ih.filter _⟩

theorem distinct_eq_self {α : Type} [DecidableEq α] {items : List α} (h : items.Nodup) :
    distinct items = items := by
  induction items with
  | nil => rfl
  | cons item rest ih =>
    rw [List.nodup_cons] at h
    rw [distinct, ih h.2, List.filter_eq_self.mpr]
    intro other hother
    have hne : other ≠ item := by
      rintro rfl
      exact h.1 hother
    simpa using hne

theorem sortTexts_perm (texts : List String) : (sortTexts texts).Perm texts :=
  List.mergeSort_perm texts _

namespace TidySets

variable {sets : List (String × List String)}

theorem nil : TidySets [] := ⟨List.nodup_nil, by simp⟩

theorem put (h : TidySets sets) {items : List String} (hitems : items.Nodup) (name : String) :
    TidySets (Assoc.put name items sets) := by
  refine ⟨Assoc.nodup_put h.names, fun entry hentry => ?_⟩
  rcases Assoc.mem_of_mem_put hentry with rfl | hmem
  · exact hitems
  · exact h.items entry hmem

theorem nodup_lookup (h : TidySets sets) (name : String) :
    ((sets.lookup name).getD []).Nodup := by
  cases hlookup : sets.lookup name with
  | none => exact List.nodup_nil
  | some items => exact h.items _ (Assoc.mem_of_lookup hlookup)

end TidySets

/-- Whether an item of a list is a text that names an identifier with a canonical form. -/
def Names (item : Value) (canonical : String) : Prop :=
  ∃ (text : String) (n : Node), item = .str text ∧ Node.parse text = .ok n ∧ n.value = canonical

theorem readNode_eq_ok {item : Value} {text : String} :
    readNode item = .ok text ↔ Names item text := by
  unfold readNode Names
  split
  case h_1 s =>
    cases hs : Node.parse s with
    | ok n => simp [hs]
    | error fault => simp [hs]
  case h_2 hother =>
    constructor
    · intro h
      cases h
    · rintro ⟨text, n, rfl, -⟩
      exact absurd rfl (hother text)

theorem readNode_ok {v : Value} {text : String} (h : readNode v = .ok text) :
    ∃ n : Node, n.Canonical ∧ n.value = text := by
  obtain ⟨_, n, -, hn, hvalue⟩ := readNode_eq_ok.mp h
  exact ⟨n, Node.canonical_of_parse hn, hvalue⟩

theorem readNodes_ok {v : Option Value} {texts : List String} (h : readNodes v = .ok texts) :
    ∀ text ∈ texts, ∃ n : Node, n.Canonical ∧ n.value = text := by
  intro text htext
  obtain ⟨items, -, hitems⟩ := bind_eq_ok.mp h
  obtain ⟨item, -, hitem⟩ := mem_of_mapM_eq_ok hitems htext
  exact readNode_ok hitem

theorem readRoles_ok {entries : List (Scalar × Value)} {sets : List (String × List String)}
    (h : readRoles entries [] = .ok sets) : TidySets sets ∧
      ∀ entry ∈ sets, ∀ text ∈ entry.2, ∃ n : Node, n.Canonical ∧ n.value = text := by
  rw [readRoles_eq] at h
  obtain ⟨hnames, hread⟩ := readEntries_ok h List.nodup_nil
  have hset (entry : String × List String) (hentry : entry ∈ sets) :
      ∃ texts v, readNodes (some v) = .ok texts ∧ entry.2 = distinct texts := by
    obtain ⟨source, -, -, hv⟩ := (hread entry hentry).resolve_left List.not_mem_nil
    obtain ⟨texts, htexts, heq⟩ := bind_eq_ok.mp hv
    exact ⟨texts, source.2, htexts, (Except.ok.inj heq).symm⟩
  refine ⟨⟨hnames, fun entry hentry => ?_⟩, fun entry hentry text htext => ?_⟩
  · obtain ⟨texts, v, -, heq⟩ := hset entry hentry
    rw [heq]
    exact nodup_distinct texts
  · obtain ⟨texts, v, htexts, heq⟩ := hset entry hentry
    rw [heq, mem_distinct] at htext
    exact readNodes_ok htexts text htext

theorem readMembers_ok {entries : List (Scalar × Value)} {sets : List (String × List String)}
    (h : readMembers entries [] = .ok sets) : TidySets sets := by
  rw [readMembers_eq] at h
  obtain ⟨hnames, hread⟩ := readEntries_ok h List.nodup_nil
  refine ⟨hnames, fun entry hentry => ?_⟩
  obtain ⟨source, -, -, hv⟩ := (hread entry hentry).resolve_left List.not_mem_nil
  obtain ⟨texts, -, heq⟩ := bind_eq_ok.mp hv
  rw [← Except.ok.inj heq]
  exact nodup_distinct _

theorem foldl_decisions (nodes : List String) (allow : Bool) {entries : List (String × Bool)}
    (h : (entries.map (·.1)).Nodup) :
    ((nodes.foldl (fun entries node => Assoc.put node allow entries) entries).map (·.1)).Nodup ∧
      ∀ entry ∈ nodes.foldl (fun entries node => Assoc.put node allow entries) entries,
        entry ∈ nodes.map (·, allow) ∨ entry ∈ entries := by
  induction nodes generalizing entries with
  | nil => exact ⟨h, fun entry hentry => .inr hentry⟩
  | cons node rest ih =>
    have hfirst : ((Assoc.put node allow entries).map (·.1)).Nodup := Assoc.nodup_put h
    obtain ⟨hnodup, hmem⟩ := ih hfirst
    refine ⟨hnodup, fun entry hentry => ?_⟩
    rcases hmem entry hentry with hrest | hput
    · exact .inl (List.mem_cons_of_mem _ hrest)
    · rcases Assoc.mem_of_mem_put hput with rfl | hold
      · exact .inl List.mem_cons_self
      · exact .inr hold

theorem mergeDecisions_ok (allowed denied : List String) :
    ((mergeDecisions allowed denied).map (·.1)).Nodup ∧
      ∀ text allow, (text, allow) ∈ mergeDecisions allowed denied →
        text ∈ if allow then allowed else denied := by
  have hnone : (([] : List (String × Bool)).map (·.1)).Nodup := List.nodup_nil
  obtain ⟨hfirst, hallow⟩ := foldl_decisions allowed true hnone
  obtain ⟨hnodup, hdeny⟩ := foldl_decisions denied false hfirst
  refine ⟨hnodup, fun text allow hmem => ?_⟩
  rcases hdeny _ hmem with hlisted | hmem
  · obtain ⟨node, hnode, heq⟩ := List.mem_map.mp hlisted
    cases heq
    exact hnode
  · obtain ⟨node, hnode, heq⟩ := List.mem_map.mp ((hallow _ hmem).resolve_right List.not_mem_nil)
    cases heq
    exact hnode

theorem readOverride_ok {v : Value} {entries : List (String × Bool)}
    (h : readOverride v = .ok entries) : (entries.map (·.1)).Nodup ∧
      ∀ entry ∈ entries, ∃ n : Node, n.Canonical ∧ n.value = entry.1 := by
  obtain ⟨lists, -, h⟩ := bind_eq_ok.mp h
  obtain ⟨allowed, hallowed, h⟩ := bind_eq_ok.mp h
  obtain ⟨denied, hdenied, h⟩ := bind_eq_ok.mp h
  cases h
  obtain ⟨hnodup, hlisted⟩ := mergeDecisions_ok allowed denied
  refine ⟨hnodup, fun ⟨text, allow⟩ hentry => ?_⟩
  have htext := hlisted text allow hentry
  cases allow with
  | true => exact readNodes_ok hallowed text htext
  | false => exact readNodes_ok hdenied text htext

theorem readOverrideSection_ok {entries : List (Scalar × Value)}
    {overrides : List (String × List (String × Bool))}
    (h : readOverrideSection entries [] = .ok overrides) : (overrides.map (·.1)).Nodup ∧
      ∀ member ∈ overrides, (member.2.map (·.1)).Nodup ∧
        ∀ entry ∈ member.2, ∃ n : Node, n.Canonical ∧ n.value = entry.1 := by
  rw [readOverrideSection_eq] at h
  obtain ⟨hnames, hread⟩ := readEntries_ok h List.nodup_nil
  refine ⟨hnames, fun member hmember => ?_⟩
  obtain ⟨source, -, -, hv⟩ := (hread member hmember).resolve_left List.not_mem_nil
  exact readOverride_ok hv

structure GuildRecord.Sound (r : GuildRecord) : Prop extends r.Tidy where
  grants : ∀ entry ∈ r.roles, ∀ text ∈ entry.2, ∃ n : Node, n.Canonical ∧ n.value = text
  decisions : ∀ member ∈ r.overrides, (member.2.map (·.1)).Nodup ∧
    ∀ entry ∈ member.2, ∃ n : Node, n.Canonical ∧ n.value = entry.1

theorem readGuild_ok {v : Value} {r : GuildRecord} (h : readGuild v = .ok r) : r.Sound := by
  obtain ⟨parts, -, h⟩ := bind_eq_ok.mp h
  obtain ⟨section_, -, h⟩ := bind_eq_ok.mp h
  obtain ⟨roles, hroles, h⟩ := bind_eq_ok.mp h
  obtain ⟨section_, -, h⟩ := bind_eq_ok.mp h
  obtain ⟨members, hmembers, h⟩ := bind_eq_ok.mp h
  obtain ⟨section_, -, h⟩ := bind_eq_ok.mp h
  obtain ⟨overrides, hoverrides, h⟩ := bind_eq_ok.mp h
  cases h
  obtain ⟨htidy, hgrants⟩ := readRoles_ok hroles
  obtain ⟨husers, hdecisions⟩ := readOverrideSection_ok hoverrides
  exact ⟨⟨htidy, readMembers_ok hmembers, husers⟩, hgrants, hdecisions⟩

namespace Store

variable {s t : Store}

theorem guild_mem_or_empty (s : Store) (id : String) :
    (id, s.guild id) ∈ s.guilds ∨ s.guild id = .empty := by
  unfold guild
  cases hlookup : s.guilds.lookup id with
  | none => exact .inr rfl
  | some record => exact .inl (Assoc.mem_of_lookup hlookup)

theorem sound_of_ofValue {document : Value} (h : ofValue document = .ok s) :
    s.Tidy ∧ s.Canonical := by
  unfold ofValue at h
  split at h
  case h_2 => cases h
  case h_1 entries =>
    obtain ⟨section_, -, h⟩ := bind_eq_ok.mp h
    obtain ⟨guilds, hguilds, h⟩ := bind_eq_ok.mp h
    cases h
    rw [readGuilds_eq] at hguilds
    obtain ⟨hnames, hread⟩ := readEntries_ok hguilds List.nodup_nil
    have hrecord (entry : String × GuildRecord) (hentry : entry ∈ guilds) : entry.2.Sound := by
      obtain ⟨source, -, -, hv⟩ := (hread entry hentry).resolve_left List.not_mem_nil
      exact readGuild_ok hv
    have hsound (guild : String) : ((⟨guilds⟩ : Store).guild guild).Sound := by
      rcases guild_mem_or_empty ⟨guilds⟩ guild with hmem | hempty
      · exact hrecord _ hmem
      · rw [hempty]
        exact ⟨⟨.nil, .nil, List.nodup_nil⟩, by simp [GuildRecord.empty],
          by simp [GuildRecord.empty]⟩
    have hgrants (guild role text : String)
        (htext : text ∈ (⟨guilds⟩ : Store).rolePermissions guild role) :
        ∃ n : Node, n.Canonical ∧ n.value = text := by
      unfold rolePermissions at htext
      cases hlookup : ((⟨guilds⟩ : Store).guild guild).roles.lookup role with
      | none => simp [hlookup] at htext
      | some texts =>
        rw [hlookup] at htext
        exact (hsound guild).grants _ (Assoc.mem_of_lookup hlookup) text htext
    have hdecisions (guild user : String) :
        (((⟨guilds⟩ : Store).overrideEntries guild user).map (·.1)).Nodup ∧
          ∀ entry ∈ (⟨guilds⟩ : Store).overrideEntries guild user,
            ∃ n : Node, n.Canonical ∧ n.value = entry.1 := by
      unfold overrideEntries
      cases hlookup : ((⟨guilds⟩ : Store).guild guild).overrides.lookup user with
      | none => simp
      | some entries => exact (hsound guild).decisions _ (Assoc.mem_of_lookup hlookup)
    exact ⟨⟨hnames, fun entry hentry => (hrecord entry hentry).toTidy⟩, hgrants,
      fun guild user => (hdecisions guild user).2, fun guild user => (hdecisions guild user).1⟩

theorem tidy_empty : Tidy .empty := ⟨List.nodup_nil, by simp [empty]⟩

namespace Tidy

theorem guild (hs : s.Tidy) (id : String) : (s.guild id).Tidy := by
  rcases guild_mem_or_empty s id with hmem | hempty
  · exact hs.records _ hmem
  · rw [hempty]
    exact ⟨.nil, .nil, List.nodup_nil⟩

theorem nodup_memberRoles (hs : s.Tidy) (id user : String) : (s.memberRoles id user).Nodup :=
  (hs.guild id).members.nodup_lookup user

theorem setGuild (hs : s.Tidy) {record : GuildRecord} (hrecord : record.Tidy) (id : String) :
    (s.setGuild id record).Tidy := by
  refine ⟨Assoc.nodup_put hs.names, fun entry hentry => ?_⟩
  rcases Assoc.mem_of_mem_put hentry with rfl | hmem
  · exact hrecord
  · exact hs.records entry hmem

theorem apply (hs : s.Tidy) {w changed : Write} (hnamed : w.Named changed) :
    (s.apply changed).1.Tidy := by
  cases hnamed with
  | setMemberRoles guild user roles =>
    have hrecord := hs.guild guild
    refine hs.setGuild ?_ guild
    exact ⟨hrecord.roles, hrecord.members.put (nodup_distinct roles) user, hrecord.users⟩
  | @grantRole guild role text n hn =>
    have hrecord := hs.guild guild
    have hnodup : (Assoc.withItem n.value (((s.guild guild).roles.lookup role).getD [])).Nodup := by
      unfold Assoc.withItem
      split
      case isTrue => exact hrecord.roles.nodup_lookup role
      case isFalse hnew =>
        rw [List.nodup_append]
        refine ⟨hrecord.roles.nodup_lookup role, by simp, fun old hold fresh hfresh heq => ?_⟩
        rw [heq, List.mem_singleton.mp hfresh] at hold
        exact hnew hold
    refine hs.setGuild ?_ guild
    exact ⟨hrecord.roles.put hnodup role, hrecord.members, hrecord.users⟩
  | @revokeRole guild role text n hn =>
    have hrecord := hs.guild guild
    unfold Store.apply
    dsimp only
    split
    case h_1 => exact hs.setGuild hrecord guild
    case h_2 nodes hnodes =>
      have hnodup : nodes.Nodup := hrecord.roles.items _ (Assoc.mem_of_lookup hnodes)
      refine hs.setGuild ?_ guild
      exact ⟨hrecord.roles.put (hnodup.filter _) role, hrecord.members, hrecord.users⟩
  | @setOverride guild user allow text n hn =>
    have hrecord := hs.guild guild
    refine hs.setGuild ?_ guild
    exact ⟨hrecord.roles, hrecord.members, Assoc.nodup_put hrecord.users⟩
  | @clearOverride guild user text n hn =>
    have hrecord := hs.guild guild
    unfold Store.apply
    dsimp only
    split
    case h_1 => exact hs.setGuild hrecord guild
    case h_2 entries hentries =>
      split
      · refine hs.setGuild ?_ guild
        exact ⟨hrecord.roles, hrecord.members, Assoc.nodup_put hrecord.users⟩
      · exact hs.setGuild hrecord guild

theorem after (hs : s.Tidy) (w : Write) : (s.after w).Tidy := by
  cases hw : w.canonical with
  | error fault => rwa [after_of_malformed hw]
  | ok changed =>
    rw [after_of_canonical hw]
    exact hs.apply (Write.named_of_canonical hw)

end Tidy

/-- The stores that there can be: empty ones, what changes make of them, and loaded documents. -/
inductive Reachable : Store → Prop
  | empty : Reachable .empty
  | change {s : Store} (before : Reachable s) (w : Write) : Reachable (s.after w)
  | load {document : Value} {s : Store} (loaded : ofValue document = .ok s) : Reachable s

theorem Reachable.sound (h : s.Reachable) : s.Tidy ∧ s.Canonical := by
  induction h with
  | empty => exact ⟨tidy_empty, canonical_empty⟩
  | change before w ih => exact ⟨ih.1.after w, ih.2.after w⟩
  | load loaded => exact sound_of_ofValue loaded

theorem Reachable.foldl (h : s.Reachable) (writes : List Write) :
    (writes.foldl Store.after s).Reachable := by
  induction writes generalizing s with
  | nil => exact h
  | cons w rest ih => exact ih (.change h w)

end Store

end Guildhall.Permission
