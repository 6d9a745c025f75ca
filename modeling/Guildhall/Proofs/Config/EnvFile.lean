import Guildhall.Config.EnvFile
import Guildhall.Proofs.Base
import Guildhall.Proofs.Command.Token
import Guildhall.Proofs.Permission.Node
import Guildhall.Proofs.Text.Lines
import Guildhall.Proofs.Yaml.Writer

/-!
# Environment files read back

Assignments are written one a line and in double quotes, whatever form they had before. Read again,
the file gives every key the value it was written with, quotes and comment signs in it included.
-/

namespace Guildhall

namespace Config

open Text (OneLine Solid)

structure IsKey (key : String) : Prop where
  ne_empty : key ≠ ""
  solid : ∀ c ∈ key.toList, Text.isBlank c = false
  no_equals : '=' ∉ key.toList
  no_comment : key.toList.head? ≠ some '#'

theorem isKey_iff {key : String} :
    IsKey key ↔ key ≠ "" ∧ (key.toList.all fun c => !Text.isBlank c && c != '=') = true ∧
      key.toList.head? ≠ some '#' := by
  simp only [List.all_eq_true, Bool.and_eq_true, Bool.not_eq_true', bne_iff_ne]
  constructor
  · intro h
    exact ⟨h.ne_empty, fun c hc => ⟨h.solid c hc, fun heq => h.no_equals (heq ▸ hc)⟩, h.no_comment⟩
  · rintro ⟨hne, hall, hcomment⟩
    exact ⟨hne, fun c hc => (hall c hc).1, fun hmem => (hall '=' hmem).2 rfl, hcomment⟩

instance (key : String) : Decidable (IsKey key) := decidable_of_iff _ isKey_iff.symm

def assignmentLine (key value : String) : List Char :=
  key.toList ++ '=' :: '"' :: (value.toList ++ ['"'])

variable {key value : String}

theorem IsKey.toList_ne_nil (h : IsKey key) : key.toList ≠ [] := by
  simpa using h.ne_empty

theorem IsKey.oneLine (h : IsKey key) : OneLine key.toList := by
  intro c hc
  by_contra hend
  have hblank := Text.isBlank_of_isLineEnd (by simpa using hend)
  exact absurd (h.solid c hc) (by simp [hblank])

theorem IsKey.solid_assignmentLine (h : IsKey key) : Solid (assignmentLine key value) := by
  have hkey : Solid key.toList := .of_forall h.toList_ne_nil h.solid
  have hmark : Solid ['"'] := .of_forall (by simp) fun c hc => by
    rw [List.mem_singleton.mp hc]
    decide
  have hline := hkey.append hmark ('=' :: '"' :: value.toList)
  simpa [assignmentLine] using hline

theorem IsKey.cut_assignmentLine (h : IsKey key) (value : String) :
    Text.cut '=' (assignmentLine key value) =
      some (key.toList, '"' :: (value.toList ++ ['"'])) := by
  rw [assignmentLine, Text.cut_append h.no_equals]
  simp [Text.cut]

/-- A key may itself be the word for shells, but nothing blank follows it. -/
theorem IsKey.withoutExport (h : IsKey key) :
    withoutExport (assignmentLine key value) = assignmentLine key value := by
  rw [Config.withoutExport, if_neg]
  intro hword
  obtain ⟨rest, hrest⟩ := List.isPrefixOf_iff_prefix.mp hword
  have hcut := h.cut_assignmentLine value
  rw [← hrest, Text.cut_append (by decide)] at hcut
  obtain ⟨⟨first, after⟩, -, heq⟩ := Option.map_eq_some_iff.mp hcut
  have hfirst : "export ".toList ++ first = key.toList := (Prod.mk.inj heq).1
  have hblank : ' ' ∈ key.toList := hfirst ▸ List.mem_append_left first (by decide)
  exact absurd (h.solid ' ' hblank) (by decide)

theorem readValue_quoted (value : List Char) : readValue ('"' :: (value ++ ['"'])) = value := by
  have hsolid : Solid ('"' :: (value ++ ['"'])) :=
    ⟨⟨'"', _, rfl, by decide⟩, ⟨'"' :: value, '"', rfl, by decide⟩⟩
  simp [readValue, hsolid.trimChars, unquote?]

theorem IsKey.readAssignment?_assignmentLine (h : IsKey key) :
    readAssignment? (assignmentLine key value) = some (key, value) := by
  have hhead : (assignmentLine key value).head? ≠ some '#' := by
    rw [assignmentLine, List.head?_append_of_ne_nil _ h.toList_ne_nil]
    exact h.no_comment
  simp only [readAssignment?, h.solid_assignmentLine.trimChars, if_neg hhead, h.withoutExport,
    h.cut_assignmentLine value, Option.map_some, readValue_quoted, Text.trimChars_eq_self h.solid,
    String.ofList_toList]

theorem unquote?_subset {cs inside : List Char} (h : unquote? cs = some inside) : inside ⊆ cs := by
  unfold unquote? at h
  split at h
  case h_1 => cases h
  case h_2 mark rest =>
    split at h
    case isTrue =>
      cases h
      exact fun c hc => List.mem_cons_of_mem _ (List.dropLast_subset rest hc)
    case isFalse => cases h

theorem beforeComment?_subset {cs before : List Char} (h : beforeComment? cs = some before) :
    before ⊆ cs := by
  induction cs generalizing before with
  | nil => cases h
  | cons d rest ih =>
    unfold beforeComment? at h
    split at h
    case h_1 =>
      cases h
      exact List.nil_subset _
    case h_2 heq =>
      cases heq
      obtain ⟨first, hfirst, rfl⟩ := Option.map_eq_some_iff.mp h
      exact List.cons_subset_cons d (ih hfirst)
    case h_3 heq => cases heq

theorem readValue_subset (cs : List Char) : readValue cs ⊆ cs := by
  have htrim := Text.trimChars_subset Text.isBlank cs
  unfold readValue
  dsimp only
  split
  case h_1 hinside => exact List.Subset.trans (unquote?_subset hinside) htrim
  case h_2 =>
    split
    case h_1 hbefore =>
      have hkept := List.Subset.trans (beforeComment?_subset hbefore) htrim
      exact List.Subset.trans (Text.dropWhileEnd_subset _ _) hkept
    case h_2 => exact htrim

theorem withoutExport_subset (line : List Char) : withoutExport line ⊆ line := by
  unfold withoutExport
  dsimp only
  split
  · exact List.drop_subset _ line
  · exact List.Subset.refl line

theorem value_subset {line : List Char} (h : readAssignment? line = some (key, value)) :
    value.toList ⊆ line := by
  simp only [readAssignment?] at h
  split at h
  · cases h
  · obtain ⟨⟨first, after⟩, hcut, heq⟩ := Option.map_eq_some_iff.mp h
    cases heq
    rw [String.toList_ofList]
    have hline := List.Subset.trans (withoutExport_subset _) (Text.trimChars_subset Text.isBlank line)
    have hafter := List.Subset.trans (Text.cut_subset hcut) hline
    exact List.Subset.trans (readValue_subset after) hafter

section Files

variable {entries changes : List (String × String)}

theorem mem_of_mem_assign {entry : String × String} (h : entry ∈ assign changes entries) :
    entry ∈ changes ∨ entry ∈ entries := by
  induction changes generalizing entries with
  | nil => exact .inr h
  | cons change rest ih =>
    rcases ih h with hrest | hput
    · exact .inl (List.mem_cons_of_mem _ hrest)
    · rcases Assoc.mem_of_mem_put hput with rfl | hold
      · exact .inl List.mem_cons_self
      · exact .inr hold

theorem nodup_assign (h : (entries.map (·.1)).Nodup) :
    ((assign changes entries).map (·.1)).Nodup := by
  induction changes generalizing entries with
  | nil => exact h
  | cons change rest ih => exact ih (Assoc.nodup_put h)

/-- A key has its new value, and its old one if it is given none. -/
theorem lookup_assign (h : (changes.map (·.1)).Nodup) (key : String) :
    (assign changes entries).lookup key = (changes.lookup key).or (entries.lookup key) := by
  induction changes generalizing entries with
  | nil => rfl
  | cons change rest ih =>
    obtain ⟨k, v⟩ := change
    rw [List.map_cons, List.nodup_cons] at h
    show (assign rest (Assoc.put k v entries)).lookup key = _
    rw [ih h.2, Assoc.lookup_put, Assoc.lookup_cons]
    split
    case isTrue hk =>
      have hnone : rest.lookup key = none := by
        cases hlookup : rest.lookup key with
        | none => rfl
        | some value =>
          exact absurd (List.mem_map_of_mem (Assoc.mem_of_lookup hlookup)) (hk ▸ h.1)
      rw [hnone]
      rfl
    case isFalse => rfl

theorem assign_append (h : ((entries ++ changes).map (·.1)).Nodup) :
    assign changes entries = entries ++ changes := by
  induction changes generalizing entries with
  | nil => simp [assign]
  | cons change rest ih =>
    have hnew : change.1 ∉ entries.map (·.1) := by
      rw [List.map_append, List.map_cons, List.nodup_append] at h
      exact fun hmem => h.2.2 _ hmem _ List.mem_cons_self rfl
    show assign rest (Assoc.put change.1 change.2 entries) = _
    rw [Assoc.put_of_notMem hnew, ih (by simpa using h), List.append_assoc]
    rfl

theorem readAssignments_eq (text : String) :
    readAssignments text =
      assign ((Text.lines (Text.plainLines text.toList)).filterMap readAssignment?) [] := rfl

theorem nodup_readAssignments (text : String) : ((readAssignments text).map (·.1)).Nodup :=
  nodup_assign List.nodup_nil

theorem nodup_before (text : Option String) :
    (((text.map readAssignments).getD []).map (·.1)).Nodup := by
  cases text with
  | none => exact List.nodup_nil
  | some text => exact nodup_readAssignments text

theorem oneLine_of_mem_readAssignments {text : String} {entry : String × String}
    (h : entry ∈ readAssignments text) : OneLine entry.2.toList := by
  rcases mem_of_mem_assign h with hread | hnil
  · obtain ⟨line, hline, hentry⟩ := List.mem_filterMap.mp hread
    exact fun c hc => Text.oneLine_of_mem_lines hline c (value_subset hentry hc)
  · cases hnil

/-- The assignments that are written: those with a value, in the order of their keys. -/
def written (entries : List (String × String)) : List (String × String) :=
  (Assoc.sorted entries).filter fun entry => !entry.2.isEmpty

theorem mem_written {entry : String × String} :
    entry ∈ written entries ↔ entry ∈ entries ∧ entry.2 ≠ "" := by
  simp [written, (Assoc.perm_sorted entries).mem_iff]

theorem nodup_written (h : (entries.map (·.1)).Nodup) : ((written entries).map (·.1)).Nodup :=
  (Assoc.nodup_sorted h).sublist (List.filter_sublist.map _)

theorem valueOf_written (h : (entries.map (·.1)).Nodup) (key : String) :
    valueOf key (written entries) = valueOf key entries := by
  unfold valueOf
  cases hlookup : (written entries).lookup key with
  | some value =>
    have hmem := (mem_written.mp (Assoc.mem_of_lookup hlookup)).1
    rw [(Assoc.mem_iff_lookup h).mp hmem]
  | none =>
    cases hentries : entries.lookup key with
    | none => rfl
    | some value =>
      -- The entry is not written, so it has no value.
      by_contra hne
      have hkept : (key, value) ∈ written entries :=
        mem_written.mpr ⟨Assoc.mem_of_lookup hentries, fun hempty => hne hempty.symm⟩
      rw [(Assoc.mem_iff_lookup (nodup_written h)).mp hkept] at hlookup
      cases hlookup

theorem toList_renderAssignments (entries : List (String × String)) :
    (renderAssignments entries).toList =
      ((written entries).map fun entry => assignmentLine entry.1 entry.2).flatMap
        fun line => line ++ ['\n'] := by
  simp only [renderAssignments, String.toList_join, List.flatMap_map, written, assignmentLine]
  apply List.flatMap_congr
  intro entry _
  simp

/-- Reading undoes writing, except that assignments of nothing are left out. -/
theorem readAssignments_renderAssignments (hnodup : (entries.map (·.1)).Nodup)
    (h : ∀ entry ∈ entries, IsKey entry.1 ∧ OneLine entry.2.toList) :
    readAssignments (renderAssignments entries) = written entries := by
  have hline : ∀ line ∈ (written entries).map fun entry => assignmentLine entry.1 entry.2,
      OneLine line := by
    intro line hmem
    obtain ⟨entry, hentry, rfl⟩ := List.mem_map.mp hmem
    obtain ⟨hkey, hvalue⟩ := h entry (mem_written.mp hentry).1
    intro c hc
    simp only [assignmentLine, List.mem_append, List.mem_cons, List.not_mem_nil, or_false] at hc
    rcases hc with hc | rfl | rfl | hc | rfl
    · exact hkey.oneLine c hc
    · decide
    · decide
    · exact hvalue c hc
    · decide
  have hplain : '\r' ∉ (renderAssignments entries).toList := by
    rw [toList_renderAssignments]
    intro hmem
    obtain ⟨line, hmemLine, hc⟩ := List.mem_flatMap.mp hmem
    rcases List.mem_append.mp hc with hc | hc
    · exact absurd (hline line hmemLine '\r' hc) (by decide)
    · exact absurd hc (by decide)
  have hread : ((written entries).map fun entry => assignmentLine entry.1 entry.2).filterMap
      readAssignment? = written entries := by
    rw [List.filterMap_map]
    refine (List.filterMap_congr fun entry hentry => ?_).trans List.filterMap_some
    exact (h entry (mem_written.mp hentry).1).1.readAssignment?_assignmentLine
  rw [readAssignments_eq, Text.plainLines_eq_self hplain, toList_renderAssignments,
    Text.lines_flatMap hline, hread, assign_append (by simpa using nodup_written hnodup)]
  rfl

theorem readAssignments_withAssignments {text : Option String}
    (hkeys : ∀ entry ∈ (text.map readAssignments).getD [], IsKey entry.1)
    (hchanges : ∀ entry ∈ changes, IsKey entry.1 ∧ OneLine entry.2.toList) :
    readAssignments (withAssignments changes text) =
      written (assign changes ((text.map readAssignments).getD [])) := by
  refine readAssignments_renderAssignments (nodup_assign (nodup_before text)) fun entry hentry => ?_
  rcases mem_of_mem_assign hentry with hchange | hold
  · exact hchanges entry hchange
  · refine ⟨hkeys entry hold, ?_⟩
    cases text with
    | none => exact absurd hold List.not_mem_nil
    | some text => exact oneLine_of_mem_readAssignments hold

theorem valueOf_withAssignments {text : Option String}
    (hkeys : ∀ entry ∈ (text.map readAssignments).getD [], IsKey entry.1)
    (hchanges : ∀ entry ∈ changes, IsKey entry.1 ∧ OneLine entry.2.toList) (key : String) :
    valueOf key (readAssignments (withAssignments changes text)) =
      valueOf key (assign changes ((text.map readAssignments).getD [])) := by
  rw [readAssignments_withAssignments hkeys hchanges,
    valueOf_written (nodup_assign (nodup_before text))]

end Files

/-- After some keys have been assigned values, each without a line end in it, reading the file gives
every one of them its value, and every other key the value it had. A key that is assigned nothing is
no longer in the file. This is so whatever was in the file, or if there was none, as long as all
keys can be written. -/
theorem assignments_read_back (text : Option String) (changes : List (String × String))
    (hkeys : ∀ entry ∈ (text.map readAssignments).getD [], IsKey entry.1)
    (hchanges : ∀ entry ∈ changes, IsKey entry.1 ∧ OneLine entry.2.toList)
    (hnodup : (changes.map (·.1)).Nodup) :
    let before := (text.map readAssignments).getD []
    let after := readAssignments (withAssignments changes text)
    (∀ key value, (key, value) ∈ changes → valueOf key after = value) ∧
      (∀ key, key ∉ changes.map (·.1) → valueOf key after = valueOf key before) ∧
      ∀ key, (key, "") ∈ changes → valueOf key after = "" ∧ key ∉ after.map (·.1) := by
  intro before after
  have hafter : after = written (assign changes before) :=
    readAssignments_withAssignments hkeys hchanges
  have hvalue (key : String) :
      valueOf key after = ((changes.lookup key).or (before.lookup key)).getD "" := by
    rw [valueOf_withAssignments hkeys hchanges, valueOf, lookup_assign hnodup]
  have hassigned (key value : String) (hmem : (key, value) ∈ changes) :
      valueOf key after = value := by
    rw [hvalue, (Assoc.mem_iff_lookup hnodup).mp hmem]
    rfl
  refine ⟨hassigned, fun key hother => ?_, fun key hmem => ⟨hassigned key "" hmem, ?_⟩⟩
  · have hnone : changes.lookup key = none := by
      cases hlookup : changes.lookup key with
      | none => rfl
      | some value => exact absurd (List.mem_map_of_mem (Assoc.mem_of_lookup hlookup)) hother
    rw [hvalue, hnone]
    rfl
  · -- Whatever is in the file has a value.
    intro hkey
    obtain ⟨⟨k, value⟩, hentry, rfl⟩ := List.mem_map.mp hkey
    rw [hafter] at hentry
    obtain ⟨hassign, hsome⟩ := mem_written.mp hentry
    have hlookup := (Assoc.mem_iff_lookup (nodup_assign (nodup_before text))).mp hassign
    rw [lookup_assign hnodup, (Assoc.mem_iff_lookup hnodup).mp hmem] at hlookup
    cases hlookup
    exact hsome rfl

/-- A greeting with quotes, a comment sign and blanks around it takes the place of one with a
comment behind it, and a port is taken away; what a shell exported stays. -/
theorem greeting_with_quotes :
    let text := "export OWNER='7'\nGREETING=hello # for now\nLISTEN=\"80\"\n"
    let changes := [("GREETING", " say \"hi\" # = "), ("LISTEN", "")]
    let after := readAssignments (withAssignments changes (some text))
    valueOf "GREETING" after = " say \"hi\" # = " ∧ valueOf "OWNER" after = "7" ∧
      "LISTEN" ∉ after.map (·.1) := by
  intro text changes after
  have hread : readAssignments text = [("OWNER", "7"), ("GREETING", "hello"), ("LISTEN", "80")] := by
    decide
  obtain ⟨hassigned, hkept, hgone⟩ := assignments_read_back (some text) changes
    (by
      rw [Option.map_some, Option.getD_some, hread]
      simp only [List.forall_mem_cons]
      exact ⟨by decide, by decide, by decide, by simp⟩)
    (by
      simp only [changes, List.forall_mem_cons]
      exact ⟨by decide, by decide, by simp⟩)
    (by decide)
  refine ⟨hassigned _ _ (by decide), ?_, (hgone "LISTEN" (by decide)).2⟩
  rw [hkept "OWNER" (by decide), Option.map_some, Option.getD_some, hread]
  decide

end Config

end Guildhall
