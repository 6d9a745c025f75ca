import Guildhall.Proofs.Permission.Node
import Guildhall.Proofs.Text.Pieces
import Mathlib.Data.List.Infix
import Mathlib.Data.Set.Basic

/-!
# What identifiers cover

An identifier means the identifiers without a star that it covers. One identifier covers another
exactly when it means all that the other one means, so covering is a partial order.
-/

namespace Guildhall.Permission

/-- A text is an identifier when no segment is empty or holds a blank, and a star is nothing but
the whole last segment. -/
theorem fault?_eq_none_iff {value : String} :
    fault? value = none ↔
      (∀ part ∈ segments value, part ≠ [] ∧ ∀ c ∈ part, Text.isBlank c = false) ∧
        ['*'] ∉ (segments value).dropLast ∧
        ∀ part ∈ segments value, '*' ∈ part → part = ['*'] := by
  have hsolid : ((segments value).any fun p => p.isEmpty || p.any Text.isBlank) = false ↔
      ∀ part ∈ segments value, part ≠ [] ∧ ∀ c ∈ part, Text.isBlank c = false := by
    simp [List.any_eq_false]
  have hstar : ((segments value).any fun p => p.contains '*' && p != ['*']) = false ↔
      ∀ part ∈ segments value, '*' ∈ part → part = ['*'] := by
    simp [List.any_eq_false]
  rw [← hsolid, ← hstar]
  simp only [fault?]
  constructor
  · intro h
    split at h
    case isTrue => cases h
    case isFalse hpieces =>
      split at h
      case isTrue => cases h
      case isFalse hlast =>
        rw [Bool.or_eq_true, not_or, Bool.not_eq_true, Bool.not_eq_true] at hlast
        exact ⟨Bool.not_eq_true _ ▸ hpieces, by simpa using hlast.1, hlast.2⟩
  · rintro ⟨hpieces, hlast, hstars⟩
    rw [hpieces, hstars]
    simp [hlast]

namespace Node

variable {a b c n : Node}

theorem parts_ne_nil (n : Node) : n.parts ≠ [] := Text.splitChars_ne_nil '.' n.value.toList

theorem eq_of_parts (h : a.parts = b.parts) : a = b := by
  have htext (n : Node) : ['.'].intercalate n.parts = n.value.toList :=
    Text.intercalate_splitChars '.' n.value.toList
  apply eq_of_value
  rw [← String.toList_inj, ← htext a, ← htext b, h]

theorem isWildcard_iff : n.isWildcard = true ↔ n.parts = n.stem ++ [['*']] := by
  rw [isWildcard, beq_iff_eq, stem]
  constructor
  · intro h
    exact (List.dropLast_append_getLast? _ h).symm
  · intro h
    rw [h, List.getLast?_concat]

theorem length_parts (hwild : n.isWildcard = true) : n.parts.length = n.stem.length + 1 := by
  rw [isWildcard_iff.mp hwild, List.length_append, List.length_singleton]

theorem covers_iff :
    a.covers b = true ↔
      a = b ∨ a.isWildcard = true ∧ a.stem.length < b.parts.length ∧ a.stem <+: b.parts := by
  simp [covers, and_assoc]

theorem covers_self (n : Node) : n.covers n = true := covers_iff.mpr (.inl rfl)

theorem covers_trans (hab : a.covers b = true) (hbc : b.covers c = true) : a.covers c = true := by
  rcases covers_iff.mp hab with rfl | ⟨hawild, halength, haprefix⟩
  · exact hbc
  · rcases covers_iff.mp hbc with rfl | ⟨hbwild, hblength, hbprefix⟩
    · exact hab
    · rw [length_parts hbwild] at halength
      -- The stem of `a` ends before the star of `b`, so it begins the stem of `b`.
      have hstems : a.stem <+: b.stem := by
        apply List.prefix_of_prefix_length_le haprefix (List.dropLast_prefix b.parts)
        exact Nat.le_of_lt_succ halength
      apply covers_iff.mpr
      exact .inr ⟨hawild, by omega, hstems.trans hbprefix⟩

theorem covers_antisymm (hab : a.covers b = true) (hba : b.covers a = true) : a = b := by
  rcases covers_iff.mp hab with heq | ⟨hawild, halength, haprefix⟩
  · exact heq
  · rcases covers_iff.mp hba with heq | ⟨hbwild, hblength, -⟩
    · exact heq.symm
    · rw [length_parts hbwild] at halength
      rw [length_parts hawild] at hblength
      have hstems : a.stem <+: b.stem :=
        List.prefix_of_prefix_length_le haprefix (List.dropLast_prefix b.parts) (by omega)
      have hstem : a.stem = b.stem := hstems.eq_of_length (by omega)
      apply eq_of_parts
      rw [isWildcard_iff.mp hawild, isWildcard_iff.mp hbwild, hstem]

/-- What an identifier means: the identifiers without a star that it covers. -/
def meaning (n : Node) : Set Node := {m | m.isWildcard = false ∧ n.covers m = true}

theorem exists_below (n : Node) {letter : Char} (hdot : letter ≠ '.') (hstar : letter ≠ '*')
    (hblank : Text.isBlank letter = false) :
    ∃ m : Node, m.isWildcard = false ∧ m.parts = n.stem ++ [[letter]] := by
  obtain ⟨hsolid, hlast, hstars⟩ := fault?_eq_none_iff.mp n.valid
  have hstem (part : List Char) (h : part ∈ n.stem) : part ∈ segments n.value :=
    List.mem_of_mem_dropLast h
  have hparts : ∀ part ∈ n.stem ++ [[letter]], part ∈ n.stem ∨ part = [letter] := by simp
  let value := String.ofList (['.'].intercalate (n.stem ++ [[letter]]))
  have hsegments : segments value = n.stem ++ [[letter]] := by
    rw [segments, String.toList_ofList]
    apply Text.splitChars_intercalate (by simp)
    intro part hpart
    rcases hparts part hpart with hpart | rfl
    · exact Text.not_mem_of_mem_splitChars (hstem part hpart)
    · simpa using Ne.symm hdot
  have hvalid : fault? value = none := by
    rw [fault?_eq_none_iff, hsegments, List.dropLast_concat]
    refine ⟨fun part hpart => ?_, hlast, fun part hpart hmem => ?_⟩
    · rcases hparts part hpart with hpart | rfl
      · exact hsolid part (hstem part hpart)
      · simpa using hblank
    · rcases hparts part hpart with hpart | rfl
      · exact hstars part (hstem part hpart) hmem
      · exact absurd (List.mem_singleton.mp hmem).symm hstar
  refine ⟨⟨value, hvalid⟩, ?_, hsegments⟩
  have hend : (segments value).getLast? = some [letter] := by rw [hsegments, List.getLast?_concat]
  simp [isWildcard, parts, hend, hstar]

theorem covers_below {m : Node} {letter : Char} (hwild : n.isWildcard = true)
    (hparts : m.parts = n.stem ++ [[letter]]) : n.covers m = true := by
  rw [covers_iff, hparts]
  exact .inr ⟨hwild, by simp, List.prefix_append _ _⟩

theorem covers_of_meaning_subset (h : b.meaning ⊆ a.meaning) : a.covers b = true := by
  cases hb : b.isWildcard with
  | false => exact (h ⟨hb, covers_self b⟩).2
  | true =>
    -- Two letters, because one identifier without a star may be what `a` itself is.
    obtain ⟨x, hx, hxparts⟩ := b.exists_below (show 'x' ≠ '.' by decide) (by decide) (by decide)
    obtain ⟨y, hy, hyparts⟩ := b.exists_below (show 'y' ≠ '.' by decide) (by decide) (by decide)
    have hax : a.covers x = true := (h ⟨hx, covers_below hb hxparts⟩).2
    have hay : a.covers y = true := (h ⟨hy, covers_below hb hyparts⟩).2
    have hne : x ≠ y := by
      intro heq
      rw [heq, hyparts] at hxparts
      simp at hxparts
    rcases covers_iff.mp hax with rfl | ⟨hwild, hlength, hprefix⟩
    · rcases covers_iff.mp hay with heq | ⟨hwild, -, -⟩
      · exact absurd heq hne
      · rw [hx] at hwild
        cases hwild
    · rw [hxparts, List.length_append, List.length_singleton] at hlength
      rw [hxparts] at hprefix
      have hstems : a.stem <+: b.stem :=
        List.prefix_of_prefix_length_le hprefix (List.prefix_append _ _) (by omega)
      have hlength' := length_parts hb
      apply covers_iff.mpr
      exact .inr ⟨hwild, by omega, hstems.trans (List.dropLast_prefix b.parts)⟩

/-- One identifier covers another exactly when it means all that the other one means. So every
identifier covers itself, what is covered by something covered is covered, and no two identifiers
cover each other. -/
theorem covering_is_inclusion :
    (∀ a b : Node, a.covers b = true ↔ b.meaning ⊆ a.meaning) ∧
      (∀ a : Node, a.covers a = true) ∧
      (∀ a b c : Node, a.covers b = true → b.covers c = true → a.covers c = true) ∧
      ∀ a b : Node, a.covers b = true → b.covers a = true → a = b := by
  refine ⟨fun a b => ⟨fun hab m hm => ?_, covers_of_meaning_subset⟩, covers_self,
    fun a b c => covers_trans, fun a b => covers_antisymm⟩
  obtain ⟨hplain, hbm⟩ := hm
  exact ⟨hplain, covers_trans hab hbm⟩

/-- Everything below `admin.user` is below `admin` and meant by the star, but `admin` itself is not
below `admin`. -/
theorem stars_of_three_depths :
    let star : Node := ⟨"*", by decide⟩
    let admin : Node := ⟨"admin", by decide⟩
    let group : Node := ⟨"admin.*", by decide⟩
    let users : Node := ⟨"admin.user.*", by decide⟩
    star.covers users = true ∧ users.meaning ⊆ group.meaning ∧ ¬ group.meaning ⊆ users.meaning ∧
      ¬ admin.meaning ⊆ group.meaning ∧ ∀ n : Node, n.covers star = true → n = star := by
  intro star admin group users
  obtain ⟨hinclusion, -, htrans, hantisymm⟩ := covering_is_inclusion
  have hstar : star.covers group = true := by decide
  have hgroup : group.covers users = true := by decide
  refine ⟨htrans star group users hstar hgroup, (hinclusion group users).mp hgroup, ?_, ?_,
    fun n hn => hantisymm n star hn ?_⟩
  · rw [← hinclusion]
    decide
  · rw [← hinclusion]
    decide
  · have hstem : star.stem = [] := by decide
    rw [covers_iff, hstem]
    exact .inr ⟨by decide, List.length_pos_iff.mpr n.parts_ne_nil, List.nil_prefix⟩

end Node

end Guildhall.Permission
