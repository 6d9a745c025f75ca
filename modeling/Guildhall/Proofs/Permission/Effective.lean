import Guildhall.Proofs.Permission.Coverage
import Guildhall.Proofs.Permission.Grants
import Mathlib.Data.List.Nodup

/-!
# The listing of what is in effect

Grants that a revocation covers are left out of the listing. They would not have allowed anything:
whatever they cover is covered by the same revocation.
-/

namespace Guildhall.Permission

theorem increasing_sortTexts {texts : List String} (h : texts.Nodup) :
    (sortTexts texts).Pairwise (· < ·) := by
  have hnodup : (sortTexts texts).Nodup := (List.mergeSort_perm texts _).nodup_iff.mpr h
  apply (pairwise_mergeSort_key id texts).imp₂ _ hnodup
  intro a b hle hne
  apply String.not_le.mp
  intro hge
  exact hne (String.le_antisymm hle hge)

namespace Grants

variable {g : Grants} {n : Node}

def unrevoked (g : Grants) (n : Node) : Bool := !g.revoked.any (·.covers n)

/-- The grants that no revocation covers, in the order of their texts. -/
def remaining (g : Grants) : List Node :=
  (g.granted.filter g.unrevoked).mergeSort fun a b => decide (a.value ≤ b.value)

theorem unrevoked_iff : g.unrevoked n = true ↔ ¬ ∃ r ∈ g.revoked, r.covers n := by
  simp [unrevoked]

theorem mem_remaining : n ∈ g.remaining ↔ n ∈ g.granted ∧ g.unrevoked n = true := by
  rw [remaining, (List.mergeSort_perm _ _).mem_iff, List.mem_filter]

theorem effective_eq (g : Grants) : g.effective = g.remaining.map (·.value) := by
  rw [remaining, List.map_mergeSort (s := fun a b => decide (a ≤ b)) fun _ _ _ _ => rfl]
  rfl

theorem increasing_effective (hset : g.granted.Nodup) : g.effective.Pairwise (· < ·) := by
  apply increasing_sortTexts
  have hvalues : (g.granted.map (·.value)).Nodup :=
    List.Nodup.map (fun _ _ heq => Node.eq_of_value heq) hset
  exact hvalues.sublist (List.filter_sublist.map _)

theorem has_of_granted (h : n ∈ g.granted) : g.has n = g.unrevoked n := by
  rw [Bool.eq_iff_iff, has_iff, unrevoked_iff]
  exact and_iff_right ⟨n, h, n.covers_self⟩

theorem unrevoked_of_covers {held : Node} (hcovers : held.covers n = true)
    (hn : g.unrevoked n = true) : g.unrevoked held = true := by
  rw [unrevoked_iff] at hn ⊢
  rintro ⟨r, hr, hrheld⟩
  exact hn ⟨r, hr, Node.covers_trans hrheld hcovers⟩

theorem has_remaining (g : Grants) (n : Node) :
    Grants.has ⟨g.remaining, g.revoked⟩ n = g.has n := by
  rw [Bool.eq_iff_iff, has_iff, has_iff]
  constructor
  · rintro ⟨⟨held, hheld, hcovers⟩, hfree⟩
    exact ⟨⟨held, (mem_remaining.mp hheld).1, hcovers⟩, hfree⟩
  · rintro ⟨⟨held, hheld, hcovers⟩, hfree⟩
    have hremains : g.unrevoked held = true := unrevoked_of_covers hcovers (unrevoked_iff.mpr hfree)
    exact ⟨⟨held, mem_remaining.mpr ⟨hheld, hremains⟩, hcovers⟩, hfree⟩

/-- The listing of a set of grants names the granted identifiers that are held, each once, in the
order of their texts. Somebody who is granted only what it names, with the same revocations, holds
the same identifiers, whether these are asked for as such or by texts. -/
theorem effective_loses_nothing (g : Grants) (hset : g.granted.Nodup) :
    (∀ text, text ∈ g.effective ↔ ∃ n ∈ g.granted, g.has n = true ∧ n.value = text) ∧
      g.effective.Pairwise (· < ·) ∧
      ∃ listed : List Node, listed.map (·.value) = g.effective ∧
        (∀ n : Node, Grants.has ⟨listed, g.revoked⟩ n = g.has n) ∧
        ∀ text : String, Grants.hasText ⟨listed, g.revoked⟩ text = g.hasText text := by
  refine ⟨fun text => ?_, increasing_effective hset, g.remaining, g.effective_eq.symm,
    g.has_remaining, fun text => ?_⟩
  · rw [effective_eq, List.mem_map]
    constructor
    · rintro ⟨n, hn, hvalue⟩
      obtain ⟨hgranted, hremains⟩ := mem_remaining.mp hn
      exact ⟨n, hgranted, (has_of_granted hgranted).trans hremains, hvalue⟩
    · rintro ⟨n, hgranted, hheld, hvalue⟩
      rw [has_of_granted hgranted] at hheld
      exact ⟨n, mem_remaining.mpr ⟨hgranted, hheld⟩, hvalue⟩
  · have hsame : Grants.has ⟨g.remaining, g.revoked⟩ = g.has := funext g.has_remaining
    rw [hasText, hasText, hsame]

/-- A moderator from whom kicking has been taken away: the grant of kicking is no longer listed, and
what remains allows the same. -/
theorem listing_without_kicks :
    let kick : Node := ⟨"mod.kick", by decide⟩
    let ban : Node := ⟨"mod.ban", by decide⟩
    let mods : Node := ⟨"mod.*", by decide⟩
    let g : Grants := ⟨[kick, mods], [kick]⟩
    g.granted.Nodup ∧ "mod.*" ∈ g.effective ∧ "mod.kick" ∉ g.effective ∧
      ∃ listed : List Node, listed.map (·.value) = g.effective ∧
        Grants.has ⟨listed, g.revoked⟩ ban = true ∧
        Grants.has ⟨listed, g.revoked⟩ kick = false := by
  intro kick ban mods g
  have hset : g.granted.Nodup := by decide
  obtain ⟨hmem, -, listed, hlisted, hsame, -⟩ := effective_loses_nothing g hset
  refine ⟨hset, (hmem _).mpr ⟨mods, by decide, by decide, rfl⟩, ?_, listed, hlisted, ?_, ?_⟩
  · rw [hmem]
    decide
  · rw [hsame]
    decide
  · rw [hsame]
    decide

end Grants

end Guildhall.Permission
