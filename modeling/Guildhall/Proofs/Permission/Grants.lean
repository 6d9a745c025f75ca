import Guildhall.Permission.Grants
import Guildhall.Proofs.Permission.Node

/-!
# What is granted

Which identifiers are held, from the grants of roles and from overrides.
-/

namespace Guildhall.Permission

@[simp] theorem mem_distinct {α : Type} [DecidableEq α] {item : α} {items : List α} :
    item ∈ distinct items ↔ item ∈ items := by
  induction items with
  | nil => simp [distinct]
  | cons first rest ih =>
    by_cases h : item = first <;> simp [distinct, h, ih]

theorem pairwise_mergeSort_key {α : Type} (key : α → String) (items : List α) :
    (items.mergeSort fun a b => decide (key a ≤ key b)).Pairwise fun a b => key a ≤ key b := by
  have htrans (a b c : α) (hab : decide (key a ≤ key b) = true)
      (hbc : decide (key b ≤ key c) = true) : decide (key a ≤ key c) = true :=
    decide_eq_true (String.le_trans (of_decide_eq_true hab) (of_decide_eq_true hbc))
  have htotal (a b : α) : (decide (key a ≤ key b) || decide (key b ≤ key a)) = true := by
    simpa only [Bool.or_eq_true, decide_eq_true_eq] using String.le_total (key a) (key b)
  exact (List.pairwise_mergeSort htrans htotal items).imp of_decide_eq_true

@[simp] theorem mem_sortTexts {text : String} {texts : List String} :
    text ∈ sortTexts texts ↔ text ∈ texts :=
  (List.mergeSort_perm texts _).mem_iff

namespace Grants

variable {g : Grants} {n : Node}

theorem has_iff :
    g.has n = true ↔
      (∃ held ∈ g.granted, held.covers n) ∧ ¬ ∃ held ∈ g.revoked, held.covers n := by
  simp only [has, Bool.and_eq_true, Bool.not_eq_true', List.any_eq_true, List.any_eq_false]
  constructor
  · rintro ⟨hr, hg⟩
    exact ⟨hg, fun ⟨held, hmem, hc⟩ => hr held hmem hc⟩
  · rintro ⟨hg, hr⟩
    exact ⟨fun held hmem hc => hr ⟨held, hmem, hc⟩, hg⟩

theorem mem_granted_build {roleGrants : List Node} {overrides : List Override} :
    n ∈ (build roleGrants overrides).granted ↔
      n ∈ roleGrants ∨ ∃ o ∈ overrides, o.allow = true ∧ o.node = n := by
  simp [build, and_assoc]

theorem mem_revoked_build {roleGrants : List Node} {overrides : List Override} :
    n ∈ (build roleGrants overrides).revoked ↔
      ∃ o ∈ overrides, o.allow = false ∧ o.node = n := by
  simp [build, and_assoc]

/-- An identifier is held when a role grant or an allowing override covers it and no denying
override does. -/
theorem build_has_iff {roleGrants : List Node} {overrides : List Override} :
    (build roleGrants overrides).has n = true ↔
      ((∃ held ∈ roleGrants, held.covers n) ∨
        ∃ o ∈ overrides, o.allow = true ∧ o.node.covers n) ∧
      ¬ ∃ o ∈ overrides, o.allow = false ∧ o.node.covers n := by
  simp only [has_iff, mem_granted_build, mem_revoked_build]
  refine and_congr ⟨?_, ?_⟩ (not_congr ⟨?_, ?_⟩)
  · rintro ⟨held, hmem | ⟨o, ho, hallow, rfl⟩, hc⟩
    · exact .inl ⟨held, hmem, hc⟩
    · exact .inr ⟨o, ho, hallow, hc⟩
  · rintro (⟨held, hmem, hc⟩ | ⟨o, ho, hallow, hc⟩)
    · exact ⟨held, .inl hmem, hc⟩
    · exact ⟨o.node, .inr ⟨o, ho, hallow, rfl⟩, hc⟩
  · rintro ⟨held, ⟨o, ho, hdeny, rfl⟩, hc⟩
    exact ⟨o, ho, hdeny, hc⟩
  · rintro ⟨o, ho, hdeny, hc⟩
    exact ⟨o.node, ⟨o, ho, hdeny, rfl⟩, hc⟩

theorem hasText_value (g : Grants) (hn : n.Canonical) : g.hasText n.value = .ok (g.has n) := by
  rw [hasText, hn]
  rfl

/-- Of the written forms of canonical identifiers, the first missing one is that of the first
identifier that is not held. -/
theorem firstMissing_values (g : Grants) {nodes : List Node} (h : ∀ n ∈ nodes, n.Canonical) :
    g.firstMissing (nodes.map (·.value)) =
      .ok ((nodes.find? fun n => !g.has n).map (·.value)) := by
  induction nodes with
  | nil => rfl
  | cons n rest ih =>
    have hrest := ih fun m hm => h m (List.mem_cons_of_mem _ hm)
    rw [List.map_cons, firstMissing, g.hasText_value (h n List.mem_cons_self)]
    cases hn : g.has n with
    | true => simpa [bind, Except.bind, List.find?_cons, hn] using hrest
    | false => simp [bind, Except.bind, pure, Except.pure, hn]

end Grants

end Guildhall.Permission
