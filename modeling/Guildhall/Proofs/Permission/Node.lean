import Guildhall.Permission.Node
import Guildhall.Proofs.Base
import Guildhall.Proofs.Text.Case
import Guildhall.Proofs.Text.Pieces

/-!
# Canonical identifiers

The identifier that a text names is named by its own written form as well, so identifiers may be
stored and read again as texts.
-/

namespace Guildhall

namespace Text

theorem dropWhileEnd_eq_self {p : Char → Bool} {cs : List Char} (h : ∀ c ∈ cs, p c = false) :
    dropWhileEnd p cs = cs := by
  induction cs with
  | nil => rfl
  | cons c rest ih =>
    have hc := h c List.mem_cons_self
    have hrest := ih fun d hd => h d (List.mem_cons_of_mem _ hd)
    unfold dropWhileEnd
    rw [hrest]
    cases rest with
    | nil => simp [hc]
    | cons d more => rfl

theorem trimChars_eq_self {p : Char → Bool} {cs : List Char} (h : ∀ c ∈ cs, p c = false) :
    trimChars p cs = cs := by
  have hstart : cs.dropWhile p = cs := by
    cases cs with
    | nil => rfl
    | cons c rest => simp [h c List.mem_cons_self]
  rw [trimChars, hstart, dropWhileEnd_eq_self h]

end Text

namespace Permission

theorem Node.not_blank (n : Node) : ∀ c ∈ n.value.toList, Text.isBlank c = false := by
  intro c hc
  have hvalid := n.valid
  unfold fault? at hvalid
  rcases Text.mem_splitChars '.' hc with rfl | ⟨piece, hpiece, hmem⟩
  · decide
  · by_contra hblank
    have hany : (segments n.value).any (fun p => p.isEmpty || p.any Text.isBlank) = true := by
      refine List.any_eq_true.mpr ⟨piece, hpiece, ?_⟩
      rw [Bool.or_eq_true]
      exact .inr (List.any_eq_true.mpr ⟨c, hmem, by simpa using hblank⟩)
    simp [hany] at hvalid

theorem Node.trim_value (n : Node) : Text.trim n.value = n.value := by
  rw [Text.trim, Text.trimChars_eq_self n.not_blank, String.ofList_toList]

theorem Node.eq_of_value {a b : Node} (h : a.value = b.value) : a = b := by
  cases a
  cases b
  cases h
  rfl

theorem Node.ofValue_eq_ok {value : String} {n : Node} :
    Node.ofValue value = .ok n ↔ n.value = value := by
  unfold Node.ofValue
  split
  case h_1 hvalid =>
    rw [Except.ok.injEq]
    exact ⟨fun h => h ▸ rfl, fun h => Node.eq_of_value h.symm⟩
  case h_2 fault hfault =>
    constructor
    · intro h
      cases h
    · intro h
      rw [← h, n.valid] at hfault
      cases hfault

theorem Node.parse_eq_ok {text : String} {n : Node} :
    Node.parse text = .ok n ↔ n.value = Text.lower (Text.trim text) :=
  Node.ofValue_eq_ok

/-- An identifier in canonical form is named by its own written form. -/
def Node.Canonical (n : Node) : Prop := Node.parse n.value = .ok n

/-- Parsing is idempotent: what a text names is in canonical form. -/
theorem Node.canonical_of_parse {text : String} {n : Node} (h : Node.parse text = .ok n) :
    n.Canonical := by
  rw [Node.Canonical, Node.parse_eq_ok, n.trim_value, Node.parse_eq_ok.mp h, Text.lower_lower]

def CanonicalTexts (texts : List String) : Prop :=
  ∃ nodes : List Node, (∀ n ∈ nodes, n.Canonical) ∧ texts = nodes.map (·.value)

theorem mem_of_parseAll {texts : List String} {nodes : List Node}
    (h : parseAll texts = .ok nodes) {n : Node} :
    n ∈ nodes ↔ ∃ text ∈ texts, Node.parse text = .ok n := by
  induction texts generalizing nodes with
  | nil =>
    cases h
    simp
  | cons text rest ih =>
    simp only [parseAll, bind_eq_ok] at h
    obtain ⟨first, hfirst, more, hmore, hnodes⟩ := h
    cases hnodes
    simp [ih hmore, hfirst, eq_comm (a := n)]

theorem parseAll_eq_ok {texts : List String} {nodes : List Node} :
    parseAll texts = .ok nodes ↔ List.Forall₂ (fun text n => Node.parse text = .ok n) texts nodes := by
  induction texts generalizing nodes with
  | nil =>
    constructor
    · intro h
      cases h
      exact .nil
    · intro h
      cases h
      rfl
  | cons text rest ih =>
    simp only [parseAll, bind_eq_ok]
    constructor
    · rintro ⟨n, hn, more, hmore, hnodes⟩
      cases hnodes
      exact .cons hn (ih.mp hmore)
    · intro h
      cases h with
      | cons hn hrest => exact ⟨_, hn, _, ih.mpr hrest, rfl⟩

theorem exists_of_parseAll {texts : List String} {nodes : List Node}
    (h : parseAll texts = .ok nodes) {text : String} (htext : text ∈ texts) :
    ∃ n ∈ nodes, Node.parse text = .ok n := by
  rw [parseAll_eq_ok] at h
  induction h with
  | nil => cases htext
  | cons hfirst hrest ih =>
    rcases List.mem_cons.mp htext with rfl | htext
    · exact ⟨_, List.mem_cons_self, hfirst⟩
    · obtain ⟨n, hn, hparse⟩ := ih htext
      exact ⟨n, List.mem_cons_of_mem _ hn, hparse⟩

theorem exists_parseAll {texts : List String}
    (h : ∀ text ∈ texts, ∃ n, Node.parse text = .ok n) : ∃ nodes, parseAll texts = .ok nodes := by
  induction texts with
  | nil => exact ⟨[], rfl⟩
  | cons text rest ih =>
    obtain ⟨n, hn⟩ := h text List.mem_cons_self
    obtain ⟨nodes, hnodes⟩ := ih fun other ho => h other (List.mem_cons_of_mem _ ho)
    exact ⟨n :: nodes, by simp [parseAll, bind_eq_ok, hn, hnodes, pure, Except.pure]⟩

end Permission

end Guildhall
