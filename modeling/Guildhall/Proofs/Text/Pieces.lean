import Guildhall.Text.Blank
import Mathlib.Data.List.Basic
import Mathlib.Tactic.Common

/-!
# Pieces of texts

A text is its pieces between separators, put together again, and pieces without separators are
found again in the text that they make. Words are found again whatever separators stand between
them.
-/

namespace Guildhall.Text

theorem splitChars_ne_nil (sep : Char) (cs : List Char) : splitChars sep cs ≠ [] := by
  cases cs with
  | nil => simp [splitChars]
  | cons c rest =>
    unfold splitChars
    split
    · simp
    · split <;> simp

theorem intercalate_splitChars (sep : Char) (cs : List Char) :
    [sep].intercalate (splitChars sep cs) = cs := by
  induction cs with
  | nil => simp [splitChars]
  | cons c rest ih =>
    obtain ⟨piece, pieces, hsplit⟩ := List.exists_cons_of_ne_nil (splitChars_ne_nil sep rest)
    rw [hsplit] at ih
    unfold splitChars
    split
    case isTrue heq => rw [hsplit, List.intercalate_cons_cons, ih, heq]; rfl
    case isFalse =>
      -- `c` joins the first piece, which may be the only one.
      rw [hsplit]
      dsimp only
      cases pieces with
      | nil =>
        rw [List.intercalate_singleton] at ih ⊢
        rw [ih]
      | cons next more =>
        rw [List.intercalate_cons_cons] at ih ⊢
        rw [List.cons_append, List.cons_append, ih]

theorem not_mem_of_mem_splitChars {sep : Char} {cs piece : List Char}
    (h : piece ∈ splitChars sep cs) : sep ∉ piece := by
  induction cs generalizing piece with
  | nil =>
    simp only [splitChars, List.mem_singleton] at h
    simp [h]
  | cons c rest ih =>
    unfold splitChars at h
    split at h
    case isTrue =>
      rcases List.mem_cons.mp h with rfl | h
      · simp
      · exact ih h
    case isFalse hne =>
      split at h
      case h_1 =>
        simp only [List.mem_singleton] at h
        simp [h, Ne.symm hne]
      case h_2 first others hsplit =>
        rcases List.mem_cons.mp h with rfl | h
        · have hfirst := ih (hsplit ▸ List.mem_cons_self)
          simp [Ne.symm hne, hfirst]
        · exact ih (hsplit ▸ List.mem_cons_of_mem first h)

theorem mem_splitChars (sep : Char) {c : Char} {cs : List Char} (h : c ∈ cs) :
    c = sep ∨ ∃ piece ∈ splitChars sep cs, c ∈ piece := by
  induction cs with
  | nil => simp at h
  | cons d rest ih =>
    unfold splitChars
    rcases List.mem_cons.mp h with rfl | hrest
    · split
      · exact .inl ‹_›
      · split
        · exact .inr ⟨_, List.mem_cons_self, List.mem_cons_self⟩
        · exact .inr ⟨_, List.mem_cons_self, List.mem_cons_self⟩
    · rcases ih hrest with rfl | ⟨piece, hpiece, hc⟩
      · exact .inl rfl
      · right
        split
        · exact ⟨piece, List.mem_cons_of_mem _ hpiece, hc⟩
        · split
          case h_1 hnil => simp [hnil] at hpiece
          case h_2 first others hsplit =>
            rw [hsplit] at hpiece
            rcases List.mem_cons.mp hpiece with rfl | hpiece
            · exact ⟨_, List.mem_cons_self, List.mem_cons_of_mem _ hc⟩
            · exact ⟨piece, List.mem_cons_of_mem _ hpiece, hc⟩

theorem splitChars_of_notMem {sep : Char} {cs : List Char} (h : sep ∉ cs) :
    splitChars sep cs = [cs] := by
  induction cs with
  | nil => rfl
  | cons c rest ih =>
    rw [List.mem_cons, not_or] at h
    rw [splitChars, if_neg (Ne.symm h.1), ih h.2]

theorem splitChars_append {sep : Char} {cs : List Char} (h : sep ∉ cs) (rest : List Char) :
    splitChars sep (cs ++ sep :: rest) = cs :: splitChars sep rest := by
  induction cs with
  | nil => rw [List.nil_append, splitChars, if_pos rfl]
  | cons c cs ih =>
    rw [List.mem_cons, not_or] at h
    rw [List.cons_append, splitChars, if_neg (Ne.symm h.1), ih h.2]

theorem splitChars_intercalate {sep : Char} {pieces : List (List Char)} (hsome : pieces ≠ [])
    (h : ∀ piece ∈ pieces, sep ∉ piece) : splitChars sep ([sep].intercalate pieces) = pieces := by
  induction pieces with
  | nil => exact absurd rfl hsome
  | cons piece rest ih =>
    have hpiece := h piece List.mem_cons_self
    cases rest with
    | nil => rw [List.intercalate_singleton, splitChars_of_notMem hpiece]
    | cons next more =>
      rw [List.intercalate_cons_cons, List.append_assoc, List.singleton_append,
        splitChars_append hpiece]
      rw [ih (by simp) fun other hother => h other (List.mem_cons_of_mem piece hother)]

section Words

variable {p : Char → Bool} {cs run : List Char}

theorem fieldsFrom_append (h : ∀ c ∈ cs, p c = false) (word rest : List Char) :
    fieldsFrom p word (cs ++ rest) = fieldsFrom p (cs.reverse ++ word) rest := by
  induction cs generalizing word with
  | nil => rfl
  | cons c cs ih =>
    have hc := h c List.mem_cons_self
    rw [List.cons_append, fieldsFrom, if_neg (by simp [hc]),
      ih fun d hd => h d (List.mem_cons_of_mem c hd)]
    simp

theorem fieldsFrom_skip (h : ∀ c ∈ run, p c = true) (rest : List Char) :
    fieldsFrom p [] (run ++ rest) = fieldsFrom p [] rest := by
  induction run with
  | nil => rfl
  | cons c run ih =>
    rw [List.cons_append, fieldsFrom, if_pos (h c List.mem_cons_self), List.isEmpty_nil, if_pos rfl,
      ih fun d hd => h d (List.mem_cons_of_mem c hd)]

/-- Separators end a word, whichever they are and however many. -/
theorem fieldsFrom_gap (hsome : run ≠ []) (h : ∀ c ∈ run, p c = true) (word rest : List Char) :
    fieldsFrom p word (run ++ rest) =
      if word.isEmpty then fieldsFrom p [] rest else word.reverse :: fieldsFrom p [] rest := by
  obtain ⟨c, more, rfl⟩ := List.exists_cons_of_ne_nil hsome
  have hmore := fieldsFrom_skip (fun d hd => h d (List.mem_cons_of_mem c hd)) rest
  rw [List.cons_append, fieldsFrom, if_pos (h c List.mem_cons_self), hmore]

theorem fieldsFrom_intercalate {words : List (List Char)} {sep : Char} (hsep : p sep = true)
    (hwords : ∀ word ∈ words, word ≠ [] ∧ ∀ c ∈ word, p c = false) :
    fieldsFrom p [] ([sep].intercalate words) = words := by
  induction words with
  | nil => rfl
  | cons word rest ih =>
    obtain ⟨hsome, hplain⟩ := hwords word List.mem_cons_self
    have hempty : word.reverse.isEmpty = false := by simpa using hsome
    cases rest with
    | nil =>
      have hword := fieldsFrom_append hplain [] []
      rw [List.append_nil, List.append_nil] at hword
      rw [List.intercalate_singleton, hword, fieldsFrom, hempty, List.reverse_reverse]
      rfl
    | cons next more =>
      rw [List.intercalate_cons_cons, List.append_assoc, fieldsFrom_append hplain,
        List.append_nil, fieldsFrom_gap (by simp) (by simpa using hsep), hempty,
        List.reverse_reverse,
        ih fun other hother => hwords other (List.mem_cons_of_mem word hother)]
      rfl

/-- Words without separators are found again in the text in which one separator stands between
them. -/
theorem fields_intercalate {words : List String} {sep : Char} (hsep : p sep = true)
    (hwords : ∀ word ∈ words, word ≠ "" ∧ ∀ c ∈ word.toList, p c = false) :
    fields p ((String.singleton sep).intercalate words) = words := by
  have hlists : ∀ word ∈ words.map String.toList, word ≠ [] ∧ ∀ c ∈ word, p c = false := by
    intro word hword
    obtain ⟨text, htext, rfl⟩ := List.mem_map.mp hword
    obtain ⟨hsome, hplain⟩ := hwords text htext
    exact ⟨by simpa using hsome, hplain⟩
  rw [fields, String.toList_intercalate, String.toList_singleton,
    fieldsFrom_intercalate hsep hlists]
  simp

end Words

end Guildhall.Text
