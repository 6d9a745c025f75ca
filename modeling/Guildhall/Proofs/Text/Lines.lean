import Guildhall.Text.Blank
import Guildhall.Text.Lines
import Mathlib.Tactic.Common

/-!
# Lines of texts

A text is read line by line, no line has a line end in it, and lines that were written are read
again. What trimming and cutting leave of a text is part of it.
-/

namespace Guildhall.Text

theorem isBlank_of_isLineEnd {c : Char} (h : isLineEnd c = true) : isBlank c = true := by
  simp only [isLineEnd, isBlank, Bool.or_eq_true, Bool.and_eq_true, decide_eq_true_eq,
    beq_iff_eq] at h ⊢
  omega

def OneLine (cs : List Char) : Prop := ∀ c ∈ cs, isLineEnd c = false

instance (cs : List Char) : Decidable (OneLine cs) :=
  List.decidableBAll (fun c => isLineEnd c = false) cs

theorem linesFrom_append {line : List Char} (h : OneLine line) (before rest : List Char) :
    linesFrom before (line ++ '\n' :: rest) = (before.reverse ++ line) :: lines rest := by
  induction line generalizing before with
  | nil => simp [linesFrom, lines, isLineEnd]
  | cons c line ih =>
    have hc : isLineEnd c = false := h c List.mem_cons_self
    rw [List.cons_append]
    unfold linesFrom
    split
    case h_1 heq => cases heq
    case h_2 heq =>
      -- A carriage return would end the line.
      rw [(List.cons.inj heq).1] at hc
      exact absurd hc (by decide)
    case h_3 heq =>
      obtain ⟨rfl, rfl⟩ := List.cons.inj heq
      rw [hc, if_neg Bool.false_ne_true, ih fun d hd => h d (List.mem_cons_of_mem _ hd)]
      simp

theorem lines_append {line : List Char} (h : OneLine line) (rest : List Char) :
    lines (line ++ '\n' :: rest) = line :: lines rest :=
  linesFrom_append h [] rest

theorem lines_flatMap {lines' : List (List Char)} (h : ∀ line ∈ lines', OneLine line) :
    lines (lines'.flatMap fun line => line ++ ['\n']) = lines' := by
  induction lines' with
  | nil => rfl
  | cons line rest ih =>
    rw [List.flatMap_cons, List.append_assoc, List.singleton_append,
      lines_append (h line List.mem_cons_self), ih fun l hl => h l (List.mem_cons_of_mem _ hl)]

theorem oneLine_of_mem_linesFrom {before cs : List Char} (hbefore : OneLine before) :
    ∀ line ∈ linesFrom before cs, OneLine line := by
  have hnil : OneLine [] := fun c hc => by cases hc
  have hreverse {cs : List Char} (h : OneLine cs) : OneLine cs.reverse :=
    fun c hc => h c (List.mem_reverse.mp hc)
  fun_induction linesFrom before cs with
  | case1 => simp
  | case2 before _ => simpa using hreverse hbefore
  | case3 before rest ih =>
    rw [List.forall_mem_cons]
    exact ⟨hreverse hbefore, ih hnil⟩
  | case4 before c rest _ hend ih =>
    rw [List.forall_mem_cons]
    exact ⟨hreverse hbefore, ih hnil⟩
  | case5 before c rest _ hend ih =>
    refine ih fun d hd => ?_
    rcases List.mem_cons.mp hd with rfl | hd
    · simpa using hend
    · exact hbefore d hd

theorem oneLine_of_mem_lines {cs line : List Char} (h : line ∈ lines cs) : OneLine line :=
  oneLine_of_mem_linesFrom (fun _ hc => by cases hc) line h

theorem dropWhileEnd_subset (p : Char → Bool) (cs : List Char) : dropWhileEnd p cs ⊆ cs := by
  induction cs with
  | nil => exact fun _ hc => hc
  | cons d rest ih =>
    unfold dropWhileEnd
    split
    · split <;> simp
    · exact List.cons_subset_cons d ih

theorem trimChars_subset (p : Char → Bool) (cs : List Char) : trimChars p cs ⊆ cs :=
  fun _ hc => (List.dropWhile_sublist p).subset (dropWhileEnd_subset p _ hc)

theorem cut_append {sep : Char} {before : List Char} (h : sep ∉ before) (rest : List Char) :
    cut sep (before ++ rest) = (cut sep rest).map fun (first, after) => (before ++ first, after) := by
  induction before with
  | nil => simp
  | cons c before ih =>
    rw [List.mem_cons, not_or] at h
    rw [List.cons_append, cut, if_neg (Ne.symm h.1), ih h.2, Option.map_map]
    rfl

theorem cut_subset {sep : Char} {cs before after : List Char}
    (h : cut sep cs = some (before, after)) : after ⊆ cs := by
  induction cs generalizing before with
  | nil => cases h
  | cons c rest ih =>
    unfold cut at h
    split at h
    · cases h
      exact List.subset_cons_self c _
    · obtain ⟨⟨first, last⟩, hrest, heq⟩ := Option.map_eq_some_iff.mp h
      cases heq
      exact List.Subset.trans (ih hrest) (List.subset_cons_self c rest)

end Guildhall.Text
