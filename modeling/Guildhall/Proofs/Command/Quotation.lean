import Guildhall.Proofs.Command.Token

/-!
# Messages one after another

A message has tokens unless it ends inside a quotation. A separator behind it ends its last token,
so that what follows is split as if it stood alone.
-/

namespace Guildhall.Command

/-- The quotation that is open after one more character. A mark opens one, and only the same mark
closes it. -/
def quotationAfter (inside : Option Char) (c : Char) : Option Char :=
  match inside with
  | some mark => if c = mark then none else some mark
  | none => if isQuote c then some c else none

def openQuotation (text : List Char) : Option Char := text.foldl quotationAfter none

def resumed (tokens : List (List Char)) (word : Option (List Char)) (inside : Option Char)
    (rest : List Char) : Except Unclosed (List (List Char)) :=
  (scan word inside rest).map (tokens ++ ·)

theorem resumed_nil (word : Option (List Char)) (inside : Option Char) (rest : List Char) :
    resumed [] word inside rest = scan word inside rest := by
  unfold resumed
  cases scan word inside rest <;> rfl

theorem map_resumed (before tokens : List (List Char)) (word : Option (List Char))
    (inside : Option Char) (rest : List Char) :
    (resumed tokens word inside rest).map (before ++ ·) =
      resumed (before ++ tokens) word inside rest := by
  unfold resumed
  cases scan word inside rest with
  | error e => rfl
  | ok more => simp [Except.map]

theorem scan_separator {c : Char} (hc : isSeparator c = true) (word : Option (List Char))
    (rest : List Char) :
    scan word none (c :: rest) = resumed (word.toList.map List.reverse) none none rest := by
  rw [scan.eq_def]
  simp only [hc, if_true]
  cases word with
  | none => exact (resumed_nil none none rest).symm
  | some w => rfl

/-- What one character does to the token and the quotation that are being read does not depend on
what follows. -/
theorem scan_cons (word : Option (List Char)) (inside : Option Char) (c : Char) :
    ∃ tokens next, ∀ rest,
      scan word inside (c :: rest) = resumed tokens next (quotationAfter inside c) rest := by
  cases inside with
  | some mark =>
    by_cases hmark : c = mark
    · refine ⟨[], word, fun rest => ?_⟩
      rw [resumed_nil, scan, quotationAfter, if_pos hmark, if_pos hmark]
    · refine ⟨[], some (c :: word.getD []), fun rest => ?_⟩
      rw [resumed_nil, scan, quotationAfter, if_neg hmark, if_neg hmark]
  | none =>
    by_cases hquote : isQuote c = true
    · refine ⟨[], some (word.getD []), fun rest => ?_⟩
      rw [resumed_nil, scan.eq_def, quotationAfter, if_pos hquote]
      simp [quote_not_separator hquote, hquote]
    · by_cases hseparator : isSeparator c = true
      · refine ⟨word.toList.map List.reverse, none, fun rest => ?_⟩
        rw [scan_separator hseparator, quotationAfter, if_neg hquote]
      · refine ⟨[], some (c :: word.getD []), fun rest => ?_⟩
        rw [resumed_nil, scan.eq_def, quotationAfter, if_neg hquote]
        simp [hseparator, hquote]

/-- A text leaves behind tokens, a token that is being read, and the quotation that is open at its
end, whatever follows. -/
theorem scan_append (text : List Char) (word : Option (List Char)) (inside : Option Char) :
    ∃ tokens next, ∀ rest, scan word inside (text ++ rest) =
      resumed tokens next (text.foldl quotationAfter inside) rest := by
  induction text generalizing word inside with
  | nil => exact ⟨[], word, fun rest => (resumed_nil word inside rest).symm⟩
  | cons c text ih =>
    obtain ⟨first, between, hfirst⟩ := scan_cons word inside c
    obtain ⟨more, next, hmore⟩ := ih between (quotationAfter inside c)
    refine ⟨first ++ more, next, fun rest => ?_⟩
    rw [List.cons_append, hfirst, resumed, hmore, map_resumed, List.foldl_cons]

/-- A text is split unless it ends inside a quotation. -/
theorem scan_eq_ok_iff {text : List Char} :
    (∃ tokens, scan none none text = .ok tokens) ↔ openQuotation text = none := by
  obtain ⟨tokens, next, htext⟩ := scan_append text none none
  have hend := htext []
  rw [List.append_nil] at hend
  rw [hend, openQuotation]
  cases text.foldl quotationAfter none with
  | none => simp [resumed, scan, Except.map]
  | some mark => simp [resumed, scan, Except.map]

theorem scan_append_separator {text : List Char} {tokens : List (List Char)}
    (h : scan none none text = .ok tokens) {c : Char} (hc : isSeparator c = true)
    (rest : List Char) : scan none none (text ++ c :: rest) = resumed tokens none none rest := by
  have hclosed : text.foldl quotationAfter none = none := scan_eq_ok_iff.mp ⟨tokens, h⟩
  obtain ⟨before, next, htext⟩ := scan_append text none none
  rw [hclosed] at htext
  have hend := htext []
  rw [List.append_nil, h, resumed, scan] at hend
  cases hend
  rw [htext, resumed, scan_separator hc, map_resumed]

theorem tokenize_eq_ok {message : String} {tokens : List String} :
    tokenize message = .ok tokens ↔
      ∃ words, scan none none message.toList = .ok words ∧ tokens = words.map String.ofList := by
  unfold tokenize
  cases scan none none message.toList <;> simp [Except.map, eq_comm]

theorem tokenize_eq_error {message : String} {e : Unclosed} :
    tokenize message = .error e ↔ scan none none message.toList = .error e := by
  unfold tokenize
  cases scan none none message.toList <;> simp [Except.map]

/-- A message, a separator and another message are split into the tokens of the first and those of
the second, and into none, with the same complaint, if the second has none. A message has no tokens
exactly when it ends inside a quotation. -/
theorem split_at_separators :
    (∀ (first second : String) (tokens : List String) (c : Char), tokenize first = .ok tokens →
      c ∈ [' ', '\t', '\r', '\n'] →
        (∀ more, tokenize second = .ok more →
          tokenize (first ++ String.singleton c ++ second) = .ok (tokens ++ more)) ∧
        ∀ e, tokenize second = .error e →
          tokenize (first ++ String.singleton c ++ second) = .error e) ∧
      ∀ message : String, (∃ e, tokenize message = .error e) ↔
        ∃ mark, openQuotation message.toList = some mark := by
  constructor
  · intro first second tokens c hfirst hc
    obtain ⟨words, hwords, rfl⟩ := tokenize_eq_ok.mp hfirst
    have hseparator : isSeparator c = true := by simpa [isSeparator, or_assoc] using hc
    have hscan : scan none none (first ++ String.singleton c ++ second).toList =
        resumed words none none second.toList := by
      rw [← scan_append_separator hwords hseparator]
      simp
    constructor
    · intro more hsecond
      obtain ⟨others, hothers, rfl⟩ := tokenize_eq_ok.mp hsecond
      rw [resumed, hothers] at hscan
      exact tokenize_eq_ok.mpr ⟨_, hscan, List.map_append.symm⟩
    · intro e hsecond
      rw [resumed, tokenize_eq_error.mp hsecond] at hscan
      exact tokenize_eq_error.mpr hscan
  · intro message
    rw [← Option.ne_none_iff_exists', Ne, ← scan_eq_ok_iff]
    simp only [tokenize_eq_error]
    cases scan none none message.toList with
    | ok words => simp
    | error e => exact iff_of_true ⟨e, rfl⟩ (by simp)

/-- An empty quotation stands before the line end; what follows begins with a quotation, or with a
word that opens one. -/
theorem split_after_an_empty_token :
    tokenize "say \"\"\n'it is'!" = .ok ["say", "", "it is!"] ∧
      tokenize "say \"\"\ndon't" = .error {} := by
  have hfirst : tokenize "say \"\"" = .ok ["say", ""] := by decide +kernel
  have hsecond : tokenize "'it is'!" = .ok ["it is!"] := by decide +kernel
  have hother : tokenize "don't" = .error {} := by decide +kernel
  exact ⟨(split_at_separators.1 _ _ _ '\n' hfirst (by decide)).1 _ hsecond,
    (split_at_separators.1 _ _ _ '\n' hfirst (by decide)).2 _ hother⟩

end Guildhall.Command
