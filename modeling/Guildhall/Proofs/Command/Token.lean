import Guildhall.Command.Token
import Guildhall.Proofs.Text.Pieces

/-!
# Written tokens read back

A message joined from tokens is split into just these tokens, whatever characters they hold. It
neither begins nor ends with a blank, so trimming leaves it as it is.
-/

namespace Guildhall

namespace Text

theorem dropWhileEnd_concat {p : Char → Bool} (cs : List Char) {c : Char} (hc : p c = false) :
    dropWhileEnd p (cs ++ [c]) = cs ++ [c] := by
  induction cs with
  | nil => simp [dropWhileEnd, hc]
  | cons d rest ih =>
    rw [List.cons_append, dropWhileEnd, ih]
    cases rest <;> rfl

structure Solid (cs : List Char) : Prop where
  first : ∃ c rest, cs = c :: rest ∧ isBlank c = false
  last : ∃ rest c, cs = rest ++ [c] ∧ isBlank c = false

namespace Solid

variable {cs ds : List Char}

theorem trimChars (h : Solid cs) : trimChars isBlank cs = cs := by
  obtain ⟨c, rest, hfirst, hc⟩ := h.first
  obtain ⟨before, d, hlast, hd⟩ := h.last
  have hstart : cs.dropWhile isBlank = cs := by
    rw [hfirst, List.dropWhile_cons_of_neg (by simp [hc])]
  rw [Text.trimChars, hstart, hlast, dropWhileEnd_concat before hd]

theorem append (hc : Solid cs) (hd : Solid ds) (between : List Char) :
    Solid (cs ++ between ++ ds) := by
  obtain ⟨c, rest, hfirst, hblank⟩ := hc.first
  obtain ⟨before, d, hlast, hblank'⟩ := hd.last
  exact ⟨⟨c, rest ++ between ++ ds, by simp [hfirst], hblank⟩,
    ⟨cs ++ between ++ before, d, by simp [hlast], hblank'⟩⟩

/-- What stands before a solid text may be anything that does not begin with a blank. -/
theorem prepend (h : Solid cs) {before : List Char}
    (hbefore : ∀ c ∈ before.head?, isBlank c = false) : Solid (before ++ cs) := by
  cases before with
  | nil => exact h
  | cons c rest =>
    obtain ⟨kept, d, rfl, hd⟩ := h.last
    exact ⟨⟨c, rest ++ (kept ++ [d]), rfl, hbefore c rfl⟩, ⟨c :: rest ++ kept, d, by simp, hd⟩⟩

theorem of_forall (hsome : cs ≠ []) (h : ∀ c ∈ cs, isBlank c = false) : Solid cs := by
  obtain ⟨c, rest, hfirst⟩ := List.exists_cons_of_ne_nil hsome
  have hlast := List.dropLast_append_getLast hsome
  exact ⟨⟨c, rest, hfirst, h c (hfirst ▸ List.mem_cons_self)⟩,
    ⟨cs.dropLast, cs.getLast hsome, hlast.symm, h _ (List.getLast_mem hsome)⟩⟩

theorem intercalate {pieces : List (List Char)} (hpieces : ∀ piece ∈ pieces, Solid piece)
    (hsome : pieces ≠ []) (between : List Char) : Solid (between.intercalate pieces) := by
  induction pieces with
  | nil => exact absurd rfl hsome
  | cons piece rest ih =>
    have hpiece := hpieces piece List.mem_cons_self
    cases rest with
    | nil => simpa using hpiece
    | cons next more =>
      rw [List.intercalate_cons_cons]
      exact hpiece.append (ih (fun p hp => hpieces p (List.mem_cons_of_mem _ hp)) (by simp)) between

end Solid

end Text

namespace Command

open Text (Solid)

/-- Whether a text, read outside quotations, adds a token's characters to the word being read. -/
def Writes (text token : List Char) : Prop :=
  ∀ (word : Option (List Char)) (rest : List Char),
    scan word none (text ++ rest) = scan (some (token.reverse ++ word.getD [])) none rest

theorem separator_blank {c : Char} (h : isSeparator c = true) : Text.isBlank c = true := by
  unfold isSeparator at h
  simp only [Bool.or_eq_true, decide_eq_true_eq] at h
  rcases h with ((rfl | rfl) | rfl) | rfl <;> decide

theorem quote_not_separator {c : Char} (h : isQuote c = true) : isSeparator c = false := by
  unfold isQuote at h
  simp only [Bool.or_eq_true, decide_eq_true_eq] at h
  rcases h with rfl | rfl <;> decide

theorem quote_not_blank {c : Char} (h : isQuote c = true) : Text.isBlank c = false := by
  unfold isQuote at h
  simp only [Bool.or_eq_true, decide_eq_true_eq] at h
  rcases h with rfl | rfl <;> decide

namespace Writes

variable {text token other more : List Char}

theorem append (h : Writes text token) (h' : Writes more other) :
    Writes (text ++ more) (token ++ other) := by
  intro word rest
  rw [List.append_assoc, h, h', List.reverse_append, List.append_assoc, Option.getD_some]

theorem bare (hplain : ∀ c ∈ token, isSeparator c = false ∧ isQuote c = false)
    (hsome : token ≠ []) : Writes token token := by
  -- Only the first character can find no word begun, so the induction is over the others.
  have hgo (cs : List Char) (hcs : ∀ c ∈ cs, isSeparator c = false ∧ isQuote c = false)
      (word rest : List Char) :
      scan (some word) none (cs ++ rest) = scan (some (cs.reverse ++ word)) none rest := by
    induction cs generalizing word with
    | nil => rfl
    | cons c cs ih =>
      obtain ⟨hseparator, hquote⟩ := hcs c List.mem_cons_self
      rw [List.cons_append, scan]
      simp only [hseparator, hquote, Bool.false_eq_true, if_false, Option.getD_some]
      rw [ih fun d hd => hcs d (List.mem_cons_of_mem c hd)]
      simp
  intro word rest
  obtain ⟨c, cs, rfl⟩ := List.exists_cons_of_ne_nil hsome
  obtain ⟨hseparator, hquote⟩ := hplain c List.mem_cons_self
  rw [List.cons_append, scan.eq_def]
  simp only [hseparator, hquote, Bool.false_eq_true, if_false]
  rw [hgo cs fun d hd => hplain d (List.mem_cons_of_mem c hd)]
  simp

theorem surround {mark : Char} (hmark : isQuote mark = true) (hfree : mark ∉ token) :
    Writes (surround mark token) token := by
  have hgo (cs : List Char) (hcs : mark ∉ cs) (word rest : List Char) :
      scan (some word) (some mark) (cs ++ mark :: rest) =
        scan (some (cs.reverse ++ word)) none rest := by
    induction cs generalizing word with
    | nil => simp [scan]
    | cons c cs ih =>
      rw [List.mem_cons, not_or] at hcs
      rw [List.cons_append, scan]
      simp only [if_neg (Ne.symm hcs.1), Option.getD_some]
      rw [ih hcs.2]
      simp
  intro word rest
  have hseparator := quote_not_separator hmark
  simp only [Command.surround, List.cons_append, List.append_assoc, List.nil_append]
  rw [scan.eq_def]
  simp only [hseparator, hmark, Bool.false_eq_true, if_false, if_true]
  rw [hgo token hfree]

/-- Pieces written one after another, with a text between them that writes what stands between. -/
theorem intercalate {between mark : List Char} (hbetween : Writes between mark)
    {write : List Char → List Char} {pieces : List (List Char)} (hsome : pieces ≠ [])
    (hpieces : ∀ piece ∈ pieces, Writes (write piece) piece) :
    Writes (between.intercalate (pieces.map write)) (mark.intercalate pieces) := by
  induction pieces with
  | nil => exact absurd rfl hsome
  | cons piece rest ih =>
    have hpiece := hpieces piece List.mem_cons_self
    cases rest with
    | nil => simpa using hpiece
    | cons next more =>
      rw [List.map_cons, List.map_cons, List.intercalate_cons_cons, List.intercalate_cons_cons]
      refine (hpiece.append hbetween).append ?_
      exact ih (by simp) fun p hp => hpieces p (List.mem_cons_of_mem piece hp)

end Writes

/-- Every token is written somehow: bare, in marks of one kind, or in adjacent quotations. -/
theorem writes_quoteChars (token : List Char) : Writes (quoteChars token) token := by
  unfold quoteChars
  split
  case isTrue h =>
    simp only [Bool.and_eq_true, Bool.not_eq_true', List.isEmpty_eq_false_iff,
      List.any_eq_false, Bool.or_eq_true, not_or, Bool.not_eq_true] at h
    obtain ⟨hsome, hplain⟩ := h
    refine Writes.bare (fun c hc => ⟨?_, (hplain c hc).2⟩) hsome
    by_contra hseparator
    have hblank := separator_blank ((Bool.not_eq_false _).mp hseparator)
    rw [(hplain c hc).1] at hblank
    exact Bool.false_ne_true hblank
  case isFalse =>
    split
    case isTrue h => exact Writes.surround rfl (by simpa using h)
    case isFalse =>
      split
      case isTrue h => exact Writes.surround rfl (by simpa using h)
      case isFalse =>
        have hmark : Writes (surround '\'' ['"']) ['"'] := Writes.surround rfl (by decide)
        have hpieces (piece) (h : piece ∈ Text.splitChars '"' token) :
            Writes (surround '"' piece) piece :=
          Writes.surround rfl (Text.not_mem_of_mem_splitChars h)
        have hall := Writes.intercalate hmark (Text.splitChars_ne_nil '"' token) hpieces
        rwa [Text.intercalate_splitChars] at hall

theorem solid_surround {mark : Char} (hmark : isQuote mark = true) (token : List Char) :
    Solid (surround mark token) :=
  ⟨⟨mark, token ++ [mark], rfl, quote_not_blank hmark⟩,
    ⟨mark :: token, mark, rfl, quote_not_blank hmark⟩⟩

/-- However a token is written, trimming takes nothing from it. -/
theorem solid_quoteChars (token : List Char) : Solid (quoteChars token) := by
  unfold quoteChars
  split
  case isTrue h =>
    simp only [Bool.and_eq_true, Bool.not_eq_true', List.isEmpty_eq_false_iff,
      List.any_eq_false, Bool.or_eq_true, not_or, Bool.not_eq_true] at h
    obtain ⟨hsome, hplain⟩ := h
    exact Solid.of_forall hsome fun c hc => (hplain c hc).1
  case isFalse =>
    split
    case isTrue => exact solid_surround rfl token
    case isFalse =>
      split
      case isTrue => exact solid_surround rfl token
      case isFalse =>
        refine Solid.intercalate (fun piece h => ?_) (by simp [Text.splitChars_ne_nil]) _
        obtain ⟨inner, _, rfl⟩ := List.mem_map.mp h
        exact solid_surround rfl inner

inductive Spread : List String → List Char → Prop
  | nil : Spread [] []
  | gap {tokens : List String} {text : List Char} {c : Char} (separates : isSeparator c = true)
      (rest : Spread tokens text) : Spread tokens (c :: text)
  | word {tokens : List String} {text : List Char} (token : String)
      (apart : ∀ c ∈ text.head?, isSeparator c = true) (rest : Spread tokens text) :
      Spread (token :: tokens) (quoteChars token.toList ++ text)

/-- Written tokens are read one by one, whatever separates them. -/
theorem Spread.scan_eq {tokens : List String} {text : List Char} (h : Spread tokens text) :
    scan none none text = .ok (tokens.map String.toList) := by
  induction h with
  | nil => rfl
  | @gap tokens text c separates rest ih => rw [scan, if_pos separates, ih]
  | @word tokens text token apart rest ih =>
    rw [writes_quoteChars]
    cases text with
    | nil =>
      -- Nothing is written after the last token.
      have hnone : tokens = [] := by
        have hempty : [] = tokens.map String.toList := Except.ok.inj ih
        simpa using hempty.symm
      simp [scan, hnone]
    | cons c text =>
      have hc := apart c rfl
      rw [scan, if_pos hc] at ih
      rw [scan, if_pos hc, ih]
      simp [Except.map]

theorem Spread.tokenize_eq {tokens : List String} {message : String}
    (h : Spread tokens message.toList) : tokenize message = .ok tokens := by
  rw [tokenize, h.scan_eq]
  simp [Except.map, Function.comp_def]

theorem toList_join (tokens : List String) :
    (join tokens).toList = [' '].intercalate ((tokens.map String.toList).map quoteChars) := by
  simp [join, quote, String.toList_intercalate, Function.comp_def]

theorem spread_join (tokens : List String) : Spread tokens (join tokens).toList := by
  rw [toList_join]
  induction tokens with
  | nil => exact .nil
  | cons token rest ih =>
    cases rest with
    | nil => simpa using Spread.word token (by simp) .nil
    | cons next more =>
      simp only [List.map_cons] at ih ⊢
      rw [List.intercalate_cons_cons, List.append_assoc]
      exact .word token (by simp [isSeparator]) (.gap rfl ih)

/-- Whatever the tokens hold, the message joined from them is split into them again. -/
theorem tokenize_join (tokens : List String) : tokenize (join tokens) = .ok tokens :=
  (spread_join tokens).tokenize_eq

/-- Reading undoes writing: the message joined from tokens is split into these tokens, whatever
they hold, and so is any message in which the same tokens are written further apart. -/
theorem reading_undoes_writing (tokens : List String) :
    tokenize (join tokens) = .ok tokens ∧
      ∀ message : String, Spread tokens message.toList → tokenize message = .ok tokens :=
  ⟨(spread_join tokens).tokenize_eq, fun _ h => h.tokenize_eq⟩

/-- Two tokens on two lines, one with a space in it and the other empty. -/
theorem tokens_on_two_lines :
    tokenize ("\t" ++ quote "a b" ++ "\r\n" ++ quote "" ++ " ") = .ok ["a b", ""] := by
  have hlast : Spread [] [' '] := .gap rfl .nil
  have hsecond : Spread [""] ('\r' :: '\n' :: (quoteChars "".toList ++ [' '])) :=
    .gap rfl (.gap rfl (.word "" (by simp [isSeparator]) hlast))
  have hfirst : Spread ["a b", ""] ('\t' :: (quoteChars "a b".toList ++
      '\r' :: '\n' :: (quoteChars "".toList ++ [' ']))) :=
    .gap rfl (.word "a b" (by simp [isSeparator]) hsecond)
  refine (reading_undoes_writing ["a b", ""]).2 _ ?_
  simpa [quote] using hfirst

theorem solid_join {tokens : List String} (h : tokens ≠ []) : Solid (join tokens).toList := by
  rw [toList_join]
  refine Solid.intercalate (fun piece hpiece => ?_) (by simpa using h) _
  obtain ⟨token, _, rfl⟩ := List.mem_map.mp hpiece
  exact solid_quoteChars token

end Command

end Guildhall
