import Guildhall.Text.Lines
import Guildhall.Yaml.Writer
import Mathlib.Tactic.Common

/-!
# Documents as they are written

A document is written without carriage returns, whatever texts it holds: they are escaped. Reading
the file with plain line ends therefore changes nothing.
-/

namespace Guildhall

theorem Text.plainLines_eq_self {cs : List Char} (h : '\r' ∉ cs) : plainLines cs = cs := by
  induction cs with
  | nil => rfl
  | cons c rest ih =>
    rw [List.mem_cons, not_or] at h
    unfold plainLines
    split <;> simp_all

namespace Yaml

theorem not_mem_of_style (key : Bool) {text : String} (h : styleOf key text ≠ .double) :
    '\r' ∉ text.toList := by
  intro hmem
  have hescape : text.toList.any needsEscape = true :=
    List.any_eq_true.mpr ⟨'\r', hmem, by decide⟩
  exact h (by simp [styleOf, allowsPlain, allowsSingle, hescape])

namespace Output

theorem upperHex_ne : ∀ n < 16, upperHex n ≠ '\r' := by decide

theorem not_mem_upperHexDigits (count n : Nat) : '\r' ∉ upperHexDigits count n := by
  induction count generalizing n with
  | zero => simp [upperHexDigits]
  | succ count ih =>
    have hdigit : upperHex (n % 16) ≠ '\r' := upperHex_ne _ (Nat.mod_lt n (by decide))
    simp [upperHexDigits, ih, hdigit.symm]

theorem not_mem_escaped (c : Char) : '\r' ∉ escaped c := by
  unfold escaped
  split
  case h_1 letter hletter =>
    have hne : letter ≠ '\r' := by
      rintro rfl
      unfold escapeLetter? at hletter
      split at hletter <;> simp at hletter
    simp [hne.symm]
  case h_2 =>
    dsimp only
    split
    · simp [not_mem_upperHexDigits]
    · split <;> simp [not_mem_upperHexDigits]

def Clean (o : Output) : Prop := '\r' ∉ o.text

namespace Clean

variable {o : Output} {cs : List Char}

theorem put (h : o.Clean) (hcs : '\r' ∉ cs) : (o.put cs).Clean := by
  simp_all [Clean, Output.put]

theorem newline (h : o.Clean) : o.newline.Clean := by
  simp_all [Clean, Output.newline]

theorem mark (h : o.Clean) (hcs : '\r' ∉ cs) (needsSpace spaced fresh : Bool) :
    (o.mark cs needsSpace spaced fresh).Clean := by
  unfold Output.mark
  dsimp only
  split
  · exact h.put hcs
  · exact h.put (by simp [hcs])

theorem toIndent (h : o.Clean) (indent : Nat) : (o.toIndent indent).Clean := by
  have hblanks (count : Nat) : '\r' ∉ List.replicate count ' ' := by
    simp [List.mem_replicate]
  unfold Output.toIndent
  dsimp only
  split <;> split
  · exact h.newline.put (hblanks _)
  · exact h.newline
  · exact h.put (hblanks _)
  · exact h

theorem inScalar (h : o.Clean) : o.inScalar.Clean := h

theorem plainFrom {indent : Nat} {fold : Bool} (fuel : Nat) (h : o.Clean) (hcs : '\r' ∉ cs) :
    (Output.plainFrom indent fold fuel cs o).Clean := by
  induction fuel generalizing cs o with
  | zero => exact h
  | succ fuel ih =>
    have htake (p : Char → Bool) : '\r' ∉ cs.takeWhile p := fun hmem =>
      hcs ((List.takeWhile_sublist p).subset hmem)
    have hdrop (p : Char → Bool) : '\r' ∉ cs.dropWhile p := fun hmem =>
      hcs ((List.dropWhile_sublist p).subset hmem)
    unfold Output.plainFrom
    dsimp only [splitRun]
    split
    case h_1 => exact h
    case h_2 =>
      refine ih ?_ (hdrop _)
      split
      · exact (h.toIndent indent).inScalar
      · exact h.put (htake _)
    case h_3 => exact ih (h.put (htake _)) (hdrop _)

theorem plain {indent : Nat} {fold : Bool} (h : o.Clean) (hcs : '\r' ∉ cs) :
    (o.plain indent fold cs).Clean := by
  unfold Output.plain
  dsimp only
  split
  · exact h
  · refine plainFrom _ (inScalar ?_) hcs
    split
    · exact h
    · exact h.put (by simp)

theorem lineEnds {breaks : List Char} (h : o.Clean) (hbreaks : '\r' ∉ breaks) (indent : Nat) :
    (o.lineEnds breaks indent).Clean := by
  unfold Output.lineEnds
  refine toIndent ?_ indent
  have hfirst : (if breaks.head? = some '\n' then o.newline else o).Clean := by
    split
    · exact h.newline
    · exact h
  -- The line ends are written one after another, whatever has been written before.
  generalize (if breaks.head? = some '\n' then o.newline else o) = begun at hfirst
  induction breaks generalizing begun with
  | nil => exact hfirst
  | cons c rest ih =>
    rw [List.mem_cons, not_or] at hbreaks
    refine ih hbreaks.2 _ ?_
    dsimp only
    split
    · exact hfirst.newline
    · simpa [Clean, hbreaks.1] using hfirst

theorem singleFrom {indent : Nat} {fold : Bool} (fuel : Nat) (first : Bool) (h : o.Clean)
    (hcs : '\r' ∉ cs) : (Output.singleFrom indent fold fuel first cs o).Clean := by
  induction fuel generalizing first cs o with
  | zero => exact h
  | succ fuel ih =>
    cases cs with
    | nil => exact h
    | cons c rest =>
      have htake (p : Char → Bool) : '\r' ∉ (c :: rest).takeWhile p := fun hmem =>
        hcs ((List.takeWhile_sublist p).subset hmem)
      have hdrop (p : Char → Bool) : '\r' ∉ (c :: rest).dropWhile p := fun hmem =>
        hcs ((List.dropWhile_sublist p).subset hmem)
      have hrest : '\r' ∉ rest := fun hmem => hcs (List.mem_cons_of_mem c hmem)
      rw [Output.singleFrom]
      dsimp only [splitRun]
      split
      · refine ih false ?_ (hdrop _)
        split
        · exact h.toIndent indent
        · exact h.put (htake _)
      · split
        · exact ih false (h.lineEnds (htake _) indent) (hdrop _)
        · split
          · exact ih false (h.put (by simp)) hrest
          · exact ih false (h.put (htake _)) (hdrop _)

theorem single {indent : Nat} {fold : Bool} (h : o.Clean) (hcs : '\r' ∉ cs) :
    (o.single indent fold cs).Clean :=
  (singleFrom _ true (h.mark (by simp) true false false) hcs).mark (by simp) false false false

theorem foldDouble {held rest : List Char} (h : o.Clean) (hheld : '\r' ∉ held) (indent : Nat) :
    (o.foldDouble indent held rest).Clean := by
  have hbroken : ((o.put (held ++ ['\\'])).toIndent indent).Clean :=
    (h.put (by simp [hheld])).toIndent indent
  unfold Output.foldDouble
  dsimp only
  split
  · exact hbroken.inScalar.put (by simp)
  · exact hbroken.inScalar

theorem doubleFrom {indent length index : Nat} {fold : Bool} {held : List Char} (h : o.Clean)
    (hheld : '\r' ∉ held) : (Output.doubleFrom indent fold length index held cs o).Clean := by
  induction cs generalizing index held o with
  | nil => exact h.put (by simpa using hheld)
  | cons c rest ih =>
    have hreversed : '\r' ∉ held.reverse := by simpa using hheld
    rw [Output.doubleFrom]
    by_cases hspecial : isEscaped c = true
    · have hwritten := (h.put hreversed).put (not_mem_escaped c)
      simp only [hspecial, if_true]
      split
      · exact ih (hwritten.foldDouble (by simp) indent) (by simp)
      · exact ih hwritten (by simp)
    · have hne : '\r' ≠ c := by
        rintro rfl
        exact hspecial (by decide)
      simp only [hspecial, if_false, Bool.false_eq_true]
      split
      · exact ih (h.foldDouble hreversed indent) (by simp [hne])
      · exact ih h (by simp [hne, hheld])

theorem double {indent : Nat} {fold : Bool} (h : o.Clean) : (o.double indent fold cs).Clean :=
  (doubleFrom (h.mark (by simp) true false false) (by simp)).mark (by simp) false false false

theorem scalar (h : o.Clean) (indent : Nat) (key : Bool) (text : String) :
    (o.scalar indent key text).Clean := by
  unfold Output.scalar
  cases hstyle : styleOf key text with
  | plain => exact h.plain (not_mem_of_style key (by simp [hstyle]))
  | single => exact h.single (not_mem_of_style key (by simp [hstyle]))
  | double => exact h.double

mutual

theorem value (v : Value) (indent : Nat) (mapped : Bool) {o : Output} (h : o.Clean) :
    (Output.value v indent mapped o).Clean := by
  cases v with
  | atom s => exact h.scalar _ _ _
  | list items =>
    cases items with
    | nil => exact (h.mark (by simp) _ _ _).mark (by simp) _ _ _
    | cons item rest => exact listItems (item :: rest) _ h
  | map entries =>
    cases entries with
    | nil => exact (h.mark (by simp) _ _ _).mark (by simp) _ _ _
    | cons entry rest => exact mapEntries (entry :: rest) _ h

theorem listItems (items : List Value) (indent : Nat) {o : Output} (h : o.Clean) :
    (Output.listItems items indent o).Clean := by
  cases items with
  | nil => exact h
  | cons item rest =>
    rw [Output.listItems]
    exact listItems rest indent (value item indent false ((h.toIndent _).mark (by simp) _ _ _))

theorem mapEntries (entries : List (Scalar × Value)) (indent : Nat) {o : Output} (h : o.Clean) :
    (Output.mapEntries entries indent o).Clean := by
  cases entries with
  | nil => exact h
  | cons entry rest =>
    obtain ⟨key, item⟩ := entry
    rw [Output.mapEntries]
    dsimp only
    split
    · refine mapEntries rest indent (value item indent true ?_)
      exact ((h.toIndent _).scalar _ _ _).mark (by simp) _ _ _
    · refine mapEntries rest indent (value item indent true ?_)
      exact ((((h.toIndent _).mark (by simp) _ _ _).scalar _ _ _).toIndent _).mark (by simp) _ _ _

end

end Clean

end Output

theorem not_mem_render (v : Value) : '\r' ∉ (render v).toList := by
  have hstart : Output.start.Clean := by simp [Output.Clean, Output.start]
  have hdone (o : Output) (h : o.Clean) : '\r' ∉ (o.toIndent 0).text.reverse := by
    have hclean := h.toIndent 0
    simpa [Output.Clean] using hclean
  unfold render
  rw [String.toList_ofList]
  refine hdone _ ?_
  split
  · exact hstart.value _ _ _
  · exact hstart.mapEntries _ _
  · exact hstart.value _ _ _

theorem plainLines_render (v : Value) :
    Text.plainLines (render v).toList = (render v).toList :=
  Text.plainLines_eq_self (not_mem_render v)

end Yaml

end Guildhall
