import Guildhall.Text.Case
import Mathlib.Tactic.Common

/-!
# Lower case twice

Text in lower case stays as it is when it is put in lower case again.
-/

namespace Guildhall.Text

def CaseRun.image (run : CaseRun) (code : Nat) : Nat := (Int.ofNat code + run.shift).toNat

/-- Whether no image of the first run is a code point that the second one maps: the ranges lie
apart, or the runs take every other code point and interleave. -/
def CaseRun.misses (run other : CaseRun) : Bool :=
  (run.image run.last).blt other.first || other.last.blt (run.image run.first) ||
    ((run.step = 2 || run.first = run.last) && other.step = 2 &&
      (run.image run.first + other.first) % 2 = 1)

theorem CaseRun.image_sub {run : CaseRun} {code : Nat} (hs : 0 ≤ run.first + run.shift)
    (hc : run.first ≤ code) : run.image code = run.image run.first + (code - run.first) := by
  unfold image
  simp only [Int.ofNat_eq_natCast]
  omega

theorem CaseRun.misses_sound {run other : CaseRun} (hs : 0 ≤ run.first + run.shift)
    (h : run.misses other) {code : Nat} (hc : run.covers code) :
    other.covers (run.image code) = false := by
  simp only [CaseRun.covers, Bool.and_eq_true, decide_eq_true_eq, beq_iff_eq] at hc
  obtain ⟨⟨hfirst, hlast⟩, hstep⟩ := hc
  by_contra ho
  simp only [CaseRun.covers, Bool.not_eq_false, Bool.and_eq_true, decide_eq_true_eq,
    beq_iff_eq] at ho
  obtain ⟨⟨hf, hl⟩, ho⟩ := ho
  have hcode := image_sub hs hfirst
  have hend := image_sub hs (Nat.le_trans hfirst hlast)
  simp only [CaseRun.misses, Bool.or_eq_true, Bool.and_eq_true, decide_eq_true_eq,
    Nat.blt_eq] at h
  rcases h with (h | h) | ⟨⟨h1 | h1, h2⟩, h⟩
  · omega
  · omega
  · rw [h1] at hstep
    rw [h2] at ho
    omega
  · rw [h2] at ho
    omega

/-- The runs of code points with a lower-case form other than themselves: those of the table and
the capitals that are treated apart, sigma and the dotted I. -/
def mappedRuns : List CaseRun := ⟨0x3A3, 0x3A3, 1, 0⟩ :: ⟨0x130, 0x130, 1, 0⟩ :: lowerRuns

/-- Whether lower case leaves a code point alone. -/
def Unmapped (code : Nat) : Prop := ∀ run ∈ mappedRuns, run.covers code = false

theorem lowerRuns_miss : (lowerRuns.all fun run => mappedRuns.all run.misses) = true := by
  decide +kernel

theorem lowerRuns_shift : (lowerRuns.all fun run => 0 ≤ run.first + run.shift) = true := by
  decide +kernel

theorem unmapped_zero : Unmapped 0 := by
  have h : (mappedRuns.all fun run => !run.covers 0) = true := by decide +kernel
  intro run hrun
  simpa using List.all_eq_true.mp h run hrun

theorem unmapped_image {code : Nat} {run : CaseRun} (hmem : run ∈ lowerRuns)
    (hc : run.covers code) : Unmapped (run.image code) := by
  have hmiss := List.all_eq_true.mp lowerRuns_miss run hmem
  have hshift := of_decide_eq_true (List.all_eq_true.mp lowerRuns_shift run hmem)
  intro other ho
  exact CaseRun.misses_sound hshift (List.all_eq_true.mp hmiss other ho) hc

theorem mapCase_unmapped (code : Nat) :
    mapCase lowerRuns code = code ∨ Unmapped (mapCase lowerRuns code) := by
  unfold mapCase
  cases hrun : lowerRuns.find? (·.covers code) with
  | none => exact .inl rfl
  | some run =>
    right
    exact unmapped_image (List.mem_of_find?_eq_some hrun) (by simpa using List.find?_some hrun)

theorem Unmapped.mapCase_eq {code : Nat} (h : Unmapped code) : mapCase lowerRuns code = code := by
  have hnone : lowerRuns.find? (·.covers code) = none := by
    apply List.find?_eq_none.mpr
    intro run hrun
    simp [h run (by simp [mappedRuns, hrun])]
  simp [mapCase, hnone]

structure Lowered (c : Char) : Prop where
  ne_sigma : c ≠ 'Σ'
  ne_dotted : c ≠ 'İ'
  fixed : lowerChar c = c

theorem Unmapped.lowered {c : Char} (h : Unmapped c.toNat) : Lowered c where
  ne_sigma := by
    rintro rfl
    exact absurd (h _ List.mem_cons_self) (by decide)
  ne_dotted := by
    rintro rfl
    exact absurd (h _ (List.mem_cons_of_mem _ List.mem_cons_self)) (by decide)
  fixed := by
    have hlatin : CaseRun.covers ⟨65, 90, 1, 32⟩ c.toNat = false :=
      h _ (List.mem_of_getElem? (show mappedRuns[2]? = _ from rfl))
    unfold lowerChar
    split
    · rw [if_neg]
      intro hc
      simp only [Bool.and_eq_true, decide_eq_true_eq] at hc
      have hA : 65 ≤ c.toNat := hc.1
      have hZ : c.toNat ≤ 90 := hc.2
      simp [CaseRun.covers, hA, hZ, Nat.mod_one] at hlatin
    · rw [h.mapCase_eq, Char.ofNat_toNat]

/-- The character of an unmapped code point; a number that is no code point stands for the null
character. -/
theorem Unmapped.lowered_ofNat {code : Nat} (h : Unmapped code) : Lowered (Char.ofNat code) := by
  apply Unmapped.lowered
  by_cases hv : code.isValidChar
  · have hcode : (Char.ofNat code).toNat = code := by
      unfold Char.ofNat
      rw [dif_pos hv]
      rfl
    rwa [hcode]
  · have hnull : Char.ofNat code = Char.ofNat 0 := by
      unfold Char.ofNat
      rw [dif_neg hv]
      rfl
    rw [hnull]
    exact unmapped_zero

theorem lowered_lowerChar {c : Char} (hs : c ≠ 'Σ') (hd : c ≠ 'İ') : Lowered (lowerChar c) := by
  by_cases hascii : c.toNat < 128
  · by_cases hcap : 'A' ≤ c ∧ c ≤ 'Z'
    · have himage : lowerChar c = Char.ofNat (c.toNat + 32) := by
        simp [lowerChar, hascii, hcap]
      have hA : 65 ≤ c.toNat := hcap.1
      have hZ : c.toNat ≤ 90 := hcap.2
      have hcovers : CaseRun.covers ⟨65, 90, 1, 32⟩ c.toNat := by
        simp [CaseRun.covers, hA, hZ, Nat.mod_one]
      rw [himage]
      exact (unmapped_image (List.mem_of_getElem? (show lowerRuns[0]? = _ from rfl))
        hcovers).lowered_ofNat
    · have hself : lowerChar c = c := by
        simp only [lowerChar, if_pos hascii, Bool.and_eq_true, decide_eq_true_eq, if_neg hcap]
      exact ⟨hself.symm ▸ hs, hself.symm ▸ hd, by rw [hself, hself]⟩
  · have himage : lowerChar c = Char.ofNat (mapCase lowerRuns c.toNat) := by
      simp [lowerChar, hascii]
    rcases mapCase_unmapped c.toNat with hself | hun
    · have hself : lowerChar c = c := by rw [himage, hself, Char.ofNat_toNat]
      exact ⟨hself.symm ▸ hs, hself.symm ▸ hd, by rw [hself, hself]⟩
    · rw [himage]
      exact hun.lowered_ofNat

/-- Whatever stands before, the characters of a text in lower case are left alone by lower case. -/
theorem lowered_of_mem_lowerFrom {before cs : List Char} :
    ∀ c ∈ lowerFrom before cs, Lowered c := by
  induction cs generalizing before with
  | nil => simp [lowerFrom]
  | cons d rest ih =>
    intro c hc
    simp only [lowerFrom, List.mem_append] at hc
    rcases hc with hc | hc
    case inr => exact ih c hc
    case inl =>
      split at hc
      · rw [List.mem_singleton] at hc
        subst hc
        split <;> exact ⟨by decide, by decide, by decide +kernel⟩
      · split at hc
        · simp only [List.mem_cons, List.not_mem_nil, or_false] at hc
          rcases hc with rfl | rfl <;> exact ⟨by decide, by decide, by decide +kernel⟩
        · rw [List.mem_singleton] at hc
          subst hc
          exact lowered_lowerChar ‹_› ‹_›

theorem lowerFrom_eq_self {before cs : List Char} (h : ∀ c ∈ cs, Lowered c) :
    lowerFrom before cs = cs := by
  induction cs generalizing before with
  | nil => rfl
  | cons c rest ih =>
    have hc := h c List.mem_cons_self
    have hrest : lowerFrom (c :: before) rest = rest :=
      ih fun d hd => h d (List.mem_cons_of_mem _ hd)
    simp [lowerFrom, hc.ne_sigma, hc.ne_dotted, hc.fixed, hrest]

@[simp] theorem lower_lower (s : String) : lower (lower s) = lower s := by
  unfold lower
  rw [String.toList_ofList, lowerFrom_eq_self lowered_of_mem_lowerFrom]

end Guildhall.Text
