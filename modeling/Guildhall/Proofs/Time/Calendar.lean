import Guildhall.Time.Moment
import Mathlib.Order.Monotone.Basic
import Mathlib.Tactic.Common

/-!
# The years of the calendar

Every day lies in exactly one year, the year of its date.
-/

namespace Guildhall.Time

theorem day_eq : day = 86400000000 := by decide

theorem hour_eq : hour = 3600000000 := by decide

@[simp]
theorem Moment.instant_utc (instant : Int) : (Moment.utc instant).instant = instant :=
  Int.sub_zero _

theorem wallInRange_iff {wall : Int} : wallInRange wall = true ↔ 0 ≤ wall ∧ wall < wallLimit := by
  simp [wallInRange]

theorem isLeap_iff {year : Nat} : isLeap year = true ↔ 4 ∣ year ∧ (100 ∣ year → 400 ∣ year) := by
  simp [isLeap, Nat.dvd_iff_mod_eq_zero, ← imp_iff_not_or]

theorem daysInMonth_february (year : Nat) : 28 ≤ daysInMonth year 2 ∧ daysInMonth year 2 ≤ 29 := by
  simp only [daysInMonth]
  split <;> omega

theorem daysInMonth_congr (year other : Nat) {month : Nat} (h : month ≠ 2) :
    daysInMonth year month = daysInMonth other month := by
  unfold daysInMonth
  split
  · exact absurd rfl h
  all_goals rfl

/-- From March on a month begins on the same day of every year, or a day later. -/
theorem daysBeforeMonth_mem (year : Nat) {month : Nat} (h : 3 ≤ month) :
    daysBeforeMonth 1 month ≤ daysBeforeMonth year month ∧
      daysBeforeMonth year month ≤ daysBeforeMonth 1 month + 1 := by
  induction month, h using Nat.le_induction with
  | base =>
    have hfebruary := daysInMonth_february year
    have hmarch (year : Nat) : daysBeforeMonth year 3 = 31 + daysInMonth year 2 := by
      simp [daysBeforeMonth, daysInMonth]
    have hfirst : daysInMonth 1 2 = 28 := by decide
    rw [hmarch, hmarch, hfirst]
    omega
  | succ month hle ih =>
    have hnext (year : Nat) :
        daysBeforeMonth year (month + 1) = daysBeforeMonth year month + daysInMonth year month := by
      obtain ⟨before, rfl⟩ := Nat.exists_eq_add_of_le' hle
      rfl
    rw [hnext, hnext, daysInMonth_congr year 1 (by omega)]
    omega

theorem daysBeforeYear_succ {year : Nat} (h : 1 ≤ year) :
    daysBeforeYear (year + 1) = daysBeforeYear year + 337 + daysInMonth year 2 := by
  obtain ⟨y, rfl⟩ := Nat.exists_eq_add_of_le' h
  have hless : y / 100 ≤ y / 4 := Nat.div_le_div_left (by decide) (by decide)
  have hcentury : 100 ∣ y + 1 → 4 ∣ y + 1 := Nat.dvd_trans (by decide)
  have hcycle : 400 ∣ y + 1 → 100 ∣ y + 1 := Nat.dvd_trans (by decide)
  simp only [daysBeforeYear, daysInMonth, isLeap_iff, Nat.add_sub_cancel, Nat.succ_div]
  by_cases hfour : 4 ∣ y + 1
  · by_cases hhundred : 100 ∣ y + 1
    · simp only [hfour, hhundred, true_and, true_implies, if_true]
      split <;> omega
    · simp only [hfour, hhundred, mt hcycle hhundred, false_implies, and_true, if_true, if_false]
      omega
  · have hhundred := mt hcentury hfour
    simp only [hfour, hhundred, mt hcycle hhundred, false_and, if_false]
    omega

theorem daysBeforeYear_mono : Monotone daysBeforeYear := by
  apply monotone_nat_of_le_succ
  intro year
  cases year with
  | zero => decide
  | succ year =>
    rw [daysBeforeYear_succ (Nat.le_add_left 1 year)]
    omega

theorem year_ofNumber (number : Nat) :
    (Date.ofNumber number).year =
      let n := number % 146097
      let century := min 3 (n / 36524)
      let m := n - century * 36524
      number / 146097 * 400 + century * 100 + m / 1461 * 4 + min 3 (m % 1461 / 365) + 1 :=
  rfl

theorem year_ofNumber_pos (number : Nat) : 1 ≤ (Date.ofNumber number).year := by
  rw [year_ofNumber]
  exact Nat.le_add_left 1 _

theorem daysBeforeYear_cycles {a b c d : Nat} (hb : b ≤ 3) (hc : c ≤ 24) (hd : d ≤ 3) :
    daysBeforeYear (a * 400 + b * 100 + c * 4 + d + 1) =
      a * 146097 + b * 36524 + c * 1461 + d * 365 := by
  simp only [daysBeforeYear, Nat.add_sub_cancel]
  have hfour : (a * 400 + b * 100 + c * 4 + d) / 4 = a * 100 + b * 25 + c := by omega
  have hhundred : (a * 400 + b * 100 + c * 4 + d) / 100 = a * 4 + b := by omega
  have hcycle : (a * 400 + b * 100 + c * 4 + d) / 400 = a := by omega
  omega

theorem daysBeforeYear_ofNumber (number : Nat) :
    daysBeforeYear (Date.ofNumber number).year ≤ number ∧
      number < daysBeforeYear ((Date.ofNumber number).year + 1) := by
  rw [daysBeforeYear_succ (year_ofNumber_pos number), year_ofNumber]
  dsimp only
  generalize hn : number % 146097 = n
  generalize hb : min 3 (n / 36524) = b
  generalize hm : n - b * 36524 = m
  generalize hc : m / 1461 = c
  generalize hd : min 3 (m % 1461 / 365) = d
  have hcentury : m ≤ 36524 := by omega
  rw [daysBeforeYear_cycles (by omega) (by omega) (by omega)]
  -- Only the last year of a cycle of 4 has a day number 365, except in a year without such a day.
  by_cases hleap : isLeap (number / 146097 * 400 + b * 100 + c * 4 + d + 1) = true
  · rw [daysInMonth, if_pos hleap]
    omega
  · rw [daysInMonth, if_neg hleap]
    rw [isLeap_iff, not_and, Classical.not_imp] at hleap
    omega

def newYear (year : Nat) : Int := daysBeforeYear year * day

theorem newYear_mono {earlier later : Nat} (h : earlier ≤ later) :
    newYear earlier ≤ newYear later := by
  have hdays := daysBeforeYear_mono h
  simp only [newYear, day_eq]
  omega

/-- A wall-clock time lies in the year of its date. Times before year 1 count as of year 1. -/
theorem newYear_dateOfWall (wall : Int) :
    newYear (dateOfWall wall).year ≤ max wall 0 ∧
      wall < newYear ((dateOfWall wall).year + 1) := by
  obtain ⟨hbegun, hover⟩ := daysBeforeYear_ofNumber (wall / day).toNat
  simp only [newYear, dateOfWall, day_eq] at hbegun hover ⊢
  omega

theorem year_dateOfWall_pos (wall : Int) : 1 ≤ (dateOfWall wall).year :=
  year_ofNumber_pos _

theorem newYear_pos {year : Nat} (h : 1 ≤ year) : 0 < newYear (year + 1) := by
  have hdays := daysBeforeYear_succ h
  simp only [newYear, day_eq]
  omega

theorem turn_of_lt {wall later : Int} {year year' : Nat} (hpos : 1 ≤ year) (hlt : year < year')
    (hover : wall < newYear (year + 1)) (hbegun : newYear year' ≤ max later 0) :
    wall < newYear (year + 1) ∧ newYear (year + 1) ≤ newYear year' ∧ newYear year' ≤ later := by
  have hturn : newYear (year + 1) ≤ newYear year' := newYear_mono hlt
  have hfirst := newYear_pos hpos
  refine ⟨hover, hturn, ?_⟩
  omega

theorem year_or_turn {wall later : Int} (h : wall ≤ later) :
    (dateOfWall wall).year = (dateOfWall later).year ∨
      wall < newYear ((dateOfWall wall).year + 1) ∧
        newYear ((dateOfWall wall).year + 1) ≤ newYear (dateOfWall later).year ∧
        newYear (dateOfWall later).year ≤ later := by
  obtain ⟨hbegun, hover⟩ := newYear_dateOfWall wall
  obtain ⟨hbegun', hover'⟩ := newYear_dateOfWall later
  obtain hyears | hyears | hyears :=
    Nat.lt_trichotomy (dateOfWall wall).year (dateOfWall later).year
  · exact .inr (turn_of_lt (year_dateOfWall_pos wall) hyears hover hbegun')
  · exact .inl hyears
  · obtain ⟨hbefore, hturn, hafter⟩ :=
      turn_of_lt (year_dateOfWall_pos later) hyears hover' hbegun
    omega

end Guildhall.Time
