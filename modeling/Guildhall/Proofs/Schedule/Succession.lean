import Guildhall.Proofs.Schedule.Earliest
import Mathlib.Data.Finset.Max
import Mathlib.Data.Nat.Count

/-!
# The runs one after another

In a zone whose clocks are never changed the next run is the first matching instant. So the runs
that follow one another are the matching instants, each of them once and in their order, up to the
end of the calendar. From any later moment on, the next run is again one of them.
-/

namespace Guildhall.Schedule.At

open Time

variable {a : At} {after start x y : Int} {r : Moment}

/-- Whether the clocks show one of the times, on a day on which the schedule runs. -/
def Matches (a : At) (instant : Int) : Prop :=
  0 ≤ a.zone.wallAt instant ∧ a.runsOn (a.today instant) = true ∧
    ∃ t ∈ a.times, timeOfWall (a.zone.wallAt instant) = t.micros

instance (a : At) : DecidablePred a.Matches := by
  intro instant
  unfold Matches
  infer_instance

/-- The runs of a schedule that is put in force at a moment, where each run is computed at the time
of the one before it. -/
def sequence (a : At) (start : Moment) : Nat → Except Failure Moment
  | 0 => a.firstRun start
  | k + 1 => a.sequence start k >>= fun r => a.nextAfter r r

def matchesBetween (a : At) (start instant : Int) : Nat :=
  Nat.count (fun n => a.Matches (start + 1 + n)) (instant - start - 1).toNat

theorem exists_eq_of_lt (h : start < y) : ∃ n : Nat, y = start + 1 + n :=
  ⟨(y - start - 1).toNat, by omega⟩

theorem matchesBetween_eq_zero :
    a.matchesBetween start x = 0 ↔ ∀ y, a.Matches y → start < y → x ≤ y := by
  rw [matchesBetween, Nat.count_iff_forall_not]
  constructor
  · intro hnone y hy hstart
    obtain ⟨n, rfl⟩ := exists_eq_of_lt hstart
    by_contra hnot
    exact hnone n (by omega) hy
  · intro hlater n hn hmatches
    have hle := hlater _ hmatches (by omega)
    omega

theorem isLeast_matches_iff : IsLeast {x | a.Matches x ∧ after < x} x ↔
    a.Matches x ∧ after < x ∧ a.matchesBetween after x = 0 := by
  rw [matchesBetween_eq_zero]
  constructor
  · rintro ⟨⟨hx, hlater⟩, hleast⟩
    exact ⟨hx, hlater, fun y hy hafter => hleast ⟨hy, hafter⟩⟩
  · rintro ⟨hx, hlater, hleast⟩
    exact ⟨⟨hx, hlater⟩, fun y ⟨hy, hafter⟩ => hleast y hy hafter⟩

theorem matchesBetween_of_mem (hy : a.Matches y) (hstart : start < y) (hbefore : y < x) :
    a.matchesBetween start x = a.matchesBetween start y + a.matchesBetween y x + 1 := by
  obtain ⟨n, rfl⟩ := exists_eq_of_lt hstart
  have hlength : (x - start - 1).toNat = n + 1 + (x - (start + 1 + n) - 1).toNat := by omega
  have hbelow : (start + 1 + n - start - 1).toNat = n := by omega
  have hshift (k : Nat) : start + 1 + (n + 1 + k : Nat) = start + 1 + n + 1 + k := by
    push_cast
    omega
  rw [matchesBetween, hlength, Nat.count_add, Nat.count_succ, if_pos hy, matchesBetween, hbelow,
    matchesBetween]
  simp only [hshift]
  omega

theorem lt_of_matchesBetween_lt (hx : a.Matches x) (hstart : start < x)
    (h : a.matchesBetween start y < a.matchesBetween start x) : y < x := by
  rcases Int.lt_trichotomy y x with hlt | rfl | hgt
  · exact hlt
  · omega
  · have hparts := matchesBetween_of_mem hx hstart hgt
    omega

theorem exists_last_match (h : a.matchesBetween start x ≠ 0) :
    ∃ y, a.Matches y ∧ start < y ∧ y < x ∧ a.matchesBetween y x = 0 := by
  have hsome : ((Finset.range (x - start - 1).toNat).filter
      fun n : Nat => a.Matches (start + 1 + n)).Nonempty := by
    rw [← Finset.card_ne_zero, ← Nat.count_eq_card_filter_range]
    exact h
  obtain ⟨n, hn, hlast⟩ := Finset.exists_max_image _ id hsome
  simp only [Finset.mem_filter, Finset.mem_range, id] at hn hlast
  refine ⟨start + 1 + n, hn.2, by omega, by omega, matchesBetween_eq_zero.mpr fun z hz hlt => ?_⟩
  obtain ⟨m, rfl⟩ := exists_eq_of_lt (show start < z by omega)
  by_contra hnot
  have hle := hlast m ⟨by omega, hz⟩
  omega

theorem exists_of_sequence {start : Moment} {j k : Nat} (hle : j ≤ k)
    (h : a.sequence start k = .ok r) : ∃ q, a.sequence start j = .ok q := by
  induction k generalizing r with
  | zero =>
    obtain rfl := Nat.le_zero.mp hle
    exact ⟨r, h⟩
  | succ k ih =>
    rcases Nat.lt_or_eq_of_le hle with hlt | rfl
    · obtain ⟨q, hq, -⟩ := bind_eq_ok.mp h
      exact ih (Nat.le_of_lt_succ hlt) hq
    · exact ⟨r, h⟩

section Fixed

variable (fixed : a.zone.summer = none)

include fixed

theorem Proper.mem_runs_iff (proper : a.Proper) : x ∈ a.runs ↔ a.Matches x := by
  constructor
  · rintro ⟨number, hruns, t, ht, rfl⟩
    have hmicros := proper.within t ht
    have hwall := Zone.wallAt_instantOf_of_fixed fixed (slot number t)
    have hdate : slot number t / day = number := slot_div hmicros
    refine ⟨?_, ?_, t, ht, ?_⟩
    · rw [hwall]
      simp only [slot, day_eq]
      omega
    · rw [today, hwall, hdate]
      exact hruns
    · rw [hwall, timeOfWall]
      simp only [slot, day_eq] at *
      omega
  · rintro ⟨hpos, hruns, t, ht, htime⟩
    have hstandard := Zone.wallAt_of_fixed fixed x
    refine ⟨a.today x, hruns, t, ht, ?_⟩
    rw [Zone.instantOf_of_fixed fixed]
    simp only [slot, today, timeOfWall, day_eq] at *
    omega

theorem InYears.between {first last : Int} (hfirst : a.InYears first) (hlast : a.InYears last)
    (hle : first ≤ x) (hle' : x ≤ last) : a.InYears x := by
  simp only [InYears, wallInRange_iff, Zone.wallAt_of_fixed fixed] at *
  omega

/-- The search finds the next matching instant, unless it lies beyond the calendar. -/
theorem Proper.exists_isLeast (proper : a.Proper) (naive : ∀ t ∈ a.times, t.offset = none)
    (hafter : a.InYears after) : ∃ x, IsLeast {x | a.Matches x ∧ after < x} x ∧
      a.nextMatch after = if a.InYears x then .ok (.utc x) else .error .outOfRange := by
  have regular := Zone.regular_of_fixed fixed
  obtain ⟨number, t, -, hfirst, hnext⟩ := proper.nextMatch_eq regular hafter
  refine ⟨a.zone.instantOf (slot number t), ⟨⟨?_, hfirst.later⟩, ?_⟩, ?_⟩
  · exact (proper.mem_runs_iff fixed).mp ⟨number, hfirst.runsOn, t, hfirst.mem, rfl⟩
  · rintro y ⟨hy, hlater⟩
    have hmem := (proper.mem_runs_iff fixed).mpr hy
    rcases proper.le_or_same_day regular naive hfirst hmem hlater with hle | ⟨later, -, hlt, rfl⟩
    · exact hle
    · simp only [Zone.instantOf_of_fixed fixed, slot]
      omega
  · have hmicros := proper.within t hfirst.mem
    have hyears : a.InYears (a.zone.instantOf (slot number t)) ↔
        number < dayLimit ∧ wallInRange (a.zone.instantOf (slot number t)) = true := by
      have hwall := Zone.wallAt_instantOf_of_fixed fixed (slot number t)
      have hlimit : wallLimit = dayLimit * day := rfl
      have hdate : wallInRange (slot number t) = true ↔ number < dayLimit := by
        rw [wallInRange_iff, hlimit]
        simp only [slot, day_eq] at *
        omega
      rw [InYears, hwall, hdate, and_comm]
    rw [hnext]
    exact if_congr hyears.symm rfl rfl

theorem Proper.nextMatch_eq_ok_iff (proper : a.Proper) (naive : ∀ t ∈ a.times, t.offset = none) :
    a.nextMatch after = .ok r ↔ a.InYears after ∧
      ∃ x, r = .utc x ∧ a.InYears x ∧ IsLeast {x | a.Matches x ∧ after < x} x := by
  by_cases hafter : a.InYears after
  · obtain ⟨first, hfirst, hnext⟩ := proper.exists_isLeast fixed naive hafter
    rw [hnext]
    constructor
    · intro hr
      split_ifs at hr with hyears
      cases hr
      exact ⟨hafter, first, rfl, hyears, hfirst⟩
    · rintro ⟨-, x, rfl, hyears, hleast⟩
      rw [hfirst.unique hleast, if_pos hyears]
  · rw [nextMatch_of_out hafter]
    simp [hafter]

theorem Proper.sequence_eq_ok_iff (proper : a.Proper) (naive : ∀ t ∈ a.times, t.offset = none)
    {start : Moment} (hstart : a.InYears start.instant) (k : Nat) :
    a.sequence start k = .ok r ↔ ∃ x, r = .utc x ∧ a.InYears x ∧ a.Matches x ∧
      start.instant < x ∧ a.matchesBetween start.instant x = k := by
  induction k generalizing r with
  | zero =>
    rw [sequence, firstRun, proper.nextMatch_eq_ok_iff fixed naive, and_iff_right hstart]
    simp only [isLeast_matches_iff]
  | succ k ih =>
    rw [sequence, bind_eq_ok]
    constructor
    · rintro ⟨q, hq, hr⟩
      obtain ⟨y, rfl, -, hy, hlater, hcount⟩ := ih.mp hq
      rw [nextAfter, max_self, Moment.instant_utc, proper.nextMatch_eq_ok_iff fixed naive] at hr
      obtain ⟨-, x, rfl, hyears, hleast⟩ := hr
      obtain ⟨hx, hyx, hnone⟩ := isLeast_matches_iff.mp hleast
      have hparts := matchesBetween_of_mem hy hlater hyx
      exact ⟨x, rfl, hyears, hx, by omega, by omega⟩
    · rintro ⟨x, rfl, hyears, hx, hlater, hcount⟩
      have hsome : a.matchesBetween start.instant x ≠ 0 := by omega
      obtain ⟨y, hy, hstart', hyx, hnone⟩ := exists_last_match hsome
      have hparts := matchesBetween_of_mem hy hstart' hyx
      have hyears' := hstart.between fixed hyears (Int.le_of_lt hstart') (Int.le_of_lt hyx)
      refine ⟨.utc y, ih.mpr ⟨y, rfl, hyears', hy, hstart', by omega⟩, ?_⟩
      rw [nextAfter, max_self, Moment.instant_utc, proper.nextMatch_eq_ok_iff fixed naive]
      exact ⟨hyears', x, rfl, hyears, isLeast_matches_iff.mpr ⟨hx, hyx, hnone⟩⟩

theorem Proper.nextMatch_eq_ok_iff_sequence (proper : a.Proper)
    (naive : ∀ t ∈ a.times, t.offset = none) {start now : Moment}
    (hstart : a.InYears start.instant) (hnow : start.instant ≤ now.instant) :
    a.nextMatch now.instant = .ok r ↔ ∃ k, a.sequence start k = .ok r ∧
      now.instant < r.instant ∧
        ∀ j < k, ∃ q, a.sequence start j = .ok q ∧ q.instant ≤ now.instant := by
  have hsequence (k : Nat) (r : Moment) : a.sequence start k = .ok r ↔ _ :=
    proper.sequence_eq_ok_iff fixed naive hstart k
  rw [proper.nextMatch_eq_ok_iff fixed naive]
  constructor
  · rintro ⟨hyears, x, rfl, hyears', hleast⟩
    obtain ⟨⟨hx, hlater⟩, hfirst⟩ := hleast
    have hstart' : start.instant < x := by omega
    have hkth := (hsequence _ _).mpr ⟨x, rfl, hyears', hx, hstart', rfl⟩
    refine ⟨_, hkth, by simpa using hlater, fun j hj => ?_⟩
    obtain ⟨q, hq⟩ := exists_of_sequence (Nat.le_of_lt hj) hkth
    obtain ⟨y, rfl, -, hy, -, hcount⟩ := (hsequence _ _).mp hq
    have hyx : y < x := lt_of_matchesBetween_lt hx hstart' (by omega)
    refine ⟨_, hq, ?_⟩
    rw [Moment.instant_utc]
    by_contra hnot
    have hle : x ≤ y := hfirst ⟨hy, Int.not_le.mp hnot⟩
    omega
  · rintro ⟨k, hkth, hlater, hover⟩
    obtain ⟨x, rfl, hyears, hx, hstart', hcount⟩ := (hsequence _ _).mp hkth
    rw [Moment.instant_utc] at hlater
    have hyears' := hstart.between fixed hyears hnow (Int.le_of_lt hlater)
    refine ⟨hyears', x, rfl, hyears, ⟨hx, hlater⟩, ?_⟩
    rintro y ⟨hy, hafter⟩
    by_contra hnot
    -- A matching instant in between would be one of the runs that are over.
    have hyx : y < x := Int.not_le.mp hnot
    have hstartY : start.instant < y := by omega
    have hparts := matchesBetween_of_mem hy hstartY hyx
    obtain ⟨q, hq, hq'⟩ := hover (a.matchesBetween start.instant y) (by omega)
    have hyearsY := hstart.between fixed hyears (Int.le_of_lt hstartY) (Int.le_of_lt hyx)
    have hsame := (hsequence _ _).mpr ⟨y, rfl, hyearsY, hy, hstartY, rfl⟩
    cases Except.ok.inj (hq.symm.trans hsame)
    rw [Moment.instant_utc] at hq'
    omega

end Fixed

/-- In a zone whose clocks are never changed the runs from a moment on are the matching instants
after it, the `k`-th one with `k` others before it. What comes next at a later moment is the first
of these runs after that moment. -/
theorem runs_through_matches (built : a.Built) (naive : ∀ t ∈ a.times, t.offset = none)
    (fixed : a.zone.summer = none) (start : Moment) (hstart : a.InYears start.instant) :
    (∀ k r, a.sequence start k = .ok r ↔ ∃ x, r = .utc x ∧ a.InYears x ∧ a.Matches x ∧
      start.instant < x ∧ a.matchesBetween start.instant x = k) ∧
      ∀ previous now r, previous.instant ≤ now.instant → start.instant ≤ now.instant →
        (a.nextAfter previous now = .ok r ↔ ∃ k, a.sequence start k = .ok r ∧
          now.instant < r.instant ∧
            ∀ j < k, ∃ q, a.sequence start j = .ok q ∧ q.instant ≤ now.instant) := by
  refine ⟨fun k r => built.proper.sequence_eq_ok_iff fixed naive hstart k,
    fun previous now r hprevious hnow => ?_⟩
  rw [nextAfter, max_eq_right hprevious]
  exact built.proper.nextMatch_eq_ok_iff_sequence fixed naive hstart hnow

/-- On Mondays in Kathmandu, a microsecond after midnight by universal time. Put in force at such a
run, the schedule comes to the second one after it in two weeks. -/
theorem mondays_in_kathmandu :
    ∃ (a : At) (start r : Moment), a.Built ∧ (∀ t ∈ a.times, t.offset = none) ∧
      a.zone.summer = none ∧ a.InYears start.instant ∧ a.Matches start.instant ∧
      a.sequence start 1 = .ok r ∧ a.matchesBetween start.instant r.instant = 1 ∧
      r = .utc (start.instant + 14 * day) := by
  let a : At := ⟨[⟨5 * hour + 45 * minute + 1, none⟩], some [0], .fixed "Asia/Kathmandu" 345, true⟩
  let start : Moment := .utc (wallOfDate ⟨2024, 1, 1⟩ + 1)
  have made : At.make [.text "05:45:00.000001"] (.list [.str "monday"]) (.str "Asia/Kathmandu") =
      .ok a := by decide +kernel
  have built : a.Built := .make (by simp) made
  have naive : ∀ t ∈ a.times, t.offset = none := by decide
  have hstart : a.InYears start.instant := by decide +kernel
  have hsecond : a.sequence start 1 = .ok (.utc (start.instant + 14 * day)) := by decide +kernel
  obtain ⟨x, hx, -, -, -, hcount⟩ :=
    ((runs_through_matches built naive rfl start hstart).1 1 _).mp hsecond
  have hinstant : (Moment.utc (start.instant + 14 * day)).instant = x := by
    rw [hx, Moment.instant_utc]
  refine ⟨a, start, _, built, naive, rfl, hstart, by decide +kernel, hsecond, ?_, rfl⟩
  rw [hinstant]
  exact hcount

end Guildhall.Schedule.At
