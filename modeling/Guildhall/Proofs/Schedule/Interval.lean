import Guildhall.Proofs.Base
import Guildhall.Proofs.Time.Calendar
import Guildhall.Schedule.Interval
import Mathlib.Order.Bounds.Basic
import Mathlib.Tactic.Common

/-!
# The grid of an interval schedule

The runs at a fixed distance from a first one form a grid. From any point of the grid that is due,
the schedule goes to the first point after now, and which point that is depends on now alone.
-/

namespace Guildhall.Schedule.Interval

open Time

variable {i : Interval} {origin previous now : Moment} {j : Nat}

/-- The run that comes `j` intervals after the first one. -/
def point (i : Interval) (origin : Moment) (j : Nat) : Moment :=
  { origin with wall := origin.wall + j * i.length }

/-- How many intervals after the first run the first run after `now` comes. -/
def reach (i : Interval) (origin now : Moment) : Nat :=
  ((now.instant - origin.instant) / i.length + 1).toNat

@[simp]
theorem point_zero : i.point origin 0 = origin := by simp [point]

theorem point_wall (i : Interval) (origin : Moment) (j : Nat) :
    (i.point origin j).wall = origin.wall + j * i.length := rfl

theorem point_instant (i : Interval) (origin : Moment) (j : Nat) :
    (i.point origin j).instant = origin.instant + j * i.length := by
  simp only [point, Moment.instant]
  omega

theorem point_point (i : Interval) (origin : Moment) (j k : Nat) :
    i.point (i.point origin j) k = i.point origin (j + k) := by
  simp only [point, Int.natCast_add, Int.add_mul, Int.add_assoc]

/-- A run of the grid comes after `now` if and only if it is the first such run or a later one. -/
theorem lt_point_iff : now.instant < (i.point origin j).instant ↔ i.reach origin now ≤ j := by
  rw [point_instant, reach, Int.toNat_le]
  calc now.instant < origin.instant + j * i.length
      ↔ now.instant - origin.instant < j * i.length := by omega
    _ ↔ (now.instant - origin.instant) / i.length < j := (Int.ediv_lt_iff_lt_mul i.positive).symm
    _ ↔ (now.instant - origin.instant) / i.length + 1 ≤ j := Iff.rfl

theorem isLeast_reach (i : Interval) (origin now : Moment) :
    IsLeast {j : Nat | now.instant < (i.point origin j).instant} (i.reach origin now) :=
  ⟨lt_point_iff.mpr le_rfl, fun _ hj => lt_point_iff.mp hj⟩

theorem reach_mono {earlier later : Moment} (h : earlier.instant ≤ later.instant) :
    i.reach origin earlier ≤ i.reach origin later := by
  rw [← lt_point_iff]
  have hlater : later.instant < (i.point origin (i.reach origin later)).instant :=
    lt_point_iff.mpr le_rfl
  omega

theorem steps_point (hdue : (i.point origin j).instant ≤ now.instant) :
    i.steps (i.point origin j) now = i.reach origin now - j := by
  have hreach : j < i.reach origin now := by
    by_contra hnot
    have hlate : now.instant < (i.point origin j).instant := lt_point_iff.mpr (by omega)
    omega
  have hshift : (now.instant - (i.point origin j).instant) / i.length =
      (now.instant - origin.instant) / i.length - j := by
    rw [point_instant, ← Int.sub_sub, Int.sub_mul_ediv_right _ _ (Int.ne_of_gt i.positive)]
  rw [steps, hshift]
  rw [reach] at hreach ⊢
  omega

/-- Two wall-clock times that can be represented are no further apart than a duration may be. -/
theorem durationInRange_sub {a b : Int} (ha : wallInRange a = true) (hb : wallInRange b = true) :
    durationInRange (b - a) = true := by
  have hlimit : wallLimit = 315537897600000000 := by decide
  rw [wallInRange_iff, hlimit] at ha hb
  simp only [durationInRange, durationLimit, day_eq, Bool.and_eq_true, decide_eq_true_eq]
  omega

theorem wallInRange_point {k : Nat} (hle : j ≤ k) (hfirst : wallInRange origin.wall = true)
    (hlast : wallInRange (i.point origin k).wall = true) :
    wallInRange (i.point origin j).wall = true := by
  have hlow : 0 ≤ (j : Int) * i.length := Int.mul_nonneg (by omega) (Int.le_of_lt i.positive)
  have hhigh : (j : Int) * i.length ≤ k * i.length :=
    Int.mul_le_mul_of_nonneg_right (by omega) (Int.le_of_lt i.positive)
  rw [wallInRange_iff] at hfirst hlast ⊢
  rw [point_wall] at hlast ⊢
  omega

/-- The step from one run to the next is as many intervals as lead past `now`, and at least one. -/
theorem steps_eq (i : Interval) (previous now : Moment) :
    i.steps previous now = (max 1 (i.reach previous now) : Nat) := by
  rw [steps, reach]
  omega

theorem isLeast_steps (i : Interval) (previous now : Moment) :
    IsLeast {n : Nat | 1 ≤ n ∧ now.instant < previous.instant + n * i.length}
      (max 1 (i.reach previous now)) := by
  have hlater (n : Nat) : now.instant < previous.instant + n * i.length ↔
      i.reach previous now ≤ n := by
    rw [← lt_point_iff, point_instant]
  constructor
  · exact ⟨le_max_left _ _, (hlater _).mpr (le_max_right _ _)⟩
  · rintro n ⟨hpos, hn⟩
    exact max_le hpos ((hlater n).mp hn)

/-- The next run is the point of the grid that the steps lead to, if it can be represented. -/
theorem nextAfter_eq (hprevious : wallInRange previous.wall = true) :
    i.nextAfter previous now =
      if wallInRange (i.point previous (max 1 (i.reach previous now))).wall = true then
        .ok (i.point previous (max 1 (i.reach previous now)))
      else .error .outOfRange := by
  rw [nextAfter, steps_eq]
  generalize max 1 (i.reach previous now) = n
  have hwall : previous.wall + n * i.length = (i.point previous n).wall := rfl
  by_cases hlength : durationInRange (n * i.length) = true
  · simp only [inRange, hlength, if_true, later, bind, Except.bind, hwall]
    rfl
  · have hout : ¬ wallInRange (i.point previous n).wall = true := by
      intro hnext
      apply hlength
      rw [show (n : Int) * i.length = (i.point previous n).wall - previous.wall by omega]
      exact durationInRange_sub hprevious hnext
    rw [inRange, if_neg hlength, if_neg hout]
    rfl

theorem nextAfter_point (hdue : (i.point origin j).instant ≤ now.instant)
    (hfrom : wallInRange (i.point origin j).wall)
    (hto : wallInRange (i.point origin (i.reach origin now)).wall) :
    i.nextAfter (i.point origin j) now = .ok (i.point origin (i.reach origin now)) := by
  have hreach : j + max 1 (i.reach (i.point origin j) now) = i.reach origin now := by
    have hsteps := steps_point hdue
    rw [steps_eq] at hsteps
    omega
  rw [nextAfter_eq hfrom, point_point, hreach, if_pos hto]

theorem eq_point_of_nextAfter {next : Moment} (h : i.nextAfter previous now = .ok next) :
    next = i.point previous (max 1 (i.reach previous now)) := by
  obtain ⟨micros, hmicros, h⟩ := bind_eq_ok.mp h
  unfold inRange at hmicros
  unfold later at h
  split_ifs at hmicros h
  cases hmicros
  cases h
  rw [steps_eq]
  rfl

theorem lt_of_nextAfter {next : Moment} (h : i.nextAfter previous now = .ok next) :
    previous.instant < next.instant ∧ now.instant < next.instant := by
  obtain ⟨⟨hpos, hlater⟩, -⟩ := isLeast_steps i previous now
  rw [eq_point_of_nextAfter h, point_instant]
  generalize max 1 (i.reach previous now) = n at hpos hlater ⊢
  have hstep : 0 < (n : Int) * i.length := Int.mul_pos (by omega) i.positive
  exact ⟨by omega, hlater⟩

theorem ofDuration_eq_ok {length : Int} : ofDuration length = .ok i ↔ i.length = length := by
  unfold ofDuration
  constructor
  · intro h
    split at h
    · cases h
      rfl
    · cases h
  · rintro rfl
    rw [dif_pos i.positive]

/-- A number of seconds is rounded to microseconds, and what is left is taken as a duration. -/
theorem ofSeconds_eq_ok {amount : Value} : ofSeconds amount = .ok i ↔
    sumParts [(1000000, amount)] 0 .zero = .ok i.length ∧ durationInRange i.length = true := by
  have hseconds : ofSeconds amount = (do
      ofDuration (← inRange (← sumParts [(1000000, amount)] 0 .zero))) := by
    simp [ofSeconds, ofParts, units]
  simp only [hseconds, bind_eq_ok, ofDuration_eq_ok]
  constructor
  · rintro ⟨total, hsum, length, hrange, rfl⟩
    unfold inRange at hrange
    split_ifs at hrange with hwithin
    cases hrange
    exact ⟨hsum, hwithin⟩
  · rintro ⟨hsum, hwithin⟩
    exact ⟨i.length, hsum, i.length, if_pos hwithin, rfl⟩

inductive Built : Interval → Prop
  | duration {length : Int} {i : Interval} (representable : durationInRange length = true)
      (made : ofDuration length = .ok i) : Built i
  | seconds {amount : Value} {i : Interval} (made : ofSeconds amount = .ok i) : Built i

theorem Built.length_mem (built : i.Built) : 1 ≤ i.length ∧ durationInRange i.length = true := by
  refine ⟨i.positive, ?_⟩
  cases built with
  | duration representable made => exact ofDuration_eq_ok.mp made ▸ representable
  | seconds made => exact (ofSeconds_eq_ok.mp made).2

/-- Whatever number of seconds or duration an interval is made of, it is at least one microsecond
long. From any run and at any time, before the run or after it, the schedule goes on by the least
number of intervals that leads past now, and by at least one. The next run has the offset of the
one before it; beyond the years that can be represented there is none. -/
theorem goes_to_least_point (built : i.Built) (hprevious : wallInRange previous.wall = true)
    (now : Moment) :
    (1 ≤ i.length ∧ durationInRange i.length = true) ∧
      ∃ n : Nat, IsLeast {n : Nat | 1 ≤ n ∧ now.instant < previous.instant + n * i.length} n ∧
        (wallInRange (previous.wall + n * i.length) = true →
          i.nextAfter previous now = .ok ⟨previous.wall + n * i.length, previous.offset⟩) ∧
        (wallInRange (previous.wall + n * i.length) = false →
          i.nextAfter previous now = .error .outOfRange) := by
  refine ⟨built.length_mem, _, isLeast_steps i previous now, fun hin => ?_, fun hout => ?_⟩
  · rw [nextAfter_eq hprevious]
    exact if_pos hin
  · rw [nextAfter_eq hprevious]
    exact if_neg (ne_true_of_eq_false hout)

/-- A tenth of a second, by the clocks of Kathmandu, asked exactly three intervals after the run:
the next run is the fourth one. -/
theorem past_the_third_tenth :
    ∃ (i : Interval) (previous now : Moment), i.Built ∧ wallInRange previous.wall = true ∧
      ofSeconds (.float (.ofDecimal false 1 (-1))) = .ok i ∧ i.length = 100000 ∧
      now.instant = previous.instant + 3 * i.length ∧
      i.nextAfter previous now = .ok ⟨previous.wall + 4 * i.length, previous.offset⟩ := by
  let previous : Moment := ⟨wallOfDate ⟨2024, 1, 1⟩, 5 * hour + 45 * minute⟩
  let now : Moment := .utc (previous.instant + 300000)
  obtain ⟨i, made, hlength⟩ : ∃ i,
      ofSeconds (.float (.ofDecimal false 1 (-1))) = .ok i ∧ i.length = 100000 :=
    ⟨⟨100000, by decide⟩, by decide +kernel, rfl⟩
  have hprevious : wallInRange previous.wall = true := by decide +kernel
  have hnow : now.instant = previous.instant + 3 * i.length := by
    rw [hlength]
    exact Moment.instant_utc _
  obtain ⟨-, n, ⟨⟨-, hlater⟩, hleast⟩, hnext, -⟩ :=
    goes_to_least_point (.seconds made) hprevious now
  have hfourth : n = 4 := by
    have hle : n ≤ 4 := hleast ⟨by decide, by omega⟩
    rw [hnow, hlength] at hlater
    omega
  rw [hfourth] at hnext
  refine ⟨i, previous, now, .seconds made, hprevious, made, hlength, hnow, hnext ?_⟩
  rw [hlength]
  decide +kernel

end Guildhall.Schedule.Interval
