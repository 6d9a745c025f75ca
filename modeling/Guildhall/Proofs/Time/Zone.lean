import Guildhall.Proofs.Time.Calendar
import Guildhall.Time.Zone

/-!
# Clocks that are put forward and back

The two changes of a year are far from each other, from the turn of the year and from midnight. So
the order of the days is the order of their instants, whatever the clocks do in between. The order
of the hours is not: a time that is skipped comes, by the clocks before the gap, after times that
the clocks show once they have been put forward.
-/

namespace Guildhall.Time

theorem YearlyChange.exists_index (c : YearlyChange) (year : Nat) :
    ∃ index : Nat, index ≤ 6 + 7 * (c.week - 1) ∧
      c.wall year = newYear year + (daysBeforeMonth year c.month + index) * day + c.time := by
  have hfirst : (c.weekday + 7 - (weekdayOf (Date.mk year c.month 1).number + 1) % 7) % 7 ≤ 6 := by
    omega
  unfold wall
  dsimp only
  split
  · refine ⟨_, Nat.add_le_add_right hfirst _, ?_⟩
    simp only [newYear, Date.number, Int.ofNat_eq_natCast, day_eq]
    push_cast
    omega
  · refine ⟨_, (Nat.sub_le _ 7).trans (Nat.add_le_add_right hfirst _), ?_⟩
    simp only [newYear, Date.number, Int.ofNat_eq_natCast, day_eq]
    push_cast
    omega

theorem YearlyChange.exists_midnight (c : YearlyChange) (year : Nat) :
    ∃ number : Int, c.wall year = number * day + c.time :=
  ⟨_, rfl⟩

namespace Zone

def yearAt (z : Zone) (instant : Int) : Nat := (dateOfWall (instant + z.standard)).year

theorem yearAt_eq (z : Zone) (instant : Int) :
    z.yearAt instant = (dateOfWall (instant + z.standard)).year :=
  rfl

theorem inSummer_eq (z : Zone) (s : Summer) (instant : Int) :
    z.inSummer s instant =
      let begins := s.begins.wall (z.yearAt instant) - z.standard
      let finishes := s.finishes.wall (z.yearAt instant) - s.offset
      if begins ≤ finishes then decide (begins ≤ instant) && decide (instant < finishes)
      else !(decide (finishes ≤ instant) && decide (instant < begins)) := by
  rw [yearAt_eq]
  rfl

/-- The clocks are put forward and back once a year, by at most an hour, more than a month from the
turn of the year and from each other. What is skipped or comes twice does not reach midnight. -/
structure Seasonal (z : Zone) (s : Summer) : Prop where
  summer : z.summer = some s
  forward : z.standard < s.offset
  shift : s.offset ≤ z.standard + hour
  begins {year : Nat} (h : 1 ≤ year) : newYear year + 30 * day ≤ s.begins.wall year ∧
    s.begins.wall year + 30 * day ≤ newYear (year + 1)
  finishes {year : Nat} (h : 1 ≤ year) : newYear year + 30 * day ≤ s.finishes.wall year ∧
    s.finishes.wall year + 30 * day ≤ newYear (year + 1)
  apart : (∀ year, 1 ≤ year → s.begins.wall year + 30 * day ≤ s.finishes.wall year) ∨
    ∀ year, 1 ≤ year → s.finishes.wall year + 30 * day ≤ s.begins.wall year
  gap : 0 ≤ s.begins.time ∧ s.begins.time + 2 * hour ≤ day
  repeated : hour ≤ s.finishes.time ∧ s.finishes.time ≤ day

namespace Seasonal

variable {z : Zone} {s : Summer} {i j k w : Int}

theorem yearAt_pos : 1 ≤ z.yearAt i := by
  rw [yearAt_eq]
  exact year_dateOfWall_pos _

theorem inSummer_north (h : z.Seasonal s)
    (hnorth : ∀ year, 1 ≤ year → s.begins.wall year + 30 * day ≤ s.finishes.wall year) (i : Int) :
    z.inSummer s i = true ↔ s.begins.wall (z.yearAt i) - z.standard ≤ i ∧
      i < s.finishes.wall (z.yearAt i) - s.offset := by
  have hshift := h.shift
  have hyear := hnorth (z.yearAt i) yearAt_pos
  have hwithin : s.begins.wall (z.yearAt i) - z.standard ≤
      s.finishes.wall (z.yearAt i) - s.offset := by
    simp only [day_eq, hour_eq] at *
    omega
  rw [inSummer_eq]
  simp [hwithin]

theorem inSummer_south (h : z.Seasonal s)
    (hsouth : ∀ year, 1 ≤ year → s.finishes.wall year + 30 * day ≤ s.begins.wall year) (i : Int) :
    z.inSummer s i = true ↔ i < s.finishes.wall (z.yearAt i) - s.offset ∨
      s.begins.wall (z.yearAt i) - z.standard ≤ i := by
  have hforward := h.forward
  have hyear := hsouth (z.yearAt i) yearAt_pos
  have hwithin : ¬ s.begins.wall (z.yearAt i) - z.standard ≤
      s.finishes.wall (z.yearAt i) - s.offset := by
    simp only [day_eq] at *
    omega
  rw [inSummer_eq]
  simp only [hwithin, if_false, Bool.not_eq_true', Bool.and_eq_false_iff,
    decide_eq_false_iff_not, Int.not_le, Int.not_lt]

/-- At the turn of the year the changes of the old year are past, and those of the new one are
still to come. -/
theorem same_year_or_turn (h : z.Seasonal s) (hlt : i < k) (hnear : k < i + day) :
    z.yearAt i = z.yearAt k ∨
      (s.begins.wall (z.yearAt i) - z.standard ≤ i ∧ s.finishes.wall (z.yearAt i) - s.offset ≤ i) ∧
        k < s.begins.wall (z.yearAt k) - z.standard ∧
          k < s.finishes.wall (z.yearAt k) - s.offset := by
  have hforward := h.forward
  have hshift := h.shift
  have hyears := year_or_turn (show i + z.standard ≤ k + z.standard by omega)
  rw [← yearAt_eq, ← yearAt_eq] at hyears
  refine hyears.imp_right fun hturn => ?_
  obtain ⟨-, hbegins⟩ := h.begins (yearAt_pos (z := z) (i := i))
  obtain ⟨-, hfinishes⟩ := h.finishes (yearAt_pos (z := z) (i := i))
  obtain ⟨hlater, -⟩ := h.begins (yearAt_pos (z := z) (i := k))
  obtain ⟨hlast, -⟩ := h.finishes (yearAt_pos (z := z) (i := k))
  simp only [day_eq, hour_eq] at *
  omega

/-- Between an instant in winter and a later one in summer the clocks have been put forward. -/
theorem begun (h : z.Seasonal s) (hi : ¬ z.inSummer s i = true) (hk : z.inSummer s k = true)
    (hlt : i < k) (hnear : k < i + day) :
    i < s.begins.wall (z.yearAt k) - z.standard ∧ s.begins.wall (z.yearAt k) - z.standard ≤ k := by
  have hyears := h.same_year_or_turn hlt hnear
  rcases h.apart with hnorth | hsouth
  · rw [h.inSummer_north hnorth] at hi hk
    rcases hyears with hsame | hturn
    · rw [hsame] at hi
      omega
    · omega
  · rw [h.inSummer_south hsouth] at hi hk
    rcases hyears with hsame | hturn
    · rw [hsame] at hi
      omega
    · omega

/-- Between an instant in summer and a later one in winter the clocks have been put back. -/
theorem finished (h : z.Seasonal s) (hi : z.inSummer s i = true) (hk : ¬ z.inSummer s k = true)
    (hlt : i < k) (hnear : k < i + day) :
    i < s.finishes.wall (z.yearAt k) - s.offset ∧
      s.finishes.wall (z.yearAt k) - s.offset ≤ k := by
  have hyears := h.same_year_or_turn hlt hnear
  rcases h.apart with hnorth | hsouth
  · rw [h.inSummer_north hnorth] at hi hk
    rcases hyears with hsame | hturn
    · rw [hsame] at hi
      omega
    · omega
  · rw [h.inSummer_south hsouth] at hi hk
    rcases hyears with hsame | hturn
    · rw [hsame] at hi
      omega
    · omega

theorem not_brief (h : z.Seasonal s) (hi : ¬ z.inSummer s i = true) (hj : z.inSummer s j = true)
    (hk : ¬ z.inSummer s k = true) (hij : i < j) (hjk : j < k) (hnear : k < i + day) : False := by
  have hbegun := h.begun hi hj hij (by omega)
  have hfinished := h.finished hj hk hjk (by omega)
  have hforward := h.forward
  have hshift := h.shift
  have hyears := h.same_year_or_turn hjk (by omega)
  simp only [day_eq, hour_eq] at *
  rcases hyears with hsame | hturn
  · rw [hsame] at hbegun
    rcases h.apart with hnorth | hsouth
    · have hyear := hnorth _ (yearAt_pos (z := z) (i := k))
      simp only [day_eq] at hyear
      omega
    · have hyear := hsouth _ (yearAt_pos (z := z) (i := k))
      simp only [day_eq] at hyear
      omega
  · omega

theorem not_brief_winter (h : z.Seasonal s) (hi : z.inSummer s i = true)
    (hj : ¬ z.inSummer s j = true) (hk : z.inSummer s k = true) (hij : i < j) (hjk : j < k)
    (hnear : k < i + day) : False := by
  have hfinished := h.finished hi hj hij (by omega)
  have hbegun := h.begun hj hk hjk (by omega)
  have hforward := h.forward
  have hshift := h.shift
  have hyears := h.same_year_or_turn hjk (by omega)
  simp only [day_eq, hour_eq] at *
  rcases hyears with hsame | hturn
  · rw [hsame] at hfinished
    rcases h.apart with hnorth | hsouth
    · have hyear := hnorth _ (yearAt_pos (z := z) (i := k))
      simp only [day_eq] at hyear
      omega
    · have hyear := hsouth _ (yearAt_pos (z := z) (i := k))
      simp only [day_eq] at hyear
      omega
  · omega

theorem wallAt_eq (h : z.Seasonal s) (i : Int) :
    z.inSummer s i = true ∧ z.wallAt i = i + s.offset ∨
      ¬ z.inSummer s i = true ∧ z.wallAt i = i + z.standard := by
  simp only [wallAt, offsetAt, h.summer]
  by_cases hi : z.inSummer s i = true
  · simp [hi]
  · simp [hi]

/-- How the clocks come to show a time: in summer, in winter only, or not at all. -/
inductive Reading (z : Zone) (s : Summer) (w : Int) : Prop
  | summer (shown : z.inSummer s (w - s.offset) = true) (instant : z.instantOf w = w - s.offset)
      (listed : z.instants w ≠ [])
  | winter (early : ¬ z.inSummer s (w - s.offset) = true)
      (shown : ¬ z.inSummer s (w - z.standard) = true) (instant : z.instantOf w = w - z.standard)
      (listed : z.instants w ≠ [])
  | skipped (early : ¬ z.inSummer s (w - s.offset) = true)
      (late : z.inSummer s (w - z.standard) = true) (instant : z.instantOf w = w - z.standard)
      (listed : z.instants w = [])

theorem has_summer (h : z.Seasonal s) (w : Int) :
    z.has w s.offset = z.inSummer s (w - s.offset) := by
  have hne : z.standard ≠ s.offset := Int.ne_of_lt h.forward
  cases hs : z.inSummer s (w - s.offset) <;> simp [has, offsetAt, h.summer, hs, hne]

theorem has_winter (h : z.Seasonal s) (w : Int) :
    z.has w z.standard = !z.inSummer s (w - z.standard) := by
  have hne : z.standard ≠ s.offset := Int.ne_of_lt h.forward
  cases hs : z.inSummer s (w - z.standard) <;> simp [has, offsetAt, h.summer, hs, hne.symm]

theorem reading (h : z.Seasonal s) (w : Int) : Reading z s w := by
  have hsummer := h.has_summer w
  have hwinter := h.has_winter w
  by_cases hearly : z.inSummer s (w - s.offset) = true
  · apply Reading.summer hearly <;> simp [instantOf, instants, h.summer, hsummer, hearly]
  · by_cases hlate : z.inSummer s (w - z.standard) = true
    · apply Reading.skipped hearly hlate <;>
        simp [instantOf, instants, h.summer, hsummer, hwinter, hearly, hlate]
    · apply Reading.winter hearly hlate <;>
        simp [instantOf, instants, h.summer, hsummer, hwinter, hearly, hlate]

/-- The last instant at which the clocks show a time is in winter, or else it is the only one. -/
theorem last_eq (h : z.Seasonal s) {last : Int} (hlast : (z.instants w).getLast? = some last) :
    last = w - z.standard ∨
      last = w - s.offset ∧ z.inSummer s last = true ∧ z.inSummer s (w - z.standard) = true := by
  have hsummer := h.has_summer w
  have hwinter := h.has_winter w
  cases hlate : z.inSummer s (w - z.standard) with
  | false =>
    left
    cases hearly : z.inSummer s (w - s.offset) <;>
      simpa [instants, h.summer, hsummer, hwinter, hearly, hlate, eq_comm] using hlast
  | true =>
    right
    cases hearly : z.inSummer s (w - s.offset) with
    | false => simp [instants, h.summer, hsummer, hwinter, hearly, hlate] at hlast
    | true =>
      have heq : last = w - s.offset := by
        simpa [instants, h.summer, hsummer, hwinter, hearly, hlate, eq_comm] using hlast
      exact ⟨heq, heq ▸ hearly, rfl⟩

/-- What the clocks are still to show comes, at the last, after now. -/
theorem lt_last (h : z.Seasonal s) (hlt : z.wallAt i < w) {last : Int}
    (hlast : (z.instants w).getLast? = some last) : i < last := by
  have hforward := h.forward
  have hshift := h.shift
  rcases h.last_eq hlast with hwinter | ⟨hsummer, hshown, hlate⟩
  · rcases h.wallAt_eq i with ⟨-, hwall⟩ | ⟨-, hwall⟩ <;> omega
  · rcases h.wallAt_eq i with ⟨-, hwall⟩ | ⟨hi, hwall⟩
    · omega
    · -- Now would be in a winter of less than an hour.
      by_contra hnot
      have hne : last ≠ i := fun heq => hi (heq ▸ hshown)
      refine h.not_brief_winter hshown hi hlate (by omega) (by omega) ?_
      simp only [hour_eq, day_eq] at *
      omega

theorem instantOf_mem (h : z.Seasonal s) (w : Int) :
    w - s.offset ≤ z.instantOf w ∧ z.instantOf w ≤ w - z.standard := by
  have hforward := h.forward
  cases h.reading w with
  | summer shown instant => omega
  | winter early shown instant => omega
  | skipped early late instant => omega

theorem le_wallAt_instantOf (h : z.Seasonal s) (w : Int) : w ≤ z.wallAt (z.instantOf w) := by
  have hforward := h.forward
  cases h.reading w with
  | summer shown instant =>
    rcases h.wallAt_eq (z.instantOf w) with ⟨-, hwall⟩ | ⟨hnot, -⟩
    · omega
    · exact absurd (instant ▸ shown) hnot
  | winter early shown instant =>
    rcases h.wallAt_eq (z.instantOf w) with ⟨-, hwall⟩ | ⟨-, hwall⟩ <;> omega
  | skipped early late instant =>
    rcases h.wallAt_eq (z.instantOf w) with ⟨-, hwall⟩ | ⟨-, hwall⟩ <;> omega

theorem instantOf_lt (h : z.Seasonal s) {later : Int} (hlt : w < later)
    (hshown : z.instants w ≠ []) : z.instantOf w < z.instantOf later := by
  have hforward := h.forward
  have hshift := h.shift
  obtain ⟨hlow, -⟩ := h.instantOf_mem later
  cases h.reading w with
  | summer shown instant => omega
  | skipped early late instant listed => exact absurd listed hshown
  | winter early shown instant =>
    cases h.reading later with
    | winter early' shown' instant' => omega
    | skipped early' late' instant' => omega
    | summer shown' instant' =>
      -- The later time would be shown in a summer of less than an hour.
      by_contra hnot
      rw [← instant] at shown
      rw [← instant'] at shown'
      have hne : z.instantOf later ≠ z.instantOf w := fun heq => shown (heq ▸ shown')
      refine h.not_brief early shown' shown (by omega) (by omega) ?_
      simp only [hour_eq, day_eq] at *
      omega

theorem past (h : z.Seasonal s) (hdate : w / day < z.wallAt i / day) : z.instantOf w ≤ i := by
  have hforward := h.forward
  have hshift := h.shift
  have hlt : w < z.wallAt i := by
    by_contra hnot
    have hle := Int.ediv_le_ediv (show 0 < day by decide) (Int.not_lt.mp hnot)
    omega
  by_contra hnot
  cases h.reading w with
  | summer shown instant =>
    rcases h.wallAt_eq i with ⟨-, hwall⟩ | ⟨-, hwall⟩ <;> omega
  | winter early shown instant =>
    rcases h.wallAt_eq i with ⟨hi, hwall⟩ | ⟨-, hwall⟩
    · refine h.not_brief early hi shown (by omega) (by omega) ?_
      simp only [hour_eq, day_eq] at *
      omega
    · omega
  | skipped early late instant =>
    have hbegun := h.begun early late (by omega) (by simp only [hour_eq, day_eq] at *; omega)
    obtain ⟨number, hmidnight⟩ := s.begins.exists_midnight (z.yearAt (w - z.standard))
    have hgap := h.gap
    rw [hmidnight] at hbegun
    simp only [hour_eq, day_eq] at *
    rcases h.wallAt_eq i with ⟨-, hwall⟩ | ⟨-, hwall⟩ <;> omega

theorem ahead (h : z.Seasonal s) (hdate : z.wallAt i / day < w / day) : i < z.instantOf w := by
  have hforward := h.forward
  have hshift := h.shift
  have hlt : z.wallAt i < w := by
    by_contra hnot
    have hle := Int.ediv_le_ediv (show 0 < day by decide) (Int.not_lt.mp hnot)
    omega
  by_contra hnot
  cases h.reading w with
  | winter early shown instant =>
    rcases h.wallAt_eq i with ⟨-, hwall⟩ | ⟨-, hwall⟩ <;> omega
  | skipped early late instant =>
    rcases h.wallAt_eq i with ⟨-, hwall⟩ | ⟨-, hwall⟩ <;> omega
  | summer shown instant =>
    rcases h.wallAt_eq i with ⟨-, hwall⟩ | ⟨hi, hwall⟩
    · omega
    · have hne : w - s.offset ≠ i := fun heq => hi (heq ▸ shown)
      have hfinished := h.finished shown hi (by omega)
        (by simp only [hour_eq, day_eq] at *; omega)
      obtain ⟨number, hmidnight⟩ := s.finishes.exists_midnight (z.yearAt i)
      have hrepeated := h.repeated
      rw [hmidnight] at hfinished
      simp only [hour_eq, day_eq] at *
      omega

end Seasonal

/-- The days follow one another by the clocks as they do in time. Within a day a time that is not
skipped comes before every later one, and no time comes an hour after a later one. -/
structure Regular (z : Zone) : Prop where
  past {i w : Int} (hdate : w / day < z.wallAt i / day) : z.instantOf w ≤ i
  ahead {i w : Int} (hdate : z.wallAt i / day < w / day) : i < z.instantOf w
  le_wallAt (w : Int) : w ≤ z.wallAt (z.instantOf w)
  increasing {w later : Int} (hlt : w < later) (hshown : z.instants w ≠ []) :
    z.instantOf w < z.instantOf later
  lag {w later : Int} (hlt : w < later) : z.instantOf w < z.instantOf later + hour

section Fixed

variable {z : Zone} (h : z.summer = none)

include h

theorem wallAt_of_fixed (i : Int) : z.wallAt i = i + z.standard := by
  simp [wallAt, offsetAt, h]

theorem instantOf_of_fixed (w : Int) : z.instantOf w = w - z.standard := by
  simp [instantOf, instants, h]

theorem wallAt_instantOf_of_fixed (w : Int) : z.wallAt (z.instantOf w) = w := by
  rw [wallAt_of_fixed h, instantOf_of_fixed h]
  omega

theorem regular_of_fixed : z.Regular := by
  have hday : 0 < day := by decide
  constructor
  case past =>
    intro i w hdate
    rw [wallAt_of_fixed h] at hdate
    rw [instantOf_of_fixed h]
    by_contra hnot
    have hle := Int.ediv_le_ediv hday (show i + z.standard ≤ w by omega)
    omega
  case ahead =>
    intro i w hdate
    rw [wallAt_of_fixed h] at hdate
    rw [instantOf_of_fixed h]
    by_contra hnot
    have hle := Int.ediv_le_ediv hday (show w ≤ i + z.standard by omega)
    omega
  case le_wallAt =>
    intro w
    exact Int.le_of_eq (wallAt_instantOf_of_fixed h w).symm
  case increasing =>
    intro w later hlt _
    rw [instantOf_of_fixed h, instantOf_of_fixed h]
    omega
  case lag =>
    intro w later hlt
    rw [instantOf_of_fixed h, instantOf_of_fixed h, hour_eq]
    omega

end Fixed

theorem Seasonal.regular {z : Zone} {s : Summer} (h : z.Seasonal s) : z.Regular where
  past := h.past
  ahead := h.ahead
  le_wallAt := h.le_wallAt_instantOf
  increasing := h.instantOf_lt
  lag {w later} hlt := by
    have hshift := h.shift
    have hw := h.instantOf_mem w
    have hlater := h.instantOf_mem later
    omega

/-- The first and the last day of a year on which a change may come. -/
def span (c : YearlyChange) : Nat × Nat :=
  (daysBeforeMonth 1 c.month, daysBeforeMonth 1 c.month + 7 * (c.week - 1) + 7)

theorem wall_mem_span {c : YearlyChange} (hmonth : 3 ≤ c.month)
    (htime : 0 ≤ c.time ∧ c.time ≤ day) (year : Nat) :
    newYear year + (span c).1 * day ≤ c.wall year ∧
      c.wall year ≤ newYear year + ((span c).2 + 1) * day := by
  obtain ⟨index, hindex, hwall⟩ := c.exists_index year
  obtain ⟨hlow, hhigh⟩ := daysBeforeMonth_mem year hmonth
  rw [hwall]
  simp only [span, day_eq] at *
  push_cast
  omega

/-- Whether the changes of a year keep the distances that make the zone seasonal. -/
def Spaced (minutes summerMinutes : Int) (b f : YearlyChange) : Prop :=
  (minutes < summerMinutes ∧ summerMinutes ≤ minutes + 60) ∧
    (3 ≤ b.month ∧ 30 ≤ (span b).1 ∧ (span b).2 + 31 ≤ 365) ∧
    (3 ≤ f.month ∧ 30 ≤ (span f).1 ∧ (span f).2 + 31 ≤ 365) ∧
    ((span b).2 + 31 ≤ (span f).1 ∨ (span f).2 + 31 ≤ (span b).1) ∧
    (0 ≤ b.time ∧ b.time + 2 * hour ≤ day) ∧ hour ≤ f.time ∧ f.time ≤ day

instance (minutes summerMinutes : Int) (b f : YearlyChange) :
    Decidable (Spaced minutes summerMinutes b f) := by
  unfold Spaced
  infer_instance

theorem seasonal_varying {key : String} {minutes summerMinutes : Int} {b f : YearlyChange}
    (h : Spaced minutes summerMinutes b f) :
    (varying key minutes summerMinutes b f).Seasonal ⟨summerMinutes * minute, b, f⟩ := by
  obtain ⟨hclocks, ⟨hb, hb', hb''⟩, ⟨hf, hf', hf''⟩, hapart, hgap, hrepeated⟩ := h
  have hbegins := wall_mem_span hb (by simp only [hour_eq] at hgap; omega)
  have hfinishes := wall_mem_span hf (by simp only [hour_eq] at hrepeated; omega)
  have hlength {year : Nat} (h : 1 ≤ year) : newYear year + 365 * day ≤ newYear (year + 1) := by
    have hdays := daysBeforeYear_succ h
    simp only [newYear, daysInMonth, day_eq] at *
    split at hdays <;> omega
  have hminute : minute = 60000000 := by decide
  simp only [day_eq, hour_eq] at *
  constructor
  case summer => rfl
  case forward => simp only [varying, hminute]; omega
  case shift => simp only [varying, hminute, hour_eq]; omega
  case begins =>
    intro year hyear
    have h := hbegins year
    have h' := hlength hyear
    simp only [day_eq]
    omega
  case finishes =>
    intro year hyear
    have h := hfinishes year
    have h' := hlength hyear
    simp only [day_eq]
    omega
  case apart =>
    refine hapart.imp (fun hnorth year _ => ?_) fun hsouth year _ => ?_
    · have h := hbegins year
      have h' := hfinishes year
      simp only [day_eq]
      omega
    · have h := hbegins year
      have h' := hfinishes year
      simp only [day_eq]
      omega
  case gap => simpa only [day_eq, hour_eq] using hgap
  case repeated => simpa only [day_eq, hour_eq] using hrepeated

theorem fixed_or_seasonal {z : Zone} (hz : z ∈ known) : z.summer = none ∨ ∃ s, z.Seasonal s := by
  simp only [known, List.mem_cons, List.not_mem_nil, or_false] at hz
  rcases hz with rfl | rfl | rfl | rfl | rfl | rfl | rfl | rfl | rfl
  case inr.inl => exact .inr ⟨_, seasonal_varying (by decide)⟩
  case inr.inr.inl => exact .inr ⟨_, seasonal_varying (by decide)⟩
  case inr.inr.inr.inl => exact .inr ⟨_, seasonal_varying (by decide)⟩
  case inr.inr.inr.inr.inl => exact .inr ⟨_, seasonal_varying (by decide)⟩
  case inr.inr.inr.inr.inr.inl => exact .inr ⟨_, seasonal_varying (by decide)⟩
  all_goals exact .inl rfl

theorem mem_known_of_ofKey {z : Zone} {key : String} (h : ofKey key = .ok z) : z ∈ known := by
  unfold ofKey at h
  extract_lets cs pieces parts normal at h
  split_ifs at h
  split at h
  case h_1 found hfind =>
    cases h
    exact List.mem_of_find?_eq_some hfind
  case h_2 => cases h

theorem lt_last_of_known {z : Zone} (hz : z ∈ known) {i w last : Int} (hlt : z.wallAt i < w)
    (hlast : (z.instants w).getLast? = some last) : i < last := by
  rcases fixed_or_seasonal hz with hfixed | ⟨s, hseasonal⟩
  · rw [wallAt_of_fixed hfixed] at hlt
    have heq : last = w - z.standard := by simpa [instants, hfixed, eq_comm] using hlast
    omega
  · exact hseasonal.lt_last hlt hlast

theorem regular_of_known {z : Zone} (hz : z ∈ known) : z.Regular := by
  rcases fixed_or_seasonal hz with hfixed | ⟨s, hseasonal⟩
  · exact regular_of_fixed hfixed
  · exact hseasonal.regular

theorem standard_of_known {z : Zone} (hz : z ∈ known) :
    -day < z.standard ∧ z.standard + hour < day := by
  revert z
  decide

/-- The clocks of a known zone are less than a day apart from universal time. -/
theorem near_of_known {z : Zone} (hz : z ∈ known) (i : Int) :
    (i < z.wallAt i + day ∧ z.wallAt i < i + day) ∧
      i < z.instantOf i + day ∧ z.instantOf i < i + day := by
  have hstandard := standard_of_known hz
  rcases fixed_or_seasonal hz with hfixed | ⟨s, hseasonal⟩
  · rw [wallAt_of_fixed hfixed, instantOf_of_fixed hfixed]
    simp only [hour_eq] at hstandard
    omega
  · have hforward := hseasonal.forward
    have hshift := hseasonal.shift
    have hinstant := hseasonal.instantOf_mem i
    rcases hseasonal.wallAt_eq i with ⟨-, hwall⟩ | ⟨-, hwall⟩ <;> omega

end Zone

end Guildhall.Time
