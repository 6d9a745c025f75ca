import Guildhall.Proofs.Schedule.Times
import Guildhall.Proofs.Time.Zone
import Mathlib.Order.Bounds.Basic
import Mathlib.Order.MinMax

/-!
# The search for the next time of day

A schedule by times of day looks at one day after another, and on each day at one time after
another. It looks at eight days, and on one of them it finds a run.
-/

namespace Guildhall

open Time

namespace Time.TimeOfDay

theorem micros_of_ofParts {h m s us : Int} {t : TimeOfDay} (ht : ofParts h m s us = .ok t) :
    0 ≤ t.micros ∧ t.micros < day := by
  unfold ofParts at ht
  split_ifs at ht with hhour hminute hsecond hmicros
  simp only [Bool.or_eq_true, decide_eq_true_eq, not_or] at hhour hminute hsecond hmicros
  cases ht
  simp only [hour, minute, second, day]
  omega

theorem micros_of_withOffset {t t' : TimeOfDay} {negative : Bool} {p : Parts}
    (h : t.withOffset negative p = some t') : t'.micros = t.micros := by
  unfold withOffset at h
  dsimp only at h
  split_ifs at h
  all_goals
    cases h
    rfl

theorem micros_of_ofText? {text : String} {t : TimeOfDay} (h : ofText? text = some t) :
    0 ≤ t.micros ∧ t.micros < day := by
  simp only [ofText?, readBytes, Option.bind_eq_bind, Option.bind_eq_some_iff] at h
  obtain ⟨⟨p, more⟩, -, time, hparts, h⟩ := h
  have hwithin : 0 ≤ time.micros ∧ time.micros < day := by
    cases hread : ofParts p.hour p.minute p.second p.micros with
    | error e => simp [hread, Except.toOption] at hparts
    | ok t =>
      simp only [hread, Except.toOption, Option.some.injEq] at hparts
      exact hparts ▸ micros_of_ofParts hread
  split at h
  case h_1 =>
    split_ifs at h
    cases h
    exact hwithin
  case h_2 =>
    split_ifs at h
    cases h
    exact hwithin
  case h_3 =>
    obtain ⟨⟨z, more⟩, -, h⟩ := Option.bind_eq_some_iff.mp h
    dsimp only at h
    split_ifs at h
    exact micros_of_withOffset h ▸ hwithin

end Time.TimeOfDay

namespace Schedule

theorem readWeekday_lt {v : Value} {d : Nat} (h : readWeekday v = .ok d) : d < 7 := by
  unfold readWeekday at h
  split at h
  case h_1 b => cases b <;> cases h <;> decide
  case h_2 i =>
    split_ifs at h with hrange
    cases h
    simp only [Bool.and_eq_true, decide_eq_true_eq] at hrange
    omega
  case h_3 s =>
    dsimp only at h
    split at h
    case h_1 i hfound =>
      cases h
      exact (List.findIdx?_eq_some_iff_getElem.mp hfound).1
    case h_2 => cases h
  case h_4 => cases h

theorem exists_weekday_of_items {items : List Value} {days : List Nat} (hne : items ≠ [])
    (h : (items.mapM readWeekday >>= fun read =>
      (pure (some ((List.range 7).filter (read.contains ·))) : Except Failure _)) =
        .ok (some days)) : ∃ d ∈ days, d < 7 := by
  obtain ⟨read, hread, h⟩ := bind_eq_ok.mp h
  cases h
  obtain ⟨item, rest, rfl⟩ := List.exists_cons_of_ne_nil hne
  rw [List.mapM_cons] at hread
  obtain ⟨d, hd, hread⟩ := bind_eq_ok.mp hread
  obtain ⟨more, -, hread⟩ := bind_eq_ok.mp hread
  cases hread
  have hlt := readWeekday_lt hd
  exact ⟨d, by simp [hlt], hlt⟩

theorem exists_weekday {v : Value} {days : List Nat} (h : readWeekdays v = .ok (some days)) :
    ∃ d ∈ days, d < 7 := by
  unfold readWeekdays at h
  split_ifs at h with hempty
  · cases h
  · simp only [Bool.not_eq_true', Bool.not_eq_false] at hempty
    dsimp only at h
    split at h
    case h_1 items =>
      exact exists_weekday_of_items (by rintro rfl; simp [Value.isTrue] at hempty) h
    case h_2 entries =>
      refine exists_weekday_of_items ?_ h
      simpa [Value.isTrue] using hempty
    case h_3 s =>
      refine exists_weekday_of_items ?_ h
      simpa [Value.isTrue, Scalar.isTrue] using hempty
    case h_4 => cases h

namespace At

/-- A schedule of given times, weekdays and zone, perhaps put into another zone since. -/
inductive Built : At → Prop
  | make {times : List TimeInput} {weekdays zone : Value} {a : At}
      (within : ∀ t, .time t ∈ times → 0 ≤ t.micros ∧ t.micros < day)
      (made : At.make times weekdays zone = .ok a) : Built a
  | inZone {a : At} (built : Built a) (zone : Zone) : Built { a with zone := zone }

/-- What the search relies on: there are times to look at, each of them within a day, and days to
look at. Times without a zone come in the order of the clock. -/
structure Proper (a : At) : Prop where
  timed : a.times ≠ []
  within : ∀ t ∈ a.times, 0 ≤ t.micros ∧ t.micros < day
  dated : ∀ days, a.weekdays = some days → ∃ d ∈ days, d < 7
  ordered : (∀ t ∈ a.times, t.offset = none) → a.times.Pairwise fun b c => b.micros < c.micros

theorem micros_of_read {input : TimeInput} {t : TimeOfDay} (h : input.read = .ok t)
    (hwithin : ∀ t, input = .time t → 0 ≤ t.micros ∧ t.micros < day) :
    0 ≤ t.micros ∧ t.micros < day := by
  cases input with
  | time t' =>
    cases h
    exact hwithin t' rfl
  | text s =>
    rw [TimeInput.read] at h
    split at h
    case h_1 t' hread =>
      cases h
      exact TimeOfDay.micros_of_ofText? hread
    case h_2 => cases h
  | other => cases h

theorem Built.proper {a : At} (built : a.Built) : a.Proper := by
  induction built with
  | inZone built zone ih => exact ⟨ih.timed, ih.within, ih.dated, ih.ordered⟩
  | make within made =>
    obtain ⟨given, hgiven, hsorted, hsome, hdays, -⟩ := exists_of_make made
    constructor
    case timed => exact hsome
    case within =>
      intro t ht
      obtain ⟨input, hinput, ht⟩ := mem_of_mapM_eq_ok hgiven (hsorted.given t ht)
      exact micros_of_read ht fun t' heq => within t' (heq ▸ hinput)
    case dated =>
      intro days hsome
      exact exists_weekday (hsome ▸ hdays)
    case ordered =>
      intro naive
      exact hsorted.increasing_micros fun t ht u hu => (naive t ht).trans (naive u hu).symm

variable {a : At} {after : Int} {number : Nat} {t : TimeOfDay}

def slot (number : Nat) (t : TimeOfDay) : Int := number * day + t.micros

theorem slot_div (h : 0 ≤ t.micros ∧ t.micros < day) : slot number t / day = number := by
  simp only [slot, day_eq] at *
  omega

/-- The instants at which the schedule has a run: those of its times on the days on which it
runs. -/
def runs (a : At) : Set Int :=
  {x | ∃ number, a.runsOn number = true ∧ ∃ t ∈ a.times, x = a.zone.instantOf (slot number t)}

/-- The number of the date that the clocks of the zone show at an instant. -/
def today (a : At) (instant : Int) : Nat := (a.zone.wallAt instant / day).toNat

/-- Whether an instant lies in the years 1 to 9999, by universal time and by the clocks. -/
def InYears (a : At) (instant : Int) : Prop :=
  wallInRange instant = true ∧ wallInRange (a.zone.wallAt instant) = true

instance (a : At) : DecidablePred a.InYears := by
  intro instant
  unfold InYears
  infer_instance

theorem Proper.exists_runsOn (proper : a.Proper) (number : Nat) :
    ∃ k, 1 ≤ k ∧ k ≤ 7 ∧ a.runsOn (number + k) = true := by
  unfold runsOn
  cases hdays : a.weekdays with
  | none => exact ⟨1, by omega, by omega, rfl⟩
  | some days =>
    obtain ⟨d, hd, hlt⟩ := proper.dated days hdays
    refine ⟨(d + 13 - number % 7) % 7 + 1, by omega, by omega, ?_⟩
    have hweekday : weekdayOf (number + ((d + 13 - number % 7) % 7 + 1)) = d := by
      unfold weekdayOf
      omega
    simpa [hweekday] using hd

theorem firstOfDay_eq_some {x : Int} (h : a.firstOfDay number after = some x) :
    ∃ front t back, a.times = front ++ t :: back ∧ x = a.zone.instantOf (slot number t) ∧
      after < x ∧ ∀ other ∈ front, a.zone.instantOf (slot number other) ≤ after := by
  rw [firstOfDay, List.find?_map, Option.map_eq_some_iff] at h
  obtain ⟨t, hfind, rfl⟩ := h
  obtain ⟨hlater, front, back, htimes, hfront⟩ := List.find?_eq_some_iff_append.mp hfind
  refine ⟨front, t, back, htimes, rfl, by simpa using hlater, fun other hother => ?_⟩
  simpa [slot] using hfront other hother

theorem firstOfDay_eq_none (h : a.firstOfDay number after = none) :
    ∀ t ∈ a.times, a.zone.instantOf (slot number t) ≤ after := by
  intro t ht
  rw [firstOfDay, List.find?_map, Option.map_eq_none_iff, List.find?_eq_none] at h
  simpa [slot] using h t ht

/-- The run that a search from a day on comes upon: it lies after an instant, and no run of the
days before, and none of the times listed before, does. -/
structure First (a : At) (after : Int) (start number : Nat) (t : TimeOfDay) : Prop where
  from_start : start ≤ number
  runsOn : a.runsOn number = true
  later : after < a.zone.instantOf (slot number t)
  days : ∀ earlier, start ≤ earlier → earlier < number → a.runsOn earlier = true →
    ∀ other ∈ a.times, a.zone.instantOf (slot earlier other) ≤ after
  times : ∃ front back, a.times = front ++ t :: back ∧
    ∀ other ∈ front, a.zone.instantOf (slot number other) ≤ after

theorem First.mem {start : Nat} (h : a.First after start number t) : t ∈ a.times := by
  obtain ⟨front, back, htimes, -⟩ := h.times
  simp [htimes]

theorem First.skip {start : Nat} (h : a.First after (start + 1) number t)
    (hnone : a.runsOn start = true → a.firstOfDay start after = none) :
    a.First after start number t := by
  refine ⟨Nat.le_of_succ_le h.from_start, h.runsOn, h.later, ?_, h.times⟩
  intro earlier hfrom hbefore hruns
  rcases Nat.eq_or_lt_of_le hfrom with rfl | hfrom
  · exact firstOfDay_eq_none (hnone hruns)
  · exact h.days earlier hfrom hbefore hruns

/-- Where there is a run within the given number of days, the search comes upon the first one. It
yields this run, unless the calendar ends before it. -/
theorem search_eq (days start : Nat)
    (h : ∃ k < days, a.runsOn (start + k) = true ∧
      ∃ t ∈ a.times, after < a.zone.instantOf (slot (start + k) t)) :
    ∃ number t, number < start + days ∧ a.First after start number t ∧
      a.search after days start =
        if number < dayLimit ∧ wallInRange (a.zone.instantOf (slot number t)) = true then
          .ok (.utc (a.zone.instantOf (slot number t)))
        else .error .outOfRange := by
  induction days generalizing start with
  | zero => obtain ⟨k, hk, -⟩ := h; omega
  | succ days ih =>
    by_cases hnone : a.runsOn start = true → a.firstOfDay start after = none
    · obtain ⟨k, hk, hruns, t, ht, hlater⟩ := h
      have hpos : k ≠ 0 := by
        rintro rfl
        have hover := firstOfDay_eq_none (hnone hruns) t ht
        rw [Nat.add_zero] at hlater
        omega
      obtain ⟨k, rfl⟩ := Nat.exists_eq_succ_of_ne_zero hpos
      rw [Nat.succ_eq_add_one, Nat.add_comm k 1, ← Nat.add_assoc] at hruns hlater
      obtain ⟨number, t, hwithin, hfirst, hsearch⟩ :=
        ih (start + 1) ⟨k, by omega, hruns, t, ht, hlater⟩
      refine ⟨number, t, by omega, hfirst.skip hnone, ?_⟩
      rw [search, ← hsearch]
      by_cases hend : dayLimit ≤ start
      · have hfrom := hfirst.from_start
        rw [if_pos hend, hsearch, if_neg (by omega)]
      · rw [if_neg hend]
        by_cases hruns : a.runsOn start = true
        · simp [hruns, hnone hruns]
        · simp [hruns]
    · rw [Classical.not_imp] at hnone
      obtain ⟨hruns, hsome⟩ := hnone
      obtain ⟨x, hx⟩ := Option.ne_none_iff_exists'.mp hsome
      obtain ⟨front, t, back, htimes, rfl, hlater, hfront⟩ := firstOfDay_eq_some hx
      have hfirst : a.First after start start t :=
        ⟨le_rfl, hruns, hlater, by omega, front, back, htimes, hfront⟩
      refine ⟨start, t, by omega, hfirst, ?_⟩
      rw [search]
      by_cases hend : dayLimit ≤ start
      · rw [if_pos hend, if_neg (by omega)]
      · simp [hend, hruns, hx, Nat.lt_of_not_le hend]

/-- Within a week there is a day on which the schedule runs, and all of its times are still to
come. -/
theorem Proper.exists_run (proper : a.Proper) (regular : a.zone.Regular)
    (hwall : 0 ≤ a.zone.wallAt after) :
    ∃ k < 8, a.runsOn (a.today after + k) = true ∧
      ∃ t ∈ a.times, after < a.zone.instantOf (slot (a.today after + k) t) := by
  obtain ⟨k, hpos, hle, hruns⟩ := proper.exists_runsOn (a.today after)
  obtain ⟨t, ht⟩ := List.exists_mem_of_ne_nil _ proper.timed
  refine ⟨k, by omega, hruns, t, ht, regular.ahead ?_⟩
  rw [slot_div (proper.within t ht), today]
  have hdate : 0 ≤ a.zone.wallAt after / day := Int.ediv_nonneg hwall (by decide)
  omega

/-- The eight days are enough: the next match is the first run that the search comes upon. -/
theorem Proper.nextMatch_eq (proper : a.Proper) (regular : a.zone.Regular)
    (hafter : a.InYears after) :
    ∃ number t, number < a.today after + 8 ∧ a.First after (a.today after) number t ∧
      a.nextMatch after =
        if number < dayLimit ∧ wallInRange (a.zone.instantOf (slot number t)) = true then
          .ok (.utc (a.zone.instantOf (slot number t)))
        else .error .outOfRange := by
  have hpos : 0 ≤ a.zone.wallAt after := (wallInRange_iff.mp hafter.2).1
  rw [nextMatch, hafter.1, hafter.2]
  exact search_eq 8 (a.today after) (proper.exists_run regular hpos)

theorem nextMatch_of_out (h : ¬ a.InYears after) : a.nextMatch after = .error .outOfRange := by
  rw [nextMatch]
  exact if_neg (by simpa [InYears] using h)

theorem Proper.first_of_nextMatch (proper : a.Proper) (regular : a.zone.Regular) {r : Moment}
    (hr : a.nextMatch after = .ok r) :
    ∃ number t, number < a.today after + 8 ∧ a.First after (a.today after) number t ∧
      r = .utc (a.zone.instantOf (slot number t)) := by
  have hafter : a.InYears after := by
    by_contra hout
    rw [nextMatch_of_out hout] at hr
    cases hr
  obtain ⟨number, t, hwithin, hfirst, hnext⟩ := proper.nextMatch_eq regular hafter
  rw [hnext] at hr
  split_ifs at hr
  cases hr
  exact ⟨number, t, hwithin, hfirst, rfl⟩

theorem Proper.exists_nextMatch (proper : a.Proper) (known : a.zone ∈ Zone.known)
    (hfirst : day ≤ after) (hlast : after + 10 * day ≤ wallLimit) :
    ∃ r, a.nextMatch after = .ok r := by
  have hwall := (Zone.near_of_known known after).1
  have hlimit : wallLimit = dayLimit * day := rfl
  have hafter : a.InYears after := by
    rw [InYears, wallInRange_iff, wallInRange_iff]
    simp only [day_eq] at *
    omega
  obtain ⟨number, t, hwithin, hfound, hnext⟩ :=
    proper.nextMatch_eq (Zone.regular_of_known known) hafter
  have hinstant := (Zone.near_of_known known (slot number t)).2
  have hlater := hfound.later
  have hmicros := proper.within t hfound.mem
  refine ⟨_, hnext.trans (if_pos ⟨?_, wallInRange_iff.mpr ⟨?_, ?_⟩⟩)⟩
  · simp only [today, day_eq] at *
    omega
  · simp only [day_eq] at *
    omega
  · simp only [slot, today, day_eq] at *
    omega

theorem Built.lt_of_nextAfter (built : a.Built) (known : a.zone ∈ Zone.known)
    {previous now r : Moment} (h : a.nextAfter previous now = .ok r) :
    previous.instant < r.instant ∧ now.instant < r.instant := by
  obtain ⟨number, t, -, hfirst, rfl⟩ :=
    built.proper.first_of_nextMatch (Zone.regular_of_known known) h
  rw [Moment.instant_utc]
  exact max_lt_iff.mp hfirst.later

/-- The search never comes up empty, and it always moves forward: whatever the times, the days and
the clocks, the next run comes after the previous one and now, at one of the times, by the clocks of
the zone, on one of the eight dates that begin with the present one. -/
theorem always_finds_a_run (built : a.Built) (known : a.zone ∈ Zone.known)
    (previous now : Moment) :
    (∀ text, a.nextAfter previous now ≠ .error (.runtime text)) ∧
      (day ≤ max previous.instant now.instant →
        max previous.instant now.instant + 10 * day ≤ wallLimit →
          ∃ r, a.nextAfter previous now = .ok r) ∧
      ∀ r, a.nextAfter previous now = .ok r →
        r.offset = 0 ∧ max previous.instant now.instant < r.instant ∧
          ∃ k < 8, a.runsOn (a.today (max previous.instant now.instant) + k) = true ∧
            ∃ t ∈ a.times, r.instant =
              a.zone.instantOf (slot (a.today (max previous.instant now.instant) + k) t) := by
  have proper := built.proper
  simp only [nextAfter]
  generalize max previous.instant now.instant = after
  refine ⟨fun text hfails => ?_, proper.exists_nextMatch known, fun r hr => ?_⟩
  · by_cases hafter : a.InYears after
    · obtain ⟨number, t, -, -, hnext⟩ :=
        proper.nextMatch_eq (Zone.regular_of_known known) hafter
      rw [hnext] at hfails
      split_ifs at hfails
      cases hfails
    · rw [nextMatch_of_out hafter] at hfails
      cases hfails
  · obtain ⟨number, t, hwithin, hfirst, rfl⟩ :=
      proper.first_of_nextMatch (Zone.regular_of_known known) hr
    obtain ⟨k, rfl⟩ := Nat.exists_eq_add_of_le hfirst.from_start
    rw [Moment.instant_utc]
    exact ⟨rfl, hfirst.later, k, by omega, hfirst.runsOn, t, hfirst.mem, rfl⟩

/-- On Sundays at half past two in Berlin, asked when the clocks show half past two for the second
time: the next run comes a week later. -/
theorem sunday_after_the_repeated_hour :
    ∃ (a : At) (now r : Moment), a.Built ∧ a.zone ∈ Zone.known ∧
      (day ≤ max now.instant now.instant ∧
        max now.instant now.instant + 10 * day ≤ wallLimit) ∧
      a.zone.wallAt now.instant = wallOfDate ⟨2024, 10, 27⟩ + 2 * hour + 30 * minute ∧
      a.nextAfter now now = .ok r ∧ max now.instant now.instant < r.instant ∧
      r = .utc (wallOfDate ⟨2024, 11, 3⟩ + hour + 30 * minute) := by
  let berlin : Zone := .varying "Europe/Berlin" 60 120 ⟨3, 5, 0, 2 * hour⟩ ⟨10, 5, 0, 3 * hour⟩
  let a : At := ⟨[⟨2 * hour + 30 * minute, none⟩], some [6], berlin, true⟩
  let now : Moment := .utc (wallOfDate ⟨2024, 10, 27⟩ + hour + 30 * minute)
  have made : At.make [.text "02:30"] (.list [.str "sun"]) (.str "Europe/Berlin") = .ok a := by
    decide +kernel
  have built : a.Built := .make (by simp) made
  have known : a.zone ∈ Zone.known := by decide
  have hnear : day ≤ max now.instant now.instant ∧
      max now.instant now.instant + 10 * day ≤ wallLimit := by decide +kernel
  obtain ⟨-, hexists, hruns⟩ := always_finds_a_run built known now now
  obtain ⟨r, hr⟩ := hexists hnear.1 hnear.2
  obtain ⟨-, hlater, -⟩ := hruns r hr
  have hnext : a.nextAfter now now =
      .ok (.utc (wallOfDate ⟨2024, 11, 3⟩ + hour + 30 * minute)) := by decide +kernel
  exact ⟨a, now, r, built, known, hnear, by decide +kernel, hr, hlater,
    Except.ok.inj (hr.symm.trans hnext)⟩

end At

end Schedule

end Guildhall
