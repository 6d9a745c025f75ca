import Guildhall.Proofs.Schedule.At

/-!
# The earliest run

The search goes by the clocks: it takes the first day, and on this day the first time, whose run
lies after an instant. This run is the earliest one, unless its time is one that the clocks skip.
Such a run comes, by the clocks before the gap, up to an hour after the runs at times that are
listed later.
-/

namespace Guildhall.Schedule.At

open Time

variable {a : At} {after : Int} {number : Nat} {t : TimeOfDay}

/-- A run that the search would come upon later is a later one, unless it is on the same day. -/
theorem Proper.le_or_same_day (proper : a.Proper) (regular : a.zone.Regular)
    (naive : ∀ t ∈ a.times, t.offset = none)
    (hfirst : a.First after (a.today after) number t) {x : Int} (hx : x ∈ a.runs)
    (hlater : after < x) :
    a.zone.instantOf (slot number t) ≤ x ∨
      ∃ later ∈ a.times, t.micros < later.micros ∧ x = a.zone.instantOf (slot number later) := by
  obtain ⟨other, hruns, t', ht', rfl⟩ := hx
  have hother : slot other t' / day = other := slot_div (proper.within t' ht')
  rcases Nat.lt_trichotomy other number with hbefore | rfl | hbehind
  · exfalso
    by_cases hstart : a.today after ≤ other
    · have hover := hfirst.days other hstart hbefore hruns t' ht'
      omega
    · have hover := regular.past (i := after) (w := slot other t') (by
        rw [hother]
        simp only [today, day_eq] at hstart ⊢
        omega)
      omega
  · obtain ⟨front, back, htimes, hfront⟩ := hfirst.times
    have hordered := proper.ordered naive
    rw [htimes] at hordered ht'
    obtain ⟨-, hordered, -⟩ := List.pairwise_append.mp hordered
    rcases List.mem_append.mp ht' with hmem | hmem
    · have hover := hfront t' hmem
      omega
    · rcases List.mem_cons.mp hmem with rfl | hmem
      · exact .inl le_rfl
      · refine .inr ⟨t', htimes ▸ ht', ?_, rfl⟩
        exact (List.pairwise_cons.mp hordered).1 t' hmem
  · left
    apply regular.past
    rw [slot_div (proper.within t hfirst.mem)]
    have hdate := Int.ediv_le_ediv (show 0 < day by decide) (regular.le_wallAt (slot other t'))
    omega

/-- The next run is the earliest one, unless the clocks skip its time. Then the runs that it passes
over come less than an hour before it, at times of the same day that are listed later. -/
theorem least_unless_skipped (built : a.Built) (naive : ∀ t ∈ a.times, t.offset = none)
    (known : a.zone ∈ Zone.known) (previous now : Moment) :
    (day ≤ max previous.instant now.instant →
      max previous.instant now.instant + 10 * day ≤ wallLimit →
        ∃ r, a.nextAfter previous now = .ok r) ∧
      ∀ r, a.nextAfter previous now = .ok r →
        ∃ number t, a.runsOn number = true ∧ t ∈ a.times ∧
          r = .utc (a.zone.instantOf (slot number t)) ∧
          (a.zone.instants (slot number t) ≠ [] →
            IsLeast {x | x ∈ a.runs ∧ max previous.instant now.instant < x} r.instant) ∧
          max previous.instant now.instant < r.instant ∧
          ∀ x ∈ a.runs, max previous.instant now.instant < x → x < r.instant →
            r.instant < x + hour ∧ ∃ later ∈ a.times, t.micros < later.micros ∧
              x = a.zone.instantOf (slot number later) := by
  have proper := built.proper
  have regular := Zone.regular_of_known known
  simp only [nextAfter]
  generalize max previous.instant now.instant = after
  refine ⟨proper.exists_nextMatch known, fun r hr => ?_⟩
  obtain ⟨number, t, -, hfirst, rfl⟩ := proper.first_of_nextMatch regular hr
  have hslot {later : TimeOfDay} (hlt : t.micros < later.micros) :
      slot number t < slot number later := by
    unfold slot
    omega
  rw [Moment.instant_utc]
  refine ⟨number, t, hfirst.runsOn, hfirst.mem, rfl, fun hshown => ⟨?_, ?_⟩, hfirst.later, ?_⟩
  · exact ⟨⟨number, hfirst.runsOn, t, hfirst.mem, rfl⟩, hfirst.later⟩
  · rintro x ⟨hx, hlater⟩
    rcases proper.le_or_same_day regular naive hfirst hx hlater with hle | ⟨later, -, hlt, rfl⟩
    · exact hle
    · exact Int.le_of_lt (regular.increasing (hslot hlt) hshown)
  · intro x hx hlater hbefore
    rcases proper.le_or_same_day regular naive hfirst hx hlater with hle | ⟨later, hl, hlt, rfl⟩
    · omega
    · exact ⟨regular.lag (hslot hlt), later, hl, hlt, rfl⟩

/-- At half past two and a quarter past three in Berlin. -/
def nightly : At :=
  ⟨[⟨2 * hour + 30 * minute, none⟩, ⟨3 * hour + 15 * minute, none⟩], none,
    .varying "Europe/Berlin" 60 120 ⟨3, 5, 0, 2 * hour⟩ ⟨10, 5, 0, 3 * hour⟩, true⟩

theorem nightly_built : nightly.Built := by
  have hread : [TimeInput.text "02:30", .text "03:15"].mapM TimeInput.read = .ok nightly.times := by
    decide +kernel
  have made : At.make [.text "02:30", .text "03:15"] .null (.str "Europe/Berlin") =
      .ok nightly := by
    have hsort : sortTimes nightly.times = .ok nightly.times :=
      sortTimes_of_increasing (by decide) (by decide) (by decide)
    exact bind_eq_ok.mpr ⟨_, hread, bind_eq_ok.mpr ⟨_, hsort, by decide +kernel⟩⟩
  exact .make (by simp) made

/-- Half an hour before the clocks are put forward. -/
def midnightInSpring : Moment := .utc (wallOfDate ⟨2024, 3, 31⟩ + 30 * minute)

theorem nextAfter_midnightInSpring : nightly.nextAfter midnightInSpring midnightInSpring =
    .ok (.utc (wallOfDate ⟨2024, 3, 31⟩ + hour + 30 * minute)) := by
  decide +kernel

theorem quarter_past_mem : wallOfDate ⟨2024, 3, 31⟩ + hour + 15 * minute ∈ nightly.runs :=
  ⟨Date.number ⟨2024, 3, 31⟩, rfl, ⟨3 * hour + 15 * minute, none⟩, by decide, by decide +kernel⟩

/-- The run at a quarter past three is passed over. -/
theorem passed_over_in_spring :
    ((∀ t ∈ nightly.times, t.offset = none) ∧ nightly.zone ∈ Zone.known) ∧
      ∃ r x, nightly.nextAfter midnightInSpring midnightInSpring = .ok r ∧ x ∈ nightly.runs ∧
        midnightInSpring.instant < x ∧ x < r.instant ∧ r.instant < x + hour := by
  have naive : ∀ t ∈ nightly.times, t.offset = none := by decide
  have known : nightly.zone ∈ Zone.known := by decide
  obtain ⟨-, hruns⟩ :=
    least_unless_skipped nightly_built naive known midnightInSpring midnightInSpring
  obtain ⟨number, t, -, -, -, -, -, hover⟩ := hruns _ nextAfter_midnightInSpring
  have hafter : midnightInSpring.instant < wallOfDate ⟨2024, 3, 31⟩ + hour + 15 * minute := by
    decide +kernel
  have hbefore : wallOfDate ⟨2024, 3, 31⟩ + hour + 15 * minute <
      wallOfDate ⟨2024, 3, 31⟩ + hour + 30 * minute := by decide +kernel
  obtain ⟨hlag, -⟩ := hover _ quarter_past_mem hafter hbefore
  exact ⟨⟨naive, known⟩, _, _, nextAfter_midnightInSpring, quarter_past_mem, hafter, hbefore, hlag⟩

/-- The next run is not always the earliest one. -/
theorem not_always_least :
    ¬ ∀ (a : At) (previous now r : Moment), a.Built → (∀ t ∈ a.times, t.offset = none) →
      a.zone ∈ Zone.known → a.nextAfter previous now = .ok r →
        IsLeast {x | x ∈ a.runs ∧ max previous.instant now.instant < x} r.instant := by
  intro hleast
  have hnext := hleast nightly midnightInSpring midnightInSpring _ nightly_built (by decide)
    (by decide) nextAfter_midnightInSpring
  have hle := hnext.2 ⟨quarter_past_mem, by decide +kernel⟩
  revert hle
  decide +kernel

end Guildhall.Schedule.At
