import Guildhall.Proofs.Base
import Guildhall.Schedule.At
import Mathlib.Data.List.Basic

/-!
# The times of a schedule

The times that a schedule is made of are put in the order of universal time, and of those that are
the same by universal time one is kept. Where all have the same distance from universal time, or
none has one, this is the order of the clock, and every time is kept. Otherwise a time may come
after one that the clock shows later, and a time may be missing that the clock shows.
-/

namespace Guildhall

open Time

namespace Time.TimeOfDay

variable {t u v : TimeOfDay}

/-- Microseconds since universal midnight. A fraction of a second in the offset does not count. -/
def universalMicros (t : TimeOfDay) : Int := t.micros - t.offset.getD 0 / second * second

/-- Two times are the same if both or neither have a zone and their distance from universal midnight
is the same, with and without the fraction of a second in their offsets. -/
theorem same_iff : t.same u = true ↔ t.offset.isSome = u.offset.isSome ∧
    t.universalMicros = u.universalMicros ∧
      t.micros - t.offset.getD 0 = u.micros - u.offset.getD 0 := by
  unfold same universalMicros
  split
  case isTrue heq =>
    simp only [heq, beq_iff_eq, true_and]
    omega
  case isFalse hne =>
    cases ht : t.offset with
    | none => cases hu : u.offset <;> simp_all
    | some x =>
      cases hu : u.offset with
      | none => simp
      | some y =>
        simp only [Bool.and_eq_true, beq_iff_eq, universal, Prod.mk.injEq, ht, hu,
          Option.getD_some, Option.isSome_some, true_and, second]
        omega

theorem le_iff : t.le u = true ↔ t.universalMicros ≤ u.universalMicros := by
  unfold le universalMicros
  split
  case isTrue heq =>
    rw [heq, decide_eq_true_eq]
    omega
  case isFalse =>
    simp only [Bool.or_eq_true, Bool.and_eq_true, beq_iff_eq, decide_eq_true_eq]
    simp only [universal, second]
    omega

theorem same_refl (t : TimeOfDay) : t.same t = true := same_iff.mpr ⟨rfl, rfl, rfl⟩

theorem same_comm : t.same u = u.same t := by
  rw [Bool.eq_iff_iff, same_iff, same_iff]
  exact ⟨fun ⟨h, h', h''⟩ => ⟨h.symm, h'.symm, h''.symm⟩,
    fun ⟨h, h', h''⟩ => ⟨h.symm, h'.symm, h''.symm⟩⟩

theorem same_trans (h : t.same u = true) (h' : u.same v = true) : t.same v = true := by
  obtain ⟨hzone, hmicros, hexact⟩ := same_iff.mp h
  obtain ⟨hzone', hmicros', hexact'⟩ := same_iff.mp h'
  exact same_iff.mpr ⟨hzone.trans hzone', hmicros.trans hmicros', hexact.trans hexact'⟩

end Time.TimeOfDay

namespace Schedule

variable {times sorted : List TimeOfDay}

theorem distinctTimes_sublist (times : List TimeOfDay) :
    (distinctTimes times).Sublist times := by
  induction times with
  | nil => exact .refl _
  | cons t rest ih => exact (List.filter_sublist.trans ih).cons_cons t

theorem distinctTimes_distinct (times : List TimeOfDay) :
    (distinctTimes times).Pairwise fun a b => a.same b = false := by
  induction times with
  | nil => exact .nil
  | cons t rest ih =>
    refine List.pairwise_cons.mpr ⟨fun other hother => ?_, ih.filter _⟩
    simpa using (List.mem_filter.mp hother).2

theorem exists_same_distinctTimes {t : TimeOfDay} (h : t ∈ times) :
    ∃ kept ∈ distinctTimes times, kept.same t = true := by
  induction times with
  | nil => cases h
  | cons first rest ih =>
    rcases List.mem_cons.mp h with rfl | h
    · exact ⟨t, List.mem_cons_self, t.same_refl⟩
    · obtain ⟨kept, hkept, hsame⟩ := ih h
      by_cases hfirst : first.same kept = true
      · exact ⟨first, List.mem_cons_self, TimeOfDay.same_trans hfirst hsame⟩
      · refine ⟨kept, List.mem_cons_of_mem _ (List.mem_filter.mpr ⟨hkept, ?_⟩), hsame⟩
        simpa using hfirst

theorem pairwise_mergeSort_times (times : List TimeOfDay) :
    (times.mergeSort TimeOfDay.le).Pairwise fun t u => t.universalMicros ≤ u.universalMicros := by
  have htrans (t u v : TimeOfDay) (htu : t.le u = true) (huv : u.le v = true) : t.le v = true :=
    TimeOfDay.le_iff.mpr (Int.le_trans (TimeOfDay.le_iff.mp htu) (TimeOfDay.le_iff.mp huv))
  have htotal (t u : TimeOfDay) : (t.le u || u.le t) = true := by
    rw [Bool.or_eq_true, TimeOfDay.le_iff, TimeOfDay.le_iff]
    exact Int.le_total _ _
  exact (List.pairwise_mergeSort htrans htotal times).imp TimeOfDay.le_iff.mp

/-- Times put in order: of those that are the same by universal time one is kept. Either all have a
zone or none has. -/
structure Sorted (times sorted : List TimeOfDay) : Prop where
  given : ∀ t ∈ sorted, t ∈ times
  covers : ∀ t ∈ times, ∃ kept ∈ sorted, kept.same t = true
  distinct : sorted.Pairwise fun t u => t.same u = false
  increasing : sorted.Pairwise fun t u => t.universalMicros ≤ u.universalMicros
  comparable : (∀ t ∈ times, t.offset = none) ∨ ∀ t ∈ times, t.offset ≠ none

theorem sortTimes_eq_ok (h : sortTimes times = .ok sorted) : Sorted times sorted := by
  unfold sortTimes at h
  dsimp only at h
  split_ifs at h with hmixed
  cases h
  have hperm := List.mergeSort_perm (distinctTimes times) TimeOfDay.le
  refine ⟨fun t ht => ?_, fun t ht => ?_, ?_, pairwise_mergeSort_times _, ?_⟩
  · exact (distinctTimes_sublist times).mem (hperm.mem_iff.mp ht)
  · obtain ⟨kept, hkept, hsame⟩ := exists_same_distinctTimes ht
    exact ⟨kept, hperm.mem_iff.mpr hkept, hsame⟩
  · refine (List.Perm.pairwise_iff (fun h => ?_) hperm).mpr (distinctTimes_distinct times)
    rwa [TimeOfDay.same_comm]
  · have hzone {t kept : TimeOfDay} (hsame : kept.same t = true) :
        kept.offset = none ↔ t.offset = none := by
      rw [← Option.not_isSome_iff_eq_none, ← Option.not_isSome_iff_eq_none,
        (TimeOfDay.same_iff.mp hsame).1]
    rw [Bool.and_eq_true, List.any_eq_true, List.any_eq_true, not_and_or] at hmixed
    refine hmixed.imp (fun hnone t ht => ?_) fun hsome t ht => ?_
    · obtain ⟨kept, hkept, hsame⟩ := exists_same_distinctTimes ht
      exact (hzone hsame).mp (by simpa using fun h => hnone ⟨kept, hkept, h⟩)
    · obtain ⟨kept, hkept, hsame⟩ := exists_same_distinctTimes ht
      exact fun hnone => hsome ⟨kept, hkept, by simp [(hzone hsame).mpr hnone]⟩

namespace Sorted

theorem increasing_micros (h : Sorted times sorted)
    (alike : ∀ t ∈ sorted, ∀ u ∈ sorted, t.offset = u.offset) :
    sorted.Pairwise fun t u => t.micros < u.micros := by
  refine (h.increasing.and h.distinct).imp_of_mem fun {t u} ht hu ⟨hle, hne⟩ => ?_
  have hoffset := alike t ht u hu
  rw [TimeOfDay.same, if_pos hoffset, beq_eq_false_iff_ne] at hne
  rw [TimeOfDay.universalMicros, TimeOfDay.universalMicros, hoffset] at hle
  omega

theorem mem_micros_iff (h : Sorted times sorted)
    (alike : ∀ t ∈ times, ∀ u ∈ times, t.offset = u.offset) (m : Int) :
    m ∈ sorted.map (·.micros) ↔ m ∈ times.map (·.micros) := by
  simp only [List.mem_map]
  constructor
  · rintro ⟨t, ht, rfl⟩
    exact ⟨t, h.given t ht, rfl⟩
  · rintro ⟨t, ht, rfl⟩
    obtain ⟨kept, hkept, hsame⟩ := h.covers t ht
    rw [TimeOfDay.same, if_pos (alike kept (h.given kept hkept) t ht), beq_iff_eq] at hsame
    exact ⟨kept, hkept, hsame⟩

end Sorted

theorem sortTimes_of_increasing (distinct : distinctTimes times = sorted)
    (comparable : (sorted.any (·.offset.isSome) && sorted.any (·.offset.isNone)) = false)
    (increasing : sorted.Pairwise fun t u => t.le u = true) : sortTimes times = .ok sorted := by
  unfold sortTimes
  dsimp only
  rw [distinct, comparable, if_neg Bool.false_ne_true, List.mergeSort_of_pairwise increasing]

namespace At

variable {inputs : List TimeInput} {weekdays zone : Value} {a : At}

/-- A schedule is made of times that can be read and put in order, at least one of them. -/
theorem exists_of_make (made : At.make inputs weekdays zone = .ok a) :
    ∃ given, inputs.mapM TimeInput.read = .ok given ∧ Sorted given a.times ∧ a.times ≠ [] ∧
      readWeekdays weekdays = .ok a.weekdays ∧ readZone zone = .ok (a.zone, a.explicitZone) := by
  obtain ⟨given, hgiven, made⟩ := bind_eq_ok.mp made
  obtain ⟨sorted, hsorted, made⟩ := bind_eq_ok.mp made
  by_cases hempty : sorted.isEmpty
  · rw [if_pos hempty] at made
    cases made
  · rw [if_neg hempty] at made
    obtain ⟨-, -, made⟩ := bind_eq_ok.mp made
    obtain ⟨days, hdays, made⟩ := bind_eq_ok.mp made
    obtain ⟨zone, hzone, made⟩ := bind_eq_ok.mp made
    cases made
    exact ⟨given, hgiven, sortTimes_eq_ok hsorted, by simpa using hempty, hdays, hzone⟩

/-- The times of a schedule, where the given ones have one distance from universal time or none, are
those that the clock shows at the given ones, each once and in the order of the clock. In general
either all of the given times have a zone or none has, the times are in the order of universal time,
and a time is missing only if one with the same distance from universal midnight is there. -/
theorem times_by_universal_time (made : At.make inputs weekdays zone = .ok a) :
    ∃ given, inputs.mapM TimeInput.read = .ok given ∧
      ((∀ t ∈ given, ∀ u ∈ given, t.offset = u.offset) →
        (a.times.map (·.micros)).Pairwise (· < ·) ∧
          ∀ m, m ∈ a.times.map (·.micros) ↔ m ∈ given.map (·.micros)) ∧
      ((∀ t ∈ given, t.offset = none) ∨ ∀ t ∈ given, t.offset ≠ none) ∧
      (∀ t ∈ a.times, t ∈ given) ∧
      (∀ t ∈ given, ∃ kept ∈ a.times, kept.universalMicros = t.universalMicros) ∧
      a.times.Pairwise fun t u => t.universalMicros ≤ u.universalMicros := by
  obtain ⟨given, hgiven, hsorted, -⟩ := exists_of_make made
  refine ⟨given, hgiven, fun alike => ⟨?_, hsorted.mem_micros_iff alike⟩, hsorted.comparable,
    hsorted.given, fun t ht => ?_, hsorted.increasing⟩
  · rw [List.pairwise_map]
    exact hsorted.increasing_micros fun t ht u hu =>
      alike t (hsorted.given t ht) u (hsorted.given u hu)
  · obtain ⟨kept, hkept, hsame⟩ := hsorted.covers t ht
    exact ⟨kept, hkept, (TimeOfDay.same_iff.mp hsame).2.1⟩

/-- A time without a zone that is written in two ways, beside one whose zone is dropped. -/
theorem half_past_six_given_twice :
    ∃ a given, At.make [.text "06:30", .time ⟨18 * hour, some hour⟩, .text "T063000"] .null .null =
        .ok a ∧ [TimeInput.text "06:30", .time ⟨18 * hour, some hour⟩, .text "T063000"].mapM
          TimeInput.read = .ok given ∧ (∀ t ∈ given, ∀ u ∈ given, t.offset = u.offset) ∧
        (a.times.map (·.micros)).Pairwise (· < ·) ∧
          ∀ m, m ∈ a.times.map (·.micros) ↔ m ∈ given.map (·.micros) := by
  let given : List TimeOfDay :=
    [⟨6 * hour + 30 * minute, none⟩, ⟨18 * hour, none⟩, ⟨6 * hour + 30 * minute, none⟩]
  have hgiven : [TimeInput.text "06:30", .time ⟨18 * hour, some hour⟩, .text "T063000"].mapM
      TimeInput.read = .ok given := by decide +kernel
  have hsorted : sortTimes given = .ok (given.take 2) :=
    sortTimes_of_increasing (by decide) (by decide) (by decide)
  have made : At.make [.text "06:30", .time ⟨18 * hour, some hour⟩, .text "T063000"] .null .null =
      .ok ⟨given.take 2, none, .universal, false⟩ :=
    bind_eq_ok.mpr ⟨given, hgiven, bind_eq_ok.mpr ⟨_, hsorted, by decide +kernel⟩⟩
  have alike : ∀ t ∈ given, ∀ u ∈ given, t.offset = u.offset := by decide
  obtain ⟨read, hread, hclock, -⟩ := times_by_universal_time made
  rw [hgiven] at hread
  cases hread
  exact ⟨_, given, made, hgiven, alike, hclock alike⟩

/-- Noon in one zone comes before ten o'clock in another. -/
theorem not_always_by_the_clock :
    ¬ ∀ (inputs : List TimeInput) (weekdays zone : Value) (a : At) (given : List TimeOfDay),
      At.make inputs weekdays zone = .ok a → inputs.mapM TimeInput.read = .ok given →
        (a.times.map (·.micros)).Pairwise (· < ·) ∧
          ∀ m, m ∈ a.times.map (·.micros) ↔ m ∈ given.map (·.micros) := by
  intro hclock
  let given : List TimeOfDay := [⟨12 * hour, some (5 * hour)⟩, ⟨10 * hour, some 0⟩]
  have hgiven : [TimeInput.text "12:00+05:00", .text "10:00+00:00"].mapM TimeInput.read =
      .ok given := by decide +kernel
  have hsorted : sortTimes given = .ok given :=
    sortTimes_of_increasing (by decide) (by decide) (by decide)
  have made : At.make [.text "12:00+05:00", .text "10:00+00:00"] .null .null =
      .ok ⟨given, none, .universal, false⟩ :=
    bind_eq_ok.mpr ⟨given, hgiven, bind_eq_ok.mpr ⟨_, hsorted, by decide +kernel⟩⟩
  obtain ⟨hincreasing, -⟩ := hclock _ _ _ _ _ made hgiven
  revert hincreasing
  decide

end At

end Schedule

end Guildhall
