import Guildhall.Proofs.Job.Claiming
import Guildhall.Proofs.Schedule.At
import Guildhall.Proofs.Schedule.Cron

/-!
# Claiming always advances

Every schedule leads past the previous run and past now, whatever the clocks do. So each look at an
entry that is due leaves one such entry less, and claiming comes to its end however many looks it
may take. That a schedule fails does not matter for this; claiming ends the sooner.
-/

namespace Guildhall

open Time (Moment Zone)

inductive Schedule.Built : Schedule → Prop
  | interval (i : Schedule.Interval) : Built (.interval i)
  | times {a : Schedule.At} (built : a.Built) (known : a.zone ∈ Zone.known) : Built (.times a)
  | cron {c : Schedule.CronSchedule} (built : c.Built) : Built (.cron c)

theorem Schedule.Built.lt_of_nextAfter {schedule : Schedule} (built : schedule.Built)
    {previous now next : Moment} (h : schedule.nextAfter previous now = .ok next) :
    previous.instant < next.instant ∧ now.instant < next.instant := by
  cases built with
  | interval i => exact Interval.lt_of_nextAfter h
  | times built known => exact At.Built.lt_of_nextAfter built known h
  | cron built => exact CronSchedule.Built.lt_of_nextAfter built h

namespace Job.Scheduler

variable {ε : Type} {s s' : Scheduler ε} {t : Job ε} {now next : Moment} {e : Entry}
  {rest : List Entry}

structure Advancing (s : Scheduler ε) : Prop where
  sorted : Sorted s.pending
  built : ∀ t ∈ s.jobs, t.schedule.Built

/-- A look at the first entry takes it off, and nothing else happens unless the schedule of its job
tells a next run, which is entered. -/
theorem claimFirst_cases (s : Scheduler ε) (now : Moment) (e : Entry) (rest : List Entry) :
    (∃ result, s.claimFirst now e rest = (result, { s with pending := rest })) ∨
      ∃ t next, s.job? e.job = some t ∧ t.schedule.nextAfter e.due now = .ok next ∧
        s.claimFirst now e rest =
          (.ok (e.offer t), (s.reschedule rest (t.advance next)).queue (e.offer t)) := by
  have hjob : ({ s with pending := rest } : Scheduler ε).job? e.job = s.job? e.job := rfl
  cases job : s.job? e.job with
  | none => exact .inl ⟨.ok none, by simp [claimFirst, hjob, job]⟩
  | some t =>
    by_cases live : t.state = .cancelled
    · exact .inl ⟨.ok none, claimFirst_of_cancelled rest job live⟩
    · by_cases current : t.nextRun.map Moment.instant = some e.due.instant
      · cases hnext : t.schedule.nextAfter e.due now with
        | error failure =>
          exact .inl ⟨.error failure, claimFirst_of_failing rest job live current hnext⟩
        | ok next =>
          exact .inr ⟨t, next, rfl, hnext, claimFirst_of_current rest job live current hnext⟩
      · exact .inl ⟨.ok none, by simp [claimFirst, hjob, job, current]⟩

namespace Advancing

theorem tail (h : s.Advancing) (hpending : s.pending = e :: rest) :
    ({ s with pending := rest } : Scheduler ε).Advancing :=
  ⟨(List.pairwise_cons.mp (hpending ▸ h.sorted)).2, h.built⟩

theorem reschedule (h : s.Advancing) (hpending : s.pending = e :: rest) (ht : t ∈ s.jobs)
    (next : Moment) (claim : Option Claim) :
    ((s.reschedule rest (t.advance next)).queue claim).Advancing := by
  constructor
  · exact push_sorted (s := { s with pending := rest }.modify _ fun _ => t.advance next)
      (h.tail hpending).sorted
  · intro u hu
    rw [queue, jobs_reschedule] at hu
    obtain ⟨v, hv, rfl⟩ := List.mem_map.mp hu
    split
    · rw [schedule_advance]
      exact h.built t ht
    · exact h.built v hv

/-- One look leaves one entry less that is due; only a run past `now` is entered. -/
theorem claimFirst (h : s.Advancing) (hpending : s.pending = e :: rest)
    (hdue : ¬ now.instant < e.due.instant) :
    (s.claimFirst now e rest).2.Advancing ∧
      (s.claimFirst now e rest).2.dueCount now + 1 = s.dueCount now ∧
      ∀ other ∈ (s.claimFirst now e rest).2.pending,
        other ∈ s.pending ∨ now.instant < other.due.instant := by
  have hcount := dueCount_tail hpending hdue
  have hrest (other : Entry) (hother : other ∈ rest) : other ∈ s.pending :=
    hpending ▸ List.mem_cons_of_mem e hother
  rcases claimFirst_cases s now e rest with ⟨result, hlook⟩ | ⟨t, next, job, hnext, hlook⟩
  · rw [hlook]
    exact ⟨h.tail hpending, hcount, fun other hother => .inl (hrest other hother)⟩
  · have ht := mem_of_job? job
    obtain ⟨-, hlate⟩ := (h.built t ht).lt_of_nextAfter hnext
    rw [hlook]
    refine ⟨h.reschedule hpending ht next _, ?_, fun other hother => ?_⟩
    · rw [dueCount_reschedule t _ hlate]
      exact hcount
    · rcases (mem_reschedule_queue job _).mp hother with rfl | hother
      · exact .inr hlate
      · exact .inl (hrest other hother)

/-- As many looks as there are entries that are due are enough, and further looks change nothing.
Unless a schedule has failed, nothing is due then. -/
theorem claimUpTo (h : s.Advancing) (now : Moment) (claims : List Claim) :
    ∃ result claims' s', s'.Advancing ∧
      (∀ fuel, s.dueCount now ≤ fuel →
        s.claimUpTo now fuel claims = (result, claims', s')) ∧
      (∀ e ∈ s'.pending, e ∈ s.pending ∨ now.instant < e.due.instant) ∧
      (result = .ok () → ∀ e ∈ s'.pending, now.instant < e.due.instant) := by
  induction hcount : s.dueCount now generalizing s claims with
  | zero =>
    have hlater := dueCount_eq_zero.mp hcount
    exact ⟨.ok (), claims, s, h, fun fuel _ => claimUpTo_of_later fuel claims hlater,
      fun e he => .inl he, fun _ => hlater⟩
  | succ n ih =>
    have hsome : s.dueCount now ≠ 0 := hcount ▸ Nat.succ_ne_zero n
    obtain ⟨e, rest, hpending, hdue⟩ := exists_first_due h.sorted hsome
    obtain ⟨hadvancing, hless, hentered⟩ := h.claimFirst hpending hdue
    cases hlook : s.claimFirst now e rest with
    | mk found s₁ =>
      rw [hlook] at hadvancing hless hentered
      cases found with
      | error failure =>
        refine ⟨.error failure, claims, s₁, hadvancing, fun fuel hfuel => ?_, hentered, nofun⟩
        obtain ⟨fuel, rfl⟩ := Nat.exists_eq_add_of_le' hfuel
        exact claimUpTo_error _ claims hpending hdue hlook
      | ok found =>
        obtain ⟨result, claims', s', hlast, hclaim, hmem, hend⟩ :=
          ih hadvancing (claims ++ found.toList) (by simpa using Nat.succ.inj (hless.trans hcount))
        refine ⟨result, claims', s', hlast, fun fuel hfuel => ?_, fun other hother => ?_, hend⟩
        · obtain ⟨fuel, rfl⟩ := Nat.exists_eq_add_of_le' hfuel
          rw [← Nat.add_assoc, claimUpTo_ok _ claims hpending hdue hlook,
            hclaim _ (Nat.le_add_left n fuel)]
        · rcases hmem other hother with hother | hlate
          · exact hentered other hother
          · exact .inr hlate

end Advancing

/-- A cron schedule leads forward: whatever the expression and the zone, and wherever the clocks are
changed, the next run is an instant after the previous run and after now. So runs of which each is
the next one after the one before it never come back to an instant. And where the schedules lead
forward, cron schedules or others, as many looks as there are entries that are due bring claiming to
its end, although it may end sooner because a schedule fails: whatever it enters comes after now. -/
theorem cron_always_advances {c : Schedule.CronSchedule} (built : c.Built) :
    (∀ previous now next, c.nextAfter previous now = .ok next →
      max previous.instant now.instant < next.instant) ∧
    (∀ runs : List Moment, (runs.IsChain fun r r' => c.nextAfter r r = .ok r') →
      runs.Pairwise fun r r' => r.instant < r'.instant) ∧
    ∀ (s : Scheduler ε) (now : Moment), Sorted s.pending →
      (∀ t ∈ s.jobs, t.schedule = .cron c ∨ t.schedule.Built) →
      ∃ result claims s',
        (∀ fuel, s.dueCount now ≤ fuel → s.claimUpTo now fuel [] = (result, claims, s')) ∧
        s.claimDue now = (result, claims, s') ∧
        (∀ e ∈ s'.pending, e ∈ s.pending ∨ now.instant < e.due.instant) ∧
        (result = .ok () → ∀ e ∈ s'.pending, now.instant < e.due.instant) := by
  refine ⟨fun previous now next h => max_lt_iff.mpr (built.lt_of_nextAfter h),
    fun runs h => built.increasing h, fun s now sorted schedules => ?_⟩
  have h : s.Advancing := by
    refine ⟨sorted, fun t ht => ?_⟩
    rcases schedules t ht with hcron | hother
    · exact hcron ▸ .cron built
    · exact hother
  obtain ⟨result, claims, s', -, hclaim, hentered, hend⟩ := h.claimUpTo now []
  exact ⟨result, claims, s', hclaim, hclaim _ List.countP_le_length, hentered, hend⟩

/-- Every hour in Berlin on the day on which the clocks show two o'clock twice: the run at two is
followed by one at two. Ten minutes after the second one, the job that was to run at the first one
is claimed, and another one that runs at intervals. -/
theorem twice_at_two :
    ∃ (c : Schedule.CronSchedule) (first second third : Moment) (s s' : Scheduler Unit)
      (now : Moment), c.Built ∧
      ([first, second, third].IsChain fun r r' => c.nextAfter r r = .ok r') ∧
      c.zone.wallAt first.instant = c.zone.wallAt second.instant ∧
      first.instant < second.instant ∧ second.instant < third.instant ∧
      s.pending = [⟨first, 0, "report"⟩, ⟨first, 1, "sweep"⟩] ∧
      s.claimDue now = (.ok (), [⟨"report", first⟩, ⟨"sweep", first⟩], s') ∧
      s'.pending.map (·.due) = [third, third] ∧
      ∀ e ∈ s'.pending, now.instant < e.due.instant := by
  let berlin : Zone :=
    .varying "Europe/Berlin" 60 120 ⟨3, 5, 0, 2 * Time.hour⟩ ⟨10, 5, 0, 3 * Time.hour⟩
  let c : Schedule.CronSchedule :=
    ⟨"0 * * * *", ⟨[.value 0], [.any], [.any], [.any], [.any], none, none, []⟩, berlin, true⟩
  let first : Moment := .utc (Time.wallOfDate ⟨2024, 10, 27⟩)
  let second : Moment := .utc (first.instant + Time.hour)
  let third : Moment := .utc (first.instant + 2 * Time.hour)
  let now : Moment := .utc (second.instant + 10 * Time.minute)
  let s : Scheduler Unit :=
    { workers := 1, zone := "UTC", nextNumber := 2, inbox := [], ready := [], active := []
      running := true
      jobs := [.new "report" (.cron c) () "" first, .new "sweep" (.interval .hourly) () "" first]
      pending := [⟨first, 0, "report"⟩, ⟨first, 1, "sweep"⟩] }
  have made : Schedule.CronSchedule.make (.str "0 * * * *") (.str "Europe/Berlin") = .ok c := by
    decide +kernel
  have built : c.Built := .make made
  have hchain : [first, second, third].IsChain fun r r' => c.nextAfter r r = .ok r' := by
    refine .cons_cons ?_ (.cons_cons ?_ (.singleton _)) <;> decide +kernel
  have sorted : Sorted s.pending := by
    unfold Sorted
    decide
  have schedules : ∀ t ∈ s.jobs, t.schedule = .cron c ∨ t.schedule.Built := by
    intro t ht
    simp only [s, List.mem_cons, List.not_mem_nil, or_false] at ht
    rcases ht with rfl | rfl
    · exact .inl rfl
    · exact .inr (.interval .hourly)
  obtain ⟨-, hincreasing, hclaims⟩ := @cron_always_advances Unit c built
  obtain ⟨hfirst, hrest⟩ := List.pairwise_cons.mp (hincreasing _ hchain)
  obtain ⟨hsecond, -⟩ := List.pairwise_cons.mp hrest
  obtain ⟨result, claims, s', -, hclaim, -, hlate⟩ :=
    hclaims s now sorted schedules
  have hresult : (s.claimDue now).1 = .ok () := by decide +kernel
  have hclaimed : (s.claimDue now).2.1 = [⟨"report", first⟩, ⟨"sweep", first⟩] := by
    decide +kernel
  have hpending : (s.claimDue now).2.2.pending.map (·.due) = [third, third] := by decide +kernel
  rw [hclaim] at hresult hclaimed hpending
  cases hresult
  cases hclaimed
  exact ⟨c, first, second, third, s, s', now, built, hchain, by decide +kernel,
    hfirst second (by simp), hsecond third (by simp), rfl, hclaim, hpending, hlate rfl⟩

end Job.Scheduler

/-- In use, a scheduler keeps its entries in order, so it advances with schedules that can be
made. -/
theorem Job.History.Lifetime.advancing {ε : Type} {h : Job.History ε} (hl : h.Lifetime)
    (built : ∀ t ∈ h.scheduler.jobs, t.schedule.Built) : h.scheduler.Advancing :=
  ⟨Job.Scheduler.sorted_of_before (enduring_ordered.holds hl), built⟩

end Guildhall
