import Guildhall.Proofs.Job.Orderly
import Guildhall.Proofs.Schedule.Interval

/-!
# Interval jobs stay on their grid

However often and whenever what is due is claimed, a job at intervals runs next at a point of the
grid through its first run: the first one after the last claiming.
-/

namespace Guildhall.Job

open Time (Moment wallInRange)
open Guildhall.Schedule (Interval)

variable {ε : Type}

namespace Scheduler

variable {s s' : Scheduler ε} {name : String} {i : Interval} {next due now : Moment} {e : Entry}
  {rest : List Entry}

structure Runs (s : Scheduler ε) (name : String) (i : Interval) (next : Moment) : Prop where
  job : ∃ t, s.job? name = some t ∧ t.state ≠ .cancelled ∧ t.schedule = .interval i ∧
    t.nextRun = some next
  entered : ∃ e ∈ s.pending, e.job = name

theorem Runs.congr (h : s.Runs name i next) (hjob : s'.job? name = s.job? name)
    (hpending : ∀ e ∈ s.pending, e.job = name → e ∈ s'.pending) : s'.Runs name i next := by
  obtain ⟨e, he, hname⟩ := h.entered
  exact ⟨hjob ▸ h.job, e, hpending e he hname, hname⟩

theorem mem_reschedule {t : Job ε} (he : e ∈ rest) : e ∈ (s.reschedule rest t).pending :=
  mem_push_of_mem (s := { s with pending := rest }.modify t.name fun _ => t) he

theorem Look.apart {result : Except Failure (Option Claim)}
    (look : s.Look now e rest result s') (hne : e.job ≠ name) :
    s'.job? name = s.job? name ∧ ∀ other ∈ rest, other ∈ s'.pending := by
  cases look with
  | dropped stale => exact ⟨rfl, fun _ h => h⟩
  | failed => exact ⟨rfl, fun _ h => h⟩
  | @skipped t next job state =>
    have hname := name_of_job? job
    have hjob := job?_reschedule (u := t.skip next) rest (hname ▸ job) name
    rw [show (t.skip next).name = e.job from hname, if_neg (Ne.symm hne)] at hjob
    exact ⟨hjob, fun _ => mem_reschedule⟩
  | @claimed t next job state =>
    have hname := name_of_job? job
    have hjob := job?_reschedule (u := t.engage next) rest (hname ▸ job) name
    rw [show (t.engage next).name = e.job from hname, if_neg (Ne.symm hne)] at hjob
    exact ⟨hjob, fun _ => mem_reschedule⟩

theorem Runs.rescheduled {t : Job ε} (job : s.job? e.job = some t) (live : t.state ≠ .cancelled)
    (hschedule : t.schedule = .interval i) (hdue : t.nextRun = some e.due)
    (hnext : i.nextAfter e.due now = .ok next) :
    (s.claimFirst now e rest).2.Runs e.job i next := by
  have hname : (t.advance next).name = e.job := (name_advance t next).trans (name_of_job? job)
  have hnextAfter : t.schedule.nextAfter e.due now = .ok next := by rw [hschedule]; exact hnext
  rw [claimFirst_of_live rest job live hdue hnextAfter]
  refine ⟨⟨t.advance next, ?_, by simp, (schedule_advance t next).trans hschedule,
    nextRun_advance t next⟩, ⟨next, s.nextNumber, (t.advance next).name⟩, ?_, hname⟩
  · rw [job?_queue, job?_reschedule rest (hname ▸ job), if_pos hname.symm]
  · rw [queue_pending, reschedule_pending (nextRun_advance t next), (insertEntry_perm _ _).mem_iff]
    exact List.mem_cons_self

/-- Whether the jobs of the entries that are due at `now` all run next after `now`. -/
def Moves (s : Scheduler ε) (now : Moment) : Prop :=
  ∀ e ∈ s.pending, e.due.instant ≤ now.instant → ∀ t, s.job? e.job = some t →
    t.state ≠ .cancelled → ∃ next, t.schedule.nextAfter e.due now = .ok next ∧
      now.instant < next.instant

def dueCount (s : Scheduler ε) (now : Moment) : Nat :=
  s.pending.countP (·.due.instant ≤ now.instant)

theorem dueCount_eq_zero :
    s.dueCount now = 0 ↔ ∀ e ∈ s.pending, now.instant < e.due.instant := by
  simp [dueCount]

theorem dueCount_tail (hpending : s.pending = e :: rest) (hdue : ¬ now.instant < e.due.instant) :
    ({ s with pending := rest } : Scheduler ε).dueCount now + 1 = s.dueCount now := by
  rw [dueCount, dueCount, hpending, List.countP_cons_of_pos]
  simpa using hdue

theorem dueCount_reschedule (t : Job ε) (claim : Option Claim)
    (hlate : now.instant < next.instant) :
    ((s.reschedule rest (t.advance next)).queue claim).dueCount now =
      ({ s with pending := rest } : Scheduler ε).dueCount now := by
  rw [dueCount, dueCount, queue_pending, reschedule_pending (nextRun_advance t next),
    (insertEntry_perm _ _).countP_eq, List.countP_cons_of_neg]
  simpa using hlate

theorem exists_first_due (hsorted : Sorted s.pending) (hdue : s.dueCount now ≠ 0) :
    ∃ e rest, s.pending = e :: rest ∧ ¬ now.instant < e.due.instant := by
  rw [Ne, dueCount_eq_zero] at hdue
  cases hpending : s.pending with
  | nil => simp [hpending] at hdue
  | cons e rest =>
    refine ⟨e, rest, rfl, fun hlate => hdue fun other hother => ?_⟩
    rw [hpending] at hsorted hother
    rcases List.mem_cons.mp hother with rfl | hother
    · exact hlate
    · exact Int.lt_of_lt_of_le hlate ((List.pairwise_cons.mp hsorted).1 other hother)

/-- Where the jobs move on, looking at the first entry leaves one entry less that is due. -/
theorem claimFirst_moves {t : Job ε} (job : s.job? e.job = some t)
    (current : t.state ≠ .cancelled → t.nextRun = some e.due) (hmoves : s.Moves now)
    (hpending : s.pending = e :: rest) (hdue : ¬ now.instant < e.due.instant) :
    ∃ found, (s.claimFirst now e rest).1 = .ok found ∧ (s.claimFirst now e rest).2.Moves now ∧
      (s.claimFirst now e rest).2.dueCount now + 1 = s.dueCount now := by
  have he : e ∈ s.pending := hpending ▸ List.mem_cons_self
  have hrest (other : Entry) (hother : other ∈ rest) : other ∈ s.pending :=
    hpending ▸ List.mem_cons_of_mem e hother
  have hcount := dueCount_tail hpending hdue
  by_cases live : t.state = .cancelled
  · rw [claimFirst_of_cancelled rest job live]
    exact ⟨none, rfl, fun other hother => hmoves other (hrest other hother), hcount⟩
  · obtain ⟨next, hnext, hlate⟩ := hmoves e he (by omega) t job live
    have hname : (t.advance next).name = e.job := (name_advance t next).trans (name_of_job? job)
    rw [claimFirst_of_live rest job live (current live) hnext]
    refine ⟨_, rfl, fun other hother hdue v hv hlive => ?_, ?_⟩
    · rw [queue_pending, reschedule_pending (nextRun_advance t next),
        (insertEntry_perm _ _).mem_iff] at hother
      rw [job?_queue, job?_reschedule rest (hname ▸ job), hname] at hv
      rcases List.mem_cons.mp hother with rfl | hother
      · exact absurd hlate (Int.not_lt.mpr hdue)
      · split at hv
        case isTrue heq =>
          cases hv
          rw [schedule_advance]
          exact hmoves other (hrest other hother) hdue t (heq ▸ job) live
        case isFalse => exact hmoves other (hrest other hother) hdue v hv hlive
    · rw [dueCount_reschedule t _ hlate]
      exact hcount

theorem Runs.handle (h : s.Runs name i next) (m : Message) : (s.handle m).2.Runs name i next := by
  cases m with
  | added other =>
    rcases handle_added_cases (s := s) other with hsame | ⟨t, hpushed⟩
    · rwa [hsame]
    · rw [hpushed]
      exact h.congr job?_push fun _ he _ => mem_push_of_mem he
  | completed c =>
    cases hjob : s.job? c.job with
    | none => rwa [handle_unknown hjob]
    | some u =>
      rw [handle_completed hjob]
      obtain ⟨t, ht, live, hschedule, hnext⟩ := h.job
      refine ⟨?_, h.entered⟩
      by_cases heq : name = c.job
      · refine ⟨record c t, ?_, ?_, hschedule, hnext⟩
        · rw [heq, hjob] at ht
          rw [job?_record hjob, if_pos heq, Option.some.inj ht]
        · simp only [record]
          split <;> simp_all
      · exact ⟨t, by rw [job?_record hjob, if_neg heq, ht], live, hschedule, hnext⟩

end Scheduler

namespace History

variable {h h' : History ε} {name : String} {i : Interval} {origin next now : Moment} {e : Entry}
  {rest : List Entry}

theorem claim_of_passed (fuel : Nat) (hpassed : h.scheduler.passed now fuel = []) :
    h.claim now fuel = h := by
  cases fuel with
  | zero => exact claim_zero
  | succ fuel =>
    refine claim_idle _ fun e rest hpending => ?_
    by_contra hdue
    simp only [Scheduler.passed, hpending, if_neg hdue] at hpassed
    split at hpassed <;> cases hpassed

/-- A step that takes off no entry leaves a job as it is, as far as its next run goes. -/
theorem Step.runs (step : Step h h') (hpopped : h'.popped = h.popped)
    (hruns : h.scheduler.Runs name i next) : h'.scheduler.Runs name i next := by
  cases step with
  | add added =>
    obtain ⟨schedule', first, grows⟩ := Scheduler.add_grows added
    obtain ⟨t, ht, -⟩ := hruns.job
    refine hruns.congr ?_ fun e he _ => ?_
    · rw [grows.job?, if_neg]
      intro hname
      have hfresh := grows.fresh
      rw [← hname, ht] at hfresh
      cases hfresh
    · rcases grows.entered with ⟨-, hpending, -⟩ | ⟨-, due, -, hpending, -⟩
      · exact hpending ▸ he
      · rw [hpending, (Scheduler.insertEntry_perm _ _).mem_iff]
        exact List.mem_cons_of_mem _ he
  | start => exact hruns.congr rfl fun _ he _ => he
  | claim now fuel =>
    have hpassed : h.popped ++ h.scheduler.passed now fuel = h.popped := hpopped
    rwa [claim_of_passed fuel (List.append_right_eq_self.mp hpassed)]
  | take free taken =>
    unfold Scheduler.take at taken
    split at taken
    case h_1 => cases taken
    case h_2 =>
      cases taken
      exact hruns.congr rfl fun _ he _ => he
  | finish active duration result => exact hruns.congr rfl fun _ he _ => he
  | @handle m inbox hinbox =>
    have hreceived : ({ h.scheduler with inbox := inbox } : Scheduler ε).Runs name i next :=
      ⟨hruns.job, hruns.entered⟩
    exact hreceived.handle m

/-- Whether a claiming at `now` has come to its end: no entry is due any more. -/
def Concluded (h : History ε) (now : Moment) : Prop :=
  ∀ e rest, h.scheduler.pending = e :: rest → now.instant < e.due.instant

/-- Where the jobs that are due move on, claiming fails nowhere and comes to its end. -/
theorem claim_concluded (fuel : Nat) (hl : h.Lifetime) (hmoves : h.scheduler.Moves now)
    (hfuel : h.scheduler.dueCount now ≤ fuel) :
    (h.claim now fuel).Concluded now ∧ (h.claim now fuel).faults = h.faults := by
  induction fuel generalizing h with
  | zero =>
    rw [claim_zero]
    refine ⟨fun e rest hpending => ?_, rfl⟩
    have hlater := Scheduler.dueCount_eq_zero.mp (Nat.le_zero.mp hfuel)
    exact hlater e (hpending ▸ List.mem_cons_self)
  | succ fuel ih =>
    by_cases hdue : ∃ e rest, h.scheduler.pending = e :: rest ∧ ¬ now.instant < e.due.instant
    · obtain ⟨e, rest, hpending, hdue⟩ := hdue
      have he : e ∈ h.scheduler.pending := hpending ▸ List.mem_cons_self
      obtain ⟨t, ht⟩ := Scheduler.exists_job_of_known hl.orderly.known he
      obtain ⟨found, hfound, hmoves', hcount⟩ :=
        Scheduler.claimFirst_moves ht (hl.orderly.current e he t ht) hmoves hpending hdue
      have hresult : h.scheduler.claimFirst now e rest =
          (.ok found, (h.scheduler.claimFirst now e rest).2) := Prod.ext hfound rfl
      have hone := claim_ok 0 hpending hdue hresult
      rw [claim_zero] at hone
      -- One entry less is due, so that the remaining looks are enough.
      obtain ⟨hconcluded, hfaults⟩ :=
        ih (hone ▸ hl.step (.claim now 1)) hmoves' (by simp only [looked]; omega)
      rw [claim_ok fuel hpending hdue hresult]
      exact ⟨hconcluded, by simpa [looked, faultsOf] using hfaults⟩
    · have hidle : ∀ e rest, h.scheduler.pending = e :: rest → now.instant < e.due.instant := by
        intro e rest hpending
        by_contra hnot
        exact hdue ⟨e, rest, hpending, hnot⟩
      rw [claim_idle _ hidle]
      exact ⟨hidle, rfl⟩

/-- The job is to run next at a point of the grid, and no later than at the first one after
`now`. -/
def OnGrid (h : History ε) (name : String) (i : Interval) (origin now : Moment) : Prop :=
  ∃ j ≤ i.reach origin now, h.scheduler.Runs name i (i.point origin j)

theorem OnGrid.mono {earlier later : Moment} (hgrid : h.OnGrid name i origin earlier)
    (hle : earlier.instant ≤ later.instant) : h.OnGrid name i origin later := by
  obtain ⟨j, hj, hruns⟩ := hgrid
  exact ⟨j, hj.trans (Interval.reach_mono hle), hruns⟩

/-- A look at an entry that is due leaves the job on its grid, whether its run is claimed, its run
is skipped, or the entry is not its own. -/
theorem OnGrid.look (hgrid : h.OnGrid name i origin now) (hl : h.Lifetime)
    (hpending : h.scheduler.pending = e :: rest) (hdue : ¬ now.instant < e.due.instant)
    (hfirst : wallInRange origin.wall)
    (hlast : wallInRange (i.point origin (i.reach origin now)).wall) :
    (h.looked e (h.scheduler.claimFirst now e rest).1
      (h.scheduler.claimFirst now e rest).2).OnGrid name i origin now := by
  obtain ⟨j, hj, hruns⟩ := hgrid
  -- An entry of the job sends it to the first point after now, and any other leaves it alone.
  by_cases hentry : e.job = name
  · obtain ⟨t, ht, live, hschedule, hnext⟩ := hruns.job
    have hcurrent : t.nextRun = some e.due :=
      hl.orderly.current e (hpending ▸ List.mem_cons_self) t (hentry ▸ ht) live
    have hpoint : i.point origin j = e.due := Option.some.inj (hnext.symm.trans hcurrent)
    have hfrom := Interval.wallInRange_point hj hfirst hlast
    have hafter : i.nextAfter e.due now = .ok (i.point origin (i.reach origin now)) := by
      rw [← hpoint] at hdue ⊢
      exact Interval.nextAfter_point (by omega) hfrom hlast
    exact ⟨_, le_rfl, hentry ▸ .rescheduled (hentry ▸ ht) live hschedule hcurrent hafter⟩
  · obtain ⟨hjob, hrest⟩ := (h.scheduler.claimFirst_look now e rest).apart hentry
    refine ⟨j, hj, hruns.congr hjob fun other hother hname => hrest other ?_⟩
    rw [hpending] at hother
    rcases List.mem_cons.mp hother with rfl | hother
    · exact absurd hname hentry
    · exact hother

theorem OnGrid.claim (fuel : Nat) (hgrid : h.OnGrid name i origin now) (hl : h.Lifetime)
    (hfirst : wallInRange origin.wall)
    (hlast : wallInRange (i.point origin (i.reach origin now)).wall) :
    (h.claim now fuel).OnGrid name i origin now := by
  have hboth : (h.claim now fuel).Lifetime ∧ (h.claim now fuel).OnGrid name i origin now := by
    refine claim_induction (P := fun h => h.Lifetime ∧ h.OnGrid name i origin now) fuel
      ⟨hl, hgrid⟩ ?_
    rintro h e rest ⟨hl, hgrid⟩ hpending hdue
    exact ⟨claim_one hpending hdue ▸ hl.step (.claim now 1),
      hgrid.look hl hpending hdue hfirst hlast⟩
  exact hboth.2

/-- When nothing is due any more, the job is to run next at the first point after now. -/
theorem OnGrid.concluded (hgrid : h.OnGrid name i origin now) (hl : h.Lifetime)
    (hconcluded : h.Concluded now) :
    h.scheduler.Runs name i (i.point origin (i.reach origin now)) := by
  obtain ⟨j, hj, hruns⟩ := hgrid
  obtain ⟨t, ht, live, -, hnext⟩ := hruns.job
  obtain ⟨e, he, hentry⟩ := hruns.entered
  have hcurrent := hl.orderly.current e he t (hentry ▸ ht) live
  have hpoint : i.point origin j = e.due := Option.some.inj (hnext.symm.trans hcurrent)
  have hlate : now.instant < e.due.instant := by
    have hsorted := hl.orderly.sorted
    cases hpending : h.scheduler.pending with
    | nil =>
      rw [hpending] at he
      cases he
    | cons head rest =>
      have hhead := hconcluded head rest hpending
      rw [hpending] at he hsorted
      rcases List.mem_cons.mp he with rfl | he
      · exact hhead
      · have hle := (List.pairwise_cons.mp hsorted).1 e he
        omega
  rw [← hpoint, Interval.lt_point_iff] at hlate
  rwa [le_antisymm hlate hj]

/-- What may happen to `h`, with claimings at the given times, each of them carried on to any entry,
and any number of other steps before, between and after them. Only claiming takes off entries. -/
inductive Course (h : History ε) : List Moment → History ε → Prop
  | here : Course h [] h
  | claim {times : List Moment} {h' : History ε} (before : Course h times h') (now : Moment)
      (fuel : Nat) : Course h (times ++ [now]) (h'.claim now fuel)
  | step {times : List Moment} {h' h'' : History ε} (before : Course h times h')
      (step : Step h' h'') (popped : h''.popped = h'.popped) : Course h times h''

namespace Course

variable {times : List Moment}

theorem lifetime (course : Course h times h') (hl : h.Lifetime) : h'.Lifetime := by
  induction course with
  | here => exact hl
  | claim before now fuel ih => exact ih.step (.claim now fuel)
  | step before step popped ih => exact ih.step step

theorem runs (course : Course h times h') (hnone : times = [])
    (hruns : h.scheduler.Runs name i next) : h'.scheduler.Runs name i next := by
  induction course with
  | here => exact hruns
  | claim before now fuel ih => simp at hnone
  | step before step popped ih => exact step.runs popped (ih hnone)

/-- The job stays on its grid, and claimings up to `now` take it no further than to the first point
after `now`. -/
theorem onGrid (course : Course h times h') (hl : h.Lifetime)
    (hruns : h.scheduler.Runs name i origin)
    (hordered : times.Pairwise fun a b => a.instant ≤ b.instant)
    (hfirst : wallInRange origin.wall)
    (hrange : ∀ past ∈ times, wallInRange (i.point origin (i.reach origin past)).wall)
    (hpast : ∀ past ∈ times, past.instant ≤ now.instant) : h'.OnGrid name i origin now := by
  induction course generalizing now with
  | here => exact ⟨0, Nat.zero_le _, by rwa [Interval.point_zero]⟩
  | @claim times h' before last fuel ih =>
    obtain ⟨hbefore, -, hlast⟩ := List.pairwise_append.mp hordered
    have hmem : last ∈ times ++ [last] := by simp
    -- Until then no claiming was later than this one.
    have hgrid : h'.OnGrid name i origin last :=
      ih hbefore (fun past hpast => hrange past (List.mem_append_left _ hpast))
        fun past hpast => hlast past hpast last (List.mem_singleton_self last)
    have hclaimed := hgrid.claim fuel (before.lifetime hl) hfirst (hrange last hmem)
    exact hclaimed.mono (hpast last hmem)
  | step before step popped ih =>
    obtain ⟨j, hj, hruns⟩ := ih hordered hrange hpast
    exact ⟨j, hj, step.runs popped hruns⟩

end Course

theorem exists_later (times : List Moment) :
    ∃ now : Moment, ∀ past ∈ times, past.instant ≤ now.instant := by
  induction times with
  | nil => exact ⟨.utc 0, by simp⟩
  | cons first rest ih =>
    obtain ⟨now, hnow⟩ := ih
    refine ⟨.utc (max first.instant now.instant), fun past hpast => ?_⟩
    simp only [Moment.utc, Moment.instant, Int.sub_zero]
    rcases List.mem_cons.mp hpast with rfl | hpast
    · exact le_max_left _ _
    · exact (hnow past hpast).trans (le_max_right _ _)

/-- A job at intervals never drifts. Whatever claimings and other steps there have been, it runs
next at a point of the grid through `origin`. Once a claiming at `now` has come to its end, that is
the first point after `now`, and it stays so until the next claiming. Nothing else matters: not how
many claimings came before, nor when, nor whether runs were claimed, skipped or missed. Claiming
does come to its end, as long as the schedules that are due lead past `now`. -/
theorem never_drifts {times : List Moment} (hl : h.Lifetime)
    (hruns : h.scheduler.Runs name i origin) (hfirst : wallInRange origin.wall)
    (hcourse : Course h times h')
    (hordered : times.Pairwise fun a b => a.instant ≤ b.instant)
    (hrange : ∀ past ∈ times, wallInRange (i.point origin (i.reach origin past)).wall) :
    (∃ j, h'.scheduler.Runs name i (i.point origin j)) ∧
      (∀ (now : Moment) (fuel : Nat) (h'' : History ε),
        (∀ past ∈ times, past.instant ≤ now.instant) →
        wallInRange (i.point origin (i.reach origin now)).wall →
        (h'.claim now fuel).Concluded now → Course (h'.claim now fuel) [] h'' →
          h''.scheduler.Runs name i (i.point origin (i.reach origin now)) ∧
            IsLeast {j : Nat | now.instant < (i.point origin j).instant} (i.reach origin now)) ∧
      ∀ now, h'.scheduler.Moves now →
        (h'.claim now h'.scheduler.pending.length).Concluded now := by
  have hl' := hcourse.lifetime hl
  refine ⟨?_, fun now fuel h'' hpast hlast hconcluded hafter => ⟨?_, i.isLeast_reach origin now⟩,
    fun now hmoves => (claim_concluded _ hl' hmoves List.countP_le_length).1⟩
  · obtain ⟨now, hnow⟩ := exists_later times
    obtain ⟨j, -, hruns'⟩ := hcourse.onGrid hl hruns hordered hfirst hrange hnow
    exact ⟨j, hruns'⟩
  · have hgrid := hcourse.onGrid hl hruns hordered hfirst hrange hpast
    have hclaimed := hgrid.claim fuel hl' hfirst hlast
    exact hafter.runs rfl (hclaimed.concluded (hl'.step (.claim now fuel)) hconcluded)

/-- An hourly job whose first run is claimed at noon, whose second run is skipped half an hour late,
and whose next two are missed. -/
theorem hourly_past_four :
    ∃ (h h' : History Unit) (noon half ten : Moment), h.Lifetime ∧
      h.scheduler.Runs "sweep" .hourly noon ∧ wallInRange noon.wall ∧ Course h [noon, half] h' ∧
      [noon, half].Pairwise (fun a b => a.instant ≤ b.instant) ∧
      (∀ past ∈ [noon, half],
        wallInRange (Interval.hourly.point noon (Interval.hourly.reach noon past)).wall) ∧
      (h'.claim ten h'.scheduler.pending.length).Concluded ten ∧
      (h'.claim ten h'.scheduler.pending.length).scheduler.Runs "sweep" .hourly
        ⟨17 * Time.hour, 0⟩ := by
  let noon : Moment := ⟨12 * Time.hour, 0⟩
  let half : Moment := ⟨13 * Time.hour + 30 * Time.minute, 0⟩
  let ten : Moment := ⟨16 * Time.hour + 10 * Time.minute, 0⟩
  let empty : Scheduler Unit := ⟨1, "UTC", [], [], 0, [], [], [], false⟩
  let t : Job Unit := .new "sweep" (.interval .hourly) () "" noon
  let s : Scheduler Unit :=
    { empty with jobs := [t], pending := [⟨noon, 0, "sweep"⟩], nextNumber := 1 }
  have hnew : (begin empty).Lifetime := .new (show Scheduler.new 1 "UTC" = .ok empty from rfl)
  have hadd : empty.add noon "sweep" (.interval .hourly) () true "" = .ok s := rfl
  have hl : (begin s).Lifetime := hnew.step (.add hadd)
  have hruns : (begin s).scheduler.Runs "sweep" .hourly noon :=
    ⟨⟨t, rfl, by decide, rfl, rfl⟩, ⟨noon, 0, "sweep"⟩, List.mem_singleton_self _, rfl⟩
  let claimed : History Unit := (begin s).claim noon 1
  let run : Run := ⟨0, ⟨"sweep", noon⟩, noon⟩
  let taken : Scheduler Unit := { claimed.scheduler with ready := [], active := [run] }
  have hfree : ∀ other ∈ claimed.scheduler.active, other.worker ≠ 0 := by
    rw [show claimed.scheduler.active = [] from rfl]
    simp
  have htake : claimed.scheduler.take 0 noon = some (run, taken) := rfl
  let skipped : History Unit := claim { claimed with scheduler := taken } half 1
  have hactive : run ∈ skipped.scheduler.active := List.mem_singleton_self run
  let report : Completion := ⟨"sweep", noon, noon, .zero, .ok .null⟩
  let finished : History Unit :=
    { skipped with scheduler := skipped.scheduler.finish run .zero (.ok .null) }
  let recorded : History Unit := finished.handled (.completed report) []
  have hcourse : Course (begin s) [noon, half] recorded :=
    ((((Course.here.claim noon 1).step (.take hfree htake) rfl).claim half 1).step
      (.finish hactive .zero (.ok .null)) rfl).step (.handle rfl) rfl
  have hordered : [noon, half].Pairwise fun a b => a.instant ≤ b.instant := by decide
  have hrange : ∀ past ∈ [noon, half],
      wallInRange (Interval.hourly.point noon (Interval.hourly.reach noon past)).wall := by decide
  have hconcluded : (recorded.claim ten 1).Concluded ten := by
    intro e rest hpending
    have hentry : (recorded.claim ten 1).scheduler.pending =
        [⟨⟨17 * Time.hour, 0⟩, 3, "sweep"⟩] := rfl
    rw [hentry, List.cons.injEq] at hpending
    rw [← hpending.1]
    decide
  obtain ⟨-, hafter, -⟩ := never_drifts hl hruns (by decide) hcourse hordered hrange
  have hpast : ∀ past ∈ [noon, half], past.instant ≤ ten.instant := by decide
  have hreach : Interval.hourly.reach noon ten = 5 := by decide
  have hten : wallInRange (Interval.hourly.point noon (Interval.hourly.reach noon ten)).wall := by
    decide
  obtain ⟨hlast, -⟩ := hafter ten 1 (recorded.claim ten 1) hpast hten hconcluded .here
  rw [hreach] at hlast
  exact ⟨begin s, recorded, noon, half, ten, hl, hruns, by decide, hcourse, hordered, hrange,
    hconcluded, hlast⟩

end History

end Guildhall.Job
