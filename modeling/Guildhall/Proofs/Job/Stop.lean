import Guildhall.Proofs.Job.Conservation
import Mathlib.Logic.Relation

/-!
# Stops

A stop drops the claims that nobody picks up, lets runs end by themselves for a while, breaks off
the others, deals with the inbox and cancels every job. Every run that has ended by itself is then
on record and has been told of once, and a job that has been cancelled never runs again.
-/

namespace Guildhall.Job

open Relation (ReflTransGen)
open Time (Moment)

variable {ε : Type}

def Run.report (run : Run) (duration : Double) (result : Except Failure Value) : Completion :=
  ⟨run.claim.job, run.claim.due, run.startedAt, duration, result⟩

def Completion.claim (c : Completion) : Claim := ⟨c.job, c.due⟩

def Message.report? : Message → Option Completion
  | .added _ => none
  | .completed c => some c

namespace Scheduler

def reports (s : Scheduler ε) : List Completion := s.inbox.filterMap Message.report?

variable {s s' : Scheduler ε} {name : String} {finished : List Completion}

theorem inFlight_eq (s : Scheduler ε) (name : String) :
    s.inFlight name = (s.reports.map Completion.claim ++ s.active.map (·.claim) ++
      s.ready).filter (·.job = name) := by
  have hclaims : s.inbox.filterMap Message.claim? = s.reports.map Completion.claim := by
    rw [reports, List.map_filterMap]
    congr 1
    funext m
    cases m <;> rfl
  rw [inFlight, hclaims]

/-- What may happen while a stop waits: jobs are added, workers pick up claims, and runs end by
themselves. Nothing is claimed and no message is dealt with. The reports of the runs that end are
listed. -/
inductive Awaits (s : Scheduler ε) : List Completion → Scheduler ε → Prop
  | here : Awaits s [] s
  | add {finished : List Completion} {s' grown : Scheduler ε} {now : Moment} {name : String}
      {schedule : Schedule} {executor : ε} {runOnLoad : Bool} {feature : String}
      (before : Awaits s finished s')
      (added : s'.add now name schedule executor runOnLoad feature = .ok grown) :
      Awaits s finished grown
  | take {finished : List Completion} {s' taken : Scheduler ε} {worker : Nat} {now : Moment}
      {run : Run} (before : Awaits s finished s')
      (free : ∀ other ∈ s'.active, other.worker ≠ worker)
      (took : s'.take worker now = some (run, taken)) : Awaits s finished taken
  | finish {finished : List Completion} {s' : Scheduler ε} {run : Run}
      (before : Awaits s finished s') (active : run ∈ s'.active) (duration : Double)
      (result : Except Failure Value) :
      Awaits s (finished ++ [run.report duration result]) (s'.finish run duration result)

theorem take_eq_some {worker : Nat} {now : Moment} {run : Run}
    (h : s.take worker now = some (run, s')) :
    ∃ claim rest, s.ready = claim :: rest ∧ run = ⟨worker, claim, now⟩ ∧
      s' = { s with ready := rest, active := s.active ++ [⟨worker, claim, now⟩] } := by
  unfold take at h
  split at h
  case h_1 => cases h
  case h_2 claim rest hready =>
    cases h
    exact ⟨claim, rest, hready, rfl, rfl⟩

namespace Awaits

theorem reports (h : s.Awaits finished s') : s'.reports = s.reports ++ finished := by
  induction h with
  | here => simp
  | add before added ih =>
    obtain ⟨schedule', first, grows⟩ := add_grows added
    rw [← ih]
    rcases grows.entered with ⟨hinbox, -⟩ | ⟨hinbox, -⟩ <;>
      simp [Scheduler.reports, hinbox, Message.report?]
  | take before free took ih =>
    obtain ⟨claim, rest, -, -, rfl⟩ := take_eq_some took
    exact ih
  | finish before active duration result ih =>
    rw [← List.append_assoc, ← ih]
    simp [Scheduler.reports, Scheduler.finish, Message.report?, Run.report]

theorem inFlight (h : s.Awaits finished s') (hworkers : (s.active.map (·.worker)).Nodup)
    (name : String) :
    (s'.active.map (·.worker)).Nodup ∧ (s'.inFlight name).Perm (s.inFlight name) := by
  induction h with
  | here => exact ⟨hworkers, .refl _⟩
  | add before added ih =>
    obtain ⟨schedule', first, grows⟩ := add_grows added
    rw [grows.active, grows.inFlight]
    exact ih
  | take before free took ih =>
    obtain ⟨claim, rest, hready, -, rfl⟩ := take_eq_some took
    rw [inFlight_take hready]
    exact ⟨nodup_map_concat ih.1 free, ih.2⟩
  | finish before active duration result ih =>
    exact ⟨ih.1.sublist (List.filter_sublist.map _),
      (inFlight_finish ih.1 active duration result name).trans ih.2⟩

/-- A figure that starts at zero is changed by nothing that happens meanwhile. -/
theorem figure (h : s.Awaits finished s') {f : Job ε → Nat}
    (hnew : ∀ name schedule executor feature first,
      f (.new name schedule executor feature first) = 0)
    (name : String) : s'.figure f name = s.figure f name := by
  induction h with
  | here => rfl
  | add before added ih =>
    obtain ⟨schedule', first, grows⟩ := add_grows added
    rw [grows.figure (hnew _ _ _ _ _), ih]
  | take before free took ih =>
    obtain ⟨claim, rest, -, -, rfl⟩ := take_eq_some took
    exact ih
  | finish before active duration result ih => exact ih

theorem ready_eq_nil (h : s.Awaits finished s') (hready : s.ready = []) : s'.ready = [] := by
  induction h with
  | here => exact hready
  | add before added ih =>
    obtain ⟨schedule', first, grows⟩ := add_grows added
    rw [grows.ready, ih]
  | take before free took ih =>
    obtain ⟨claim, rest, hclaim, -, -⟩ := take_eq_some took
    rw [ih] at hclaim
    cases hclaim
  | finish before active duration result ih => exact ih

/-- When nothing is under way either, no run begins or ends. -/
theorem idle (h : s.Awaits finished s') (hready : s.ready = []) (hactive : s.active = []) :
    finished = [] ∧ s'.active = [] := by
  induction h with
  | here => exact ⟨rfl, hactive⟩
  | add before added ih =>
    obtain ⟨schedule', first, grows⟩ := add_grows added
    rwa [grows.active]
  | take before free took ih =>
    obtain ⟨claim, rest, hclaim, -, -⟩ := take_eq_some took
    rw [before.ready_eq_nil hready] at hclaim
    cases hclaim
  | finish before active duration result ih =>
    rw [ih.2] at active
    cases active

end Awaits

theorem figure_dismiss (f : Job ε → Nat)
    (hf : ∀ t : Job ε, f { t with state := .cancelled } = f t) :
    s.dismiss.figure f name = s.figure f name := by
  rw [figure, figure, job?_dismiss]
  cases s.job? name with
  | none => rfl
  | some t => exact hf t

structure Attributed (s : Scheduler ε) : Prop where
  workers : (s.active.map (·.worker)).Nodup
  known : ∀ name, s.job? name = none → s.inFlight name = []

theorem job?_eq_none_congr (hnames : s'.jobs.map (·.name) = s.jobs.map (·.name)) :
    s'.job? name = none ↔ s.job? name = none := by
  have hmem (s : Scheduler ε) : s.job? name = none ↔ name ∉ s.jobs.map (·.name) := by
    rw [job?_eq_none]
    simp
  rw [hmem, hmem, hnames]

theorem inFlight_dropReady (name : String) :
    (s.dropReady.inFlight name).Sublist (s.inFlight name) := by
  refine List.Sublist.filter _ ?_
  simp [dropReady]

theorem inFlight_cancelActive (name : String) :
    (s.cancelActive.inFlight name).Sublist (s.inFlight name) := by
  refine List.Sublist.filter _ ?_
  simp [cancelActive]

namespace Attributed

theorem look {now : Moment} {e : Entry} {rest : List Entry}
    {result : Except Failure (Option Claim)} (h : s.Attributed)
    (look : s.Look now e rest result s') : s'.Attributed := by
  have hflight := inFlight_look look
  cases look with
  | dropped stale => exact ⟨h.workers, h.known⟩
  | failed => exact ⟨h.workers, h.known⟩
  | @skipped t next job state =>
    refine ⟨by simpa using h.workers, fun name hnone => ?_⟩
    rw [job?_eq_none_congr names_reschedule] at hnone
    rw [hflight, h.known name hnone]
    rfl
  | @claimed t next job state =>
    refine ⟨by simpa [enqueue] using h.workers, fun name hnone => ?_⟩
    have hsame : s.job? name = none := (job?_eq_none_congr names_reschedule).mp hnone
    have hother : e.job ≠ name := by
      rintro rfl
      rw [job] at hsame
      cases hsame
    rw [hflight, h.known name hsame]
    simp [claimsOf, hother]

theorem handle {m : Message} {rest : List Message} (h : s.Attributed)
    (hinbox : s.inbox = m :: rest) : ({ s with inbox := rest }.handle m).2.Attributed := by
  obtain ⟨-, hactive, -, hnames⟩ := handle_apart (s := { s with inbox := rest }) m
  refine ⟨by rw [hactive]; exact h.workers, fun name hnone => ?_⟩
  have hflight := h.known name ((job?_eq_none_congr hnames).mp hnone)
  rw [inFlight_handle hinbox] at hflight
  exact (List.append_eq_nil_iff.mp hflight).2

end Attributed

end Scheduler

namespace History

variable {h h' : History ε} {finished : List Completion} {dropped : List Claim} {broken : List Run}

theorem enduring_attributed : Enduring fun h : History ε => h.scheduler.Attributed where
  new made := by
    unfold Scheduler.new at made
    split at made
    · cases made
    · cases made
      exact ⟨List.nodup_nil, fun _ _ => rfl⟩
  add _ hp _ _ _ _ _ _ _ added := by
    obtain ⟨schedule', first, grows⟩ := Scheduler.add_grows added
    refine ⟨grows.active ▸ hp.workers, fun name hnone => ?_⟩
    rw [grows.job?] at hnone
    split at hnone
    case isTrue => cases hnone
    case isFalse => rw [grows.inFlight, hp.known name hnone]
  start _ hp := ⟨hp.workers, hp.known⟩
  look _ hp _ _ _ _ _ _ look := hp.look look
  take _ hp _ _ _ _ free ready := by
    refine ⟨nodup_map_concat hp.workers free, fun name hnone => ?_⟩
    rw [Scheduler.inFlight_take ready]
    exact hp.known name hnone
  finish _ hp _ active duration result := by
    refine ⟨hp.workers.sublist (List.filter_sublist.map _), fun name hnone => ?_⟩
    have hperm := Scheduler.inFlight_finish hp.workers active duration result name
    rwa [hp.known name hnone, List.perm_nil] at hperm
  handle _ hp _ _ inbox := hp.handle inbox
  dropReady hp := ⟨hp.workers, fun name hnone =>
    List.sublist_nil.mp (hp.known name hnone ▸ Scheduler.inFlight_dropReady name)⟩
  cancelActive hp := ⟨List.nodup_nil, fun name hnone =>
    List.sublist_nil.mp (hp.known name hnone ▸ Scheduler.inFlight_cancelActive name)⟩
  dismiss hp := by
    refine ⟨hp.workers, fun name hnone => hp.known name ?_⟩
    exact (Scheduler.job?_eq_none_congr Scheduler.names_dismiss).mp hnone

theorem handled_report {m : Message} {rest : List Message} (hl : h.Lifetime)
    (hinbox : h.scheduler.inbox = m :: rest) :
    (h.handled m rest).events = h.events ++ m.report?.toList.map Completion.event ∧
      ∀ name, (h.handled m rest).scheduler.figure (·.runCount) name =
        h.scheduler.figure (·.runCount) name + m.report?.toList.countP (·.job = name) := by
  cases m with
  | added job =>
    refine ⟨by simp [handled, Message.report?], fun name => ?_⟩
    exact Scheduler.figure_congr _ (Scheduler.handle_added_jobs job)
  | completed c =>
    -- A report is in flight until it is dealt with, so it belongs to a job.
    have hjob : ∃ t, h.scheduler.job? c.job = some t := by
      rw [← Option.isSome_iff_exists, Option.isSome_iff_ne_none]
      intro hnone
      have hflight := (enduring_attributed.holds hl).known c.job hnone
      rw [Scheduler.inFlight_handle hinbox] at hflight
      simp [Message.claim?] at hflight
    obtain ⟨t, ht⟩ := hjob
    have hhandled := Scheduler.handle_completed (s := { h.scheduler with inbox := rest }) ht
    refine ⟨by rw [handled, hhandled]; rfl, fun name => ?_⟩
    have hfigure := Scheduler.figure_record (s := { h.scheduler with inbox := rest })
      (·.runCount) ht name
    rw [show ({ h.scheduler with inbox := rest } : Scheduler ε).figure (·.runCount) name =
      h.scheduler.figure (·.runCount) name from rfl] at hfigure
    rw [handled, hhandled]
    by_cases hname : name = c.job
    · simp only [if_pos hname, Scheduler.record] at hfigure
      simp only [Message.report?, Option.toList_some, List.countP_singleton, hname, decide_true,
        if_true] at hfigure ⊢
      omega
    · simpa [Message.report?, hname, Ne.symm hname] using hfigure

/-- Dealing with the whole inbox records and tells of every report in it. -/
theorem drained_reports {h : History ε} (hl : h.Lifetime) :
    h.drained.events = h.events ++ h.scheduler.reports.map Completion.event ∧
      ∀ name, h.drained.scheduler.figure (·.runCount) name =
        h.scheduler.figure (·.runCount) name + h.scheduler.reports.countP (·.job = name) := by
  cases hinbox : h.scheduler.inbox with
  | nil =>
    rw [drained_nil hinbox]
    simp [Scheduler.reports, hinbox]
  | cons m rest =>
    have hrest : (h.handled m rest).scheduler.inbox = rest := (Scheduler.handle_apart m).1
    obtain ⟨hevents, hruns⟩ := handled_report hl hinbox
    obtain ⟨hevents', hruns'⟩ := drained_reports (hl.step (.handle hinbox))
    have hreports : h.scheduler.reports =
        m.report?.toList ++ (h.handled m rest).scheduler.reports := by
      rw [Scheduler.reports, Scheduler.reports, hrest, hinbox]
      cases m <;> rfl
    rw [drained_cons hinbox, hreports]
    refine ⟨by rw [hevents', hevents, List.map_append, List.append_assoc], fun name => ?_⟩
    rw [hruns', hruns, List.countP_append, Nat.add_assoc]
termination_by h.scheduler.inbox.length
decreasing_by simp [hrest, hinbox]

/-- The inbox is empty afterwards, and what waits for a worker or is under way stays. -/
theorem drained_apart (h : History ε) :
    h.drained.scheduler.inbox = [] ∧ h.drained.scheduler.active = h.scheduler.active ∧
      h.drained.scheduler.ready = h.scheduler.ready := by
  cases hinbox : h.scheduler.inbox with
  | nil =>
    rw [drained_nil hinbox]
    exact ⟨hinbox, rfl, rfl⟩
  | cons m rest =>
    obtain ⟨hrest, hactive, hready, -⟩ :=
      Scheduler.handle_apart (s := { h.scheduler with inbox := rest }) m
    have hhandled : (h.handled m rest).scheduler.inbox = rest := hrest
    obtain ⟨hnone, hactive', hready'⟩ := drained_apart (h.handled m rest)
    rw [drained_cons hinbox]
    exact ⟨hnone, hactive'.trans hactive, hready'.trans hready⟩
termination_by h.scheduler.inbox.length
decreasing_by simp [hhandled, hinbox]

/-- What happens while a stop waits may happen at any time. -/
theorem steps_of_awaits {s : Scheduler ε} (hawaits : h.scheduler.Awaits finished s) :
    ReflTransGen Step h { h with scheduler := s } := by
  induction hawaits with
  | here => exact .refl
  | add before added ih => exact ih.tail (.add added)
  | take before free took ih => exact ih.tail (.take free took)
  | finish before active duration result ih => exact ih.tail (.finish active duration result)

theorem awaits_induction {P : History ε → Prop} {s : Scheduler ε}
    (hawaits : h.scheduler.Awaits finished s) (hp : P h)
    (step : ∀ {h h' : History ε}, P h → Step h h' → P h') : P { h with scheduler := s } := by
  have hsteps := steps_of_awaits hawaits
  generalize { h with scheduler := s } = h' at hsteps ⊢
  induction hsteps with
  | refl => exact hp
  | tail before next ih => exact step ih next

theorem Lifetime.awaits {s : Scheduler ε} (hl : h.Lifetime)
    (hawaits : h.scheduler.Awaits finished s) : Lifetime { h with scheduler := s } :=
  awaits_induction hawaits hl .step

/-- A stop from its beginning to its end. It waits for the loop to end, drops the claims that no
worker has picked up by then, waits for runs to end, breaks off those that have not, waits for the
workers to end, and then deals with the inbox and cancels every job. While it waits other things
happen. The runs that end by themselves, those that are dropped and those that are broken off are
listed. -/
inductive Stops (h : History ε) : List Completion → List Claim → List Run → History ε → Prop
  | intro {first second third : List Completion} {s s' s'' : Scheduler ε}
      (leaving : h.scheduler.Awaits first s) (working : s.dropReady.Awaits second s')
      (closing : s'.cancelActive.Awaits third s'') :
      Stops h (first ++ second ++ third) s.ready s'.active (retired { h with scheduler := s'' })

theorem Lifetime.stops (hl : h.Lifetime) (stops : h.Stops finished dropped broken h') :
    h'.Lifetime := by
  cases stops with
  | @intro first second third s s' s'' leaving working closing =>
    have hleft := (hl.awaits leaving).dropReady
    have hworked := (hleft.awaits working).cancelActive
    exact (hworked.awaits closing).retire

inductive Move : History ε → History ε → Prop
  | step {h h' : History ε} (step : Step h h') : Move h h'
  | stop {h h' : History ε} {finished : List Completion} {dropped : List Claim}
      {broken : List Run} (stops : h.Stops finished dropped broken h') : Move h h'

inductive Lived : History ε → Prop
  | new {workers : Int} {zone : String} {s : Scheduler ε}
      (made : Scheduler.new workers zone = .ok s) : Lived (begin s)
  | move {h h' : History ε} (before : Lived h) (move : Move h h') : Lived h'

theorem Lived.lifetime (hl : h.Lived) : h.Lifetime := by
  induction hl with
  | new made => exact .new made
  | move before move ih =>
    cases move with
    | step step => exact ih.step step
    | stop stops => exact ih.stops stops

/-- A stop records and tells of every run that has ended by itself, once, and of no other. What was
in flight has ended by itself, has been dropped, or has been broken off. -/
theorem Stops.account (stops : h.Stops finished dropped broken h') (hl : h.Lifetime) :
    h'.events = h.events ++ (h.scheduler.reports ++ finished).map Completion.event ∧
      (∀ name, h'.scheduler.figure (·.runCount) name = h.scheduler.figure (·.runCount) name +
        (h.scheduler.reports ++ finished).countP (·.job = name)) ∧
      ∀ name, (h.scheduler.inFlight name).Perm
        (((h.scheduler.reports ++ finished).map Completion.claim ++ broken.map (·.claim) ++
          dropped).filter (·.job = name)) := by
  cases stops with
  | @intro first second third s s' s'' leaving working closing =>
    have hworked := ((hl.awaits leaving).dropReady.awaits working).cancelActive
    have hready := working.ready_eq_nil rfl
    obtain ⟨rfl, -⟩ := closing.idle hready rfl
    have hreports : s''.reports = h.scheduler.reports ++ (first ++ second ++ []) := by
      rw [closing.reports, show s'.cancelActive.reports = s'.reports from rfl, working.reports,
        show s.dropReady.reports = s.reports from rfl, leaving.reports]
      simp
    obtain ⟨hevents, hruns⟩ := drained_reports (hworked.awaits closing)
    refine ⟨hreports ▸ hevents, fun name => ?_, fun name => ?_⟩
    · rw [retired_eq, Scheduler.figure_dismiss _ fun _ => rfl, hruns, ← hreports]
      have hnew (name : String) (schedule : Schedule) (executor : ε) (feature : String)
        (first : Moment) : (Job.new name schedule executor feature first).runCount = 0 := rfl
      have hsame : s''.figure (·.runCount) name = h.scheduler.figure (·.runCount) name :=
        (closing.figure hnew name).trans ((working.figure hnew name).trans
          (leaving.figure hnew name))
      rw [hsame]
    · have hattributed := enduring_attributed.holds hl
      have hleft := leaving.inFlight hattributed.workers name
      have hworking := (working.inFlight hleft.1 name).2
      -- What has been dropped was in flight until then, and the rest goes on.
      have hsplit : s.inFlight name =
          s.dropReady.inFlight name ++ s.ready.filter (·.job = name) := by
        rw [Scheduler.inFlight_eq, Scheduler.inFlight_eq, ← List.filter_append]
        simp [Scheduler.dropReady, Scheduler.reports]
      have hend : ((h.scheduler.reports ++ (first ++ second ++ [])).map Completion.claim ++
          s'.active.map (·.claim)).filter (·.job = name) = s'.inFlight name := by
        rw [← hreports, Scheduler.inFlight_eq, hready, List.append_nil, closing.reports]
        simp [Scheduler.cancelActive, Scheduler.reports]
      rw [List.filter_append, hend]
      exact hleft.2.symm.trans (hsplit ▸ hworking.symm.append_right _)

end History

namespace Scheduler

variable {s s' : Scheduler ε} {name : String} {t u : Job ε}

structure Rests (s : Scheduler ε) (t : Job ε) : Prop where
  job : s.job? t.name = some t
  cancelled : t.state = .cancelled
  grounded : s.inFlight t.name = []

namespace Rests

theorem congr (h : s.Rests t) (hjobs : s'.jobs = s.jobs)
    (hflight : (s'.inFlight t.name).Sublist (s.inFlight t.name)) : s'.Rests t where
  job := by rw [job?, hjobs, ← job?, h.job]
  cancelled := h.cancelled
  grounded := List.sublist_nil.mp (h.grounded ▸ hflight)

theorem ne_of_job? (h : s.Rests t) {other : String} (job : s.job? other = some u)
    (live : u.state ≠ .cancelled) : other ≠ t.name := by
  rintro rfl
  rw [h.job] at job
  cases job
  exact live h.cancelled

/-! One step, and what becomes of the entries of the job. -/

theorem add (h : s.Rests t) (grows : s.Grows s' u) :
    s'.Rests t ∧ s'.entries t.name = s.entries t.name := by
  have hne : u.name ≠ t.name := by
    intro heq
    have hfresh := grows.fresh
    rw [heq, h.job] at hfresh
    cases hfresh
  refine ⟨⟨by rw [grows.job?, if_neg (Ne.symm hne), h.job], h.cancelled, ?_⟩, ?_⟩
  · rw [grows.inFlight, h.grounded]
  · rcases grows.entered with ⟨-, hpending, -⟩ | ⟨-, due, -, hpending, -⟩
    · rw [entries, hpending, entries]
    · rw [entries, hpending]
      exact filter_insertEntry (by simpa using hne) s.pending

theorem look {now : Moment} {e : Entry} {rest : List Entry}
    {result : Except Failure (Option Claim)} (h : s.Rests t) (hpending : s.pending = e :: rest)
    (look : s.Look now e rest result s') :
    s'.Rests t ∧ (claimsOf result).filter (·.job = t.name) = [] ∧
      (s'.entries t.name).Sublist (s.entries t.name) := by
  have hrest : (rest.filter (·.job = t.name)).Sublist (s.entries t.name) := by
    rw [entries, hpending]
    exact (List.sublist_cons_self e rest).filter _
  have hflight := inFlight_look look t.name
  cases look with
  | dropped stale => exact ⟨⟨h.job, h.cancelled, h.grounded⟩, rfl, hrest⟩
  | failed => exact ⟨⟨h.job, h.cancelled, h.grounded⟩, rfl, hrest⟩
  | @skipped u next job state =>
    have hne : e.job ≠ t.name := h.ne_of_job? job (by simp [state])
    have hname : (u.skip next).name = e.job := (name_of_job? job : u.name = e.job)
    have hjob := job?_reschedule (u := u.skip next) rest (hname ▸ job) t.name
    rw [hname, if_neg (Ne.symm hne)] at hjob
    refine ⟨⟨hjob.trans h.job, h.cancelled, ?_⟩, rfl, ?_⟩
    · rw [hflight, h.grounded]
      rfl
    · rw [reschedule, entries_push (hname ▸ hne)]
      exact hrest
  | @claimed u next job state =>
    have hne : e.job ≠ t.name := h.ne_of_job? job (by simp [state])
    have hname : (u.engage next).name = e.job := (name_of_job? job : u.name = e.job)
    have hjob := job?_reschedule (u := u.engage next) rest (hname ▸ job) t.name
    rw [hname, if_neg (Ne.symm hne)] at hjob
    have hclaims : (claimsOf (.ok (some ⟨e.job, e.due⟩))).filter (·.job = t.name) = [] := by
      simp [claimsOf, hne]
    refine ⟨⟨hjob.trans h.job, h.cancelled, ?_⟩, hclaims, ?_⟩
    · rw [hflight, h.grounded, hclaims]
      rfl
    · rw [show (((s.reschedule rest (u.engage next)).enqueue ⟨e.job, e.due⟩).entries t.name) =
        (s.reschedule rest (u.engage next)).entries t.name from rfl, reschedule,
        entries_push (hname ▸ hne)]
      exact hrest

theorem take {claim : Claim} {rest : List Claim} {worker : Nat} {now : Moment} (h : s.Rests t)
    (hready : s.ready = claim :: rest) :
    Scheduler.Rests { s with ready := rest, active := s.active ++ [⟨worker, claim, now⟩] } t :=
  h.congr rfl (by rw [inFlight_take hready])

theorem finish {run : Run} (h : s.Rests t) (hactive : run ∈ s.active) (duration : Double)
    (result : Except Failure Value) : (s.finish run duration result).Rests t := by
  refine ⟨h.job, h.cancelled, ?_⟩
  have hflight := h.grounded
  have hne : run.claim.job ≠ t.name := by
    rw [inFlight, List.filter_eq_nil_iff] at hflight
    have hrun := hflight run.claim (by simp only [List.mem_append, List.mem_map]; grind)
    simpa using hrun
  rw [inFlight_eq, List.filter_append, List.filter_append, List.append_eq_nil_iff,
    List.append_eq_nil_iff] at hflight
  obtain ⟨⟨hreports, hruns⟩, hclaims⟩ := hflight
  have hrest : ((s.finish run duration result).active.map (·.claim)).filter (·.job = t.name) = [] :=
    List.sublist_nil.mp (hruns ▸ (List.filter_sublist.map _).filter _)
  rw [inFlight_eq, List.filter_append, List.filter_append, hrest,
    show (s.finish run duration result).ready = s.ready from rfl, hclaims]
  simp [reports, Scheduler.finish, Message.report?, Completion.claim, hne] at hreports ⊢
  exact hreports

theorem entries_handle_added (h : s.Rests t) (name : String) :
    (s.handle (.added name)).2.entries t.name = s.entries t.name := by
  cases hu : s.job? name with
  | none => simp [Scheduler.handle, hu]
  | some u =>
    by_cases live : u.state = .cancelled
    · simp [Scheduler.handle, hu, live]
    · rw [handle_added hu live]
      exact entries_push (name_of_job? hu ▸ h.ne_of_job? hu live)

theorem handle {m : Message} {rest : List Message} (h : s.Rests t) (hinbox : s.inbox = m :: rest) :
    ({ s with inbox := rest }.handle m).2.Rests t ∧
      (({ s with inbox := rest }.handle m).1.filterMap runOf?).filter
        (fun claim : Claim => claim.job = t.name) = [] ∧
      ({ s with inbox := rest }.handle m).2.entries t.name = s.entries t.name := by
  have hflight := h.grounded
  rw [inFlight_handle hinbox, List.append_eq_nil_iff] at hflight
  obtain ⟨hreport, hgrounded⟩ := hflight
  cases m with
  | added name =>
    refine ⟨⟨?_, h.cancelled, hgrounded⟩, by simp, ?_⟩
    · rw [job?, handle_added_jobs, ← job?]
      exact h.job
    · rw [handle_inbox]
      exact h.entries_handle_added name
  | completed c =>
    have hne : c.job ≠ t.name := by simpa [Message.claim?] using hreport
    cases hu : s.job? c.job with
    | none =>
      rw [handle_unknown (s := { s with inbox := rest }) hu] at hgrounded ⊢
      exact ⟨⟨h.job, h.cancelled, hgrounded⟩, rfl, rfl⟩
    | some u =>
      rw [handle_completed (s := { s with inbox := rest }) hu] at hgrounded ⊢
      refine ⟨⟨?_, h.cancelled, hgrounded⟩, by simp [hne], rfl⟩
      rw [job?_record (s := { s with inbox := rest }) hu, if_neg (Ne.symm hne)]
      exact h.job

theorem dismiss (h : s.Rests t) : s.dismiss.Rests t := by
  refine ⟨?_, h.cancelled, h.grounded⟩
  rw [job?_dismiss, h.job, Option.map_some, ← h.cancelled]

end Rests

structure Stopped (s : Scheduler ε) : Prop where
  ready : s.ready = []
  inbox : s.inbox = []
  active : s.active = []
  running : s.running = false
  cancelled : ∀ t ∈ s.jobs, t.state = .cancelled

theorem Stopped.rests (h : s.Stopped) (hnames : (s.jobs.map (·.name)).Nodup) (ht : t ∈ s.jobs) :
    s.Rests t where
  job := job?_of_mem hnames ht
  cancelled := h.cancelled t ht
  grounded := by simp [inFlight, h.ready, h.inbox, h.active]

end Scheduler

namespace History

variable {h h₀ h' h'' : History ε} {t : Job ε}

structure Lasting (P : History ε → Prop) : Prop extends Kept (fun _ => True) P where
  dropReady {h : History ε} (hp : P h) : P { h with scheduler := h.scheduler.dropReady }
  cancelActive {h : History ε} (hp : P h) : P { h with scheduler := h.scheduler.cancelActive }
  dismiss {h : History ε} (hp : P h) : P { h with scheduler := h.scheduler.dismiss }

namespace Lasting

variable {P : History ε → Prop}

theorem awaits (lasting : Lasting P) {finished : List Completion} {s : Scheduler ε} (hp : P h)
    (hawaits : h.scheduler.Awaits finished s) : P { h with scheduler := s } :=
  awaits_induction hawaits hp fun hp step => lasting.step (fun _ _ => trivial) trivial hp step

theorem stops (lasting : Lasting P) {finished : List Completion} {dropped : List Claim}
    {broken : List Run} (hp : P h) (stops : h.Stops finished dropped broken h') : P h' := by
  cases stops with
  | @intro first second third s s' s'' leaving working closing =>
    have hleft : P { h with scheduler := s.dropReady } :=
      lasting.dropReady (lasting.awaits hp leaving)
    have hworked : P { h with scheduler := s'.cancelActive } :=
      lasting.cancelActive (lasting.awaits hleft working)
    have hclosed : P { h with scheduler := s'' } := by
      simpa using lasting.awaits hworked closing
    rw [retired_eq]
    exact lasting.dismiss (lasting.drain (fun _ _ => trivial) trivial hclosed)

theorem moves (lasting : Lasting P) (hp : P h) (moves : ReflTransGen Move h h') :
    P h' := by
  induction moves with
  | refl => exact hp
  | tail before move ih =>
    cases move with
    | step step => exact lasting.step (fun _ _ => trivial) trivial ih step
    | stop stops => exact lasting.stops ih stops

end Lasting

/-- Since an earlier time a job has been at rest: it has not changed, nothing has been claimed or
told of for it, and no entry has been made for it. -/
structure Stays (h₀ : History ε) (t : Job ε) (h : History ε) : Prop where
  rests : h.scheduler.Rests t
  claims : h.claims t.name = h₀.claims t.name
  told : h.told t.name = h₀.told t.name
  entries : (h.scheduler.entries t.name).Sublist (h₀.scheduler.entries t.name)

theorem lasting_stays (h₀ : History ε) (t : Job ε) : Lasting (Stays h₀ t) where
  add _ hp _ _ _ _ _ _ _ added := by
    obtain ⟨schedule', first, grows⟩ := Scheduler.add_grows added
    obtain ⟨hrests, hentries⟩ := hp.rests.add grows
    exact ⟨hrests, hp.claims, hp.told, hentries ▸ hp.entries⟩
  start _ hp := ⟨hp.rests.congr rfl (.refl _), hp.claims, hp.told, hp.entries⟩
  look _ hp _ _ _ _ _ pending look := by
    obtain ⟨hrests, hclaims, hentries⟩ := hp.rests.look pending look
    refine ⟨hrests, ?_, hp.told, hentries.trans hp.entries⟩
    rw [← hp.claims, History.claims, looked, List.filter_append, hclaims, List.append_nil]
    rfl
  take _ hp _ _ _ _ _ ready := ⟨hp.rests.take ready, hp.claims, hp.told, hp.entries⟩
  finish _ hp _ active duration result :=
    ⟨hp.rests.finish active duration result, hp.claims, hp.told, hp.entries⟩
  handle {h} _ hp m rest inbox := by
    obtain ⟨hrests, htold, hentries⟩ := hp.rests.handle inbox
    refine ⟨hrests, hp.claims, ?_, ?_⟩
    · rw [← hp.told, History.told, handled, List.filterMap_append, List.filter_append, htold,
        List.append_nil]
      rfl
    · rw [handled, hentries]
      exact hp.entries
  dropReady hp :=
    ⟨hp.rests.congr rfl (Scheduler.inFlight_dropReady _), hp.claims, hp.told, hp.entries⟩
  cancelActive hp :=
    ⟨hp.rests.congr rfl (Scheduler.inFlight_cancelActive _), hp.claims, hp.told, hp.entries⟩
  dismiss hp := ⟨hp.rests.dismiss, hp.claims, hp.told, hp.entries⟩

theorem Stops.stopped {finished : List Completion} {dropped : List Claim} {broken : List Run}
    (stops : h.Stops finished dropped broken h') : h'.scheduler.Stopped := by
  cases stops with
  | @intro first second third s s' s'' leaving working closing =>
    have hready := working.ready_eq_nil rfl
    obtain ⟨hinbox, hactive, hready'⟩ := drained_apart { h with scheduler := s'' }
    rw [retired_eq]
    refine ⟨hready'.trans (closing.ready_eq_nil hready), hinbox,
      hactive.trans (closing.idle hready rfl).2, rfl, fun t ht => ?_⟩
    obtain ⟨u, -, rfl⟩ := List.mem_map.mp ht
    rfl

/-- At the end of a stop nothing is ready, nothing is in the inbox, no worker has a run under way
and every job is cancelled. Each run that ended by itself, before the stop or during it, has been
recorded and told of once; what else was in flight has been dropped or broken off, and has neither
been recorded nor told of. Whatever happens later, stops included, the jobs stay at rest. -/
theorem stop_is_final {finished : List Completion} {dropped : List Claim} {broken : List Run}
    (hl : h.Lived) (stops : h.Stops finished dropped broken h') :
    h'.scheduler.Stopped ∧
      (h'.events = h.events ++ (h.scheduler.reports ++ finished).map Completion.event ∧
        (∀ name, h'.scheduler.figure (·.runCount) name = h.scheduler.figure (·.runCount) name +
          (h.scheduler.reports ++ finished).countP (·.job = name)) ∧
        ∀ name, (h.scheduler.inFlight name).Perm
          (((h.scheduler.reports ++ finished).map Completion.claim ++ broken.map (·.claim) ++
            dropped).filter (·.job = name))) ∧
      ∀ h'', ReflTransGen Move h' h'' → ∀ t ∈ h'.scheduler.jobs, h'.Stays t h'' := by
  have hstopped := stops.stopped
  have hnames := (enduring_distinct.holds (hl.lifetime.stops stops)).1
  refine ⟨hstopped, stops.account hl.lifetime, fun h'' moves t ht => ?_⟩
  exact (lasting_stays h' t).moves ⟨hstopped.rests hnames ht, rfl, rfl, .refl _⟩ moves

/-- Of three runs in flight one ends while a stop waits, one is broken off and one is dropped. The
jobs stay at rest although the scheduler starts again and claims what is due an hour later. -/
theorem stop_of_three_runs :
    ∃ (h h' h'' : History Unit) (finished : List Completion) (dropped : List Claim)
      (broken : List Run),
      (h.Lived ∧ h.Stops finished dropped broken h' ∧ ReflTransGen Move h' h'' ∧
        finished.map (·.job) = ["sweep"] ∧ broken.map (·.claim.job) = ["mail"] ∧
        dropped.map (·.job) = ["tidy"]) ∧
      h'.scheduler.Stopped ∧ h'.events.length = 1 ∧
      (["sweep", "mail", "tidy"].map (h'.scheduler.figure (·.runCount))) = [1, 0, 0] ∧
      h'.scheduler.jobs.length = 3 ∧ ∀ t ∈ h'.scheduler.jobs, h'.Stays t h'' := by
  let noon : Moment := ⟨12 * Time.hour, 0⟩
  let empty : Scheduler Unit := ⟨2, "UTC", [], [], 0, [], [], [], false⟩
  let sweep : Job Unit := .new "sweep" (.interval .hourly) () "" noon
  let mail : Job Unit := .new "mail" (.interval .hourly) () "" noon
  let tidy : Job Unit := .new "tidy" (.interval .hourly) () "" noon
  let one : Scheduler Unit :=
    { empty with jobs := [sweep], pending := [⟨noon, 0, "sweep"⟩], nextNumber := 1 }
  let two : Scheduler Unit :=
    { one with
      jobs := [sweep, mail], pending := [⟨noon, 0, "sweep"⟩, ⟨noon, 1, "mail"⟩], nextNumber := 2 }
  let three : Scheduler Unit :=
    { two with
      jobs := [sweep, mail, tidy]
      pending := [⟨noon, 0, "sweep"⟩, ⟨noon, 1, "mail"⟩, ⟨noon, 2, "tidy"⟩]
      nextNumber := 3 }
  have hnew : (begin empty).Lived := .new (show Scheduler.new 2 "UTC" = .ok empty from rfl)
  have hone : (begin one).Lived := hnew.move (.step (.add
    (show empty.add noon "sweep" (.interval .hourly) () true "" = .ok one from rfl)))
  have htwo : (begin two).Lived := hone.move (.step (.add
    (show one.add noon "mail" (.interval .hourly) () true "" = .ok two from rfl)))
  have hthree : (begin three).Lived := htwo.move (.step (.add
    (show two.add noon "tidy" (.interval .hourly) () true "" = .ok three from rfl)))
  have hclaimed := (hthree.move (.step .start)).move (.step (.claim noon 3))
  let claimed : History Unit := (begin { three with running := true }).claim noon 3
  let first : Run := ⟨0, ⟨"sweep", noon⟩, noon⟩
  let second : Run := ⟨1, ⟨"mail", noon⟩, noon⟩
  let report := first.report .zero (.ok .null)
  let taken : Scheduler Unit := { claimed.scheduler with
    ready := [⟨"mail", noon⟩, ⟨"tidy", noon⟩], active := [first] }
  let busy : Scheduler Unit := { taken with ready := [⟨"tidy", noon⟩], active := [first, second] }
  have hfirst : claimed.scheduler.take 0 noon = some (first, taken) := rfl
  have hsecond : taken.take 1 noon = some (second, busy) := rfl
  have hfree : ∀ other ∈ claimed.scheduler.active, other.worker ≠ 0 := by
    rw [show claimed.scheduler.active = [] from rfl]
    simp
  have hfree' : ∀ other ∈ taken.active, other.worker ≠ 1 :=
    List.forall_mem_singleton.mpr (by decide)
  have htaken := (hclaimed.move (.step (.take hfree hfirst))).move (.step (.take hfree' hsecond))
  have hstop : Stops { claimed with scheduler := busy } ([] ++ [report] ++ []) [⟨"tidy", noon⟩]
      [second] _ :=
    .intro .here (.finish .here (List.mem_cons_self (a := first)) .zero (.ok .null)) .here
  obtain ⟨hstopped, ⟨hevents, hruns, -⟩, hlast⟩ := stop_is_final htaken hstop
  refine ⟨_, _, _, _, _, _, ⟨htaken, hstop, ((ReflTransGen.refl.tail
    (.step .start)).tail (.step (.claim ⟨13 * Time.hour, 0⟩ 3))), rfl, rfl, rfl⟩, hstopped, ?_, ?_,
    rfl, hlast _ ((ReflTransGen.refl.tail (.step .start)).tail (.step (.claim _ 3)))⟩
  · rw [hevents]
    rfl
  · simp only [List.map_cons, List.map_nil, hruns]
    rfl

end History

end Guildhall.Job
