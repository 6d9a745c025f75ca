import Guildhall.Proofs.Job.Claiming
import Guildhall.Proofs.Job.Clockwork

/-!
# A schedule that fails

A schedule that knows no next run breaks the claiming off at the entry of its job. What comes before
this entry is taken care of as ever, the job loses its entry, and what comes after it has to wait.
In virtual time it waits for good: the loop is gone, although the scheduler counts as running.
-/

namespace Guildhall.Job

open Time (Moment)

variable {ε : Type}

namespace Scheduler

variable {s s' : Scheduler ε} {now next : Moment} {t : Job ε} {e f : Entry}
  {before after rest : List Entry} {failure : Failure}

/-- Whether the job of an entry, unless it has been cancelled, runs next after `now`. -/
def Advances (s : Scheduler ε) (now : Moment) (e : Entry) : Prop :=
  ∀ t, s.job? e.job = some t → t.state ≠ .cancelled →
    ∃ next, t.schedule.nextAfter e.due now = .ok next ∧ now.instant < next.instant

/-- Whether the job of an entry has not been cancelled, and its schedule fails. -/
def Breaks (s : Scheduler ε) (now : Moment) (e : Entry) (failure : Failure) : Prop :=
  ∃ t, s.job? e.job = some t ∧ t.state ≠ .cancelled ∧
    t.schedule.nextAfter e.due now = .error failure

theorem job?_look (h : s.Filed) (hpending : s.pending = f :: rest) (job : s.job? f.job = some t)
    (live : t.state ≠ .cancelled) (he : e ∈ rest) :
    ((s.reschedule rest (t.advance next)).queue (f.offer t)).job? e.job = s.job? e.job := by
  have hname : (t.advance next).name = f.job := (name_advance t next).trans (name_of_job? job)
  rw [job?_queue, job?_reschedule rest (hname ▸ job), hname,
    if_neg (h.job_ne hpending job live e he)]

theorem filter_offers_look (h : s.Filed) (hpending : s.pending = f :: rest)
    (job : s.job? f.job = some t) (live : t.state ≠ .cancelled)
    (hbefore : ∀ other ∈ before, other ∈ rest) :
    before.filter (((s.reschedule rest (t.advance next)).queue (f.offer t)).offers now) =
      before.filter (s.offers now) := by
  apply List.filter_congr
  intro other hother
  rw [offers, offers, job?_look h hpending job live (hbefore other hother)]

theorem due_of_before (h : s.Filed) (hpending : s.pending = before ++ e :: after)
    (hdue : e.due.instant ≤ now.instant) : ∀ other ∈ before, other.due.instant ≤ now.instant := by
  intro other hother
  have hordered := h.ordered
  rw [hpending, List.pairwise_append] at hordered
  have hbefore := hordered.2.2 other hother e List.mem_cons_self
  unfold Entry.Before at hbefore
  omega

theorem insertEntry_append {front back : List Entry}
    (h : ∀ other ∈ front, other.due.instant ≤ e.due.instant) :
    insertEntry e (front ++ back) = front ++ insertEntry e back := by
  induction front with
  | nil => rfl
  | cons first rest ih =>
    obtain ⟨hfirst, hrest⟩ := List.forall_mem_cons.mp h
    rw [List.cons_append, insertEntry, if_pos hfirst, ih hrest, List.cons_append]

structure Broken (s : Scheduler ε) (now : Moment) (before : List Entry) (e : Entry)
    (after : List Entry) (s' : Scheduler ε) : Prop where
  jobs : s'.jobs = s.jobs.map fun t => if t.name ∈ before.map (·.job) then t.pass now else t
  ready : s'.ready = s.ready ++ (before.filter (s.offers now)).map Entry.claim
  kept : ∀ other ∈ after, other ∈ s'.pending
  lost : s'.entries e.job = []
  once : ∀ t ∈ s'.jobs, t.state ≠ .cancelled → t.name ≠ e.job →
    ∃ f, s'.entries t.name = [f] ∧ t.nextRun = some f.due
  apart : s' = { s with
    jobs := s'.jobs, pending := s'.pending, nextNumber := s'.nextNumber, ready := s'.ready }

namespace Broken

/-- The entry of the job whose schedule fails is taken off, and nothing is entered for it. -/
theorem here (h : s.Filed) (hpending : s.pending = e :: after) (job : s.job? e.job = some t)
    (live : t.state ≠ .cancelled) : s.Broken now [] e after { s with pending := after } where
  jobs := by simp
  ready := by simp
  kept other hother := hother
  lost := by
    rw [entries, List.filter_eq_nil_iff]
    simpa using h.job_ne hpending job live
  once u hu hlive hne := by
    obtain ⟨only, hentries, hnext⟩ := h.once u hu hlive
    rw [entries, hpending, List.filter_cons_of_neg (by simpa using Ne.symm hne)] at hentries
    exact ⟨only, hentries, hnext⟩
  apart := rfl

theorem drop (h : s.Filed) (job : s.job? f.job = some t) (state : t.state = .cancelled)
    (hbroken : ({ s with pending := rest } : Scheduler ε).Broken now before e after s') :
    s.Broken now (f :: before) e after s' where
  jobs := by
    rw [hbroken.jobs]
    apply List.map_congr_left
    intro u hu
    by_cases hname : u.name = f.job
    · have hsame : u.pass now = u := by
        rw [h.eq_of_name hu job hname]
        exact pass_of_not_due fun due hdue => hdue.live state
      simp [hsame]
    · simp [hname]
  ready := by
    rw [hbroken.ready, List.filter_cons_of_neg (by simp [offers, job, state])]
    rfl
  kept := hbroken.kept
  lost := hbroken.lost
  once := hbroken.once
  apart := hbroken.apart

theorem reschedule (h : s.Filed) (hpending : s.pending = f :: rest)
    (hbefore : ∀ other ∈ before, other ∈ rest) (job : s.job? f.job = some t)
    (live : t.state ≠ .cancelled) (hdue : ¬ now.instant < f.due.instant)
    (hnext : t.schedule.nextAfter f.due now = .ok next) (hlate : now.instant < next.instant)
    (hbroken : ((s.reschedule rest (t.advance next)).queue (f.offer t)).Broken now before e
      (insertEntry ⟨next, s.nextNumber, f.job⟩ after) s') :
    s.Broken now (f :: before) e after s' where
  jobs := by
    have due : t.Due now f.due :=
      ⟨live, h.current (hpending ▸ List.mem_cons_self) job live, Int.not_lt.mp hdue⟩
    have hname : (t.advance next).name = f.job := (name_advance t next).trans (name_of_job? job)
    rw [hbroken.jobs, queue, jobs_reschedule, List.map_map]
    apply List.map_congr_left
    intro u hu
    rw [Function.comp_apply, hname]
    by_cases heq : u.name = f.job
    · rw [if_pos heq, pass_advance hlate, ite_self, if_pos (by simp [heq]),
        h.eq_of_name hu job heq, pass_of_due due hnext]
    · simp [heq]
  ready := by
    rw [hbroken.ready, filter_offers_look h hpending job live hbefore, claims_cons job live hdue,
      queue, reschedule_ready, List.append_assoc]
  kept other hother := by
    apply hbroken.kept
    exact (insertEntry_perm _ _).mem_iff.mpr (List.mem_cons_of_mem _ hother)
  lost := hbroken.lost
  once := hbroken.once
  apart := by
    rw [hbroken.apart]
    simp [queue, Scheduler.reschedule, modify, push]

end Broken

/-- Claiming breaks off at the first entry whose schedule fails. -/
theorem claimUpTo_broken (h : s.Filed) (hpending : s.pending = before ++ e :: after)
    (hadvance : ∀ f ∈ before, s.Advances now f) (hdue : e.due.instant ≤ now.instant)
    (hbreaks : s.Breaks now e failure) :
    ∃ s', s.Broken now before e after s' ∧ ∀ fuel claims, before.length < fuel →
      s.claimUpTo now fuel claims =
        (.error failure, claims ++ (before.filter (s.offers now)).map Entry.claim, s') := by
  induction before generalizing s after with
  | nil =>
    obtain ⟨t, job, live, hfails⟩ := hbreaks
    have he : e ∈ s.pending := hpending ▸ List.mem_cons_self
    refine ⟨_, .here h hpending job live, fun fuel claims hfuel => ?_⟩
    obtain ⟨spare, rfl⟩ := Nat.exists_eq_add_of_lt hfuel
    have hcurrent : t.nextRun.map Moment.instant = some e.due.instant := by
      rw [h.current he job live, Option.map_some]
    rw [claimUpTo_error _ claims hpending (Int.not_lt.mpr hdue)
      (claimFirst_of_failing after job live hcurrent hfails)]
    simp
  | cons f before ih =>
    have hdueBefore := due_of_before h hpending hdue
    have hpending : s.pending = f :: (before ++ e :: after) := hpending
    have hf : f ∈ s.pending := hpending ▸ List.mem_cons_self
    have hmem : e ∈ before ++ e :: after := by simp
    have hfirst : ¬ now.instant < f.due.instant := Int.not_lt.mpr (hdueBefore f List.mem_cons_self)
    obtain ⟨hadvances, hadvance⟩ := List.forall_mem_cons.mp hadvance
    obtain ⟨t, job⟩ := h.exists_job hf
    by_cases live : t.state = .cancelled
    · obtain ⟨s', hbroken, hclaim⟩ := ih (h.drop hpending job live) rfl hadvance hbreaks
      refine ⟨s', .drop h job live hbroken, fun fuel claims hfuel => ?_⟩
      obtain ⟨spare, rfl⟩ := Nat.exists_eq_add_of_lt hfuel
      rw [claimUpTo_ok _ claims hpending hfirst (claimFirst_of_cancelled _ job live),
        hclaim _ _ (Nat.lt_of_succ_lt_succ hfuel),
        List.filter_cons_of_neg (by simp [offers, job, live]), Option.toList_none, List.append_nil]
      rfl
    · obtain ⟨next, hnext, hlate⟩ := hadvances t job live
      have hlook {other : Entry} (hother : other ∈ before ++ e :: after) :
          ((s.reschedule (before ++ e :: after) (t.advance next)).queue
            (f.offer t)).job? other.job = s.job? other.job :=
        job?_look h hpending job live hother
      -- The new entry is past `now`, so it comes to stand behind the entry that fails.
      have hpending' : ((s.reschedule (before ++ e :: after) (t.advance next)).queue
          (f.offer t)).pending = before ++ e :: insertEntry ⟨next, s.nextNumber, f.job⟩ after := by
        rw [queue_pending, reschedule_pending (nextRun_advance t next), name_advance,
          name_of_job? job, insertEntry_append, insertEntry, if_pos (by simp only; omega)]
        intro other hother
        have hdue' := hdueBefore other (List.mem_cons_of_mem f hother)
        simp only
        omega
      have hadvance' : ∀ other ∈ before, Advances
          ((s.reschedule (before ++ e :: after) (t.advance next)).queue (f.offer t)) now other := by
        intro other hother
        rw [Advances, hlook (List.mem_append_left _ hother)]
        exact hadvance other hother
      obtain ⟨s', hbroken, hclaim⟩ := ih ((h.reschedule hpending job live next).queue (f.offer t))
        hpending' hadvance' (by rw [Breaks, hlook hmem]; exact hbreaks)
      have hbefore : ∀ other ∈ before, other ∈ before ++ e :: after :=
        fun _ => List.mem_append_left _
      refine ⟨s', .reschedule h hpending hbefore job live hfirst hnext hlate hbroken,
        fun fuel claims hfuel => ?_⟩
      obtain ⟨spare, rfl⟩ := Nat.exists_eq_add_of_lt hfuel
      rw [claimUpTo_ok _ claims hpending hfirst
          (claimFirst_of_live _ job live (h.current hf job live) hnext),
        hclaim _ _ (Nat.lt_of_succ_lt_succ hfuel), claims_cons job live hfirst,
        filter_offers_look h hpending job live hbefore, List.append_assoc]

theorem claimDue_broken (h : s.Filed) (hpending : s.pending = before ++ e :: after)
    (hadvance : ∀ f ∈ before, s.Advances now f) (hdue : e.due.instant ≤ now.instant)
    (hbreaks : s.Breaks now e failure) :
    ∃ s', s.Broken now before e after s' ∧
      s.claimDue now = (.error failure, (before.filter (s.offers now)).map Entry.claim, s') := by
  obtain ⟨s', hbroken, hclaim⟩ := claimUpTo_broken h hpending hadvance hdue hbreaks
  exact ⟨s', hbroken, hclaim _ [] (by simp [hpending])⟩

theorem running_handle (m : Message) : (s.handle m).2.running = s.running := by
  cases m with
  | added name =>
    rcases handle_added_cases (s := s) name with hsame | ⟨t, hpushed⟩
    · rw [hsame]
    · rw [hpushed, push]
      split <;> rfl
  | completed c =>
    cases job : s.job? c.job with
    | none => rw [handle_unknown job]
    | some t =>
      rw [handle_completed job]
      rfl

theorem running_drainInbox (s : Scheduler ε) : s.drainInbox.2.running = s.running := by
  have hall (messages : List Message) (s : Scheduler ε) :
      (handleAll messages s).2.running = s.running := by
    induction messages generalizing s with
    | nil => rfl
    | cons m rest ih => exact (ih (s.handle m).2).trans (running_handle m)
  exact hall s.inbox { s with inbox := [] }

/-- A running scheduler enters nothing for a new job before its loop gets the news. -/
theorem add_of_running {name feature : String} {schedule : Schedule} {executor : ε}
    {runOnLoad : Bool} (running : s.running = true)
    (h : s.add now name schedule executor runOnLoad feature = .ok s') :
    ∃ t, s' = { s with jobs := s.jobs ++ [t], inbox := s.inbox ++ [.added t.name] } := by
  rw [add_eq] at h
  split at h
  case isTrue => cases h
  case isFalse =>
    split at h
    case h_1 => cases h
    case h_2 schedule' hzone =>
      split at h
      case h_1 => cases h
      case h_2 first hfirst =>
        cases h
        exact ⟨_, if_pos running⟩

/-- Without its loop a running scheduler neither claims nor enters anything. -/
theorem Awaits.of_running {finished : List Completion} (h : s.Awaits finished s')
    (running : s.running = true) :
    s'.running = true ∧ s'.pending = s.pending ∧ s.jobs <+: s'.jobs ∧ s'.ready <:+ s.ready := by
  induction h with
  | here => exact ⟨running, rfl, List.prefix_refl _, List.suffix_refl _⟩
  | add before added ih =>
    obtain ⟨hrunning, hpending, hjobs, hready⟩ := ih
    obtain ⟨t, rfl⟩ := add_of_running hrunning added
    exact ⟨hrunning, hpending, hjobs.trans (List.prefix_append _ _), hready⟩
  | take before free took ih =>
    obtain ⟨hrunning, hpending, hjobs, hready⟩ := ih
    obtain ⟨claim, rest, hclaims, -, rfl⟩ := take_eq_some took
    rw [hclaims] at hready
    exact ⟨hrunning, hpending, hjobs, (List.suffix_cons claim rest).trans hready⟩
  | finish before active duration result ih => exact ih

end Scheduler

end Guildhall.Job

namespace Guildhall.Simulation.Clockwork

open Job (Entry Scheduler)
open Relation (ReflTransGen)

variable {c c' c'' : Clockwork} {s : Scheduler (List Plan)} {before after : List Entry} {e : Entry}
  {failure : Failure}

/-- The loop is gone, although the scheduler counts as running. Since `c` no run has been claimed or
entered. The jobs of `c` stay as they are, and the workers only pick up what has been claimed
before. -/
structure Adrift (c c' : Clockwork) : Prop where
  running : c'.scheduler.running = true
  absent : c'.loop = .absent
  timed : c'.Timed
  pending : c'.scheduler.pending = c.scheduler.pending
  jobs : c.scheduler.jobs <+: c'.scheduler.jobs
  ready : c'.scheduler.ready <:+ c.scheduler.ready

namespace Adrift

theorem refl (running : c.scheduler.running = true) (absent : c.loop = .absent) (timed : c.Timed) :
    Adrift c c :=
  ⟨running, absent, timed, rfl, List.prefix_refl _, List.suffix_refl _⟩

theorem trans (h : Adrift c c') (h' : Adrift c' c'') : Adrift c c'' where
  running := h'.running
  absent := h'.absent
  timed := h'.timed
  pending := h'.pending.trans h.pending
  jobs := h.jobs.trans h'.jobs
  ready := h'.ready.trans h.ready

end Adrift

theorem Works.adrift (h : Works c c') (running : c.scheduler.running = true)
    (absent : c.loop = .absent) : Adrift c c' := by
  obtain ⟨finished, hawaits⟩ := h.awaits
  obtain ⟨hrunning, hpending, hjobs, hready⟩ := hawaits.of_running running
  exact ⟨hrunning, h.absent absent, h.timed, hpending, hjobs, hready⟩

theorem sleep_works (length : Nat) (hc : c.Timed) (habsent : c.loop = .absent) :
    Works c (c.sleep length) := by
  unfold Clockwork.sleep
  split
  · exact round_works hc habsent
  · exact runUntil_works _ _ hc habsent

theorem Use.adrift (use : Use c c') (running : c.scheduler.running = true)
    (absent : c.loop = .absent) (timed : c.Timed) (still : c'.scheduler.running = true) :
    Adrift c c' := by
  cases use with
  | add added =>
    obtain ⟨grown, hadd, hc'⟩ := bind_eq_ok.mp added
    cases hc'
    obtain ⟨schedule', first, grows⟩ := Job.Scheduler.add_grows hadd
    have hgrown : Works c { c with scheduler := grown } :=
      ⟨⟨[], .add .here hadd⟩, timed.trans grows.active.symm, rfl, id⟩
    split
    case isTrue =>
      obtain ⟨hscheduler, htimers, hevents, hloop⟩ := wakeLoop_eq { c with scheduler := grown }
      have hwoken := hgrown.trans (.of_same hscheduler htimers hevents hloop hgrown.timed)
      exact hwoken.adrift running absent
    case isFalse => exact hgrown.adrift running absent
  | start =>
    unfold Clockwork.start
    rw [if_pos running]
    exact .refl running absent timed
  | sleep length => exact (sleep_works length timed absent).adrift running absent
  | stop grace => exact absurd still Bool.false_ne_true

theorem loopTurn_of_error {claims : List Job.Claim} (present : c.loop ≠ .absent)
    (hclaim : c.scheduler.drainInbox.2.claimDue c.clock = (.error failure, claims, s)) :
    c.loopTurn.scheduler = s ∧ c.loopTurn.loop = .absent := by
  have hclaimed : c.drained.claim =
      (.error failure, claims, wakeWorkers claims { c.drained with scheduler := s }) := by
    have hdue : c.drained.scheduler.claimDue c.drained.clock = (.error failure, claims, s) := hclaim
    rw [claim, hdue]
  rw [loopTurn_eq present, hclaimed]
  exact ⟨(wakeWorkers_eq claims _).1, rfl⟩

/-- Where a schedule fails, the claiming of the loop's turn breaks off: what is claimed are the runs
of idle jobs that come before the entry of its job. The job loses its entry, every other job keeps
its own, and the loop ends. As long as the scheduler then counts as running, nothing is claimed or
entered any more, whatever is done with the clockwork. -/
theorem failing_schedule_ends_the_loop (timed : c.Timed) (running : c.scheduler.running = true)
    (present : c.loop ≠ .absent) (inbox : c.scheduler.drainInbox.2 = s) (filed : s.Filed)
    (pending : s.pending = before ++ e :: after)
    (advance : ∀ other ∈ before, s.Advances c.clock other)
    (due : e.due.instant ≤ c.clock.instant) (breaks : s.Breaks c.clock e failure) :
    s.claimDue c.clock = (.error failure, (before.filter (s.offers c.clock)).map Entry.claim,
        c.loopTurn.scheduler) ∧
      s.Broken c.clock before e after c.loopTurn.scheduler ∧
      c.loopTurn.loop = .absent ∧
      ∀ c', ReflTransGen (fun c c' => Use c c' ∧ c'.scheduler.running = true) c.loopTurn c' →
        Adrift c.loopTurn c' := by
  obtain ⟨s', hbroken, hclaim⟩ :=
    Job.Scheduler.claimDue_broken filed pending advance due breaks
  obtain ⟨hscheduler, habsent⟩ := loopTurn_of_error present (inbox ▸ hclaim)
  have hrunning : c.loopTurn.scheduler.running = true := by
    rw [hscheduler, hbroken.apart]
    exact inbox ▸ (Job.Scheduler.running_drainInbox c.scheduler).trans running
  have htimed : c.loopTurn.Timed := by
    have hfollows : Follows ⟨c.scheduler, [], [], c.events, []⟩ c := ⟨rfl, rfl, timed⟩
    obtain ⟨h, -, hturn⟩ := loopTurn_leads hfollows
    exact hturn.timed
  rw [← hscheduler] at hclaim hbroken
  refine ⟨hclaim, hbroken, habsent, fun c' uses => ?_⟩
  induction uses with
  | refl => exact .refl hrunning habsent htimed
  | tail before use ih => exact ih.trans (use.1.adrift ih.running ih.absent ih.timed use.2)

/-- Two jobs that are due: one runs at a distance of 999999999 days, the other one every hour. -/
def vastAndHourly (noon : Time.Moment) : Scheduler (List Plan) :=
  { workers := 4, zone := "UTC", nextNumber := 2, inbox := [], ready := [], active := []
    running := true
    jobs := [.new "vast" (.interval ⟨999999999 * Time.day, by decide⟩) [] "" noon,
      .new "sweep" (.interval .hourly) [] "" noon]
    pending := [⟨noon, 0, "vast"⟩, ⟨noon, 1, "sweep"⟩] }

theorem filed_vastAndHourly (noon : Time.Moment) : (vastAndHourly noon).Filed := by
  constructor
  case names => simp [vastAndHourly, Job.new]
  case numbered => exact ⟨by simp [vastAndHourly], by simp [vastAndHourly]⟩
  case known => simp [vastAndHourly, Job.new]
  case once =>
    intro t ht _
    simp only [vastAndHourly, List.mem_cons, List.not_mem_nil, or_false] at ht
    rcases ht with rfl | rfl
    · exact ⟨_, rfl, rfl⟩
    · exact ⟨_, rfl, rfl⟩
  case ordered => simp [vastAndHourly, Entry.Before]

/-- The hourly job is still to run at noon, however much time passes. -/
theorem hourly_job_waits_for_good :
    ∃ (c : Clockwork) (noon : Time.Moment), c.Timed ∧ c.scheduler.running = true ∧
      c.loop ≠ .absent ∧ c.scheduler.Filed ∧ c.clock = noon ∧
      ⟨noon, 1, "sweep"⟩ ∈ c.scheduler.pending ∧
      c.scheduler.claimDue c.clock = (.error .outOfRange, [], c.loopTurn.scheduler) ∧
      ∀ length, (c.loopTurn.sleep length).scheduler.running = true ∧
        ⟨noon, 1, "sweep"⟩ ∈ (c.loopTurn.sleep length).scheduler.pending := by
  let noon : Time.Moment := .utc (Time.wallOfDate ⟨2024, 1, 1⟩ + 12 * Time.hour)
  let c : Clockwork := { new (vastAndHourly noon) noon with turns := [.loop], loop := .queued }
  have timed : c.Timed := rfl
  have present : c.loop ≠ .absent := by decide
  have hclock : c.clock = noon := by decide +kernel
  have filed : c.scheduler.Filed := filed_vastAndHourly noon
  have hbreaks : c.scheduler.Breaks c.clock ⟨noon, 0, "vast"⟩ .outOfRange :=
    ⟨_, rfl, by decide, by decide +kernel⟩
  obtain ⟨hclaim, hbroken, habsent, hadrift⟩ := failing_schedule_ends_the_loop timed rfl present rfl
    filed (List.nil_append _).symm (by simp) (by rw [hclock]) hbreaks
  have hturn := hadrift _ .refl
  refine ⟨c, noon, timed, rfl, present, filed, hclock, by decide, hclaim, fun length => ?_⟩
  have hworks := sleep_works length hturn.timed habsent
  have still := (hworks.adrift hturn.running habsent).running
  have hslept := hadrift _ (.single ⟨.sleep length, still⟩)
  rw [hslept.pending]
  exact ⟨still, hbroken.kept _ List.mem_cons_self⟩

/-- Not every run of an idle job is claimed when it is due and its own schedule does not fail. -/
theorem not_every_idle_job_is_claimed :
    ¬ ∀ (s : Scheduler (List Plan)) (now : Time.Moment), s.Filed → ∀ t ∈ s.jobs, t.state = .idle →
      ∀ due, t.Due now due → (∃ next, t.schedule.nextAfter due now = .ok next) →
        ⟨t.name, due⟩ ∈ (s.claimDue now).2.1 := by
  intro hclaims
  let noon : Time.Moment := .utc (Time.wallOfDate ⟨2024, 1, 1⟩ + 12 * Time.hour)
  let sweep : Job (List Plan) := .new "sweep" (.interval .hourly) [] "" noon
  have hnext : sweep.schedule.nextAfter noon noon =
      .ok (.utc (Time.wallOfDate ⟨2024, 1, 1⟩ + 13 * Time.hour)) := by decide +kernel
  have hclaimed := hclaims (vastAndHourly noon) noon (filed_vastAndHourly noon) sweep
    (by simp [vastAndHourly, sweep]) rfl noon ⟨by decide, rfl, Int.le_refl _⟩ ⟨_, hnext⟩
  have hnone : ((vastAndHourly noon).claimDue noon).2.1 = [] := by decide +kernel
  rw [hnone] at hclaimed
  cases hclaimed

end Guildhall.Simulation.Clockwork
