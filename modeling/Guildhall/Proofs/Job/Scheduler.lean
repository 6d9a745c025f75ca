import Guildhall.Job.Scheduler
import Guildhall.Proofs.Base
import Mathlib.Data.List.Perm.Basic
import Mathlib.Tactic.Common

/-!
# What the operations of a scheduler do

The job table is read by name. Each operation changes at most one job, and what it does to the
entries, the claims and the inbox is said once here.
-/

namespace Guildhall.Job

variable {ε : Type}

/-- The job whose run is skipped, because it is running, and which runs next at `next`. -/
def skip (t : Job ε) (next : Time.Moment) : Job ε :=
  { t with nextRun := some next, skippedTicks := t.skippedTicks + 1 }

/-- The job whose run is claimed and which runs next at `next`. -/
def engage (t : Job ε) (next : Time.Moment) : Job ε :=
  { t with nextRun := some next, state := .running }

/-- The job whose run is due: it is claimed or, if the job is running, skipped. -/
def advance (t : Job ε) (next : Time.Moment) : Job ε :=
  if t.state = .running then t.skip next else t.engage next

@[simp]
theorem name_advance (t : Job ε) (next : Time.Moment) : (t.advance next).name = t.name := by
  unfold advance
  split <;> rfl

@[simp]
theorem nextRun_advance (t : Job ε) (next : Time.Moment) :
    (t.advance next).nextRun = some next := by
  unfold advance
  split <;> rfl

@[simp]
theorem schedule_advance (t : Job ε) (next : Time.Moment) :
    (t.advance next).schedule = t.schedule := by
  unfold advance
  split <;> rfl

@[simp]
theorem state_advance (t : Job ε) (next : Time.Moment) : (t.advance next).state = .running := by
  unfold advance
  split
  · assumption
  · rfl

/-- The claim that comes of a due entry, unless its job is running. -/
def Entry.offer (e : Entry) (t : Job ε) : Option Claim :=
  if t.state = .running then none else some ⟨e.job, e.due⟩

namespace Scheduler

variable {s s' : Scheduler ε} {name : String} {t u : Job ε} {rest : List Entry}

theorem name_of_job? (h : s.job? name = some t) : t.name = name := by
  simpa [job?] using List.find?_some h

theorem job?_eq_none : s.job? name = none ↔ ∀ t ∈ s.jobs, t.name ≠ name := by
  simp [job?]

theorem job?_of_mem (hnames : (s.jobs.map (·.name)).Nodup) (ht : t ∈ s.jobs) :
    s.job? t.name = some t := by
  unfold job?
  generalize s.jobs = jobs at hnames ht
  induction jobs with
  | nil => cases ht
  | cons u rest ih =>
    rw [List.map_cons, List.nodup_cons] at hnames
    rcases List.mem_cons.mp ht with rfl | ht
    · simp
    · have hne : u.name ≠ t.name := by
        intro h
        exact hnames.1 (h ▸ List.mem_map_of_mem ht)
      rw [List.find?_cons_of_neg (by simpa using hne)]
      exact ih hnames.2 ht

theorem name_modify {f : Job ε → Job ε} (hf : ∀ u, u.name = name → (f u).name = name)
    (u : Job ε) : (if u.name = name then f u else u).name = u.name := by
  by_cases hu : u.name = name
  · simp [hu, hf u hu]
  · simp [hu]

theorem names_modify {f : Job ε → Job ε} (hf : ∀ u, u.name = name → (f u).name = name) :
    (s.modify name f).jobs.map (·.name) = s.jobs.map (·.name) := by
  simp only [modify, List.map_map]
  exact List.map_congr_left fun u _ => name_modify hf u

theorem job?_modify {f : Job ε → Job ε} (hf : ∀ u, u.name = name → (f u).name = name)
    (h : s.job? name = some t) (other : String) :
    (s.modify name f).job? other = if other = name then some (f t) else s.job? other := by
  have hfind : (s.modify name f).job? other =
      (s.job? other).map fun u => if u.name = name then f u else u := by
    simp only [job?, modify, List.find?_map, Function.comp_def, name_modify hf]
  rw [hfind]
  split
  case isTrue heq => simp [heq, h, name_of_job? h]
  case isFalse hne =>
    cases hother : s.job? other with
    | none => rfl
    | some u => simp [name_of_job? hother, hne]

/-- A number kept with a job; it is zero as long as there is no such job. -/
def figure (s : Scheduler ε) (f : Job ε → Nat) (name : String) : Nat := (s.job? name).elim 0 f

theorem figure_of_job? (f : Job ε → Nat) (h : s.job? name = some t) :
    s.figure f name = f t := by
  simp [figure, h]

theorem figure_congr (f : Job ε → Nat) (h : s'.jobs = s.jobs) :
    s'.figure f name = s.figure f name := by
  rw [figure, figure, job?, job?, h]

theorem figure_put (f : Job ε → Nat) (ht : s.job? name = some t)
    (h : ∀ other, s'.job? other = if other = name then some u else s.job? other)
    (other : String) :
    s'.figure f other + (if other = name then f t else 0) =
      s.figure f other + if other = name then f u else 0 := by
  by_cases hother : other = name
  · simp [figure, h, hother, ht, Nat.add_comm]
  · simp [figure, h, hother]

theorem insertEntry_perm (e : Entry) (entries : List Entry) :
    (insertEntry e entries).Perm (e :: entries) := by
  induction entries with
  | nil => exact .refl _
  | cons first rest ih =>
    rw [insertEntry]
    split
    · exact (ih.cons first).trans (.swap e first rest)
    · exact .refl _

theorem filter_insertEntry {p : Entry → Bool} {e : Entry} (hp : p e = false)
    (entries : List Entry) : (insertEntry e entries).filter p = entries.filter p := by
  induction entries with
  | nil => simp [insertEntry, hp]
  | cons first rest ih =>
    rw [insertEntry]
    split
    · rw [List.filter_cons, List.filter_cons, ih]
    · rw [List.filter_cons_of_neg (by simpa using hp)]

@[simp]
theorem push_jobs : (s.push t).jobs = s.jobs := by unfold push; split <;> rfl

@[simp]
theorem push_inbox : (s.push t).inbox = s.inbox := by unfold push; split <;> rfl

@[simp]
theorem push_ready : (s.push t).ready = s.ready := by unfold push; split <;> rfl

@[simp]
theorem push_active : (s.push t).active = s.active := by unfold push; split <;> rfl

@[simp]
theorem job?_push : (s.push t).job? name = s.job? name := by simp [job?]

theorem push_pending {due : Time.Moment} (h : t.nextRun = some due) :
    (s.push t).pending = insertEntry ⟨due, s.nextNumber, t.name⟩ s.pending := by
  simp [push, h]

def entries (s : Scheduler ε) (name : String) : List Entry := s.pending.filter (·.job = name)

theorem entries_push (hne : t.name ≠ name) : (s.push t).entries name = s.entries name := by
  unfold push
  split
  · rfl
  · exact filter_insertEntry (by simpa using hne) s.pending

/-- The scheduler with one more job, whose first run is entered or, when the scheduler runs,
announced. -/
def takeOn (s : Scheduler ε) (t : Job ε) : Scheduler ε :=
  if s.running then { s with jobs := s.jobs ++ [t], inbox := s.inbox ++ [.added t.name] }
  else { s with jobs := s.jobs ++ [t] }.push t

/-- A job is not added if its name is taken, or if its schedule knows no zone or no first run. -/
theorem add_eq (s : Scheduler ε) (now : Time.Moment) (name : String) (schedule : Schedule)
    (executor : ε) (runOnLoad : Bool) (feature : String) :
    s.add now name schedule executor runOnLoad feature =
      if (s.job? name).isSome then .error (.duplicateTask name)
      else
        match schedule.useDefaultZone (.str s.zone) with
        | .error failure => .error (.failed failure)
        | .ok schedule =>
          match if runOnLoad then .ok now else schedule.firstRun now with
          | .error failure => .error (.failed failure)
          | .ok first => .ok (s.takeOn (.new name schedule executor feature first)) := by
  unfold add
  by_cases htaken : (s.job? name).isSome
  · rw [if_pos htaken, if_pos htaken]
  · rw [if_neg htaken, if_neg htaken]
    cases schedule.useDefaultZone (.str s.zone) with
    | error failure => rfl
    | ok schedule =>
      cases runOnLoad with
      | true => rfl
      | false =>
        simp only [Bool.false_eq_true, if_false]
        cases hfirst : schedule.firstRun now with
        | error failure => simp [bind, Except.bind, hfirst]
        | ok first =>
          simp only [bind, Except.bind, hfirst]
          rfl

/-- What adding a job changes. Its first run is entered at once, or announced to a running
scheduler. -/
structure Grows (s s' : Scheduler ε) (t : Job ε) : Prop where
  fresh : s.job? t.name = none
  jobs : s'.jobs = s.jobs ++ [t]
  active : s'.active = s.active
  ready : s'.ready = s.ready
  entered :
    s'.inbox = s.inbox ++ [.added t.name] ∧ s'.pending = s.pending ∧ s'.nextNumber = s.nextNumber ∨
      s'.inbox = s.inbox ∧ ∃ due, t.nextRun = some due ∧
        s'.pending = insertEntry ⟨due, s.nextNumber, t.name⟩ s.pending ∧
        s'.nextNumber = s.nextNumber + 1

/-- A job is added only under a new name, idle, with a first run. -/
theorem add_grows {now : Time.Moment} {schedule : Schedule} {executor : ε} {runOnLoad : Bool}
    {feature : String}
    (h : s.add now name schedule executor runOnLoad feature = .ok s') :
    ∃ schedule' first, s.Grows s' (.new name schedule' executor feature first) := by
  rw [add_eq] at h
  split at h
  case isTrue => cases h
  case isFalse hnew =>
    have hfresh : s.job? name = none := by simpa using hnew
    split at h
    case h_1 => cases h
    case h_2 schedule' hzone =>
      split at h
      case h_1 => cases h
      case h_2 first hfirst =>
        cases h
        refine ⟨schedule', first, ?_⟩
        unfold takeOn
        split
        · exact ⟨hfresh, rfl, rfl, rfl, .inl ⟨rfl, rfl, rfl⟩⟩
        · exact ⟨hfresh, rfl, rfl, rfl, .inr ⟨rfl, first, rfl, rfl, rfl⟩⟩

/-- Adding a job as it is carried out, one assignment after another. A failure leaves in force what
has been assigned before it. -/
def enrol (now : Time.Moment) (name : String) (schedule : Schedule) (executor : ε)
    (runOnLoad : Bool) (feature : String) : EStateM RegistrationError (Scheduler ε) Unit := do
  if ((← get).job? name).isSome then throw (.duplicateTask name)
  match schedule.useDefaultZone (.str (← get).zone) with
  | .error failure => throw (.failed failure)
  | .ok schedule =>
    match if runOnLoad then .ok now else schedule.firstRun now with
    | .error failure => throw (.failed failure)
    | .ok first =>
      let t : Job ε := .new name schedule executor feature first
      modifyThe (Scheduler ε) fun s => { s with jobs := s.jobs ++ [t] }
      if (← get).running then
        modifyThe (Scheduler ε) fun s => { s with inbox := s.inbox ++ [.added name] }
      else modifyThe (Scheduler ε) fun s => s.push t

/-- The assignments amount to adding the job, and none stands before a failure. -/
theorem enrol_run (s : Scheduler ε) (now : Time.Moment) (name : String) (schedule : Schedule)
    (executor : ε) (runOnLoad : Bool) (feature : String) :
    (enrol now name schedule executor runOnLoad feature).run s =
      match s.add now name schedule executor runOnLoad feature with
      | .ok grown => .ok () grown
      | .error e => .error e s := by
  rw [add_eq]
  by_cases htaken : (s.job? name).isSome
  · simp [enrol, htaken]
  · cases hzone : schedule.useDefaultZone (.str s.zone) with
    | error failure => simp [enrol, htaken, hzone]
    | ok schedule =>
      cases hfirst : if runOnLoad then .ok now else schedule.firstRun now with
      | error failure => simp [enrol, htaken, hzone, hfirst]
      | ok first =>
        have hname : (Job.new name schedule executor feature first).name = name := rfl
        by_cases hrunning : s.running <;>
          simp [enrol, htaken, hzone, hfirst, takeOn, hrunning, hname]

namespace Grows

theorem job? (h : s.Grows s' t) (other : String) :
    s'.job? other = if other = t.name then some t else s.job? other := by
  have hold := h.fresh
  simp only [Scheduler.job?, h.jobs] at hold ⊢
  rw [List.find?_append]
  split
  case isTrue heq => simp [heq, hold]
  case isFalse hne =>
    have hmiss : (t.name == other) = false := by simpa using Ne.symm hne
    simp [hmiss]

theorem figure {f : Job ε → Nat} (h : s.Grows s' t) (hf : f t = 0) (other : String) :
    s'.figure f other = s.figure f other := by
  rw [Scheduler.figure, h.job?]
  split
  case isTrue heq => simp [hf, Scheduler.figure, heq, h.fresh]
  case isFalse => rfl

end Grows

/-- The scheduler in which the pending entries are `rest`, a job has changed and its next run is
entered. -/
def reschedule (s : Scheduler ε) (rest : List Entry) (t : Job ε) : Scheduler ε :=
  ({ s with pending := rest }.modify t.name fun _ => t).push t

@[simp]
theorem reschedule_inbox : (s.reschedule rest t).inbox = s.inbox := by simp [reschedule, modify]

@[simp]
theorem reschedule_ready : (s.reschedule rest t).ready = s.ready := by simp [reschedule, modify]

@[simp]
theorem reschedule_active : (s.reschedule rest t).active = s.active := by simp [reschedule, modify]

theorem jobs_reschedule (rest : List Entry) (t : Job ε) :
    (s.reschedule rest t).jobs = s.jobs.map fun u => if u.name = t.name then t else u := by
  rw [reschedule, push_jobs, modify]

theorem names_reschedule : (s.reschedule rest t).jobs.map (·.name) = s.jobs.map (·.name) := by
  rw [reschedule, push_jobs]
  exact names_modify (s := { s with pending := rest }) fun _ _ => rfl

theorem job?_reschedule (rest : List Entry) (h : s.job? u.name = some t) (other : String) :
    (s.reschedule rest u).job? other = if other = u.name then some u else s.job? other := by
  rw [reschedule, job?_push]
  exact job?_modify (s := { s with pending := rest }) (fun _ _ => rfl) h other

theorem reschedule_pending {due : Time.Moment} (h : t.nextRun = some due) :
    (s.reschedule rest t).pending = insertEntry ⟨due, s.nextNumber, t.name⟩ rest := by
  simp [reschedule, push_pending h, modify]

def enqueue (s : Scheduler ε) (claim : Claim) : Scheduler ε :=
  { s with ready := s.ready ++ [claim] }

@[simp]
theorem figure_enqueue {f : Job ε → Nat} {claim : Claim} :
    (s.enqueue claim).figure f name = s.figure f name := rfl

def queue (s : Scheduler ε) (claim : Option Claim) : Scheduler ε :=
  { s with ready := s.ready ++ claim.toList }

@[simp]
theorem job?_queue {claim : Option Claim} : (s.queue claim).job? name = s.job? name := rfl

@[simp]
theorem queue_pending {claim : Option Claim} : (s.queue claim).pending = s.pending := rfl

section Outcomes

variable {now next : Time.Moment} {e : Entry}

theorem claimFirst_of_cancelled (rest : List Entry) (job : s.job? e.job = some t)
    (state : t.state = .cancelled) :
    s.claimFirst now e rest = (.ok none, { s with pending := rest }) := by
  have hjob : ({ s with pending := rest } : Scheduler ε).job? e.job = some t := job
  simp [claimFirst, hjob, state]

theorem claimFirst_of_current (rest : List Entry) (job : s.job? e.job = some t)
    (live : t.state ≠ .cancelled)
    (current : t.nextRun.map Time.Moment.instant = some e.due.instant)
    (hnext : t.schedule.nextAfter e.due now = .ok next) :
    s.claimFirst now e rest =
      (.ok (e.offer t), (s.reschedule rest (t.advance next)).queue (e.offer t)) := by
  have hjob : ({ s with pending := rest } : Scheduler ε).job? e.job = some t := job
  unfold claimFirst
  simp only [hjob, live, current, hnext, decide_false, ne_eq, not_true,
    Bool.or_self, Bool.false_eq_true, if_false]
  rw [reschedule, name_advance, Entry.offer, advance, ← name_of_job? job]
  by_cases hstate : t.state = .running
  · rw [if_pos hstate, if_pos hstate, if_pos hstate, queue, Option.toList_none, List.append_nil]
    rfl
  · rw [if_neg hstate, if_neg hstate, if_neg hstate]
    rfl

theorem claimFirst_of_live (rest : List Entry) (job : s.job? e.job = some t)
    (live : t.state ≠ .cancelled) (hdue : t.nextRun = some e.due)
    (hnext : t.schedule.nextAfter e.due now = .ok next) :
    s.claimFirst now e rest =
      (.ok (e.offer t), (s.reschedule rest (t.advance next)).queue (e.offer t)) :=
  claimFirst_of_current rest job live (by rw [hdue, Option.map_some]) hnext

theorem claimFirst_of_failing {failure : Failure} (rest : List Entry) (job : s.job? e.job = some t)
    (live : t.state ≠ .cancelled)
    (current : t.nextRun.map Time.Moment.instant = some e.due.instant)
    (hfails : t.schedule.nextAfter e.due now = .error failure) :
    s.claimFirst now e rest = (.error failure, { s with pending := rest }) := by
  have hjob : ({ s with pending := rest } : Scheduler ε).job? e.job = some t := job
  simp [claimFirst, hjob, live, current, hfails]

theorem claimUpTo_ok {found : Option Claim} (fuel : Nat) (claims : List Claim)
    (hpending : s.pending = e :: rest) (hdue : ¬ now.instant < e.due.instant)
    (hlook : s.claimFirst now e rest = (.ok found, s')) :
    s.claimUpTo now (fuel + 1) claims = s'.claimUpTo now fuel (claims ++ found.toList) := by
  cases found <;> simp [claimUpTo, hpending, hdue, hlook]

theorem claimUpTo_error {failure : Failure} (fuel : Nat) (claims : List Claim)
    (hpending : s.pending = e :: rest) (hdue : ¬ now.instant < e.due.instant)
    (hlook : s.claimFirst now e rest = (.error failure, s')) :
    s.claimUpTo now (fuel + 1) claims = (.error failure, claims, s') := by
  simp [claimUpTo, hpending, hdue, hlook]

end Outcomes

/-- Whether an entry no longer says when its job runs. -/
def Stale (s : Scheduler ε) (e : Entry) : Prop :=
  ∀ t, s.job? e.job = some t →
    t.state = .cancelled ∨ t.nextRun.map Time.Moment.instant ≠ some e.due.instant

/-- What can come of a look at the first entry: it is dropped, because it is stale; the schedule
fails; the run is skipped, because the job is running; or it is claimed. -/
inductive Look (s : Scheduler ε) (now : Time.Moment) (e : Entry) (rest : List Entry) :
    Except Failure (Option Claim) → Scheduler ε → Prop
  | dropped (stale : s.Stale e) : Look s now e rest (.ok none) { s with pending := rest }
  | failed {failure : Failure} :
      Look s now e rest (.error failure) { s with pending := rest }
  | skipped {t : Job ε} (next : Time.Moment) (job : s.job? e.job = some t)
      (state : t.state = .running) :
      Look s now e rest (.ok none) (s.reschedule rest (t.skip next))
  | claimed {t : Job ε} (next : Time.Moment) (job : s.job? e.job = some t)
      (state : t.state = .idle) :
      Look s now e rest (.ok (some ⟨e.job, e.due⟩))
        ((s.reschedule rest (t.engage next)).enqueue ⟨e.job, e.due⟩)

theorem claimFirst_look (s : Scheduler ε) (now : Time.Moment) (e : Entry) (rest : List Entry) :
    s.Look now e rest (s.claimFirst now e rest).1 (s.claimFirst now e rest).2 := by
  unfold claimFirst
  dsimp only
  have hjob : ({ s with pending := rest } : Scheduler ε).job? e.job = s.job? e.job := rfl
  rw [hjob]
  cases ht : s.job? e.job with
  | none => exact .dropped fun t h => by simp [ht] at h
  | some t =>
    have hname : t.name = e.job := name_of_job? ht
    dsimp only
    split
    case isTrue hstale =>
      refine .dropped fun u hu => ?_
      cases Option.some.inj (ht.symm.trans hu)
      simpa using hstale
    case isFalse hlive =>
      split
      case h_1 => exact .failed
      case h_2 next hnext =>
        split
        case isTrue hrunning => exact hname ▸ .skipped next ht hrunning
        case isFalse hidle =>
          have hstate : t.state = .idle := by
            cases hstate : t.state <;> simp_all
          have hclaimed : s.Look now e rest _ _ := .claimed next ht hstate
          rwa [reschedule, show (t.engage next).name = e.job from hname] at hclaimed

theorem figure_reschedule (f : Job ε → Nat) (rest : List Entry) (h : s.job? u.name = some t)
    (other : String) :
    (s.reschedule rest u).figure f other + (if other = u.name then f t else 0) =
      s.figure f other + if other = u.name then f u else 0 :=
  figure_put f h (job?_reschedule rest h) other

theorem figure_look {now : Time.Moment} {e : Entry}
    {result : Except Failure (Option Claim)} (f : Job ε → Nat)
    (hskip : ∀ t next, f (skip t next) = f t) (hengage : ∀ t next, f (engage t next) = f t)
    (look : s.Look now e rest result s') (other : String) :
    s'.figure f other = s.figure f other := by
  cases look with
  | dropped stale => rfl
  | failed => rfl
  | @skipped t next job state =>
    have hname := name_of_job? job
    have hfigure := figure_reschedule (u := t.skip next) f rest (hname ▸ job) other
    rw [hskip] at hfigure
    exact Nat.add_right_cancel hfigure
  | @claimed t next job state =>
    have hname := name_of_job? job
    have hfigure := figure_reschedule (u := t.engage next) f rest (hname ▸ job) other
    rw [hengage] at hfigure
    exact Nat.add_right_cancel hfigure

theorem skippedTicks_look {now : Time.Moment} {e : Entry}
    {found : Option Claim} (live : ¬ s.Stale e) (look : s.Look now e rest (.ok found) s')
    (other : String) :
    s'.figure (·.skippedTicks) other + (found.toList.filter (·.job = other)).length =
      s.figure (·.skippedTicks) other + if e.job = other then 1 else 0 := by
  cases look with
  | dropped stale => exact absurd stale live
  | @skipped t next job state =>
    have hname := name_of_job? job
    have hfigure :=
      figure_reschedule (u := t.skip next) (·.skippedTicks) rest (hname ▸ job) other
    rw [show (t.skip next).name = e.job from hname,
      show (t.skip next).skippedTicks = t.skippedTicks + 1 from rfl] at hfigure
    by_cases hother : e.job = other
    · simp [hother] at hfigure ⊢
      omega
    · simpa [hother, Ne.symm hother] using hfigure
  | @claimed t next job state =>
    have hname := name_of_job? job
    have hfigure :=
      figure_reschedule (u := t.engage next) (·.skippedTicks) rest (hname ▸ job) other
    have hsame := Nat.add_right_cancel hfigure
    by_cases hother : e.job = other <;> simpa [hother] using hsame

theorem job?_record {c : Completion} (h : s.job? c.job = some t) (other : String) :
    (s.modify c.job (record c)).job? other =
      if other = c.job then some (record c t) else s.job? other :=
  job?_modify (f := record c) (fun _ hu => hu) h other

theorem figure_record (f : Job ε → Nat) {c : Completion} (h : s.job? c.job = some t)
    (other : String) :
    (s.modify c.job (record c)).figure f other + (if other = c.job then f t else 0) =
      s.figure f other + if other = c.job then f (record c t) else 0 :=
  figure_put f h (job?_record h) other

theorem handle_added (h : s.job? name = some t) (hstate : t.state ≠ .cancelled) :
    s.handle (.added name) = ([], s.push t) := by
  simp [handle, h, hstate]

theorem handle_added_cases (name : String) :
    s.handle (.added name) = ([], s) ∨ ∃ t, s.handle (.added name) = ([], s.push t) := by
  cases ht : s.job? name with
  | none => simp [handle, ht]
  | some t =>
    by_cases hstate : t.state = .cancelled
    · simp [handle, ht, hstate]
    · exact .inr ⟨t, handle_added ht hstate⟩

@[simp]
theorem handle_added_jobs (name : String) : (s.handle (.added name)).2.jobs = s.jobs := by
  rcases handle_added_cases (s := s) name with h | ⟨t, h⟩ <;> simp [h]

@[simp]
theorem handle_added_events (name : String) : (s.handle (.added name)).1 = [] := by
  rcases handle_added_cases (s := s) name with h | ⟨t, h⟩ <;> simp [h]

theorem handle_completed {c : Completion} (h : s.job? c.job = some t) :
    s.handle (.completed c) = ([c.event], s.modify c.job (record c)) := by
  simp [handle, complete, h]

theorem handle_unknown {c : Completion} (h : s.job? c.job = none) :
    s.handle (.completed c) = ([], s) := by
  simp [handle, complete, h]

theorem handle_apart (m : Message) :
    (s.handle m).2.inbox = s.inbox ∧ (s.handle m).2.active = s.active ∧
      (s.handle m).2.ready = s.ready ∧
      (s.handle m).2.jobs.map (·.name) = s.jobs.map (·.name) := by
  cases m with
  | added name =>
    rcases handle_added_cases (s := s) name with h | ⟨t, h⟩ <;> simp [h]
  | completed c =>
    cases ht : s.job? c.job with
    | none => simp [handle_unknown ht]
    | some t =>
      rw [handle_completed ht]
      exact ⟨rfl, rfl, rfl, names_modify fun _ hu => hu⟩

end Scheduler

end Guildhall.Job
