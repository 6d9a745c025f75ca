import Guildhall.Proofs.Job.History

/-!
# No job overlaps itself

A run is in flight from the moment it is claimed until its report is dealt with. A job is running
exactly as long as a run of it is in flight, and there is never more than one.
-/

namespace Guildhall.Job

variable {ε : Type}

def Message.claim? : Message → Option Claim
  | .added _ => none
  | .completed c => some ⟨c.job, c.due⟩

def busy (t : Job ε) : Nat := if t.state = .running then 1 else 0

namespace Scheduler

/-- The number of runs of a job that wait for a worker, are under way or have ended without their
reports having been dealt with. -/
def load (s : Scheduler ε) (name : String) : Nat :=
  s.ready.countP (·.job = name) + s.active.countP (·.claim.job = name) +
    s.inbox.countP fun m => (m.claim?.map Claim.job) = some name

def inFlight (s : Scheduler ε) (name : String) : List Claim :=
  (s.inbox.filterMap Message.claim? ++ s.active.map (·.claim) ++ s.ready).filter (·.job = name)

variable {s s' : Scheduler ε} {name : String} {claim : Claim}

theorem length_inFlight : (s.inFlight name).length = s.load name := by
  have hinbox : ((s.inbox.filterMap Message.claim?).filter (·.job = name)).length =
      s.inbox.countP fun m => (m.claim?.map Claim.job) = some name := by
    rw [← List.countP_eq_length_filter, List.countP_filterMap]
    congr 1
    funext m
    cases m.claim? <;> simp
  have hactive : ((s.active.map (·.claim)).filter (·.job = name)).length =
      s.active.countP (·.claim.job = name) := by
    rw [← List.countP_eq_length_filter, List.countP_map]
    rfl
  rw [inFlight, List.filter_append, List.filter_append, List.length_append, List.length_append,
    hinbox, hactive, ← List.countP_eq_length_filter, load]
  omega

theorem inFlight_congr (hinbox : s'.inbox.filterMap Message.claim? =
    s.inbox.filterMap Message.claim?) (hactive : s'.active = s.active)
    (hready : s'.ready = s.ready) : s'.inFlight name = s.inFlight name := by
  rw [inFlight, inFlight, hinbox, hactive, hready]

theorem Grows.inFlight {t : Job ε} (h : s.Grows s' t) (name : String) :
    s'.inFlight name = s.inFlight name := by
  refine inFlight_congr ?_ h.active h.ready
  rcases h.entered with ⟨hinbox, -⟩ | ⟨hinbox, -⟩ <;> simp [hinbox, Message.claim?]

theorem inFlight_look {now : Time.Moment} {e : Entry} {rest : List Entry}
    {result : Except Failure (Option Claim)} (look : s.Look now e rest result s')
    (name : String) :
    s'.inFlight name = s.inFlight name ++ (claimsOf result).filter (·.job = name) := by
  cases look with
  | dropped stale => simp [claimsOf, inFlight]
  | failed => simp [claimsOf, inFlight]
  | skipped next job state => simp [claimsOf, inFlight]
  | claimed next job state => simp [claimsOf, inFlight, enqueue]

theorem inFlight_take {rest : List Claim} {worker : Nat} {now : Time.Moment}
    (hready : s.ready = claim :: rest) (name : String) :
    ({ s with ready := rest, active := s.active ++ [⟨worker, claim, now⟩] } :
      Scheduler ε).inFlight name = s.inFlight name := by
  simp [inFlight, hready]

theorem perm_active {runs : List Run} {run : Run} (hworkers : (runs.map (·.worker)).Nodup)
    (hrun : run ∈ runs) :
    runs.Perm (run :: runs.filter fun other => other.worker ≠ run.worker) := by
  induction runs with
  | nil => cases hrun
  | cons first rest ih =>
    rw [List.map_cons, List.nodup_cons] at hworkers
    rcases List.mem_cons.mp hrun with rfl | hrest
    · have hothers : (rest.filter fun other => other.worker ≠ run.worker) = rest := by
        refine List.filter_eq_self.mpr fun other hother => ?_
        have hne : other.worker ≠ run.worker := by
          intro h
          exact hworkers.1 (h ▸ List.mem_map_of_mem hother)
        simpa using hne
      rw [List.filter_cons_of_neg (by simp), hothers]
    · have hne : first.worker ≠ run.worker := by
        intro h
        exact hworkers.1 (h ▸ List.mem_map_of_mem hrest)
      rw [List.filter_cons_of_pos (by simpa using hne)]
      exact ((ih hworkers.2 hrest).cons first).trans (.swap run first _)

theorem inFlight_finish {run : Run} (hworkers : (s.active.map (·.worker)).Nodup)
    (hrun : run ∈ s.active) (duration : Double) (result : Except Failure Value) (name : String) :
    ((s.finish run duration result).inFlight name).Perm (s.inFlight name) := by
  have hclaims := (perm_active hworkers hrun).map (·.claim)
  refine List.Perm.filter _ (List.Perm.append_right s.ready ?_)
  simp only [finish, List.filterMap_append, List.filterMap_cons, List.filterMap_nil,
    Message.claim?, List.append_assoc]
  exact List.Perm.append_left _ hclaims.symm

/-- When a report is dealt with, its run is the first that is no longer in flight. -/
theorem inFlight_handle {m : Message} {rest : List Message} (hinbox : s.inbox = m :: rest)
    (name : String) :
    s.inFlight name = (m.claim?.toList.filter (·.job = name)) ++
      ({ s with inbox := rest }.handle m).2.inFlight name := by
  have hkept : ({ s with inbox := rest }.handle m).2.inFlight name =
      ({ s with inbox := rest } : Scheduler ε).inFlight name :=
    inFlight_congr (by rw [(handle_apart m).1]) (handle_apart m).2.1 (handle_apart m).2.2.1
  rw [hkept]
  cases hm : m.claim? with
  | none => simp [inFlight, hinbox, hm]
  | some claim =>
    simp only [inFlight, hinbox, List.filterMap_cons, hm, List.cons_append, Option.toList_some]
    rw [← List.filter_append, List.singleton_append]

/-- Each job has at most one run in flight, namely when it is running. Names tell jobs apart,
each worker has one run, and no job is cancelled. -/
structure Exclusive (s : Scheduler ε) : Prop where
  names : (s.jobs.map (·.name)).Nodup
  workers : (s.active.map (·.worker)).Nodup
  alive : ∀ name t, s.job? name = some t → t.state ≠ .cancelled
  flight : ∀ name, (s.inFlight name).length = s.figure busy name

namespace Exclusive

theorem running (h : s.Exclusive) (hclaim : claim ∈ s.inFlight name) :
    s.inFlight name = [claim] ∧ ∃ t, s.job? name = some t ∧ t.state = .running := by
  have hflight := h.flight name
  have hpos := List.length_pos_of_mem hclaim
  rw [figure] at hflight
  cases ht : s.job? name with
  | none =>
    rw [ht, Option.elim_none] at hflight
    omega
  | some t =>
    rw [ht, Option.elim_some, busy] at hflight
    split at hflight
    case isTrue hrunning =>
      obtain ⟨only, honly⟩ := List.length_eq_one_iff.mp hflight
      rw [honly, List.mem_singleton] at hclaim
      exact ⟨hclaim ▸ honly, t, rfl, hrunning⟩
    case isFalse => omega

theorem put {t u : Job ε} (h : s.Exclusive) (ht : s.job? name = some t)
    (hjobs : ∀ other, s'.job? other = if other = name then some u else s.job? other)
    (hnames : s'.jobs.map (·.name) = s.jobs.map (·.name)) (hactive : s'.active = s.active)
    (halive : u.state ≠ .cancelled)
    (hflight : ∀ other, (s'.inFlight other).length + (if other = name then busy t else 0) =
      (s.inFlight other).length + if other = name then busy u else 0) : s'.Exclusive where
  names := hnames ▸ h.names
  workers := hactive ▸ h.workers
  alive other w hw := by
    rw [hjobs] at hw
    split at hw
    · exact Option.some.inj hw ▸ halive
    · exact h.alive other w hw
  flight other := by
    have hother := h.flight other
    have hfigure := figure_put busy ht hjobs other
    have hboth := hflight other
    omega

theorem new {workers : Int} {zone : String} (h : Scheduler.new workers zone = .ok s) :
    s.Exclusive := by
  unfold Scheduler.new at h
  split at h
  · cases h
  · cases h
    exact ⟨by simp, by simp, by simp [job?], by simp [inFlight, figure, job?]⟩

theorem add {t : Job ε} (h : s.Exclusive) (grows : s.Grows s' t) (idle : t.state = .idle) :
    s'.Exclusive where
  names := by
    rw [grows.jobs]
    exact nodup_map_concat h.names (job?_eq_none.mp grows.fresh)
  workers := grows.active ▸ h.workers
  alive other u hu := by
    rw [grows.job?] at hu
    split at hu
    · cases hu
      simp [idle]
    · exact h.alive other u hu
  flight other := by
    rw [grows.inFlight, grows.figure (by simp [busy, idle])]
    exact h.flight other

theorem look {now : Time.Moment} {e : Entry} {rest : List Entry}
    {result : Except Failure (Option Claim)} (h : s.Exclusive)
    (look : s.Look now e rest result s') : s'.Exclusive := by
  cases look with
  | dropped stale => exact ⟨h.names, h.workers, h.alive, h.flight⟩
  | failed => exact ⟨h.names, h.workers, h.alive, h.flight⟩
  | @skipped t next job state =>
    have hjob : s.job? t.name = some t := by rwa [name_of_job? job]
    refine h.put hjob (job?_reschedule rest hjob) names_reschedule (by simp)
      (by simp [skip, state]) fun other => ?_
    have look : s.Look now e rest _ _ := .skipped next job state
    rw [inFlight_look look]
    rw [show busy (t.skip next) = busy t from rfl]
    simp [claimsOf]
  | @claimed t next job state =>
    have hname := name_of_job? job
    have hjob : s.job? t.name = some t := by rwa [hname]
    refine h.put hjob (job?_reschedule rest hjob) names_reschedule (by simp [enqueue])
      (by simp [engage]) fun other => ?_
    have look : s.Look now e rest _ _ := .claimed next job state
    rw [inFlight_look look]
    by_cases hother : other = e.job
    · simp [claimsOf, busy, engage, state, hname, hother]
    · simp [claimsOf, hname, hother, Ne.symm hother]

theorem take {rest : List Claim} {worker : Nat} {now : Time.Moment} (h : s.Exclusive)
    (free : ∀ other ∈ s.active, other.worker ≠ worker) (ready : s.ready = claim :: rest) :
    ({ s with ready := rest, active := s.active ++ [⟨worker, claim, now⟩] } :
      Scheduler ε).Exclusive where
  names := h.names
  workers := nodup_map_concat h.workers free
  alive := h.alive
  flight name := by
    rw [inFlight_take ready]
    exact h.flight name

theorem finish {run : Run} (h : s.Exclusive) (active : run ∈ s.active) (duration : Double)
    (result : Except Failure Value) : (s.finish run duration result).Exclusive where
  names := h.names
  workers := h.workers.sublist (List.filter_sublist.map _)
  alive := h.alive
  flight name := by
    rw [(inFlight_finish h.workers active duration result name).length_eq]
    exact h.flight name

theorem handle {m : Message} {rest : List Message} (h : s.Exclusive) (inbox : s.inbox = m :: rest) :
    ({ s with inbox := rest }.handle m).2.Exclusive := by
  have hflight := inFlight_handle inbox
  cases m with
  | added name =>
    have hjobs := handle_added_jobs (s := { s with inbox := rest }) name
    have hactive := (handle_apart (s := { s with inbox := rest }) (.added name)).2.1
    refine ⟨?_, ?_, fun other t ht => ?_, fun other => ?_⟩
    · rw [hjobs]
      exact h.names
    · rw [hactive]
      exact h.workers
    · rw [job?, hjobs] at ht
      exact h.alive other t ht
    · have hother := hflight other
      simp only [Message.claim?, Option.toList_none, List.filter_nil, List.nil_append] at hother
      rw [← hother, figure, job?, hjobs]
      exact h.flight other
  | completed c =>
    have hmem : (⟨c.job, c.due⟩ : Claim) ∈ s.inFlight c.job := by
      rw [hflight]
      simp [Message.claim?]
    obtain ⟨-, t, ht, hrunning⟩ := h.running hmem
    rw [handle_completed (s := { s with inbox := rest }) ht] at hflight ⊢
    refine h.put ht (job?_record ht) (names_modify fun _ hu => hu) rfl
      (by simp [record, hrunning]) fun other => ?_
    rw [hflight]
    by_cases hother : other = c.job
    · simp [Message.claim?, busy, record, hrunning, hother]
    · simp [Message.claim?, hother, Ne.symm hother]

end Exclusive

end Scheduler

namespace History

theorem preserved_exclusive : Preserved fun h : History ε => h.scheduler.Exclusive where
  new made := .new made
  add _ hp _ _ _ _ _ _ _ added := by
    obtain ⟨schedule', first, grows⟩ := Scheduler.add_grows added
    exact hp.add grows rfl
  start _ hp := ⟨hp.names, hp.workers, hp.alive, hp.flight⟩
  look _ hp _ _ _ _ _ _ look := hp.look look
  take _ hp _ _ _ _ free ready := hp.take free ready
  finish _ hp _ active duration result := hp.finish active duration result
  handle _ hp _ _ inbox := hp.handle inbox

theorem Reachable.exclusive {h : History ε} (hr : h.Reachable) : h.scheduler.Exclusive :=
  preserved_exclusive.holds hr

/-- Whatever the steps, a job has at most one run that waits for a worker, is under way or has
ended without being recorded. It has one exactly when it is running, and none exactly when it is
idle. -/
theorem runs_never_overlap {h : History ε} (hr : h.Reachable) {t : Job ε}
    (ht : t ∈ h.scheduler.jobs) :
    h.scheduler.load t.name ≤ 1 ∧ (h.scheduler.load t.name = 1 ↔ t.state = .running) ∧
      (h.scheduler.load t.name = 0 ↔ t.state = .idle) := by
  have hjob := Scheduler.job?_of_mem hr.exclusive.names ht
  have halive := hr.exclusive.alive t.name t hjob
  have hload := hr.exclusive.flight t.name
  rw [Scheduler.length_inFlight, Scheduler.figure_of_job? busy hjob, busy] at hload
  rw [hload]
  cases hstate : t.state with
  | idle => simp
  | running => simp
  | cancelled => exact absurd hstate halive

theorem running_job_has_one_run :
    ∃ (h : History Unit) (t : Job Unit), h.Reachable ∧ t ∈ h.scheduler.jobs ∧
      t.state = .running ∧ h.scheduler.load t.name = 1 := by
  obtain ⟨h, t, hr, -, ht, hrunning, -⟩ := exists_reachable
  exact ⟨h, t, hr, ht, hrunning, (runs_never_overlap hr ht).2.1.mpr hrunning⟩

end History

end Guildhall.Job
