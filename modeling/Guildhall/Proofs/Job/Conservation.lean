import Guildhall.Proofs.Job.Exclusion
import Guildhall.Proofs.Job.Pending

/-!
# No run is lost

Every entry that falls due becomes a claim or a skipped tick, every claim becomes a recorded run,
and every recorded run is told of once, in the order in which the runs were claimed.
-/

namespace Guildhall.Job

open Hook (Event Kind)

variable {ε : Type}

def runOf? : Event → Option Claim
  | .taskCompleted job due _ _ => some ⟨job, due⟩
  | .taskFailed job due _ _ _ => some ⟨job, due⟩
  | _ => none

@[simp]
theorem runOf?_event (c : Completion) : runOf? c.event = some ⟨c.job, c.due⟩ := by
  unfold Completion.event
  split <;> rfl

namespace History

def sent (h : History ε) (kind : Kind) (name : String) : Nat :=
  h.events.countP fun e => e.kind = kind ∧ (runOf? e).map Claim.job = some name

def told (h : History ε) (name : String) : List Claim :=
  (h.events.filterMap runOf?).filter (·.job = name)

def claims (h : History ε) (name : String) : List Claim := h.claimed.filter (·.job = name)

theorem length_told (h : History ε) (name : String) :
    (h.told name).length = h.sent .taskCompleted name + h.sent .taskFailed name := by
  unfold told sent
  induction h.events with
  | nil => rfl
  | cons e rest ih =>
    rw [List.countP_cons, List.countP_cons, List.filterMap_cons]
    cases e with
    | taskCompleted job due duration result =>
      by_cases hjob : job = name <;> simp [runOf?, Event.kind, hjob, ih]
      omega
    | taskFailed job due duration failed cause =>
      by_cases hjob : job = name <;> simp [runOf?, Event.kind, hjob, ih]
      omega
    | _ => simp [runOf?, ih]

theorem told_concat {h h' : History ε} {c : Completion} (hevents : h'.events = h.events ++ [c.event])
    (name : String) :
    h'.told name = h.told name ++ if c.job = name then [⟨c.job, c.due⟩] else [] := by
  simp [told, hevents, List.filter_cons]

theorem sent_concat {h h' : History ε} {c : Completion} (hevents : h'.events = h.events ++ [c.event])
    (kind : Kind) (name : String) :
    h'.sent kind name =
      h.sent kind name + if c.event.kind = kind ∧ c.job = name then 1 else 0 := by
  simp [sent, hevents, List.countP_cons]

/-- The accounts of the jobs. What was taken off as due was claimed or skipped; the runs that were
told of are the recorded ones, of which some failed; and these, followed by what is in flight, are
the claims. -/
structure Conserved (h : History ε) : Prop where
  popped : ∀ name, h.popped.countP (·.job = name) =
    (h.claims name).length + h.scheduler.figure (·.skippedTicks) name
  recorded : ∀ name, (h.told name).length = h.scheduler.figure (·.runCount) name
  failed : ∀ name, h.sent .taskFailed name = h.scheduler.figure (·.failureCount) name
  order : ∀ name, h.told name ++ h.scheduler.inFlight name = h.claims name

namespace Conserved

variable {h : History ε} {s : Scheduler ε} {t : Job ε}

/-- What neither changes the figures nor what is in flight leaves the accounts in order. -/
theorem of_same (hc : h.Conserved)
    (hskipped : ∀ name, s.figure (·.skippedTicks) name = h.scheduler.figure (·.skippedTicks) name)
    (hruns : ∀ name, s.figure (·.runCount) name = h.scheduler.figure (·.runCount) name)
    (hfailures : ∀ name, s.figure (·.failureCount) name = h.scheduler.figure (·.failureCount) name)
    (hflight : ∀ name, s.inFlight name = h.scheduler.inFlight name) :
    { h with scheduler := s }.Conserved where
  popped name := by
    rw [hskipped]
    exact hc.popped name
  recorded name := by
    rw [hruns]
    exact hc.recorded name
  failed name := by
    rw [hfailures]
    exact hc.failed name
  order name := by
    rw [hflight]
    exact hc.order name

theorem of_same_jobs (hc : h.Conserved) (hjobs : s.jobs = h.scheduler.jobs)
    (hflight : ∀ name, s.inFlight name = h.scheduler.inFlight name) :
    { h with scheduler := s }.Conserved :=
  hc.of_same (fun _ => Scheduler.figure_congr _ hjobs) (fun _ => Scheduler.figure_congr _ hjobs)
    (fun _ => Scheduler.figure_congr _ hjobs) hflight

theorem look {now : Time.Moment} {e : Entry} {rest : List Entry} {found : Option Claim}
    (hc : h.Conserved) (scheduled : h.scheduler.Scheduled) (exclusive : h.scheduler.Exclusive)
    (pending : h.scheduler.pending = e :: rest) (look : h.scheduler.Look now e rest (.ok found) s) :
    (h.looked e (.ok found) s).Conserved := by
  have hclaims (name : String) : (h.looked e (.ok found) s).claims name =
      h.claims name ++ found.toList.filter (·.job = name) := by
    simp [claims, looked, claimsOf]
  refine ⟨fun name => ?_, fun name => ?_, fun name => ?_, fun name => ?_⟩
  · have hpopped := hc.popped name
    have hlive := scheduled.not_stale exclusive.alive pending
    have hskipped := Scheduler.skippedTicks_look hlive look name
    rw [hclaims, List.length_append]
    simp only [looked, List.countP_append, List.countP_singleton, decide_eq_true_eq]
    omega
  · have hruns := Scheduler.figure_look (·.runCount) (fun _ _ => rfl) (fun _ _ => rfl) look name
    exact (hc.recorded name).trans hruns.symm
  · have hfailures :=
      Scheduler.figure_look (·.failureCount) (fun _ _ => rfl) (fun _ _ => rfl) look name
    exact (hc.failed name).trans hfailures.symm
  · have hflight := Scheduler.inFlight_look look name
    rw [hclaims, ← hc.order name, List.append_assoc]
    exact congrArg (h.told name ++ ·) hflight

theorem finish {run : Run} (hc : h.Conserved) (exclusive : h.scheduler.Exclusive)
    (active : run ∈ h.scheduler.active) (duration : Double) (result : Except Failure Value) :
    { h with scheduler := h.scheduler.finish run duration result }.Conserved := by
  refine hc.of_same_jobs rfl fun name => ?_
  have hperm := Scheduler.inFlight_finish exclusive.workers active duration result name
  cases hflight : h.scheduler.inFlight name with
  | nil => rwa [hflight, List.perm_nil] at hperm
  | cons claim rest =>
    -- A job has only one run in flight, so the order in which runs end does not matter.
    have honly := (exclusive.running (hflight ▸ List.mem_cons_self)).1
    rw [honly, List.perm_singleton] at hperm
    rw [hperm, ← honly, hflight]

theorem complete {c : Completion} {t : Job ε} {rest : List Message} (hc : h.Conserved)
    (inbox : h.scheduler.inbox = .completed c :: rest)
    (job : h.scheduler.job? c.job = some t) : (h.handled (.completed c) rest).Conserved := by
  have hhandled := Scheduler.handle_completed (s := { h.scheduler with inbox := rest }) job
  have hfigure (f : Job ε → Nat) (name : String) : (h.handled (.completed c) rest).scheduler.figure
      f name + (if name = c.job then f t else 0) =
        h.scheduler.figure f name + if name = c.job then f (Scheduler.record c t) else 0 := by
    rw [handled, hhandled]
    exact Scheduler.figure_record (s := { h.scheduler with inbox := rest }) f job name
  have hevents : (h.handled (.completed c) rest).events = h.events ++ [c.event] := by
    rw [handled, hhandled]
  refine ⟨fun name => ?_, fun name => ?_, fun name => ?_, fun name => ?_⟩
  · have hskipped := Nat.add_right_cancel (hfigure (·.skippedTicks) name)
    rw [hskipped]
    exact hc.popped name
  · have hruns := hfigure (·.runCount) name
    have hrecorded := hc.recorded name
    rw [told_concat hevents, List.length_append]
    by_cases hname : c.job = name
    · simp [hname, Scheduler.record] at hruns ⊢
      omega
    · simp [hname, Ne.symm hname] at hruns ⊢
      omega
  · have hfailures := hfigure (·.failureCount) name
    have hfailed := hc.failed name
    rw [sent_concat hevents]
    by_cases hname : c.job = name
    · unfold Completion.event
      cases hresult : c.result <;>
        simp [hname, Scheduler.record, hresult, Event.kind] at hfailures ⊢ <;> omega
    · simp [hname, Ne.symm hname] at hfailures ⊢
      omega
  · have hflight := Scheduler.inFlight_handle inbox name
    have horder := hc.order name
    rw [hflight, ← List.append_assoc] at horder
    rw [told_concat hevents]
    refine Eq.trans ?_ horder
    simp [handled, Message.claim?, List.filter_cons]

theorem handle {m : Message} {rest : List Message} (hc : h.Conserved)
    (exclusive : h.scheduler.Exclusive) (inbox : h.scheduler.inbox = m :: rest) :
    (h.handled m rest).Conserved := by
  have hflight := Scheduler.inFlight_handle inbox
  cases m with
  | added name =>
    have hsame := hc.of_same_jobs (s := ({ h.scheduler with inbox := rest }.handle (.added name)).2)
      (Scheduler.handle_added_jobs name) fun name => ((hflight name).trans (List.nil_append _)).symm
    simpa [handled] using hsame
  | completed c =>
    have hmem : (⟨c.job, c.due⟩ : Claim) ∈ h.scheduler.inFlight c.job := by
      rw [hflight]
      simp [Message.claim?]
    obtain ⟨-, t, ht, -⟩ := exclusive.running hmem
    exact hc.complete inbox ht

end Conserved

theorem preserved_conserved : Preserved fun h : History ε => h.faults = [] → h.Conserved where
  new made _ := by
    unfold Scheduler.new at made
    split at made
    · cases made
    · cases made
      exact ⟨fun _ => rfl, fun _ => rfl, fun _ => rfl, fun _ => rfl⟩
  add _ hp _ _ _ _ _ _ _ added hfaults := by
    obtain ⟨schedule', first, grows⟩ := Scheduler.add_grows added
    exact (hp hfaults).of_same (grows.figure rfl) (grows.figure rfl) (grows.figure rfl)
      grows.inFlight
  start _ hp hfaults := (hp hfaults).of_same_jobs rfl fun _ => rfl
  look {h} hr hp _ _ _ result _ pending look hfaults := by
    obtain ⟨hbefore, hnow⟩ := List.append_eq_nil_iff.mp hfaults
    cases result with
    | error failure => cases hnow
    | ok found => exact (hp hbefore).look (hr.scheduled hbefore) hr.exclusive pending look
  take _ hp _ _ _ _ _ ready hfaults :=
    (hp hfaults).of_same_jobs rfl (Scheduler.inFlight_take ready)
  finish hr hp _ active duration result hfaults :=
    (hp hfaults).finish hr.exclusive active duration result
  handle hr hp _ _ inbox hfaults := (hp hfaults).handle hr.exclusive inbox

theorem Reachable.conserved {h : History ε} (hr : h.Reachable) (hfaults : h.faults = []) :
    h.Conserved :=
  preserved_conserved.holds hr hfaults

/-- As long as no schedule fails, the entries of a job that were taken off as due are its claims
and its skipped ticks; its claims are its recorded runs and the one it is running; each recorded
run was told of once, as failed or as completed; and the runs told of, followed by the one in
flight, are due when the claims are, in their order. -/
theorem nothing_lost {h : History ε} (hr : h.Reachable) (hfaults : h.faults = []) {t : Job ε}
    (ht : t ∈ h.scheduler.jobs) :
    h.popped.countP (·.job = t.name) = (h.claims t.name).length + t.skippedTicks ∧
      (h.claims t.name).length = t.runCount + (if t.state = .running then 1 else 0) ∧
      t.failureCount ≤ t.runCount ∧
      h.sent .taskCompleted t.name = t.runCount - t.failureCount ∧
      h.sent .taskFailed t.name = t.failureCount ∧
      (h.told t.name).map (·.due) ++ (h.scheduler.inFlight t.name).map (·.due) =
        (h.claims t.name).map (·.due) := by
  have hjob := Scheduler.job?_of_mem hr.exclusive.names ht
  have hc := hr.conserved hfaults
  have hpopped := hc.popped t.name
  have hrecorded := hc.recorded t.name
  have hfailed := hc.failed t.name
  have horder := hc.order t.name
  have hflight := hr.exclusive.flight t.name
  rw [Scheduler.figure_of_job? _ hjob] at hpopped hrecorded hfailed hflight
  rw [length_told] at hrecorded
  have hlength : (h.claims t.name).length =
      (h.told t.name).length + (h.scheduler.inFlight t.name).length := by
    rw [← horder, List.length_append]
  rw [length_told, hflight, busy] at hlength
  refine ⟨hpopped, by omega, by omega, by omega, hfailed, ?_⟩
  rw [← List.map_append, horder]

/-- A failed run, a skipped tick and a run in flight account for three entries and two claims. -/
theorem accounts_of_a_failed_run :
    ∃ (h : History Unit) (t : Job Unit), h.Reachable ∧ h.faults = [] ∧ t ∈ h.scheduler.jobs ∧
      h.popped.countP (·.job = t.name) = 3 ∧ (h.claims t.name).length = 2 ∧
      h.sent .taskCompleted t.name = 0 ∧ h.sent .taskFailed t.name = 1 := by
  obtain ⟨h, t, hr, hfaults, ht, hrunning, hruns, hfailures, hskipped⟩ := exists_reachable
  obtain ⟨hpopped, hclaims, -, hcompleted, hfailed, -⟩ := nothing_lost hr hfaults ht
  rw [hskipped] at hpopped
  rw [hruns, if_pos hrunning] at hclaims
  rw [hruns, hfailures] at hcompleted
  exact ⟨h, t, hr, hfaults, ht, by omega, hclaims, hcompleted, hfailed.trans hfailures⟩

end History

end Guildhall.Job
