import Guildhall.Proofs.Job.Lifetime

/-!
# Every job has one run to come

As long as no schedule fails, each job that has not been cancelled has exactly one run to come,
which is among the pending entries or announced in the inbox, and the entry says when the job runs
next. Such an entry is never dropped, and numbers tell all entries apart.
-/

namespace Guildhall.Job

variable {ε : Type}

def Message.announces (name : String) : Message → Bool
  | .added job => job = name
  | .completed _ => false

structure Numbered (entries : List Entry) (next : Nat) : Prop where
  distinct : (entries.map (·.number)).Nodup
  below : ∀ e ∈ entries, e.number < next

namespace Numbered

variable {entries : List Entry} {next : Nat} {e : Entry}

theorem tail (h : Numbered (e :: entries) next) : Numbered entries next where
  distinct := (List.nodup_cons.mp h.distinct).2
  below other hother := h.below other (List.mem_cons_of_mem e hother)

theorem insert (h : Numbered entries next) (due : Time.Moment) (job : String) :
    Numbered (Scheduler.insertEntry ⟨due, next, job⟩ entries) (next + 1) where
  distinct := by
    have hperm := (Scheduler.insertEntry_perm ⟨due, next, job⟩ entries).map (·.number)
    rw [hperm.nodup_iff, List.map_cons, List.nodup_cons]
    refine ⟨fun hmem => ?_, h.distinct⟩
    obtain ⟨other, hother, heq⟩ := List.mem_map.mp hmem
    exact absurd heq (Nat.ne_of_lt (h.below other hother))
  below other hother := by
    rw [(Scheduler.insertEntry_perm _ _).mem_iff] at hother
    rcases List.mem_cons.mp hother with rfl | hother
    · exact Nat.lt_succ_self next
    · exact Nat.lt_succ_of_lt (h.below other hother)

theorem push {s : Scheduler ε} (h : Numbered s.pending s.nextNumber) (t : Job ε) :
    Numbered (s.push t).pending (s.push t).nextNumber := by
  unfold Scheduler.push
  split
  case h_1 => exact h
  case h_2 due hdue => exact h.insert due t.name

end Numbered

namespace Scheduler

/-- The number of runs of a job that are pending or announced. -/
def coming (s : Scheduler ε) (name : String) : Nat :=
  s.pending.countP (·.job = name) + s.inbox.countP (·.announces name)

/-- Each job that has not been cancelled has one run to come, and its pending entry agrees with it
on when that is. No run to come lacks its job. -/
structure Scheduled (s : Scheduler ε) : Prop where
  known : ∀ name, s.job? name = none → s.coming name = 0
  once : ∀ name t, s.job? name = some t → t.state ≠ .cancelled → s.coming name = 1
  current : ∀ e ∈ s.pending, ∀ t, s.job? e.job = some t → t.state ≠ .cancelled →
    t.nextRun = some e.due
  dated : ∀ name t, s.job? name = some t → ∃ due, t.nextRun = some due

variable {s s' : Scheduler ε} {name : String} {t u : Job ε} {e : Entry} {rest : List Entry}

theorem coming_pos (he : e ∈ s.pending) : 0 < s.coming e.job := by
  have hentry : 0 < s.pending.countP (·.job = e.job) :=
    List.countP_pos_iff.mpr ⟨e, he, by simp⟩
  rw [coming]
  omega

/-- Where no run to come lacks its job, each pending entry belongs to one. -/
theorem exists_job_of_known (known : ∀ name, s.job? name = none → s.coming name = 0)
    (he : e ∈ s.pending) : ∃ t, s.job? e.job = some t := by
  cases ht : s.job? e.job with
  | none =>
    have hpos := coming_pos he
    have hnone := known e.job ht
    omega
  | some t => exact ⟨t, rfl⟩

theorem coming_push {due : Time.Moment} (hdue : t.nextRun = some due) (name : String) :
    (s.push t).coming name = s.coming name + if t.name = name then 1 else 0 := by
  simp only [coming, push_pending hdue, (insertEntry_perm _ _).countP_eq, push_inbox,
    List.countP_cons, decide_eq_true_eq]
  omega

/-- What was to come of a job before its first entry was taken off. -/
theorem coming_rest (hpending : s.pending = e :: rest) (name : String) :
    s.coming name =
      ({ s with pending := rest } : Scheduler ε).coming name + if e.job = name then 1 else 0 := by
  simp only [coming, hpending, List.countP_cons, decide_eq_true_eq]
  omega

theorem coming_received {m : Message} {inbox : List Message} (hinbox : s.inbox = m :: inbox)
    (name : String) :
    s.coming name = ({ s with inbox := inbox } : Scheduler ε).coming name +
      if m.announces name then 1 else 0 := by
  simp only [coming, hinbox, List.countP_cons]
  omega

theorem coming_finish (run : Run) (duration : Double) (result : Except Failure Value)
    (name : String) : (s.finish run duration result).coming name = s.coming name := by
  simp [coming, Scheduler.finish, Message.announces]

theorem Grows.coming (grows : s.Grows s' t) (name : String) :
    s'.coming name = s.coming name + if t.name = name then 1 else 0 := by
  rcases grows.entered with ⟨hinbox, hpending, -⟩ | ⟨hinbox, due, -, hpending, -⟩
  · rw [Scheduler.coming, hinbox, hpending, List.countP_append, ← Nat.add_assoc]
    simp [Scheduler.coming, Message.announces, List.countP_cons]
  · rw [Scheduler.coming, hinbox, hpending, (insertEntry_perm _ _).countP_eq, List.countP_cons]
    simp only [Scheduler.coming, decide_eq_true_eq]
    omega

/-! Whether the runs to come belong to jobs that are there, and the entries of jobs that have not
been cancelled say when these run next. Both last as jobs are added and runs recorded. -/

theorem Grows.known (grows : s.Grows s' t)
    (hknown : ∀ name, s.job? name = none → s.coming name = 0) :
    ∀ name, s'.job? name = none → s'.coming name = 0 := by
  intro name hnone
  rw [grows.job?] at hnone
  split at hnone
  case isTrue => cases hnone
  case isFalse hne => rw [grows.coming, hknown name hnone, if_neg (Ne.symm hne)]

theorem Grows.current (grows : s.Grows s' t) (hnew : s.coming t.name = 0)
    (hcurrent : ∀ e ∈ s.pending, ∀ u, s.job? e.job = some u → u.state ≠ .cancelled →
      u.nextRun = some e.due) :
    ∀ e ∈ s'.pending, ∀ u, s'.job? e.job = some u → u.state ≠ .cancelled →
      u.nextRun = some e.due := by
  intro e he u hu live
  have hold (hmem : e ∈ s.pending) : u.nextRun = some e.due := by
    have hne : e.job ≠ t.name := by
      intro heq
      have hpos := coming_pos hmem
      rw [heq, hnew] at hpos
      cases hpos
    rw [grows.job?, if_neg hne] at hu
    exact hcurrent e hmem u hu live
  rcases grows.entered with ⟨-, hpending, -⟩ | ⟨-, due, hdue, hpending, -⟩
  · exact hold (hpending ▸ he)
  · rw [hpending, (insertEntry_perm _ _).mem_iff] at he
    rcases List.mem_cons.mp he with rfl | he
    · rw [grows.job?, if_pos rfl] at hu
      exact Option.some.inj hu ▸ hdue
    · exact hold he

theorem known_record {c : Completion} (job : s.job? c.job = some t)
    (hknown : ∀ name, s.job? name = none → s.coming name = 0) (name : String)
    (hnone : (s.modify c.job (record c)).job? name = none) : s.coming name = 0 := by
  rw [job?_record job] at hnone
  split at hnone
  case isTrue => cases hnone
  case isFalse => exact hknown name hnone

theorem live_of_record {c : Completion} (live : (record c t).state ≠ .cancelled) :
    t.state ≠ .cancelled := by
  intro hstate
  exact live (by simp [record, hstate])

theorem current_record {c : Completion} (job : s.job? c.job = some t)
    (hcurrent : ∀ e ∈ s.pending, ∀ u, s.job? e.job = some u → u.state ≠ .cancelled →
      u.nextRun = some e.due) :
    ∀ e ∈ s.pending, ∀ u, (s.modify c.job (record c)).job? e.job = some u →
      u.state ≠ .cancelled → u.nextRun = some e.due := by
  intro e he u hu live
  rw [job?_record job] at hu
  split at hu
  case isTrue heq =>
    cases hu
    exact hcurrent e he t (heq ▸ job) (live_of_record live)
  case isFalse => exact hcurrent e he u hu live

namespace Scheduled

theorem job_ne (h : s.Scheduled) (hpending : s.pending = e :: rest) (ht : s.job? e.job = some t)
    (live : t.state ≠ .cancelled) : ∀ other ∈ rest, other.job ≠ e.job := by
  have honce := h.once e.job t ht live
  rw [coming, hpending, List.countP_cons_of_pos (by simp)] at honce
  have hnone : rest.countP (·.job = e.job) = 0 := by omega
  simpa using List.countP_eq_zero.mp hnone

theorem not_stale_of_live (h : s.Scheduled) (he : e ∈ s.pending) (ht : s.job? e.job = some t)
    (live : t.state ≠ .cancelled) : ¬ s.Stale e := by
  intro hstale
  rcases hstale t ht with hcancelled | hother
  · exact live hcancelled
  · exact hother (by rw [h.current e he t ht live, Option.map_some])

theorem not_stale (h : s.Scheduled) (alive : ∀ name t, s.job? name = some t → t.state ≠ .cancelled)
    (hpending : s.pending = e :: rest) : ¬ s.Stale e := by
  have he : e ∈ s.pending := hpending ▸ List.mem_cons_self
  obtain ⟨t, ht⟩ := exists_job_of_known h.known he
  exact h.not_stale_of_live he ht (alive e.job t ht)

theorem add (h : s.Scheduled) (grows : s.Grows s' t) (dated : ∃ due, t.nextRun = some due) :
    s'.Scheduled := by
  have hnew : s.coming t.name = 0 := h.known t.name grows.fresh
  refine ⟨grows.known h.known, fun name u hu live => ?_, grows.current hnew h.current,
    fun name u hu => ?_⟩
  · rw [grows.job?] at hu
    split at hu
    case isTrue heq => rw [grows.coming, heq, hnew, if_pos rfl]
    case isFalse hne => rw [grows.coming, h.once name u hu live, if_neg (Ne.symm hne)]
  · rw [grows.job?] at hu
    split at hu
    · exact Option.some.inj hu ▸ dated
    · exact h.dated name u hu

theorem drop (h : s.Scheduled) (hpending : s.pending = e :: rest) (stale : s.Stale e) :
    ({ s with pending := rest } : Scheduler ε).Scheduled := by
  have hcoming := coming_rest hpending
  refine ⟨fun name hnone => ?_, fun name t ht live => ?_, fun other hother => ?_, h.dated⟩
  · have hzero := h.known name hnone
    have hsum := hcoming name
    omega
  · have hne : e.job ≠ name := by
      rintro rfl
      have he : e ∈ s.pending := hpending ▸ List.mem_cons_self
      exact h.not_stale_of_live he ht live stale
    rw [← h.once name t ht live, hcoming, if_neg hne, Nat.add_zero]
  · exact h.current other (hpending ▸ List.mem_cons_of_mem e hother)

/-- Entering the next run of the job whose entry has been taken off. -/
theorem reschedule {next : Time.Moment} (h : s.Scheduled) (hpending : s.pending = e :: rest)
    (job : s.job? e.job = some t) (live : t.state ≠ .cancelled) (hname : u.name = e.job)
    (hnext : u.nextRun = some next) : (s.reschedule rest u).Scheduled := by
  have hjob := job?_reschedule rest (hname ▸ job)
  have hcoming (name : String) : (s.reschedule rest u).coming name = s.coming name := by
    simp only [coming, reschedule_pending hnext, (insertEntry_perm _ _).countP_eq,
      List.countP_cons, hpending, reschedule_inbox, hname]
  refine ⟨fun name hnone => ?_, fun name v hv hlive => ?_, fun other hother v hv hlive => ?_,
    fun name v hv => ?_⟩
  · rw [hjob] at hnone
    split at hnone
    case isTrue => cases hnone
    case isFalse => rw [hcoming, h.known name hnone]
  · rw [hjob] at hv
    rw [hcoming]
    split at hv
    case isTrue heq => exact h.once name t (by rw [heq, hname, job]) live
    case isFalse => exact h.once name v hv hlive
  · rw [reschedule_pending hnext, (insertEntry_perm _ _).mem_iff] at hother
    rw [hjob] at hv
    rcases List.mem_cons.mp hother with rfl | hother
    · rw [if_pos rfl] at hv
      exact Option.some.inj hv ▸ hnext
    · have hne := h.job_ne hpending job live other hother
      rw [hname, if_neg hne] at hv
      exact h.current other (hpending ▸ List.mem_cons_of_mem e hother) v hv hlive
  · rw [hjob] at hv
    split at hv
    · exact ⟨next, Option.some.inj hv ▸ hnext⟩
    · exact h.dated name v hv

theorem look {now : Time.Moment} {found : Option Claim} (h : s.Scheduled)
    (hpending : s.pending = e :: rest) (look : s.Look now e rest (.ok found) s') :
    s'.Scheduled := by
  cases look with
  | dropped stale => exact h.drop hpending stale
  | @skipped t next job state =>
    have hname := name_of_job? job
    exact h.reschedule (u := t.skip next) hpending job (by simp [state]) hname rfl
  | @claimed t next job state =>
    have hname := name_of_job? job
    have hrescheduled :=
      h.reschedule (u := t.engage next) hpending job (by simp [state]) hname rfl
    exact ⟨hrescheduled.known, hrescheduled.once, hrescheduled.current, hrescheduled.dated⟩

theorem finish {run : Run} (h : s.Scheduled) (duration : Double)
    (result : Except Failure Value) : (s.finish run duration result).Scheduled := by
  have hcoming := coming_finish (s := s) run duration result
  exact ⟨fun name hnone => (hcoming name).trans (h.known name hnone),
    fun name t ht live => (hcoming name).trans (h.once name t ht live), h.current, h.dated⟩

/-- The first run of an announced job is entered, unless the job has been cancelled. -/
theorem announced {inbox : List Message} (h : s.Scheduled)
    (hinbox : s.inbox = .added name :: inbox) :
    ({ s with inbox := inbox }.handle (.added name)).2.Scheduled := by
  have hcoming (other : String) : s.coming other =
      ({ s with inbox := inbox } : Scheduler ε).coming other + if name = other then 1 else 0 := by
    simpa [Message.announces] using coming_received hinbox other
  cases ht : s.job? name with
  | none =>
    have hzero := h.known name ht
    rw [hcoming, if_pos rfl] at hzero
    omega
  | some t =>
    have hname := name_of_job? ht
    obtain ⟨due, hdue⟩ := h.dated name t ht
    by_cases hstate : t.state = .cancelled
    · have hsame : { s with inbox := inbox }.handle (.added name) =
          ([], { s with inbox := inbox }) := by
        have hjob : ({ s with inbox := inbox } : Scheduler ε).job? name = some t := ht
        simp [handle, hjob, hstate]
      rw [hsame]
      refine ⟨fun other hnone => ?_, fun other u hu live => ?_, h.current, h.dated⟩
      · have hzero := h.known other hnone
        rw [hcoming] at hzero
        exact Nat.eq_zero_of_add_eq_zero_right hzero
      · have hne : name ≠ other := by
          rintro rfl
          exact live (Option.some.inj (ht.symm.trans hu) ▸ hstate)
        rw [← h.once other u hu live, hcoming, if_neg hne, Nat.add_zero]
    · rw [handle_added (s := { s with inbox := inbox }) ht hstate]
      have hsame (other : String) :
          (push { s with inbox := inbox } t).coming other = s.coming other := by
        rw [coming_push hdue, hname, hcoming]
      refine ⟨fun other hnone => ?_, fun other u hu live => ?_, fun e he u hu live => ?_,
        fun other u hu => ?_⟩
      · rw [job?_push] at hnone
        exact (hsame other).trans (h.known other hnone)
      · rw [job?_push] at hu
        exact (hsame other).trans (h.once other u hu live)
      · rw [push_pending hdue, (insertEntry_perm _ _).mem_iff] at he
        rw [job?_push] at hu
        rcases List.mem_cons.mp he with rfl | he
        · exact Option.some.inj ((hname ▸ ht).symm.trans hu) ▸ hdue
        · exact h.current e he u hu live
      · rw [job?_push] at hu
        exact h.dated other u hu

theorem recorded {c : Completion} {inbox : List Message} (h : s.Scheduled)
    (hinbox : s.inbox = .completed c :: inbox) :
    ({ s with inbox := inbox }.handle (.completed c)).2.Scheduled := by
  have hcoming (name : String) :
      ({ s with inbox := inbox } : Scheduler ε).coming name = s.coming name := by
    rw [coming_received hinbox]
    rfl
  cases ht : s.job? c.job with
  | none =>
    rw [handle_unknown (s := { s with inbox := inbox }) ht]
    exact ⟨fun name hnone => (hcoming name).trans (h.known name hnone),
      fun name t ht live => (hcoming name).trans (h.once name t ht live), h.current, h.dated⟩
  | some t =>
    rw [handle_completed (s := { s with inbox := inbox }) ht]
    have hjobs := job?_record (s := { s with inbox := inbox }) ht
    refine ⟨fun name hnone => (hcoming name).trans (known_record ht h.known name hnone),
      fun name u hu live => ?_, current_record ht h.current, fun name u hu => ?_⟩
    · rw [hjobs] at hu
      refine (hcoming name).trans ?_
      split at hu
      case isTrue heq =>
        cases hu
        exact h.once name t (heq ▸ ht) (live_of_record live)
      case isFalse => exact h.once name u hu live
    · rw [hjobs] at hu
      split at hu
      case isTrue =>
        cases hu
        exact h.dated c.job t ht
      case isFalse => exact h.dated name u hu

theorem handle {m : Message} {inbox : List Message} (h : s.Scheduled)
    (hinbox : s.inbox = m :: inbox) : ({ s with inbox := inbox }.handle m).2.Scheduled := by
  cases m with
  | added name => exact h.announced hinbox
  | completed c => exact h.recorded hinbox

/-- When every job is cancelled, only what is to come of unknown jobs matters. -/
theorem dismiss (h : s.Scheduled) : s.dismiss.Scheduled := by
  have hcancelled (name : String) (t : Job ε) (ht : s.dismiss.job? name = some t) :
      t.state = .cancelled := by
    rw [job?_dismiss] at ht
    obtain ⟨u, -, rfl⟩ := Option.map_eq_some_iff.mp ht
    rfl
  refine ⟨fun name hnone => ?_, fun name t ht live => ?_, fun e he t ht live => ?_,
    fun name t ht => ?_⟩
  · rw [job?_dismiss, Option.map_eq_none_iff] at hnone
    exact h.known name hnone
  · exact absurd (hcancelled name t ht) live
  · exact absurd (hcancelled e.job t ht) live
  · rw [job?_dismiss] at ht
    obtain ⟨u, hu, rfl⟩ := Option.map_eq_some_iff.mp ht
    exact h.dated name u hu

end Scheduled

end Scheduler

namespace History

theorem enduring_scheduled :
    Enduring fun h : History ε => h.faults = [] → h.scheduler.Scheduled where
  new made _ := by
    unfold Scheduler.new at made
    split at made
    · cases made
    · cases made
      exact ⟨fun _ _ => rfl, by simp [begin, Scheduler.job?], by simp [begin],
        by simp [begin, Scheduler.job?]⟩
  add _ hp _ _ _ _ _ _ _ added hfaults := by
    obtain ⟨schedule', first, grows⟩ := Scheduler.add_grows added
    exact (hp hfaults).add grows ⟨first, rfl⟩
  start _ hp hfaults :=
    ⟨(hp hfaults).known, (hp hfaults).once, (hp hfaults).current, (hp hfaults).dated⟩
  look {h} _ hp _ _ _ result _ pending look hfaults := by
    obtain ⟨hbefore, hnow⟩ := List.append_eq_nil_iff.mp hfaults
    cases result with
    | error failure => cases hnow
    | ok found => exact (hp hbefore).look pending look
  take _ hp _ _ _ _ _ _ hfaults :=
    ⟨(hp hfaults).known, (hp hfaults).once, (hp hfaults).current, (hp hfaults).dated⟩
  finish _ hp _ _ duration result hfaults := (hp hfaults).finish duration result
  handle _ hp _ _ inbox hfaults := (hp hfaults).handle inbox
  dropReady hp hfaults :=
    ⟨(hp hfaults).known, (hp hfaults).once, (hp hfaults).current, (hp hfaults).dated⟩
  cancelActive hp hfaults :=
    ⟨(hp hfaults).known, (hp hfaults).once, (hp hfaults).current, (hp hfaults).dated⟩
  dismiss hp hfaults := (hp hfaults).dismiss

theorem Reachable.scheduled {h : History ε} (hr : h.Reachable) (hfaults : h.faults = []) :
    h.scheduler.Scheduled :=
  enduring_scheduled.holds hr.lifetime hfaults

/-- Names tell jobs apart and numbers tell entries apart. -/
theorem enduring_distinct :
    Enduring fun h : History ε => (h.scheduler.jobs.map (·.name)).Nodup ∧
      Numbered h.scheduler.pending h.scheduler.nextNumber where
  new made := by
    unfold Scheduler.new at made
    split at made
    · cases made
    · cases made
      exact ⟨List.nodup_nil, List.nodup_nil, by simp [begin]⟩
  add _ hp _ _ _ _ _ _ _ added := by
    obtain ⟨schedule', first, grows⟩ := Scheduler.add_grows added
    refine ⟨?_, ?_⟩
    · rw [grows.jobs]
      exact nodup_map_concat hp.1 (Scheduler.job?_eq_none.mp grows.fresh)
    · rcases grows.entered with ⟨-, hpending, hnext⟩ | ⟨-, due, -, hpending, hnext⟩
      · rw [hpending, hnext]
        exact hp.2
      · rw [hpending, hnext]
        exact hp.2.insert due _
  start _ hp := hp
  look _ hp _ e rest _ _ pending look := by
    have hrest := (pending ▸ hp.2).tail
    cases look with
    | dropped stale => exact ⟨hp.1, hrest⟩
    | failed => exact ⟨hp.1, hrest⟩
    | skipped next job state => exact ⟨Scheduler.names_reschedule.symm ▸ hp.1, hrest.push _⟩
    | claimed next job state => exact ⟨Scheduler.names_reschedule.symm ▸ hp.1, hrest.push _⟩
  take _ hp _ _ _ _ _ _ := hp
  finish _ hp _ _ _ _ := hp
  handle {h} _ hp m rest _ := by
    obtain ⟨-, -, -, hnames⟩ := Scheduler.handle_apart (s := { h.scheduler with inbox := rest }) m
    refine ⟨hnames.symm ▸ hp.1, ?_⟩
    cases m with
    | added name =>
      rcases Scheduler.handle_added_cases (s := { h.scheduler with inbox := rest }) name with
        hsame | ⟨t, hpushed⟩
      · rw [handled, hsame]
        exact hp.2
      · rw [handled, hpushed]
        exact Numbered.push (s := { h.scheduler with inbox := rest }) hp.2 t
    | completed c =>
      cases ht : ({ h.scheduler with inbox := rest } : Scheduler ε).job? c.job with
      | none =>
        rw [handled, Scheduler.handle_unknown ht]
        exact hp.2
      | some t =>
        rw [handled, Scheduler.handle_completed ht]
        exact hp.2
  dropReady hp := hp
  cancelActive hp := hp
  dismiss hp := ⟨Scheduler.names_dismiss.symm ▸ hp.1, hp.2⟩

/-- As long as no schedule fails, each job that has not been cancelled has one run to come, pending
or announced. Its pending entry says when it runs next, so it is not dropped. No two entries have
the same number. Adding a job that ends with an error, wherever it ends, has changed nothing. -/
theorem scheduled_exactly_once {h : History ε} (hl : h.Lifetime) (hfaults : h.faults = []) :
    (∀ t ∈ h.scheduler.jobs, t.state ≠ .cancelled →
      (h.scheduler.pending.countP (·.job = t.name) = 1 ∧
          h.scheduler.inbox.countP (·.announces t.name) = 0 ∨
        h.scheduler.pending.countP (·.job = t.name) = 0 ∧
          h.scheduler.inbox.countP (·.announces t.name) = 1) ∧
      ∀ e ∈ h.scheduler.pending, e.job = t.name →
        t.nextRun = some e.due ∧ ¬ h.scheduler.Stale e) ∧
    (h.scheduler.pending.map (·.number)).Nodup ∧
    ∀ (now : Time.Moment) (name : String) (schedule : Schedule) (executor : ε) (runOnLoad : Bool)
      (feature : String) (e : RegistrationError) (s : Scheduler ε),
      (Scheduler.enrol now name schedule executor runOnLoad feature).run h.scheduler = .error e s →
        s = h.scheduler ∧
          h.scheduler.add now name schedule executor runOnLoad feature = .error e := by
  have hscheduled := enduring_scheduled.holds hl hfaults
  obtain ⟨hnames, hnumbered⟩ := enduring_distinct.holds hl
  refine ⟨fun t ht live => ⟨?_, fun e he hjob => ?_⟩, hnumbered.distinct, ?_⟩
  · have honce := hscheduled.once t.name t (Scheduler.job?_of_mem hnames ht) live
    rw [Scheduler.coming] at honce
    omega
  · have hfound : h.scheduler.job? e.job = some t := by
      rw [hjob]
      exact Scheduler.job?_of_mem hnames ht
    exact ⟨hscheduled.current e he t hfound live, hscheduled.not_stale_of_live he hfound live⟩
  · intro now name schedule executor runOnLoad feature e s hfailed
    rw [Scheduler.enrol_run] at hfailed
    cases hadd : h.scheduler.add now name schedule executor runOnLoad feature with
    | ok grown => simp [hadd] at hfailed
    | error e' =>
      rw [hadd] at hfailed
      cases hfailed
      exact ⟨rfl, rfl⟩

/-- After a stop and a new start the run of a new job is announced, beside the entry of a job that
has been cancelled. -/
theorem announced_after_a_stop :
    ∃ (h : History Unit) (t u : Job Unit), h.Lifetime ∧ h.faults = [] ∧ t ∈ h.scheduler.jobs ∧
      t.state = .idle ∧ u ∈ h.scheduler.jobs ∧ u.state = .cancelled ∧
      h.scheduler.pending.countP (·.job = u.name) = 1 ∧
      h.scheduler.pending.countP (·.job = t.name) = 0 ∧
      h.scheduler.inbox.countP (·.announces t.name) = 1 := by
  let noon : Time.Moment := ⟨12 * Time.hour, 0⟩
  let empty : Scheduler Unit := ⟨1, "UTC", [], [], 0, [], [], [], false⟩
  let sweep : Job Unit := .new "sweep" (.interval .hourly) () "" noon
  let mail : Job Unit := .new "mail" (.interval .minutely) () "" noon
  let added : Scheduler Unit :=
    { empty with jobs := [sweep], pending := [⟨noon, 0, "sweep"⟩], nextNumber := 1 }
  have hnew : (begin empty).Lifetime := .new (show Scheduler.new 1 "UTC" = .ok empty from rfl)
  have hadd : empty.add noon "sweep" (.interval .hourly) () true "" = .ok added := rfl
  have hstarted := (hnew.step (.add hadd)).retire.step .start
  let started : Scheduler Unit := { added.dismiss with running := true }
  let announced : Scheduler Unit :=
    { started with jobs := started.jobs ++ [mail], inbox := [.added "mail"] }
  have hmail : started.add noon "mail" (.interval .minutely) () true "" = .ok announced := rfl
  have hl : (begin announced).Lifetime := hstarted.step (.add hmail)
  have hmem : mail ∈ announced.jobs := List.mem_append_right _ (List.mem_singleton_self mail)
  obtain ⟨hjobs, -, -⟩ := scheduled_exactly_once hl rfl
  have hnone : announced.pending.countP (·.job = mail.name) = 0 := rfl
  rcases (hjobs mail hmem (by decide)).1 with ⟨hpending, -⟩ | ⟨hpending, hinbox⟩
  · rw [show (begin announced).scheduler = announced from rfl, hnone] at hpending
    cases hpending
  · exact ⟨begin announced, mail, { sweep with state := .cancelled }, hl, rfl, hmem, rfl,
      List.mem_cons_self, rfl, rfl, hpending, hinbox⟩

end History

end Guildhall.Job
