import Guildhall.Proofs.Job.Pending

/-!
# The order of pending entries

Whatever has failed before, no job has more than one run to come, the entry of a job that has not
been cancelled says when it runs next, and the entries stand in the order in which they fall due.
-/

namespace Guildhall.Job

variable {ε : Type}

namespace Scheduler

variable {s s' : Scheduler ε} {name : String} {t u : Job ε} {e : Entry} {rest : List Entry}

def Sorted (entries : List Entry) : Prop :=
  entries.Pairwise fun a b => a.due.instant ≤ b.due.instant

theorem insertEntry_pairwise {R : Entry → Entry → Prop} {entries : List Entry}
    (h : entries.Pairwise R) (hsorted : ∀ a b, R a b → a.due.instant ≤ b.due.instant)
    (hafter : ∀ other ∈ entries, other.due.instant ≤ e.due.instant → R other e)
    (hbefore : ∀ other, e.due.instant < other.due.instant → R e other) :
    (insertEntry e entries).Pairwise R := by
  induction entries with
  | nil => exact List.pairwise_singleton R e
  | cons first rest ih =>
    obtain ⟨hfirst, hrest⟩ := List.pairwise_cons.mp h
    rw [insertEntry]
    split
    case isTrue hle =>
      refine List.pairwise_cons.mpr ⟨fun other hother => ?_,
        ih hrest fun other hother => hafter other (List.mem_cons_of_mem first hother)⟩
      rw [(insertEntry_perm e rest).mem_iff] at hother
      rcases List.mem_cons.mp hother with rfl | hother
      · exact hafter first List.mem_cons_self hle
      · exact hfirst other hother
    case isFalse hlt =>
      refine List.pairwise_cons.mpr ⟨fun other hother => hbefore other ?_, h⟩
      rcases List.mem_cons.mp hother with rfl | hother
      · exact Int.not_le.mp hlt
      · exact Int.lt_of_lt_of_le (Int.not_le.mp hlt) (hsorted first other (hfirst other hother))

theorem insertEntry_sorted {entries : List Entry} (h : Sorted entries) :
    Sorted (insertEntry e entries) :=
  insertEntry_pairwise h (fun _ _ hle => hle) (fun _ _ hle => hle) fun _ hlt => Int.le_of_lt hlt

theorem push_sorted (h : Sorted s.pending) : Sorted (s.push t).pending := by
  cases hnext : t.nextRun with
  | none => simpa [push, hnext] using h
  | some due =>
    rw [push_pending hnext]
    exact insertEntry_sorted h

/-- An entry that is new says when its job runs next. -/
theorem mem_push (he : e ∈ (s.push t).pending) :
    e ∈ s.pending ∨ e.job = t.name ∧ t.nextRun = some e.due := by
  cases hnext : t.nextRun with
  | none => exact .inl (by simpa [push, hnext] using he)
  | some due =>
    rw [push_pending hnext, (insertEntry_perm _ _).mem_iff] at he
    rcases List.mem_cons.mp he with rfl | he
    · exact .inr ⟨rfl, rfl⟩
    · exact .inl he

theorem mem_push_of_mem (he : e ∈ s.pending) : e ∈ (s.push t).pending := by
  cases hnext : t.nextRun with
  | none => simpa [push, hnext] using he
  | some due =>
    rw [push_pending hnext, (insertEntry_perm _ _).mem_iff]
    exact List.mem_cons_of_mem _ he

theorem coming_push_le (name : String) :
    (s.push t).coming name ≤ s.coming name + if t.name = name then 1 else 0 := by
  cases hnext : t.nextRun with
  | none => simp [push, hnext, coming]
  | some due => exact Nat.le_of_eq (coming_push hnext name)

structure Orderly (s : Scheduler ε) : Prop where
  known : ∀ name, s.job? name = none → s.coming name = 0
  once : ∀ name, s.coming name ≤ 1
  current : ∀ e ∈ s.pending, ∀ t, s.job? e.job = some t → t.state ≠ .cancelled →
    t.nextRun = some e.due
  sorted : Sorted s.pending

namespace Orderly

/-- Entering the next run of a job of which nothing is to come. -/
theorem push (h : s.Orderly) (job : s.job? t.name = some t) (hnone : s.coming t.name = 0) :
    (s.push t).Orderly where
  known name hname := by
    rw [job?_push] at hname
    have hne : t.name ≠ name := by
      rintro rfl
      rw [job] at hname
      cases hname
    have hle := coming_push_le (s := s) (t := t) name
    rw [h.known name hname, if_neg hne] at hle
    exact Nat.le_zero.mp hle
  once name := by
    have hle := coming_push_le (s := s) (t := t) name
    have hone := h.once name
    split at hle
    case isTrue heq => rw [← heq, hnone, heq] at hle; exact hle
    case isFalse => omega
  current e he u hu live := by
    rw [job?_push] at hu
    rcases mem_push he with he | ⟨hjob, hnext⟩
    · exact h.current e he u hu live
    · rw [hjob, job] at hu
      exact Option.some.inj hu ▸ hnext
  sorted := push_sorted h.sorted

theorem tail (h : s.Orderly) (hpending : s.pending = e :: rest) :
    ({ s with pending := rest } : Scheduler ε).Orderly where
  known name hname := by
    have hzero := h.known name hname
    rw [coming_rest hpending] at hzero
    exact Nat.eq_zero_of_add_eq_zero_right hzero
  once name := by
    have hone := h.once name
    rw [coming_rest hpending] at hone
    omega
  current other hother := h.current other (hpending ▸ List.mem_cons_of_mem e hother)
  sorted := (List.pairwise_cons.mp (hpending ▸ h.sorted)).2

theorem put (h : s.Orderly) (job : s.job? u.name = some t) (hnone : s.coming u.name = 0) :
    (s.modify u.name fun _ => u).Orderly where
  known name hname := by
    rw [job?_modify (fun _ _ => rfl) job] at hname
    split at hname
    case isTrue => cases hname
    case isFalse => exact h.known name hname
  once := h.once
  current e he v hv live := by
    rw [job?_modify (fun _ _ => rfl) job] at hv
    split at hv
    case isTrue heq =>
      have hpos := coming_pos (s := s) he
      rw [heq, hnone] at hpos
      cases hpos
    case isFalse => exact h.current e he v hv live
  sorted := h.sorted

theorem reschedule (h : s.Orderly) (hpending : s.pending = e :: rest)
    (job : s.job? e.job = some t) (hname : u.name = e.job) : (s.reschedule rest u).Orderly := by
  have hnone : ({ s with pending := rest } : Scheduler ε).coming u.name = 0 := by
    have hone := h.once e.job
    rw [coming_rest hpending, if_pos rfl] at hone
    rw [hname]
    omega
  have htail := h.tail hpending
  have hput := htail.put (u := u) (hname ▸ job) hnone
  refine hput.push ?_ hnone
  rw [job?_modify (fun _ _ => rfl) (show _ = some t from hname ▸ job), if_pos rfl]

theorem look {now : Time.Moment} {result : Except Failure (Option Claim)} (h : s.Orderly)
    (hpending : s.pending = e :: rest) (look : s.Look now e rest result s') : s'.Orderly := by
  cases look with
  | dropped stale => exact h.tail hpending
  | failed => exact h.tail hpending
  | @skipped t next job state =>
    have hname := name_of_job? job
    exact h.reschedule (u := t.skip next) hpending job hname
  | @claimed t next job state =>
    have hname := name_of_job? job
    have hrescheduled := h.reschedule (u := t.engage next) hpending job hname
    exact ⟨hrescheduled.known, hrescheduled.once, hrescheduled.current, hrescheduled.sorted⟩

theorem add (h : s.Orderly) (grows : s.Grows s' t) : s'.Orderly := by
  have hnew : s.coming t.name = 0 := h.known t.name grows.fresh
  refine ⟨grows.known h.known, fun name => ?_, grows.current hnew h.current, ?_⟩
  · rw [grows.coming]
    split
    case isTrue heq => simp [← heq, hnew]
    case isFalse => exact h.once name
  · rcases grows.entered with ⟨-, hpending, -⟩ | ⟨-, due, -, hpending, -⟩
    · exact hpending ▸ h.sorted
    · exact hpending ▸ insertEntry_sorted h.sorted

theorem received {m : Message} {inbox : List Message} (h : s.Orderly)
    (hinbox : s.inbox = m :: inbox) : ({ s with inbox := inbox } : Scheduler ε).Orderly := by
  have hle (name : String) :
      ({ s with inbox := inbox } : Scheduler ε).coming name ≤ s.coming name :=
    Nat.le.intro (coming_received hinbox name).symm
  refine ⟨fun name hnone => ?_, fun name => Nat.le_trans (hle name) (h.once name), h.current,
    h.sorted⟩
  have hzero := h.known name hnone
  exact Nat.le_zero.mp (hzero ▸ hle name)

theorem handle {m : Message} {inbox : List Message} (h : s.Orderly)
    (hinbox : s.inbox = m :: inbox) : ({ s with inbox := inbox }.handle m).2.Orderly := by
  have hreceived := h.received hinbox
  cases m with
  | added name =>
    cases ht : ({ s with inbox := inbox } : Scheduler ε).job? name with
    | none => simpa [Scheduler.handle, ht] using hreceived
    | some t =>
      have hname := name_of_job? ht
      by_cases hstate : t.state = .cancelled
      · simpa [Scheduler.handle, ht, hstate] using hreceived
      · rw [handle_added ht hstate]
        refine hreceived.push (hname ▸ ht) ?_
        -- The announcement that has been taken out was all there was to come of the job.
        have hone := h.once name
        simp only [coming, hinbox, Message.announces, List.countP_cons, hname] at hone ⊢
        simp only [decide_true, if_true] at hone
        omega
  | completed c =>
    cases ht : ({ s with inbox := inbox } : Scheduler ε).job? c.job with
    | none =>
      rw [handle_unknown ht]
      exact hreceived
    | some t =>
      rw [handle_completed ht]
      exact ⟨known_record ht hreceived.known, hreceived.once,
        current_record ht hreceived.current, hreceived.sorted⟩

end Orderly

end Scheduler

namespace History

theorem enduring_orderly : Enduring fun h : History ε => h.scheduler.Orderly where
  new made := by
    unfold Scheduler.new at made
    split at made
    · cases made
    · cases made
      exact ⟨fun _ _ => rfl, fun _ => Nat.zero_le 1, by simp [begin], List.Pairwise.nil⟩
  add _ hp _ _ _ _ _ _ _ added := by
    obtain ⟨schedule', first, grows⟩ := Scheduler.add_grows added
    exact hp.add grows
  start _ hp := ⟨hp.known, hp.once, hp.current, hp.sorted⟩
  look _ hp _ _ _ _ _ pending look := hp.look pending look
  take _ hp _ _ _ _ _ _ := ⟨hp.known, hp.once, hp.current, hp.sorted⟩
  finish {h} _ hp run _ duration result := by
    have hcoming := h.scheduler.coming_finish run duration result
    exact ⟨fun name hnone => (hcoming name).trans (hp.known name hnone),
      fun name => hcoming name ▸ hp.once name, hp.current, hp.sorted⟩
  handle _ hp _ _ inbox := hp.handle inbox
  dropReady hp := ⟨hp.known, hp.once, hp.current, hp.sorted⟩
  cancelActive hp := ⟨hp.known, hp.once, hp.current, hp.sorted⟩
  dismiss {h} hp := by
    refine ⟨fun name hnone => ?_, hp.once, fun e he t ht live => ?_, hp.sorted⟩
    · rw [Scheduler.job?_dismiss, Option.map_eq_none_iff] at hnone
      exact hp.known name hnone
    · rw [Scheduler.job?_dismiss] at ht
      obtain ⟨u, -, rfl⟩ := Option.map_eq_some_iff.mp ht
      exact absurd rfl live

theorem Lifetime.orderly {h : History ε} (hl : h.Lifetime) : h.scheduler.Orderly :=
  enduring_orderly.holds hl

end History

end Guildhall.Job
