import Guildhall.Proofs.Job.Grid

/-!
# What one claiming does

Claiming looks at one entry after another until none is due. A job whose run is due is looked at
once: its run is claimed or, as long as the job is running, skipped, and its next run is entered
past `now`. So claiming comes to an end, and it leaves everything else as it is.
-/

namespace Guildhall.Job

open Time (Moment)

variable {ε : Type} {t : Job ε} {now due next : Moment}

structure Due (t : Job ε) (now due : Moment) : Prop where
  live : t.state ≠ .cancelled
  next : t.nextRun = some due
  past : due.instant ≤ now.instant

def pass (now : Moment) (t : Job ε) : Job ε :=
  match t.nextRun with
  | none => t
  | some due =>
    if t.state = .cancelled ∨ now.instant < due.instant then t
    else
      match t.schedule.nextAfter due now with
      | .error _ => t
      | .ok next => t.advance next

theorem pass_of_due (h : t.Due now due) (hnext : t.schedule.nextAfter due now = .ok next) :
    t.pass now = t.advance next := by
  have hpast : ¬ now.instant < due.instant := Int.not_lt.mpr h.past
  simp [pass, h.next, h.live, hpast, hnext]

theorem pass_of_not_due (h : ∀ due, ¬ t.Due now due) : t.pass now = t := by
  unfold pass
  split
  case h_1 => rfl
  case h_2 due hdue =>
    apply if_pos
    by_contra hnot
    rw [not_or, Int.not_lt] at hnot
    exact h due ⟨hnot.1, hdue, hnot.2⟩

theorem name_pass (now : Moment) (t : Job ε) : (t.pass now).name = t.name := by
  unfold pass
  split
  · rfl
  · split
    · rfl
    · split
      · rfl
      · exact name_advance t _

/-- A job that is to run past `now` is left alone. -/
theorem pass_advance (hlate : now.instant < next.instant) :
    (t.advance next).pass now = t.advance next := by
  apply pass_of_not_due
  intro due hdue
  have hnext := hdue.next
  rw [nextRun_advance] at hnext
  cases hnext
  exact absurd hlate (Int.not_lt.mpr hdue.past)

namespace Entry

/-- The order in which entries are taken off: by when they fall due, then by their numbers. -/
def Before (a b : Entry) : Prop :=
  a.due.instant < b.due.instant ∨ a.due.instant = b.due.instant ∧ a.number < b.number

instance (a b : Entry) : Decidable (a.Before b) := inferInstanceAs (Decidable (_ ∨ _ ∧ _))

theorem Before.ne {a b : Entry} (h : a.Before b) : a ≠ b := by
  rintro rfl
  unfold Before at h
  omega

def claim (e : Entry) : Claim := ⟨e.job, e.due⟩

end Entry

namespace Scheduler

variable {s s' : Scheduler ε} {e : Entry} {rest : List Entry}

theorem insertEntry_before {entries : List Entry} (h : entries.Pairwise Entry.Before)
    (hnew : ∀ other ∈ entries, other.number < e.number) :
    (insertEntry e entries).Pairwise Entry.Before := by
  refine insertEntry_pairwise h ?_ ?_ fun other hlt => .inl hlt
  · intro a b hbefore
    unfold Entry.Before at hbefore
    omega
  · intro other hother hle
    have hnumber := hnew other hother
    unfold Entry.Before
    omega

theorem sorted_of_before {entries : List Entry} (h : entries.Pairwise Entry.Before) :
    Sorted entries := by
  refine h.imp fun {a b} hbefore => ?_
  unfold Entry.Before at hbefore
  omega

theorem push_before (h : s.pending.Pairwise Entry.Before)
    (hbelow : ∀ e ∈ s.pending, e.number < s.nextNumber) :
    (s.push t).pending.Pairwise Entry.Before := by
  unfold push
  split
  case h_1 => exact h
  case h_2 due hdue => exact insertEntry_before h hbelow

theorem reschedule_before (h : rest.Pairwise Entry.Before)
    (hbelow : ∀ e ∈ rest, e.number < s.nextNumber) :
    (s.reschedule rest t).pending.Pairwise Entry.Before := by
  unfold reschedule
  exact push_before (s := { s with pending := rest }.modify t.name fun _ => t) h hbelow

/-- Every job that has not been cancelled has exactly one entry, which says when it runs next.
Jobs go by their names and entries by their numbers; every entry has its job, and the entries stand
in the order in which they are taken off. -/
structure Filed (s : Scheduler ε) : Prop where
  names : (s.jobs.map (·.name)).Nodup
  numbered : Numbered s.pending s.nextNumber
  known : ∀ e ∈ s.pending, e.job ∈ s.jobs.map (·.name)
  once : ∀ t ∈ s.jobs, t.state ≠ .cancelled →
    ∃ e, s.entries t.name = [e] ∧ t.nextRun = some e.due
  ordered : s.pending.Pairwise Entry.Before

theorem mem_of_job? {name : String} (h : s.job? name = some t) : t ∈ s.jobs :=
  List.mem_of_find?_eq_some h

theorem mem_entries {name : String} : e ∈ s.entries name ↔ e ∈ s.pending ∧ e.job = name := by
  simp [entries]

theorem entries_reschedule {u : Job ε} (hpending : s.pending = e :: rest) (hname : u.name = e.job)
    (hnext : u.nextRun = some next) (hother : ∀ other ∈ rest, other.job ≠ e.job) (name : String) :
    (s.reschedule rest u).entries name =
      if name = u.name then [⟨next, s.nextNumber, u.name⟩] else s.entries name := by
  rw [entries, reschedule_pending hnext]
  split
  case isTrue heq =>
    have hnone : rest.filter (·.job = name) = [] := by
      rw [heq, hname, List.filter_eq_nil_iff]
      simpa using hother
    have hperm := (insertEntry_perm ⟨next, s.nextNumber, u.name⟩ rest).filter
      fun f => decide (f.job = name)
    rw [List.filter_cons_of_pos (by simp [heq]), hnone] at hperm
    exact hperm.eq_singleton
  case isFalse hne =>
    have hjob : e.job ≠ name := by
      rw [← hname]
      exact Ne.symm hne
    rw [filter_insertEntry (by simpa using Ne.symm hne), entries, hpending,
      List.filter_cons_of_neg (by simpa using hjob)]

namespace Filed

theorem exists_job (h : s.Filed) (he : e ∈ s.pending) : ∃ t, s.job? e.job = some t := by
  obtain ⟨t, ht, hname⟩ := List.mem_map.mp (h.known e he)
  exact ⟨t, hname ▸ job?_of_mem h.names ht⟩

theorem current (h : s.Filed) (he : e ∈ s.pending) (job : s.job? e.job = some t)
    (live : t.state ≠ .cancelled) : t.nextRun = some e.due := by
  obtain ⟨only, hentries, hnext⟩ := h.once t (mem_of_job? job) live
  have hmem : e ∈ s.entries t.name := mem_entries.mpr ⟨he, (name_of_job? job).symm⟩
  rw [hentries, List.mem_singleton] at hmem
  rw [hmem, hnext]

theorem eq_of_name {name : String} {u : Job ε} (h : s.Filed) (hu : u ∈ s.jobs)
    (job : s.job? name = some t) (hname : u.name = name) : u = t := by
  rw [← hname, job?_of_mem h.names hu] at job
  exact Option.some.inj job

theorem unique {other : Entry} (h : s.Filed) (he : e ∈ s.pending) (hother : other ∈ s.pending)
    (job : s.job? e.job = some t) (live : t.state ≠ .cancelled) (hjob : other.job = e.job) :
    e = other := by
  obtain ⟨only, hentries, -⟩ := h.once t (mem_of_job? job) live
  have hname : t.name = e.job := name_of_job? job
  have hfirst : e ∈ s.entries t.name := mem_entries.mpr ⟨he, hname.symm⟩
  have hsecond : other ∈ s.entries t.name := mem_entries.mpr ⟨hother, hjob.trans hname.symm⟩
  rw [hentries, List.mem_singleton] at hfirst hsecond
  rw [hfirst, hsecond]

theorem exists_entry (h : s.Filed) (ht : t ∈ s.jobs) (hdue : t.Due now due) :
    ∃ e ∈ s.pending, e.claim = ⟨t.name, due⟩ := by
  obtain ⟨e, hentries, hnext⟩ := h.once t ht hdue.live
  have hmem : e ∈ s.entries t.name := by simp [hentries]
  obtain ⟨he, hname⟩ := mem_entries.mp hmem
  rw [hdue.next, Option.some.injEq] at hnext
  exact ⟨e, he, by rw [Entry.claim, hname, hnext]⟩

theorem job_ne (h : s.Filed) (hpending : s.pending = e :: rest) (job : s.job? e.job = some t)
    (live : t.state ≠ .cancelled) : ∀ other ∈ rest, other.job ≠ e.job := by
  intro other hother hjob
  have hbefore := (List.pairwise_cons.mp (hpending ▸ h.ordered)).1 other hother
  have he : e ∈ s.pending := hpending ▸ List.mem_cons_self
  have hmem : other ∈ s.pending := hpending ▸ List.mem_cons_of_mem e hother
  exact hbefore.ne (h.unique he hmem job live hjob)

theorem drop (h : s.Filed) (hpending : s.pending = e :: rest) (job : s.job? e.job = some t)
    (state : t.state = .cancelled) : ({ s with pending := rest } : Scheduler ε).Filed where
  names := h.names
  numbered := (hpending ▸ h.numbered).tail
  known other hother := h.known other (hpending ▸ List.mem_cons_of_mem e hother)
  once u hu live := by
    obtain ⟨only, hentries, hnext⟩ := h.once u hu live
    have hne : e.job ≠ u.name := by
      intro heq
      rw [h.eq_of_name hu job heq.symm] at live
      exact live state
    rw [entries, hpending, List.filter_cons_of_neg (by simpa using hne)] at hentries
    exact ⟨only, hentries, hnext⟩
  ordered := (List.pairwise_cons.mp (hpending ▸ h.ordered)).2

theorem queue (h : s.Filed) (claim : Option Claim) : (s.queue claim).Filed :=
  ⟨h.names, h.numbered, h.known, h.once, h.ordered⟩

/-- Entering the next run of the job whose entry has been taken off. -/
theorem reschedule (h : s.Filed) (hpending : s.pending = e :: rest)
    (job : s.job? e.job = some t) (live : t.state ≠ .cancelled) (next : Moment) :
    (s.reschedule rest (t.advance next)).Filed := by
  have hname : (t.advance next).name = e.job := (name_advance t next).trans (name_of_job? job)
  have hrest : Numbered rest s.nextNumber := (hpending ▸ h.numbered).tail
  constructor
  case names => exact names_reschedule.symm ▸ h.names
  case numbered => exact hrest.push (t.advance next)
  case known =>
    intro other hother
    rw [names_reschedule]
    rw [reschedule_pending (nextRun_advance t next), (insertEntry_perm _ _).mem_iff] at hother
    rcases List.mem_cons.mp hother with rfl | hother
    · rw [hname]
      exact h.known e (hpending ▸ List.mem_cons_self)
    · exact h.known other (hpending ▸ List.mem_cons_of_mem e hother)
  case once =>
    intro v hv hlive
    rw [jobs_reschedule] at hv
    obtain ⟨u, hu, rfl⟩ := List.mem_map.mp hv
    rw [entries_reschedule hpending hname (nextRun_advance t next)
      (h.job_ne hpending job live)]
    by_cases heq : u.name = (t.advance next).name
    · rw [if_pos heq, if_pos rfl]
      exact ⟨_, rfl, nextRun_advance t next⟩
    · rw [if_neg heq] at hlive ⊢
      rw [if_neg heq]
      exact h.once u hu hlive
  case ordered =>
    exact reschedule_before (List.pairwise_cons.mp (hpending ▸ h.ordered)).2 hrest.below

end Filed

/-- Whether the entry stands for a run of an idle job that is due. -/
def offers (s : Scheduler ε) (now : Moment) (e : Entry) : Bool :=
  decide (e.due.instant ≤ now.instant) && (s.job? e.job).any (·.state = .idle)

/-- The entries that a claiming at `now` turns into claims. -/
def offered (s : Scheduler ε) (now : Moment) : List Entry := s.pending.filter (s.offers now)

theorem offered_ordered (h : s.Filed) : (s.offered now).Pairwise Entry.Before :=
  h.ordered.filter _

theorem offered_of_later (hlater : ∀ e ∈ s.pending, now.instant < e.due.instant) :
    s.offered now = [] := by
  refine List.filter_eq_nil_iff.mpr fun e he => ?_
  have hlate := hlater e he
  simp [offers, hlate]

theorem offered_drop (hpending : s.pending = e :: rest) (job : s.job? e.job = some t)
    (state : t.state = .cancelled) :
    ({ s with pending := rest } : Scheduler ε).offered now = s.offered now := by
  rw [offered, offered, hpending, List.filter_cons_of_neg (by simp [offers, job, state])]
  rfl

/-- An entry that is due is claimed as its job offers it, and the entries after it as before. -/
theorem claims_cons (job : s.job? e.job = some t) (live : t.state ≠ .cancelled)
    (hdue : ¬ now.instant < e.due.instant) (rest : List Entry) :
    ((e :: rest).filter (s.offers now)).map Entry.claim =
      (e.offer t).toList ++ (rest.filter (s.offers now)).map Entry.claim := by
  rw [Entry.offer]
  cases hstate : t.state with
  | cancelled => exact absurd hstate live
  | running =>
    rw [List.filter_cons_of_neg (by simp [offers, job, hstate])]
    rfl
  | idle =>
    rw [List.filter_cons_of_pos (by simpa [offers, job, hstate] using hdue)]
    rfl

/-- A look at an entry that is due leaves the other entries to be claimed as before. -/
theorem offered_reschedule (h : s.Filed) (hpending : s.pending = e :: rest)
    (job : s.job? e.job = some t) (live : t.state ≠ .cancelled)
    (hdue : ¬ now.instant < e.due.instant) (hlate : now.instant < next.instant) :
    (s.offered now).map Entry.claim = (e.offer t).toList ++
      (((s.reschedule rest (t.advance next)).queue (e.offer t)).offered now).map Entry.claim := by
  have hname : (t.advance next).name = e.job := (name_advance t next).trans (name_of_job? job)
  have hrest : ((s.reschedule rest (t.advance next)).queue (e.offer t)).offered now =
      rest.filter (s.offers now) := by
    rw [offered, queue_pending, reschedule_pending (nextRun_advance t next),
      filter_insertEntry (by simp [offers, hlate])]
    refine List.filter_congr fun other hother => ?_
    have hne := h.job_ne hpending job live other hother
    rw [offers, offers, job?_queue, job?_reschedule rest (hname ▸ job), hname, if_neg hne]
  rw [hrest, offered, hpending]
  exact claims_cons job live hdue rest

theorem mem_claims (h : s.Filed) {c : Claim} :
    c ∈ (s.offered now).map Entry.claim ↔
      ∃ t ∈ s.jobs, t.name = c.job ∧ t.state = .idle ∧ t.Due now c.due := by
  rw [List.mem_map]
  constructor
  · rintro ⟨e, he, rfl⟩
    obtain ⟨he, hoffers⟩ := List.mem_filter.mp he
    obtain ⟨t, job⟩ := h.exists_job he
    simp only [offers, job, Option.any_some, Bool.and_eq_true, decide_eq_true_eq] at hoffers
    obtain ⟨hdue, hstate⟩ := hoffers
    have live : t.state ≠ .cancelled := by simp [hstate]
    exact ⟨t, mem_of_job? job, name_of_job? job, hstate, live, h.current he job live, hdue⟩
  · rintro ⟨t, ht, hname, hstate, hdue⟩
    obtain ⟨e, he, hclaim⟩ := h.exists_entry ht hdue
    have hc : e.claim = c := by rw [hclaim, hname]
    refine ⟨e, List.mem_filter.mpr ⟨he, ?_⟩, hc⟩
    have hjob : e.job = t.name := congrArg Claim.job hclaim
    have hwhen : e.due = c.due := congrArg Claim.due hc
    simpa [offers, hjob, job?_of_mem h.names ht, hstate, hwhen] using hdue.past

theorem nodup_claims (h : s.Filed) :
    (((s.offered now).map Entry.claim).map (·.job)).Nodup := by
  rw [List.map_map]
  refine List.pairwise_map.mpr ((offered_ordered h).imp_of_mem fun {a b} ha hb hbefore hjob => ?_)
  obtain ⟨ha, hoffers⟩ := List.mem_filter.mp ha
  obtain ⟨t, job⟩ := h.exists_job ha
  have live : t.state ≠ .cancelled := by
    intro state
    simp [offers, job, state] at hoffers
  exact hbefore.ne (h.unique ha (List.mem_filter.mp hb).1 job live hjob.symm)

/-- Going past the job that has been looked at once more makes no difference. -/
theorem map_pass_reschedule (h : s.Filed) (job : s.job? e.job = some t)
    (hdue : t.Due now e.due) (hnext : t.schedule.nextAfter e.due now = .ok next)
    (hlate : now.instant < next.instant) :
    (s.reschedule rest (t.advance next)).jobs.map (pass now) = s.jobs.map (pass now) := by
  rw [jobs_reschedule, List.map_map]
  apply List.map_congr_left
  intro u hu
  rw [Function.comp_apply]
  by_cases hname : u.name = (t.advance next).name
  · have heq : u = t := h.eq_of_name hu job
      (hname.trans ((name_advance t next).trans (name_of_job? job)))
    rw [if_pos hname, pass_advance hlate, heq, pass_of_due hdue hnext]
  · rw [if_neg hname]

theorem mem_reschedule_queue {other : Entry} (job : s.job? e.job = some t) (claim : Option Claim) :
    other ∈ ((s.reschedule rest (t.advance next)).queue claim).pending ↔
      other = ⟨next, s.nextNumber, e.job⟩ ∨ other ∈ rest := by
  rw [queue_pending, reschedule_pending (nextRun_advance t next), (insertEntry_perm _ _).mem_iff,
    List.mem_cons, name_advance, name_of_job? job]

/-- What a claiming at `now` makes of `s`. Nothing is due any more, and every entry that was not due
is still there. New entries are those of jobs that were due. -/
structure Passed (s : Scheduler ε) (now : Moment) (s' : Scheduler ε) : Prop where
  jobs : s'.jobs = s.jobs.map (pass now)
  ready : s'.ready = s.ready ++ (s.offered now).map Entry.claim
  filed : s'.Filed
  later : ∀ e ∈ s'.pending, now.instant < e.due.instant
  kept : ∀ e ∈ s.pending, now.instant < e.due.instant → e ∈ s'.pending
  entered : ∀ e ∈ s'.pending, e ∈ s.pending ∨ ∃ t ∈ s.jobs, t.name = e.job ∧ ∃ due, t.Due now due
  apart : s' = { s with
    jobs := s'.jobs, pending := s'.pending, nextNumber := s'.nextNumber, ready := s'.ready }

namespace Passed

theorem of_later (h : s.Filed) (hlater : ∀ e ∈ s.pending, now.instant < e.due.instant) :
    s.Passed now s where
  jobs := by
    have hsame : s.jobs.map (pass now) = s.jobs.map id := by
      refine List.map_congr_left fun t ht => pass_of_not_due fun due hdue => ?_
      obtain ⟨e, he, hclaim⟩ := h.exists_entry ht hdue
      have hlate := hlater e he
      rw [show e.due = due from congrArg Claim.due hclaim] at hlate
      exact absurd hlate (Int.not_lt.mpr hdue.past)
    rw [hsame, List.map_id]
  ready := by rw [offered_of_later hlater, List.map_nil, List.append_nil]
  filed := h
  later := hlater
  kept e he _ := he
  entered e he := .inl he
  apart := rfl

theorem drop (hpending : s.pending = e :: rest) (job : s.job? e.job = some t)
    (state : t.state = .cancelled) (hdue : ¬ now.instant < e.due.instant)
    (hpassed : ({ s with pending := rest } : Scheduler ε).Passed now s') : s.Passed now s' where
  jobs := hpassed.jobs
  ready := by rw [hpassed.ready, offered_drop hpending job state]
  filed := hpassed.filed
  later := hpassed.later
  kept other hother hlate := by
    rw [hpending] at hother
    rcases List.mem_cons.mp hother with rfl | hother
    · exact absurd hlate hdue
    · exact hpassed.kept other hother hlate
  entered other hother := by
    refine (hpassed.entered other hother).imp_left fun hmem => ?_
    exact hpending ▸ List.mem_cons_of_mem e hmem
  apart := hpassed.apart

theorem reschedule (h : s.Filed) (hpending : s.pending = e :: rest)
    (job : s.job? e.job = some t) (live : t.state ≠ .cancelled)
    (hdue : ¬ now.instant < e.due.instant) (hnext : t.schedule.nextAfter e.due now = .ok next)
    (hlate : now.instant < next.instant)
    (hpassed : ((s.reschedule rest (t.advance next)).queue (e.offer t)).Passed now s') :
    s.Passed now s' := by
  have he : e ∈ s.pending := hpending ▸ List.mem_cons_self
  have ht : t ∈ s.jobs := mem_of_job? job
  have due : t.Due now e.due := ⟨live, h.current he job live, Int.not_lt.mp hdue⟩
  constructor
  case jobs =>
    rw [hpassed.jobs]
    exact map_pass_reschedule h job due hnext hlate
  case ready =>
    rw [hpassed.ready, offered_reschedule h hpending job live hdue hlate, queue, reschedule_ready,
      List.append_assoc]
  case filed => exact hpassed.filed
  case later => exact hpassed.later
  case kept =>
    intro other hother hotherLate
    rw [hpending] at hother
    rcases List.mem_cons.mp hother with rfl | hother
    · exact absurd hotherLate hdue
    · exact hpassed.kept other ((mem_reschedule_queue job _).mpr (.inr hother)) hotherLate
  case entered =>
    intro other hother
    rcases hpassed.entered other hother with hother | ⟨u, hu, hjob, hu'⟩
    · rcases (mem_reschedule_queue job _).mp hother with rfl | hother
      · exact .inr ⟨t, ht, name_of_job? job, e.due, due⟩
      · exact .inl (hpending ▸ List.mem_cons_of_mem e hother)
    · -- The job was due before, whether or not it is the one that has been looked at.
      rw [queue, jobs_reschedule] at hu
      obtain ⟨v, hv, rfl⟩ := List.mem_map.mp hu
      by_cases hname : v.name = (t.advance next).name
      · rw [if_pos hname] at hjob
        exact .inr ⟨t, ht, (name_advance t next).symm.trans hjob, e.due, due⟩
      · rw [if_neg hname] at hjob hu'
        exact .inr ⟨v, hv, hjob, hu'⟩
  case apart =>
    rw [hpassed.apart]
    simp [queue, Scheduler.reschedule, modify, push]

end Passed

theorem claimUpTo_of_later (fuel : Nat) (claims : List Claim)
    (hlater : ∀ e ∈ s.pending, now.instant < e.due.instant) :
    s.claimUpTo now fuel claims = (.ok (), claims, s) := by
  cases fuel with
  | zero => rfl
  | succ fuel =>
    cases hpending : s.pending with
    | nil => simp [claimUpTo, hpending]
    | cons e rest =>
      have hlate := hlater e (hpending ▸ List.mem_cons_self)
      simp [claimUpTo, hpending, hlate]

/-- As many looks as there are entries that are due take care of all of them, and further looks
change nothing. -/
theorem claimUpTo_passed (h : s.Filed) (hmoves : s.Moves now) :
    ∃ s', s.Passed now s' ∧ ∀ fuel claims, s.dueCount now ≤ fuel →
      s.claimUpTo now fuel claims =
        (.ok (), claims ++ (s.offered now).map Entry.claim, s') := by
  induction hcount : s.dueCount now generalizing s with
  | zero =>
    have hlater := dueCount_eq_zero.mp hcount
    refine ⟨s, .of_later h hlater, fun fuel claims _ => ?_⟩
    rw [claimUpTo_of_later fuel claims hlater, offered_of_later hlater, List.map_nil,
      List.append_nil]
  | succ n ih =>
    have hsome : s.dueCount now ≠ 0 := hcount ▸ Nat.succ_ne_zero n
    obtain ⟨e, rest, hpending, hdue⟩ := exists_first_due (sorted_of_before h.ordered) hsome
    have he : e ∈ s.pending := hpending ▸ List.mem_cons_self
    obtain ⟨t, job⟩ := h.exists_job he
    obtain ⟨-, -, hmoves', hless⟩ :=
      claimFirst_moves job (h.current he job) hmoves hpending hdue
    by_cases live : t.state = .cancelled
    · have hlook : s.claimFirst now e rest = (.ok none, { s with pending := rest }) :=
        claimFirst_of_cancelled rest job live
      simp only [hlook] at hmoves' hless
      obtain ⟨s', hpassed, hclaim⟩ := ih (h.drop hpending job live) hmoves' (by omega)
      refine ⟨s', .drop hpending job live hdue hpassed, fun fuel claims hfuel => ?_⟩
      obtain ⟨fuel, rfl⟩ := Nat.exists_eq_add_of_le' hfuel
      rw [← Nat.add_assoc, claimUpTo_ok _ claims hpending hdue hlook, Option.toList_none,
        List.append_nil, hclaim _ claims (Nat.le_add_left n fuel), offered_drop hpending job live]
    · obtain ⟨next, hnext, hlate⟩ := hmoves e he (Int.not_lt.mp hdue) t job live
      have hlook := claimFirst_of_live rest job live (h.current he job live) hnext
      simp only [hlook] at hmoves' hless
      obtain ⟨s', hpassed, hclaim⟩ :=
        ih ((h.reschedule hpending job live next).queue (e.offer t)) hmoves' (by omega)
      refine ⟨s', .reschedule h hpending job live hdue hnext hlate hpassed,
        fun fuel claims hfuel => ?_⟩
      obtain ⟨fuel, rfl⟩ := Nat.exists_eq_add_of_le' hfuel
      rw [← Nat.add_assoc, claimUpTo_ok _ claims hpending hdue hlook,
        hclaim _ _ (Nat.le_add_left n fuel),
        offered_reschedule h hpending job live hdue hlate, List.append_assoc]

/-- Where each job that has not been cancelled has exactly one entry, and the schedules that are due
lead past `now`, claiming comes to an end, and it claims exactly the runs of idle jobs that are due,
each once and in the order of their entries. However many runs a job has missed, it is looked at
once: it runs from now on, or has one more skipped tick, and is to run next after `now`. Every other
job stays as it is. -/
theorem claims_what_is_due (h : s.Filed) (hmoves : s.Moves now) :
    ∃ claims s',
      (∀ fuel, s.dueCount now ≤ fuel → s.claimUpTo now fuel [] = (.ok (), claims, s')) ∧
      s.claimDue now = (.ok (), claims, s') ∧
      (claims = (s.offered now).map Entry.claim ∧ (s.offered now).Pairwise Entry.Before ∧
        (claims.map (·.job)).Nodup ∧
        ∀ c, c ∈ claims ↔ ∃ t ∈ s.jobs, t.name = c.job ∧ t.state = .idle ∧ t.Due now c.due) ∧
      (∀ t ∈ s.jobs, ∀ due, t.Due now due →
        ∃ next, t.schedule.nextAfter due now = .ok next ∧ now.instant < next.instant ∧
          (t.state = .idle → s'.job? t.name = some (t.engage next)) ∧
          (t.state = .running → s'.job? t.name = some (t.skip next))) ∧
      (∀ t ∈ s.jobs, (∀ due, ¬ t.Due now due) → s'.job? t.name = some t) ∧
      s.Passed now s' := by
  obtain ⟨s', hpassed, hclaim⟩ := claimUpTo_passed h hmoves
  have hjob (t : Job ε) (ht : t ∈ s.jobs) : s'.job? t.name = some (t.pass now) := by
    have hmem : t.pass now ∈ s'.jobs := hpassed.jobs ▸ List.mem_map_of_mem ht
    rw [← name_pass now t]
    exact job?_of_mem hpassed.filed.names hmem
  refine ⟨_, s', ?_, hclaim _ [] List.countP_le_length,
    ⟨rfl, offered_ordered h, nodup_claims h, ?_⟩, ?_, ?_, hpassed⟩
  · intro fuel hfuel
    exact hclaim fuel [] hfuel
  · intro c
    exact mem_claims h
  · intro t ht due hdue
    obtain ⟨e, he, hentry⟩ := h.exists_entry ht hdue
    have hname : e.job = t.name := congrArg Claim.job hentry
    have hwhen : e.due = due := congrArg Claim.due hentry
    obtain ⟨next, hnext, hlate⟩ := hmoves e he (by rw [hwhen]; exact hdue.past) t
      (by rw [hname]; exact job?_of_mem h.names ht) hdue.live
    rw [hwhen] at hnext
    rw [hjob t ht, pass_of_due hdue hnext, advance]
    refine ⟨next, hnext, hlate, ?_, ?_⟩
    · intro hidle
      rw [if_neg (by simp [hidle])]
    · intro hrunning
      rw [if_pos hrunning]
  · intro t ht hnone
    rw [hjob t ht, pass_of_not_due hnone]

/-- At half past two a job has been running since eleven, two more have been due since noon, a
fourth has been cancelled, and a fifth is not due before eight. -/
theorem afternoon_claims :
    ∃ (s s' : Scheduler Unit) (mail scan digest : Job Unit) (noon now three : Moment), s.Filed ∧
      s.Moves now ∧ s.claimDue now = (.ok (), [⟨"mail", noon⟩, ⟨"sweep", noon⟩], s') ∧
      s'.ready = [⟨"mail", noon⟩, ⟨"sweep", noon⟩] ∧ s'.job? "mail" = some (mail.engage three) ∧
      s'.job? "scan" = some (scan.skip three) ∧ s'.job? "digest" = some digest ∧
      ⟨noon, 1, "old"⟩ ∈ s.pending ∧ ⟨noon, 1, "old"⟩ ∉ s'.pending ∧ s'.Filed := by
  let eleven : Moment := ⟨11 * Time.hour, 0⟩
  let noon : Moment := ⟨12 * Time.hour, 0⟩
  let now : Moment := ⟨14 * Time.hour + 30 * Time.minute, 0⟩
  let three : Moment := ⟨15 * Time.hour, 0⟩
  let eight : Moment := ⟨20 * Time.hour, 0⟩
  let hourly (name : String) (due : Moment) : Job Unit := .new name (.interval .hourly) () "" due
  let scan : Job Unit := { hourly "scan" eleven with state := .running }
  let old : Job Unit := { hourly "old" noon with state := .cancelled }
  let s : Scheduler Unit :=
    { workers := 1, zone := "UTC", nextNumber := 5, inbox := [], ready := [], active := []
      running := true
      jobs := [hourly "sweep" noon, hourly "mail" noon, scan, old, hourly "digest" eight]
      pending := [⟨eleven, 4, "scan"⟩, ⟨noon, 0, "mail"⟩, ⟨noon, 1, "old"⟩, ⟨noon, 3, "sweep"⟩,
        ⟨eight, 2, "digest"⟩] }
  have hlive (t : Job Unit) (ht : t ∈ s.jobs) (live : t.state ≠ .cancelled) :
      ∃ e, s.entries t.name = [e] ∧ t.nextRun = some e.due := by
    simp only [s, List.mem_cons, List.not_mem_nil, or_false] at ht
    rcases ht with rfl | rfl | rfl | rfl | rfl
    · exact ⟨_, rfl, rfl⟩
    · exact ⟨_, rfl, rfl⟩
    · exact ⟨_, rfl, rfl⟩
    · exact absurd rfl live
    · exact ⟨_, rfl, rfl⟩
  have h : s.Filed := ⟨by decide, ⟨by decide, by decide⟩, by decide, hlive, by decide⟩
  have hmoves : s.Moves now := by
    have hwhen : ∀ e ∈ s.pending, e.due.instant ≤ now.instant →
        e.due = eleven ∨ e.due = noon := by decide
    have hschedule : ∀ t ∈ s.jobs, t.schedule = .interval .hourly := by
      simp [s, hourly, scan, old, Job.new]
    intro e he hdue t job _
    rw [hschedule t (mem_of_job? job)]
    rcases hwhen e he hdue with hwhen | hwhen <;> rw [hwhen] <;> exact ⟨three, rfl, by decide⟩
  obtain ⟨claims, s', -, hclaim, ⟨rfl, -, -, -⟩, hdue, hother, hpassed⟩ :=
    claims_what_is_due h hmoves
  have hclaims : (s.offered now).map Entry.claim = [⟨"mail", noon⟩, ⟨"sweep", noon⟩] := by
    decide
  rw [hclaims] at hclaim
  have hready := hpassed.ready
  rw [hclaims] at hready
  obtain ⟨next, hnext, -, hengaged, -⟩ := hdue (hourly "mail" noon)
    (by simp [s]) noon ⟨by decide, rfl, by decide⟩
  cases hnext
  obtain ⟨next, hnext, -, -, hskipped⟩ := hdue scan (by simp [s]) eleven
    ⟨by decide, rfl, by decide⟩
  cases hnext
  have hdigest := hother (hourly "digest" eight) (by simp [s]) fun due hdue => by
    cases hdue.next
    exact absurd hdue.past (by decide)
  exact ⟨s, s', hourly "mail" noon, scan, hourly "digest" eight, noon, now, three, h, hmoves,
    hclaim, hready, hengaged rfl, hskipped rfl, hdigest, by decide,
    fun hmem => absurd (hpassed.later _ hmem) (by decide), hpassed.filed⟩

end Scheduler

namespace History

theorem enduring_ordered :
    Enduring fun h : History ε => h.scheduler.pending.Pairwise Entry.Before where
  new made := by
    unfold Scheduler.new at made
    split at made
    · cases made
    · cases made
      exact List.Pairwise.nil
  add {h} hl hp _ _ _ _ _ _ _ added := by
    obtain ⟨schedule', first, grows⟩ := Scheduler.add_grows added
    rcases grows.entered with ⟨-, hpending, -⟩ | ⟨-, due, -, hpending, -⟩
    · exact hpending ▸ hp
    · exact hpending ▸ Scheduler.insertEntry_before hp (enduring_distinct.holds hl).2.below
  start _ hp := hp
  look {h} hl hp _ e rest _ _ pending look := by
    have hrest := (List.pairwise_cons.mp (pending ▸ hp)).2
    have hbelow := (pending ▸ (enduring_distinct.holds hl).2).tail.below
    cases look with
    | dropped stale => exact hrest
    | failed => exact hrest
    | skipped next job state => exact Scheduler.reschedule_before hrest hbelow
    | claimed next job state => exact Scheduler.reschedule_before hrest hbelow
  take _ hp _ _ _ _ _ _ := hp
  finish _ hp _ _ _ _ := hp
  handle {h} hl hp m rest _ := by
    have hbelow := (enduring_distinct.holds hl).2.below
    cases m with
    | added name =>
      rcases Scheduler.handle_added_cases (s := { h.scheduler with inbox := rest }) name with
        hsame | ⟨t, hpushed⟩
      · rw [handled, hsame]
        exact hp
      · rw [handled, hpushed]
        exact Scheduler.push_before (s := { h.scheduler with inbox := rest }) hp hbelow
    | completed c =>
      cases ht : ({ h.scheduler with inbox := rest } : Scheduler ε).job? c.job with
      | none =>
        rw [handled, Scheduler.handle_unknown ht]
        exact hp
      | some t =>
        rw [handled, Scheduler.handle_completed ht]
        exact hp
  dropReady hp := hp
  cancelActive hp := hp
  dismiss hp := hp

/-- As long as no schedule fails, a scheduler that has dealt with the news of all its jobs is one of
which claiming does all that is due. -/
theorem Lifetime.filed {h : History ε} (hl : h.Lifetime) (hfaults : h.faults = [])
    (hnews : ∀ name, h.scheduler.inbox.countP (·.announces name) = 0) : h.scheduler.Filed := by
  have hscheduled := enduring_scheduled.holds hl hfaults
  obtain ⟨hnames, hnumbered⟩ := enduring_distinct.holds hl
  refine ⟨hnames, hnumbered, fun e he => ?_, fun t ht live => ?_, enduring_ordered.holds hl⟩
  · obtain ⟨t, job⟩ := Scheduler.exists_job_of_known hscheduled.known he
    exact List.mem_map.mpr ⟨t, Scheduler.mem_of_job? job, Scheduler.name_of_job? job⟩
  · have job := Scheduler.job?_of_mem hnames ht
    have honce := hscheduled.once t.name t job live
    rw [Scheduler.coming, hnews, Nat.add_zero, List.countP_eq_length_filter] at honce
    obtain ⟨e, hentries⟩ := List.length_eq_one_iff.mp honce
    have hmem : e ∈ h.scheduler.entries t.name := by simp [Scheduler.entries, hentries]
    obtain ⟨he, hname⟩ := Scheduler.mem_entries.mp hmem
    exact ⟨e, hentries, hscheduled.current e he t (hname ▸ job) live⟩

end History

end Guildhall.Job
