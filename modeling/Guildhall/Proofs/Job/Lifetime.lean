import Guildhall.Proofs.Job.History

/-!
# Stopping and starting again

In the lifetime of a scheduler there are stops. A stop drops the claims that nobody has picked up,
breaks off the runs under way, deals with the inbox and cancels every job. New jobs may be added to
a stopped scheduler, and it may be started again.
-/

namespace Guildhall.Job

open Time (Moment)
open Hook (Event)

variable {ε : Type}

namespace Scheduler

variable {s : Scheduler ε} {name : String}

/-- Dealing with a message neither reads the inbox nor changes it. -/
theorem handle_inbox (s : Scheduler ε) (m : Message) (inbox : List Message) :
    { s with inbox := inbox }.handle m =
      ((s.handle m).1, { (s.handle m).2 with inbox := inbox }) := by
  have hjob (name : String) :
      ({ s with inbox := inbox } : Scheduler ε).job? name = s.job? name := rfl
  cases m with
  | added name =>
    simp only [handle, hjob]
    cases s.job? name with
    | none => rfl
    | some t =>
      by_cases hstate : t.state = .cancelled
      · simp [hstate]
      · simp only [if_neg hstate, push]
        split <;> rfl
  | completed c =>
    simp only [handle, complete, hjob]
    cases s.job? c.job <;> rfl

def dismiss (s : Scheduler ε) : Scheduler ε :=
  { s with jobs := s.jobs.map fun t => { t with state := .cancelled }, running := false }

theorem job?_dismiss :
    s.dismiss.job? name = (s.job? name).map fun t => { t with state := .cancelled } := by
  rw [job?, job?, dismiss, List.find?_map]
  rfl

theorem names_dismiss : s.dismiss.jobs.map (·.name) = s.jobs.map (·.name) := by
  simp [dismiss, Function.comp_def]

end Scheduler

namespace History

def drained (h : History ε) : History ε :=
  let (events, s) := h.scheduler.drainInbox
  { h with scheduler := s, events := h.events ++ events }

def retired (h : History ε) : History ε :=
  let (events, s) := h.scheduler.retire
  { h with scheduler := s, events := h.events ++ events }

theorem retired_eq (h : History ε) :
    h.retired = { h.drained with scheduler := h.drained.scheduler.dismiss } := rfl

theorem drained_nil {h : History ε} (hinbox : h.scheduler.inbox = []) : h.drained = h := by
  have hempty : { h.scheduler with inbox := [] } = h.scheduler := by rw [← hinbox]
  simp only [drained, Scheduler.drainInbox, hempty]
  simp only [hinbox, Scheduler.handleAll, List.append_nil]

theorem drained_cons {h : History ε} {m : Message} {rest : List Message}
    (hinbox : h.scheduler.inbox = m :: rest) : h.drained = (h.handled m rest).drained := by
  have hrest : ({ h.scheduler with inbox := rest }.handle m).2.inbox = rest :=
    (Scheduler.handle_apart m).1
  have hfirst := Scheduler.handle_inbox { h.scheduler with inbox := rest } m []
  simp only [drained, handled, Scheduler.drainInbox, hinbox, hrest, Scheduler.handleAll]
  dsimp only at hfirst
  rw [hfirst, List.append_assoc]

/-- A history that comes about from a new scheduler, stops included. The stages of a stop are
steps of their own: other things may happen in between. -/
inductive Lifetime : History ε → Prop
  | new {workers : Int} {zone : String} {s : Scheduler ε}
      (made : Scheduler.new workers zone = .ok s) : Lifetime (begin s)
  | step {h h' : History ε} (before : Lifetime h) (step : Step h h') : Lifetime h'
  | dropReady {h : History ε} (before : Lifetime h) :
      Lifetime { h with scheduler := h.scheduler.dropReady }
  | cancelActive {h : History ε} (before : Lifetime h) :
      Lifetime { h with scheduler := h.scheduler.cancelActive }
  | retire {h : History ε} (before : Lifetime h) : Lifetime h.retired

theorem Reachable.lifetime {h : History ε} (hr : h.Reachable) : h.Lifetime := by
  induction hr with
  | new made => exact .new made
  | step before step ih => exact ih.step step

theorem Kept.drain {Q P : History ε → Prop} (kept : Kept Q P)
    (closed : ∀ {h h' : History ε}, Q h → Step h h' → Q h') {h : History ε} (hq : Q h) (hp : P h) :
    P h.drained := by
  cases hinbox : h.scheduler.inbox with
  | nil => rwa [drained_nil hinbox]
  | cons m rest =>
    have hhandled : (h.handled m rest).scheduler.inbox = rest := (Scheduler.handle_apart m).1
    rw [drained_cons hinbox]
    exact kept.drain closed (closed hq (.handle hinbox)) (kept.handle hq hp hinbox)
termination_by h.scheduler.inbox.length
decreasing_by simp [hhandled, hinbox]

structure Enduring (P : History ε → Prop) : Prop extends Kept Lifetime P where
  new {workers : Int} {zone : String} {s : Scheduler ε}
    (made : Scheduler.new workers zone = .ok s) : P (begin s)
  dropReady {h : History ε} (hp : P h) : P { h with scheduler := h.scheduler.dropReady }
  cancelActive {h : History ε} (hp : P h) : P { h with scheduler := h.scheduler.cancelActive }
  dismiss {h : History ε} (hp : P h) : P { h with scheduler := h.scheduler.dismiss }

theorem Enduring.holds {P : History ε → Prop} (enduring : Enduring P) {h : History ε}
    (hl : h.Lifetime) : P h := by
  induction hl with
  | new made => exact enduring.new made
  | step before step ih => exact enduring.toKept.step .step before ih step
  | dropReady before ih => exact enduring.dropReady ih
  | cancelActive before ih => exact enduring.cancelActive ih
  | retire before ih =>
    rw [retired_eq]
    exact enduring.dismiss (enduring.toKept.drain .step before ih)

end History

end Guildhall.Job
