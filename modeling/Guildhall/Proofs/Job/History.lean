import Guildhall.Proofs.Job.Scheduler

/-!
# Histories of a scheduler

A scheduler in use takes one step after another: a job is added, the scheduler starts, what is due
is claimed, a worker picks up a claim or reports a run, a message is dealt with. A history is the
scheduler after some steps together with a record of what went through it. The record is only
there to be reasoned about; no step depends on it.
-/

namespace Guildhall.Job

open Time (Moment)
open Hook (Event)

variable {ε : Type}

def claimsOf : Except Failure (Option Claim) → List Claim
  | .ok claim => claim.toList
  | .error _ => []

def faultsOf {α : Type} : Except Failure α → List Failure
  | .ok _ => []
  | .error failure => [failure]

/-- The entries that claiming takes off, looking at no more than `fuel` of them. -/
def Scheduler.passed (now : Moment) : Nat → Scheduler ε → List Entry
  | 0, _ => []
  | fuel + 1, s =>
    match s.pending with
    | [] => []
    | e :: rest =>
      if now.instant < e.due.instant then []
      else
        match s.claimFirst now e rest with
        | (.error _, _) => [e]
        | (.ok _, s) => e :: s.passed now fuel

/-- A scheduler, the entries that have been taken off as due, the claims in the order in which they
were made, the events that subscribers were sent, and the failures of schedules while claiming. -/
structure History (ε : Type) where
  scheduler : Scheduler ε
  popped : List Entry
  claimed : List Claim
  events : List Event
  faults : List Failure

namespace History

def begin (s : Scheduler ε) : History ε := ⟨s, [], [], [], []⟩

def looked (h : History ε) (e : Entry) (result : Except Failure (Option Claim))
    (s : Scheduler ε) : History ε :=
  ⟨s, h.popped ++ [e], h.claimed ++ claimsOf result, h.events, h.faults ++ faultsOf result⟩

/-- The history after claiming what is due, looking at no more than `fuel` entries. -/
def claim (h : History ε) (now : Moment) (fuel : Nat) : History ε :=
  let (result, claims, s) := h.scheduler.claimUpTo now fuel []
  ⟨s, h.popped ++ h.scheduler.passed now fuel, h.claimed ++ claims, h.events,
    h.faults ++ faultsOf result⟩

/-- The history after a message has been taken from the inbox and dealt with. -/
def handled (h : History ε) (m : Message) (rest : List Message) : History ε :=
  let (events, s) := { h.scheduler with inbox := rest }.handle m
  { h with scheduler := s, events := h.events ++ events }

/-- One step. Jobs are added at any time. Claiming may stop after any number of entries, so
`Scheduler.claimDue` is one way to take the step. Any number of workers pick up claims, each one at
a time, and end their runs in any order, with a value or a failure. -/
inductive Step : History ε → History ε → Prop
  | add {h : History ε} {now : Moment} {name : String} {schedule : Schedule} {executor : ε}
      {runOnLoad : Bool} {feature : String} {s : Scheduler ε}
      (added : h.scheduler.add now name schedule executor runOnLoad feature = .ok s) :
      Step h { h with scheduler := s }
  | start {h : History ε} : Step h { h with scheduler := { h.scheduler with running := true } }
  | claim {h : History ε} (now : Moment) (fuel : Nat) : Step h (h.claim now fuel)
  | take {h : History ε} {worker : Nat} {now : Moment} {run : Run} {s : Scheduler ε}
      (free : ∀ other ∈ h.scheduler.active, other.worker ≠ worker)
      (taken : h.scheduler.take worker now = some (run, s)) :
      Step h { h with scheduler := s }
  | finish {h : History ε} {run : Run} (active : run ∈ h.scheduler.active) (duration : Double)
      (result : Except Failure Value) :
      Step h { h with scheduler := h.scheduler.finish run duration result }
  | handle {h : History ε} {m : Message} {rest : List Message}
      (inbox : h.scheduler.inbox = m :: rest) : Step h (h.handled m rest)

inductive Reachable : History ε → Prop
  | new {workers : Int} {zone : String} {s : Scheduler ε}
      (made : Scheduler.new workers zone = .ok s) : Reachable (begin s)
  | step {h h' : History ε} (before : Reachable h) (step : Step h h') : Reachable h'

section Claiming

variable {h : History ε} {now : Moment} {e : Entry} {rest : List Entry}

theorem claimUpTo_claims (fuel : Nat) (s : Scheduler ε) (claims : List Claim) :
    s.claimUpTo now fuel claims =
      ((s.claimUpTo now fuel []).1, claims ++ (s.claimUpTo now fuel []).2.1,
        (s.claimUpTo now fuel []).2.2) := by
  induction fuel generalizing s claims with
  | zero => simp [Scheduler.claimUpTo]
  | succ fuel ih =>
    simp only [Scheduler.claimUpTo]
    cases s.pending with
    | nil => simp
    | cons e rest =>
      dsimp only
      split
      · simp
      · split
        · simp
        · exact ih _ _
        · rw [List.nil_append, ih, ih _ [_], List.append_assoc]

@[simp]
theorem claim_zero : h.claim now 0 = h := by
  simp [claim, Scheduler.claimUpTo, Scheduler.passed, faultsOf]

theorem claim_idle (fuel : Nat)
    (hidle : ∀ e rest, h.scheduler.pending = e :: rest → now.instant < e.due.instant) :
    h.claim now fuel = h := by
  cases fuel with
  | zero => exact claim_zero
  | succ fuel =>
    cases hpending : h.scheduler.pending with
    | nil => simp [claim, Scheduler.claimUpTo, Scheduler.passed, hpending, faultsOf]
    | cons e rest =>
      simp [claim, Scheduler.claimUpTo, Scheduler.passed, hpending, hidle e rest hpending,
        faultsOf]

theorem claim_error {failure : Failure} {s : Scheduler ε} (fuel : Nat)
    (hpending : h.scheduler.pending = e :: rest) (hdue : ¬ now.instant < e.due.instant)
    (hfirst : h.scheduler.claimFirst now e rest = (.error failure, s)) :
    h.claim now (fuel + 1) = h.looked e (.error failure) s := by
  simp [claim, Scheduler.claimUpTo, Scheduler.passed, hpending, if_neg hdue, hfirst, looked,
    claimsOf, faultsOf]

theorem claim_ok {found : Option Claim} {s : Scheduler ε} (fuel : Nat)
    (hpending : h.scheduler.pending = e :: rest) (hdue : ¬ now.instant < e.due.instant)
    (hfirst : h.scheduler.claimFirst now e rest = (.ok found, s)) :
    h.claim now (fuel + 1) = (h.looked e (.ok found) s).claim now fuel := by
  rw [claim, Scheduler.claimUpTo_ok fuel [] hpending hdue hfirst, claimUpTo_claims]
  simp [claim, Scheduler.passed, hpending, hdue, hfirst, looked, claimsOf, faultsOf]

theorem claim_one (hpending : h.scheduler.pending = e :: rest)
    (hdue : ¬ now.instant < e.due.instant) :
    h.claim now 1 =
      h.looked e (h.scheduler.claimFirst now e rest).1 (h.scheduler.claimFirst now e rest).2 := by
  cases hfirst : h.scheduler.claimFirst now e rest with
  | mk result s =>
    cases result with
    | error failure => exact claim_error 0 hpending hdue hfirst
    | ok found => rw [claim_ok 0 hpending hdue hfirst, claim_zero]

/-- What holds at first, and still holds after each look at an entry that is due, holds in the end,
wherever claiming stops. -/
theorem claim_induction {P : History ε → Prop} (fuel : Nat) (hp : P h)
    (look : ∀ {h : History ε} {e : Entry} {rest : List Entry}, P h →
      h.scheduler.pending = e :: rest → ¬ now.instant < e.due.instant →
        P (h.looked e (h.scheduler.claimFirst now e rest).1
          (h.scheduler.claimFirst now e rest).2)) : P (h.claim now fuel) := by
  induction fuel generalizing h with
  | zero => rwa [claim_zero]
  | succ fuel ih =>
    by_cases hdue : ∃ e rest, h.scheduler.pending = e :: rest ∧ ¬ now.instant < e.due.instant
    · obtain ⟨e, rest, hpending, hdue⟩ := hdue
      have hlooked := look hp hpending hdue
      cases hfirst : h.scheduler.claimFirst now e rest with
      | mk result s =>
        rw [hfirst] at hlooked
        cases result with
        | error failure => rwa [claim_error fuel hpending hdue hfirst]
        | ok found =>
          rw [claim_ok fuel hpending hdue hfirst]
          exact ih hlooked
    · rw [claim_idle]
      · exact hp
      · intro e rest hpending
        by_contra hnot
        exact hdue ⟨e, rest, hpending, hnot⟩

end Claiming

structure Kept (Q P : History ε → Prop) : Prop where
  add {h : History ε} (hq : Q h) (hp : P h) {now : Moment} {name : String}
    {schedule : Schedule} {executor : ε} {runOnLoad : Bool} {feature : String} {s : Scheduler ε}
    (added : h.scheduler.add now name schedule executor runOnLoad feature = .ok s) :
    P { h with scheduler := s }
  start {h : History ε} (hq : Q h) (hp : P h) :
    P { h with scheduler := { h.scheduler with running := true } }
  look {h : History ε} (hq : Q h) (hp : P h) {now : Moment} {e : Entry}
    {rest : List Entry} {result : Except Failure (Option Claim)} {s : Scheduler ε}
    (pending : h.scheduler.pending = e :: rest) (look : h.scheduler.Look now e rest result s) :
    P (h.looked e result s)
  take {h : History ε} (hq : Q h) (hp : P h) {claim : Claim} {rest : List Claim}
    {worker : Nat} {now : Moment} (free : ∀ other ∈ h.scheduler.active, other.worker ≠ worker)
    (ready : h.scheduler.ready = claim :: rest) :
    P { h with scheduler :=
      { h.scheduler with ready := rest, active := h.scheduler.active ++ [⟨worker, claim, now⟩] } }
  finish {h : History ε} (hq : Q h) (hp : P h) {run : Run}
    (active : run ∈ h.scheduler.active) (duration : Double) (result : Except Failure Value) :
    P { h with scheduler := h.scheduler.finish run duration result }
  handle {h : History ε} (hq : Q h) (hp : P h) {m : Message} {rest : List Message}
    (inbox : h.scheduler.inbox = m :: rest) : P (h.handled m rest)

namespace Kept

variable {Q P : History ε → Prop}

theorem claim (kept : Kept Q P) (closed : ∀ {h h' : History ε}, Q h → Step h h' → Q h')
    (now : Moment) (fuel : Nat) {h : History ε} (hq : Q h) (hp : P h) : P (h.claim now fuel) := by
  have hboth : Q (h.claim now fuel) ∧ P (h.claim now fuel) := by
    refine claim_induction (P := fun h => Q h ∧ P h) fuel ⟨hq, hp⟩ ?_
    rintro h e rest ⟨hq, hp⟩ hpending hdue
    have hlook := h.scheduler.claimFirst_look now e rest
    exact ⟨claim_one hpending hdue ▸ closed hq (.claim now 1), kept.look hq hp hpending hlook⟩
  exact hboth.2

theorem step (kept : Kept Q P) (closed : ∀ {h h' : History ε}, Q h → Step h h' → Q h')
    {h h' : History ε} (hq : Q h) (hp : P h) (step : Step h h') : P h' := by
  cases step with
  | add added => exact kept.add hq hp added
  | start => exact kept.start hq hp
  | claim now fuel => exact kept.claim closed now fuel hq hp
  | take free taken =>
    unfold Scheduler.take at taken
    split at taken
    case h_1 => cases taken
    case h_2 claim rest hready =>
      cases taken
      exact kept.take hq hp free hready
  | finish active duration result => exact kept.finish hq hp active duration result
  | handle inbox => exact kept.handle hq hp inbox

end Kept

structure Preserved (P : History ε → Prop) : Prop extends Kept Reachable P where
  new {workers : Int} {zone : String} {s : Scheduler ε}
    (made : Scheduler.new workers zone = .ok s) : P (begin s)

theorem Preserved.holds {P : History ε → Prop} (preserved : Preserved P) {h : History ε}
    (hr : h.Reachable) : P h := by
  induction hr with
  | new made => exact preserved.new made
  | step before step ih => exact preserved.toKept.step .step before ih step

/-- A job that runs every hour: its first run failed after a skipped tick, the second is claimed. -/
theorem exists_reachable :
    ∃ (h : History Unit) (t : Job Unit), h.Reachable ∧ h.faults = [] ∧ t ∈ h.scheduler.jobs ∧
      t.state = .running ∧ t.runCount = 1 ∧ t.failureCount = 1 ∧ t.skippedTicks = 1 := by
  let noon : Moment := ⟨12 * Time.hour, 0⟩
  let one : Moment := ⟨13 * Time.hour, 0⟩
  let two : Moment := ⟨14 * Time.hour, 0⟩
  let empty : Scheduler Unit := ⟨1, "UTC", [], [], 0, [], [], [], false⟩
  let t : Job Unit := .new "sweep" (.interval .hourly) () "" noon
  let s : Scheduler Unit :=
    { empty with jobs := [t], pending := [⟨noon, 0, "sweep"⟩], nextNumber := 1 }
  have hnew : (begin empty).Reachable := .new (show Scheduler.new 1 "UTC" = .ok empty from rfl)
  have hadd : empty.add noon "sweep" (.interval .hourly) () true "" = .ok s := rfl
  have hclaimed := (hnew.step (.add hadd)).step (.claim noon 1)
  let claimed : History Unit := (begin s).claim noon 1
  let run : Run := ⟨0, ⟨"sweep", noon⟩, noon⟩
  let taken : Scheduler Unit := { claimed.scheduler with ready := [], active := [run] }
  have hfree : ∀ other ∈ claimed.scheduler.active, other.worker ≠ 0 := by
    rw [show claimed.scheduler.active = [] from rfl]
    simp
  have htake : claimed.scheduler.take 0 noon = some (run, taken) := rfl
  have hskipped := (hclaimed.step (.take hfree htake)).step (.claim one 1)
  have hactive : run ∈ (claim { claimed with scheduler := taken } one 1).scheduler.active :=
    List.mem_singleton_self run
  have hfailed := hskipped.step (.finish hactive .zero (.error (.invalidValue "disk full")))
  have hagain := (hfailed.step (.handle rfl)).step (.claim two 1)
  exact ⟨_, _, hagain, rfl, List.mem_singleton_self _, rfl, rfl, rfl, rfl⟩

end History

end Guildhall.Job
