import Guildhall.Hook.Event
import Guildhall.Job.Job

/-!
# Job scheduler

A pool of workers runs jobs when they are due. Due runs are claimed from the pending entries and
wait in a ready queue for a free worker. What workers finish, and jobs added while the scheduler
runs, arrive in an inbox.
-/

namespace Guildhall

open Time
open Hook (Event)

namespace Job

structure Entry where
  due : Moment
  number : Nat
  job : String
  deriving DecidableEq, Repr

structure Claim where
  job : String
  due : Moment
  deriving DecidableEq, Repr

structure Run where
  worker : Nat
  claim : Claim
  startedAt : Moment
  deriving DecidableEq, Repr

structure Completion where
  job : String
  due : Moment
  startedAt : Moment
  duration : Double
  result : Except Failure Value

/-- What subscribers are told about a completed run. -/
def Completion.event (c : Completion) : Event :=
  match c.result with
  | .ok v => .taskCompleted c.job c.due c.duration v
  | .error cause => .taskFailed c.job c.due c.duration c.job cause

inductive Message
  | added (job : String)
  | completed (c : Completion)

/-- How long stopping waits for runs under way unless told otherwise, in microseconds. -/
def defaultGrace : Nat := 10000000

/-- The scheduler: the number of its workers, the zone for schedules without one, the jobs in the
order in which they were added, the entries in the order in which they fall due, the number of the
next entry, the inbox, the claims that no worker has picked up, the runs under way, and whether it
has been started. -/
structure Scheduler (ε : Type) where
  workers : Nat
  zone : String
  jobs : List (Job ε)
  pending : List Entry
  nextNumber : Nat
  inbox : List Message
  ready : List Claim
  active : List Run
  running : Bool

namespace Scheduler

variable {ε : Type}

/-- The number of workers unless told otherwise. -/
def defaultWorkers : Int := 4

/-- A scheduler without jobs; it needs at least one worker. -/
def new (workers : Int) (zone : String) : Except Failure (Scheduler ε) :=
  if workers < 1 then .error (.invalidValue "Scheduler needs at least one worker")
  else .ok ⟨workers.toNat, zone, [], [], 0, [], [], [], false⟩

def job? (s : Scheduler ε) (name : String) : Option (Job ε) :=
  s.jobs.find? fun t => t.name == name

def modify (s : Scheduler ε) (name : String) (f : Job ε → Job ε) : Scheduler ε :=
  { s with jobs := s.jobs.map fun t => if t.name = name then f t else t }

/-- An entry among others, after all that fall due no later. -/
def insertEntry (e : Entry) : List Entry → List Entry
  | [] => [e]
  | other :: rest =>
    if other.due.instant ≤ e.due.instant then other :: insertEntry e rest else e :: other :: rest

/-- Enters the next run of a job. -/
def push (s : Scheduler ε) (t : Job ε) : Scheduler ε :=
  match t.nextRun with
  | none => s
  | some due =>
    { s with
      pending := insertEntry ⟨due, s.nextNumber, t.name⟩ s.pending
      nextNumber := s.nextNumber + 1 }

/-- Adds a job that has its first run at once or when its schedule says. A running scheduler is
told by a message. -/
def add (s : Scheduler ε) (now : Moment) (name : String) (schedule : Schedule) (executor : ε)
    (runOnLoad : Bool) (feature : String) : Except RegistrationError (Scheduler ε) :=
  if (s.job? name).isSome then .error (.duplicateTask name)
  else
    let first : Except Failure (Job ε) := do
      let schedule ← schedule.useDefaultZone (.str s.zone)
      let nextRun ← if runOnLoad then pure now else schedule.firstRun now
      return .new name schedule executor feature nextRun
    match first with
    | .error e => .error (.failed e)
    | .ok t =>
      let s := { s with jobs := s.jobs ++ [t] }
      .ok (if s.running then { s with inbox := s.inbox ++ [.added name] } else s.push t)

/-- Looks at the first entry, which is due: enters the job's next run and claims this one,
unless the job is still running. Entries that no longer say when their job runs are dropped. -/
def claimFirst (s : Scheduler ε) (now : Moment) (e : Entry) (rest : List Entry) :
    Except Failure (Option Claim) × Scheduler ε :=
  let s := { s with pending := rest }
  match s.job? e.job with
  | none => (.ok none, s)
  | some t =>
    if t.state = .cancelled || t.nextRun.map Moment.instant ≠ some e.due.instant then (.ok none, s)
    else
      match t.schedule.nextAfter e.due now with
      | .error failure => (.error failure, s)
      | .ok next =>
        let t := { t with nextRun := some next }
        let claim : Claim := ⟨e.job, e.due⟩
        if t.state = .running then
          let t := { t with skippedTicks := t.skippedTicks + 1 }
          (.ok none, (s.modify e.job fun _ => t).push t)
        else
          let t := { t with state := .running }
          let s := (s.modify e.job fun _ => t).push t
          (.ok (some claim), { s with ready := s.ready ++ [claim] })

/-- Claims what is due, looking at no more than `fuel` entries. -/
def claimUpTo (now : Moment) :
    Nat → Scheduler ε → List Claim → Except Failure Unit × List Claim × Scheduler ε
  | 0, s, claims => (.ok (), claims, s)
  | fuel + 1, s, claims =>
    match s.pending with
    | [] => (.ok (), claims, s)
    | e :: rest =>
      if now.instant < e.due.instant then (.ok (), claims, s)
      else
        match s.claimFirst now e rest with
        | (.error failure, s) => (.error failure, claims, s)
        | (.ok none, s) => claimUpTo now fuel s claims
        | (.ok (some claim), s) => claimUpTo now fuel s (claims ++ [claim])

/-- Claims everything that is due. Every entry is looked at once, because the next run of a job
is later than now. -/
def claimDue (s : Scheduler ε) (now : Moment) :
    Except Failure Unit × List Claim × Scheduler ε :=
  claimUpTo now s.pending.length s []

/-- How long until the next entry falls due, in microseconds. -/
def delay? (s : Scheduler ε) (now : Moment) : Option Nat :=
  s.pending.head?.map fun e => (e.due.instant - now.instant).toNat

/-- A worker picks up the oldest claim. -/
def take (s : Scheduler ε) (worker : Nat) (now : Moment) : Option (Run × Scheduler ε) :=
  match s.ready with
  | [] => none
  | claim :: rest =>
    let run : Run := ⟨worker, claim, now⟩
    some (run, { s with ready := rest, active := s.active ++ [run] })

/-- A run ends by itself; its worker reports it. -/
def finish (s : Scheduler ε) (run : Run) (duration : Double) (result : Except Failure Value) :
    Scheduler ε :=
  let report : Completion := ⟨run.claim.job, run.claim.due, run.startedAt, duration, result⟩
  { s with
    active := s.active.filter fun other => other.worker ≠ run.worker
    inbox := s.inbox ++ [.completed report] }

def record (c : Completion) (t : Job ε) : Job ε :=
  { t with
    lastRun := some c.startedAt
    lastDuration := some c.duration
    runCount := t.runCount + 1
    state := if t.state = .running then .idle else t.state
    failureCount := match c.result with
      | .ok _ => t.failureCount
      | .error _ => t.failureCount + 1
    lastError := match c.result with
      | .ok _ => none
      | .error cause => some cause.message }

/-- Records a completed run and tells subscribers; only known jobs have runs. -/
def complete (s : Scheduler ε) (c : Completion) :
    Except Failure (List Event × Scheduler ε) :=
  match s.job? c.job with
  | none => .error (.missingKey c.job)
  | some _ => .ok ([c.event], s.modify c.job (record c))

def handle (s : Scheduler ε) : Message → List Event × Scheduler ε
  | .added name =>
    match s.job? name with
    | some t => ([], if t.state = .cancelled then s else s.push t)
    | none => ([], s)
  | .completed c =>
    match s.complete c with
    | .ok done => done
    | .error _ => ([], s)

def handleAll : List Message → Scheduler ε → List Event × Scheduler ε
  | [], s => ([], s)
  | m :: rest, s =>
    let (events, s) := s.handle m
    let (more, s) := handleAll rest s
    (events ++ more, s)

def drainInbox (s : Scheduler ε) : List Event × Scheduler ε :=
  handleAll s.inbox { s with inbox := [] }

def dropReady (s : Scheduler ε) : Scheduler ε := { s with ready := [] }

/-- Breaks off the runs under way. -/
def cancelActive (s : Scheduler ε) : Scheduler ε := { s with active := [] }

/-- The end of stopping: the inbox is dealt with, and no job runs again. -/
def retire (s : Scheduler ε) : List Event × Scheduler ε :=
  let (events, s) := s.drainInbox
  (events, { s with
    jobs := s.jobs.map fun t => { t with state := .cancelled }
    running := false })

def listed (s : Scheduler ε) : List (Job ε) := s.jobs.mergeSort Job.listedBefore

end Scheduler

end Job

end Guildhall
