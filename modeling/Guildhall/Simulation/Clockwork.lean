import Guildhall.Simulation.Behaviour
import Guildhall.Job.Scheduler

/-!
# Clockwork

A scheduler whose jobs take a known time, run in virtual time: everything that can happen at an
instant happens before time moves on. The workers and the loop that claims due jobs take turns,
first come, first served.
-/

namespace Guildhall.Simulation

open Hook (Event)
open Job (Claim Run Scheduler)
open Time (Moment)

structure Plan where
  length : Nat
  result : Except Failure Value

def Plan.idle : Plan := ⟨0, .ok .null⟩

def Plan.ofValue (failure : Value → Failure) (description : Value) : Plan where
  length := micros (description.get "sleep")
  result :=
    match description.field? "raise" with
    | some what => .error (failure what)
    | none => .ok (description.get "value")

/-- The plan for run number `index`; the last one holds for all that follow. -/
def planFor (plans : List Plan) (index : Nat) : Plan :=
  (plans[min index (plans.length - 1)]?).getD .idle

inductive Incident
  | started (job : String) (due : Moment) (at_ : Nat)
  | ended (job : String) (at_ : Nat)
  | cancelled (job : String) (at_ : Nat)

def Incident.toValue : Incident → Value
  | started job due at_ => .list [.str "start", .str job, .str due.text, .count at_]
  | ended job at_ => .list [.str "end", .str job, .count at_]
  | cancelled job at_ => .list [.str "cancelled", .str job, .count at_]

inductive Actor
  | worker (index : Nat)
  | loop
  deriving DecidableEq, Repr

/-- What the loop is doing: it is not there, it waits for its turn, or it waits for a message or
an instant. -/
inductive LoopState
  | absent
  | queued
  | waiting (wake : Option Nat)
  deriving DecidableEq, Repr

structure Timer where
  run : Run
  begun : Nat
  due : Nat
  result : Except Failure Value

/-- A scheduler in virtual time: the moment at which time began, the time since then, the turns to
come, the workers that wait for a claim, the runs under way, how often each job has been started,
and what has happened. -/
structure Clockwork where
  scheduler : Scheduler (List Plan)
  origin : Moment
  now : Nat
  turns : List Actor
  free : List Nat
  loop : LoopState
  timers : List Timer
  starts : List (String × Nat)
  incidents : List Incident
  events : List Event

namespace Clockwork

def new (scheduler : Scheduler (List Plan)) (origin : Moment) : Clockwork :=
  ⟨scheduler, origin, 0, [], [], .absent, [], [], [], []⟩

def clock (c : Clockwork) : Moment := { c.origin with wall := c.origin.wall + c.now }

def note (i : Incident) (c : Clockwork) : Clockwork :=
  { c with incidents := c.incidents ++ [i] }

def announce (events : List Event) (c : Clockwork) : Clockwork :=
  { c with events := c.events ++ events }

/-- A message has arrived: the loop gets a turn if it waits. -/
def wakeLoop (c : Clockwork) : Clockwork :=
  match c.loop with
  | .waiting _ => { c with loop := .queued, turns := c.turns ++ [.loop] }
  | _ => c

/-- A claim is ready: the worker that has waited longest gets a turn. -/
def wakeWorker (c : Clockwork) : Clockwork :=
  match c.free with
  | [] => c
  | index :: rest => { c with free := rest, turns := c.turns ++ [.worker index] }

/-- Claims have been made: as many workers get a turn. -/
def wakeWorkers (claims : List Claim) (c : Clockwork) : Clockwork :=
  claims.foldl (fun c _ => c.wakeWorker) c

def endRun (t : Timer) (c : Clockwork) : Clockwork :=
  let c := c.note (.ended t.run.claim.job c.now)
  let duration := Time.secondsOf (Int.ofNat c.now - Int.ofNat t.begun)
  let c := { c with
    scheduler := c.scheduler.finish t.run duration t.result
    timers := c.timers.filter fun other => other.run.worker ≠ t.run.worker }
  c.wakeLoop

def beginRun (run : Run) (c : Clockwork) : Clockwork × Timer :=
  let job := run.claim.job
  let index := (c.starts.lookup job).getD 0
  let plans := ((c.scheduler.job? job).map (·.executor)).getD []
  let plan := planFor plans index
  let c := { c with starts := Assoc.put job (index + 1) c.starts }
  (c.note (.started job run.claim.due c.now), ⟨run, c.now, c.now + plan.length, plan.result⟩)

/-- A worker looks for claims until a run takes time or none is left; it begins at most `fuel`
runs. -/
def seek (index : Nat) : Nat → Clockwork → Clockwork
  | 0, c => c
  | fuel + 1, c =>
    match c.scheduler.take index c.clock with
    | none => { c with free := c.free ++ [index] }
    | some (run, scheduler) =>
      let (c, timer) := beginRun run { c with scheduler := scheduler }
      if timer.due = c.now then seek index fuel (c.endRun timer)
      else { c with timers := c.timers ++ [timer] }

/-- The turn of a worker: its run ends, or it was woken for a claim. -/
def workerTurn (index : Nat) (c : Clockwork) : Clockwork :=
  let c := match c.timers.find? fun t => t.run.worker == index with
    | some t => c.endRun t
    | none => c
  seek index (c.scheduler.ready.length + 1) c

/-- Claims what is due; the claims are up to the workers. -/
def claim (c : Clockwork) : Except Failure Unit × List Claim × Clockwork :=
  let (result, claims, scheduler) := c.scheduler.claimDue c.clock
  (result, claims, { c with scheduler := scheduler }.wakeWorkers claims)

/-- The turn of the loop: it deals with its inbox, claims what is due and waits. A schedule that
fails ends it. -/
def loopTurn (c : Clockwork) : Clockwork :=
  match c.loop with
  | .absent => c
  | _ =>
    let (events, scheduler) := c.scheduler.drainInbox
    let (result, _, c) := ({ c with scheduler := scheduler }.announce events).claim
    match result with
    | .error _ => { c with loop := .absent }
    | .ok () =>
      { c with loop := .waiting ((c.scheduler.delay? c.clock).map (c.now + ·)) }

def turn (c : Clockwork) : Actor → Clockwork
  | .worker index => c.workerTurn index
  | .loop => c.loopTurn

/-- All turns that are due by now, but none that they bring about. -/
def round (c : Clockwork) : Clockwork :=
  c.turns.foldl turn { c with turns := [] }

/-- Rounds until nobody has a turn, at most `fuel`. -/
def rounds : Nat → Clockwork → Clockwork
  | 0, c => c
  | fuel + 1, c => if c.turns.isEmpty then c else rounds fuel c.round

def settle (c : Clockwork) : Clockwork :=
  let s := c.scheduler
  c.rounds (2 * (s.jobs.length + s.ready.length + s.inbox.length + c.turns.length + 2))

def nextInstant? (c : Clockwork) : Option Nat :=
  let wake := match c.loop with
    | .waiting wake => wake.toList
    | _ => []
  (wake ++ c.timers.map (·.due)).min?

/-- Moves time to an instant; whose run ends or who waits for it gets a turn. -/
def moveTo (instant : Nat) (c : Clockwork) : Clockwork :=
  let done := (c.timers.filter fun t => t.due ≤ instant).map fun t => Actor.worker t.run.worker
  let c := { c with now := instant, turns := c.turns ++ done }
  match c.loop with
  | .waiting (some wake) => if wake ≤ instant then c.wakeLoop else c
  | _ => c

/-- Lets everything happen until an instant, in at most `fuel` moves of time. -/
def runUntil (limit : Nat) : Nat → Clockwork → Clockwork
  | 0, c => c
  | fuel + 1, c =>
    let c := c.settle
    match c.nextInstant? with
    | none => { c with now := limit }
    | some instant =>
      if limit < instant then { c with now := limit }
      else runUntil limit fuel (c.moveTo (max c.now instant))

/-- Lets some time pass. When it is no time at all, everybody has one turn. -/
def sleep (length : Nat) (c : Clockwork) : Clockwork :=
  if length = 0 then c.round else c.runUntil (c.now + length) (length + 2)

def add (c : Clockwork) (name : String) (schedule : Schedule) (plans : List Plan)
    (runOnLoad : Bool) (feature : String) : Except RegistrationError Clockwork := do
  let scheduler ← c.scheduler.add c.clock name schedule plans runOnLoad feature
  let c := { c with scheduler := scheduler }
  return if scheduler.running then c.wakeLoop else c

def start (c : Clockwork) : Clockwork :=
  if c.scheduler.running then c
  else
    let workers := (List.range c.scheduler.workers).map Actor.worker
    { c with
      scheduler := { c.scheduler with running := true }
      turns := c.turns ++ workers ++ [.loop]
      loop := .queued }

def cancelWorkers (c : Clockwork) : Clockwork :=
  let runs := c.timers.mergeSort fun a b => decide (a.run.worker ≤ b.run.worker)
  let c := runs.foldl (fun c t => c.note (.cancelled t.run.claim.job c.now)) c
  { c with scheduler := c.scheduler.cancelActive, timers := [], free := [], turns := [] }

/-- Stops: no more claims, claims that nobody has picked up are dropped, runs under way may end
within the grace period (if there is one), the others are cancelled, and no job runs again. -/
def stop (grace : Option Nat) (c : Clockwork) : Clockwork :=
  let c := { c with loop := .absent }.settle
  let c := { c with scheduler := c.scheduler.dropReady }
  let last := ((c.timers.map (·.due)).max?).getD c.now
  let limit := match grace with
    | some g => min last (c.now + g)
    | none => last
  let c := (c.runUntil (max c.now limit) (c.timers.length + 1)).cancelWorkers
  let (events, scheduler) := c.scheduler.retire
  { c with scheduler := scheduler }.announce events

end Clockwork

end Guildhall.Simulation
