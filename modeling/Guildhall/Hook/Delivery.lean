import Guildhall.Hook.Bus

/-!
# Delivery in time

A bus whose callbacks take a known time. Subscriptions do not wait for one another, so each runs
along a time line of its own.
-/

namespace Guildhall.Hook

inductive Ending
  | succeeds
  | fails
  | hangs
  deriving DecidableEq, Repr

structure Callback (π : Type) where
  delay : Nat
  ending : π → Ending

namespace Callback

variable {π : Type}

/-- A callback that takes no time and always succeeds. -/
def prompt : Callback π := ⟨0, fun _ => .succeeds⟩

/-- When a callback that began at an instant ends; none when it hangs. -/
def due (c : Callback π) (payload : π) (since : Nat) : Option Nat :=
  match c.ending payload with
  | .hangs => none
  | _ => some (since + c.delay)

end Callback

namespace Subscription

variable {π : Type}

def server? (s : Subscription π (Callback π)) : Option (Worker π) :=
  s.attached.bind s.worker?

/-- Lets the worker go on until an instant, at most `fuel` steps, from `clock` on. Yields the
payloads on which the callback succeeded, latest first. -/
def serve (limit : Nat) :
    Nat → Nat → Subscription π (Callback π) → List π → Subscription π (Callback π) × List π
  | 0, _, s, done => (s, done)
  | fuel + 1, clock, s, done =>
    match s.server? with
    | some ⟨id, .waiting, _⟩ =>
      if s.queue.isEmpty then (s, done) else serve limit fuel clock (s.take id clock) done
    | some ⟨id, .delivering payload since, _⟩ =>
      match s.callback.due payload since with
      | none => (s, done)
      | some due =>
        if limit < due then (s, done)
        else
          let ok := s.callback.ending payload == .succeeds
          serve limit fuel (max clock due) (s.finish id ok) (if ok then payload :: done else done)
    | none => (s, done)

/-- Lets the worker go on until an instant, and the payloads on which the callback succeeded. -/
def advance (now limit : Nat) (s : Subscription π (Callback π)) :
    Subscription π (Callback π) × List π :=
  let (s, done) := s.serve limit (2 * s.queue.length + 2) now []
  (s, done.reverse)

/-- When all payloads so far will have been delivered, if ever. -/
def drainedAt (now : Nat) (s : Subscription π (Callback π)) : Option Nat := do
  let free ← match s.server? with
    | some ⟨_, .delivering payload since, _⟩ => s.callback.due payload since
    | _ => some now
  s.queue.foldlM (fun clock payload => s.callback.due payload clock) free

end Subscription

namespace Bus

variable {π : Type}

/-- Lets all workers go on from one instant until another, and what each subscriber took. -/
def advance (now limit : Nat) (b : Bus π (Callback π)) :
    Bus π (Callback π) × List (Nat × π) :=
  let moved := b.subscriptions.map fun s => s.advance now limit
  ({ b with subscriptions := moved.map (·.1) },
    moved.flatMap fun (s, taken) => taken.map fun payload => (s.order, payload))

/-- When all payloads so far will have been delivered, if ever. -/
def drainedAt (now : Nat) (b : Bus π (Callback π)) : Option Nat :=
  b.subscriptions.foldlM (fun latest s => (s.drainedAt now).map (max latest)) now

/-- When a bus that is being closed stops to wait: when everything is delivered, or at the
deadline if there is one. -/
def closesAt (now : Nat) (deadline : Option Nat) (b : Bus π (Callback π)) : Nat :=
  match b.drainedAt now, deadline with
  | some t, some d => min t d
  | some t, none => t
  | none, some d => d
  | none, none => now

end Bus

structure Timeline (π : Type) where
  bus : Bus π (Callback π)
  now : Nat
  taken : List (Nat × π)

namespace Timeline

variable {π : Type}

/-- A bus without subscribers, at the beginning of time. -/
def new (backlog : Int) : Timeline π := ⟨.new backlog, 0, []⟩

/-- Lets time pass until an instant. -/
def advance (limit : Nat) (t : Timeline π) : Timeline π :=
  let (bus, taken) := t.bus.advance t.now limit
  ⟨bus, limit, t.taken ++ taken⟩

/-- Waits until everything is delivered. -/
def drain (t : Timeline π) : Timeline π :=
  if t.bus.running then t.advance (t.bus.closesAt t.now none) else t

/-- Waits until everything is delivered, at most for a while, and closes the bus. -/
def close (patience : Option Nat) (t : Timeline π) : Timeline π :=
  if t.bus.running then
    let t := t.advance (t.bus.closesAt t.now (patience.map (t.now + ·)))
    { t with bus := t.bus.shut }
  else t

def takenBy (t : Timeline π) (order : Nat) : List π :=
  t.taken.filterMap fun (taker, payload) => if taker = order then some payload else none

end Timeline

/-- How long closing waits unless told otherwise, in microseconds. -/
def defaultPatience : Nat := 5000000

end Guildhall.Hook
