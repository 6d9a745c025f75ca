import Guildhall.Hook.Event

/-!
# Hook bus

Fan-out of events to subscribers. Every subscription has a queue of its own and a worker that
hands the queued payloads to the callback, so a slow or failing subscriber delays nobody.
Closing the bus takes three steps, because workers end one by one after they are cancelled:
`cancelAttached`, `endWorker` for each of them, and `detach`.
-/

namespace Guildhall.Hook

/-- What a delivery worker does: it waits for a payload, or its callback has had one since an
instant. -/
inductive Work (π : Type)
  | waiting
  | delivering (payload : π) (since : Nat)
  deriving DecidableEq, Repr

structure Worker (π : Type) where
  id : Nat
  work : Work π
  cancelled : Bool
  deriving DecidableEq, Repr

/-- A subscriber to one kind of event. `attached` is the worker that the subscription knows of,
`workers` are those that have not ended, and `spawned` counts all there ever were. -/
structure Subscription (π κ : Type) where
  kind : Kind
  order : Nat
  name : String
  callback : κ
  delivered : Nat
  failures : Nat
  dropped : Nat
  queue : List π
  attached : Option Nat
  workers : List (Worker π)
  spawned : Nat

namespace Subscription

variable {π κ : Type}

def new (kind : Kind) (order : Nat) (name : String) (callback : κ) : Subscription π κ :=
  ⟨kind, order, name, callback, 0, 0, 0, [], none, [], 0⟩

def worker? (s : Subscription π κ) (id : Nat) : Option (Worker π) :=
  s.workers.find? fun w => w.id == id

/-- Whether the subscription knows of a worker that has not ended. -/
def isServed (s : Subscription π κ) : Bool :=
  (s.attached.bind s.worker?).isSome

/-- Gives the subscription a worker unless it has one. -/
def spawn (s : Subscription π κ) : Subscription π κ :=
  if s.isServed then s
  else { s with
    attached := some s.spawned
    workers := s.workers ++ [⟨s.spawned, .waiting, false⟩]
    spawned := s.spawned + 1 }

/-- Queues a payload; a bus that is not running keeps at most `backlog` of them. -/
def offer (running : Bool) (backlog : Int) (payload : π) (s : Subscription π κ) :
    Subscription π κ :=
  if !running && backlog ≤ s.queue.length then { s with dropped := s.dropped + 1 }
  else { s with queue := s.queue ++ [payload] }

def setWork (s : Subscription π κ) (id : Nat) (work : Work π) : Subscription π κ :=
  { s with workers := s.workers.map fun w => if w.id = id then { w with work := work } else w }

/-- A waiting worker takes the oldest payload of the queue. -/
def take (s : Subscription π κ) (id now : Nat) : Subscription π κ :=
  match s.worker? id, s.queue with
  | some ⟨_, .waiting, false⟩, payload :: rest =>
    { s.setWork id (.delivering payload now) with queue := rest }
  | _, _ => s

/-- A callback returns, or fails, on the payload its worker gave it. -/
def finish (s : Subscription π κ) (id : Nat) (succeeded : Bool) : Subscription π κ :=
  match s.worker? id with
  | some ⟨_, .delivering _ _, false⟩ =>
    let s := s.setWork id .waiting
    if succeeded then { s with delivered := s.delivered + 1 }
    else { s with failures := s.failures + 1 }
  | _ => s

def cancelAttached (s : Subscription π κ) : Subscription π κ :=
  { s with workers := s.workers.map fun w =>
      if s.attached = some w.id then { w with cancelled := true } else w }

/-- A cancelled worker ends; the delivery it was in is lost. -/
def endWorker (s : Subscription π κ) (id : Nat) : Subscription π κ :=
  { s with workers := s.workers.filter fun w => !(w.id = id && w.cancelled) }

def endCancelled (s : Subscription π κ) : Subscription π κ :=
  { s with workers := s.workers.filter fun w => !w.cancelled }

def detach (s : Subscription π κ) : Subscription π κ := { s with attached := none }

end Subscription

/-- The subscriptions in the order in which they were made, and whether payloads are being
delivered. Before that at most `backlog` payloads wait for each subscriber. -/
structure Bus (π κ : Type) where
  backlog : Int
  running : Bool
  subscriptions : List (Subscription π κ)

namespace Bus

variable {π κ : Type}

def new (backlog : Int) : Bus π κ := ⟨backlog, false, []⟩

/-- The number of payloads that may wait for a subscriber unless told otherwise. -/
def defaultBacklog : Int := 1000

/-- Adds a subscriber; on a running bus it has a worker at once. -/
def subscribe (b : Bus π κ) (kind : Kind) (name : String) (callback : κ) : Bus π κ :=
  let s := Subscription.new kind b.subscriptions.length name callback
  { b with subscriptions := b.subscriptions ++ [if b.running then s.spawn else s] }

def listed (b : Bus π κ) : Option Kind → List (Subscription π κ)
  | none => b.subscriptions
  | some kind => b.subscriptions.filter fun s => s.kind == kind

def mapAll (f : Subscription π κ → Subscription π κ) (b : Bus π κ) : Bus π κ :=
  { b with subscriptions := b.subscriptions.map f }

def modify (order : Nat) (f : Subscription π κ → Subscription π κ) (b : Bus π κ) : Bus π κ :=
  b.mapAll fun s => if s.order = order then f s else s

/-- Offers a payload to every subscriber of its kind. -/
def publish (b : Bus π κ) (kind : Kind) (payload : π) : Bus π κ :=
  b.mapAll fun s => if s.kind = kind then s.offer b.running b.backlog payload else s

/-- The number of subscribers that a payload of a kind reaches. -/
def reach (b : Bus π κ) (kind : Kind) : Nat := (b.listed (some kind)).length

/-- Starts delivery; nothing changes when it is running. -/
def start (b : Bus π κ) : Bus π κ :=
  if b.running then b else { b.mapAll Subscription.spawn with running := true }

def drained (b : Bus π κ) : Bool :=
  b.subscriptions.all fun s => s.queue.isEmpty && s.workers.all fun w =>
    match w.work with
    | .waiting => true
    | .delivering _ _ => false

/-- First step of closing: delivery stops and all attached workers are cancelled. -/
def cancelAttached (b : Bus π κ) : Bus π κ :=
  { b.mapAll Subscription.cancelAttached with running := false }

def endWorker (b : Bus π κ) (order id : Nat) : Bus π κ :=
  b.modify order fun s => s.endWorker id

/-- Last step of closing: the subscriptions forget their workers. -/
def detach (b : Bus π κ) : Bus π κ := b.mapAll Subscription.detach

/-- Closes the bus with nothing happening in between. -/
def shut (b : Bus π κ) : Bus π κ :=
  (b.cancelAttached.mapAll Subscription.endCancelled).detach

end Bus

def Subscription.toValue {π κ : Type} (s : Subscription π κ) : Value :=
  .record [("kind", .str s.kind.name), ("order", .count s.order), ("name", .str s.name),
    ("delivered", .count s.delivered), ("failures", .count s.failures),
    ("dropped", .count s.dropped), ("pending", .count s.queue.length)]

/-- The name of a subscriber that was given none: where its callback is defined, and as what. -/
def callbackName (place name : String) : String :=
  if place.isEmpty then name else place ++ "." ++ name

end Guildhall.Hook
