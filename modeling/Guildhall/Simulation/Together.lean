import Guildhall.Dispatch.Dispatcher

/-!
# Messages at the same time

Many messages handled at once. Each one's outcome is its own; what depends on the others is the
order in which they end, and so the order of events. Time is counted in microseconds of pauses
and, between pauses, in rounds of the cooperative scheduler.
-/

namespace Guildhall.Simulation

open Dispatch (Cache Caller Context Dispatcher Outcome Script Stage)
open Hook (Event)
open Permission (Source)

variable {ε σ : Type}

structure Mark where
  micros : Nat
  rounds : Nat
  deriving DecidableEq, Repr

def Mark.le (a b : Mark) : Bool :=
  a.micros < b.micros || (a.micros == b.micros && a.rounds ≤ b.rounds)

def Mark.wait (m : Mark) (rounds : Nat) : Mark := { m with rounds := m.rounds + rounds }

/-- The rounds that one resolution takes: roles are read side by side, if there are any. -/
def resolutionRounds (source : Source σ) (caller : Caller) (s : σ) : Nat :=
  match caller.guild with
  | none => 0
  | some guild =>
    match (source.memberRoles guild caller.author s).1 with
    | .ok (_ :: _) => 3
    | _ => 0

def askingRounds (source : Source σ) (caller : Caller) (askers : Nat) (c : Cache) (s : σ) : Nat :=
  let resolution := if c.known.isSome then 0 else resolutionRounds source caller s
  if askers ≤ 1 then resolution
  else
    match (c.replies source caller.guild caller.author askers s).1 with
    | .ok _ :: _ => if resolution = 0 then 3 else resolution + 4
    | _ => resolution + 3

structure Ending where
  outcome : Outcome
  events : List Event
  slept : Mark
  ended : Mark

def follow (source : Source σ) (ctx : Context) :
    Script σ → Cache → Mark → Mark → σ → Except Failure Value × Mark × Mark × σ
  | .done result, _, slept, now, s => (result, slept, now, s)
  | .permissions askers next, c, slept, now, s =>
    let rounds := askingRounds source ctx.caller askers c s
    let (told, c, s) := c.replies source ctx.caller.guild ctx.caller.author askers s
    follow source ctx (next told) c slept (now.wait rounds) s
  | .pause micros next, c, _, now, s =>
    follow source ctx next c now ⟨now.micros + micros, 0⟩ s
  | .act change next, c, slept, now, s =>
    follow source ctx (next s) c slept now (change s)

def gateRounds (d : Dispatcher ε σ) (ctx : Context) (s : σ) : Nat :=
  match ctx.node.bind d.registry.definition? with
  | none => 0
  | some definition =>
    if definition.permissions.isEmpty || ctx.superuser then 0
    else resolutionRounds d.source ctx.caller s

def endingOf (d : Dispatcher ε σ) (message : String) (caller : Caller) (s : σ) : Ending × σ :=
  let origin : Mark := ⟨0, 0⟩
  match d.prepare message caller s with
  | (.settled outcome events, after) =>
    (⟨outcome, events, origin, origin.wait (gateRounds d outcome.context s)⟩, after)
  | (.ready invocation, after) =>
    let started := origin.wait (gateRounds d invocation.context s)
    let (result, slept, ended, final) :=
      follow d.source invocation.context (d.script invocation) invocation.cache origin started after
    let (outcome, events) := Dispatcher.conclude invocation result
    (⟨outcome, events, slept, ended⟩, final)

/-- Carries out all messages; the order among them does not matter to any of them. -/
def endings (d : Dispatcher ε σ) : List (String × Caller) → σ → List Ending × σ
  | [], s => ([], s)
  | (message, caller) :: rest, s =>
    let (e, s) := endingOf d message caller s
    let (es, s) := endings d rest s
    (e :: es, s)

/-! Timers wait in a binary heap. Those that go off together leave it in an order that is not always
the order in which they were set. -/

/-- The place of a leaf reached from `place` by always taking the right child if there is one,
and the heap with the items on the way moved up. -/
def sink {α : Type} : Nat → Nat → List α → Nat × List α
  | 0, place, heap => (place, heap)
  | fuel + 1, place, heap =>
    let child := 2 * place + 1
    if heap.length ≤ child then (place, heap)
    else
      let child := if child + 1 < heap.length then child + 1 else child
      match heap[child]? with
      | some item => sink fuel child (heap.set place item)
      | none => (place, heap)

def heapOrder {α : Type} : Nat → List α → List α
  | 0, _ => []
  | _ + 1, [] => []
  | fuel + 1, first :: rest =>
    match rest.getLast? with
    | none => [first]
    | some last =>
      let heap := last :: rest.dropLast
      let (leaf, heap) := sink heap.length 0 heap
      first :: heapOrder fuel (heap.set leaf last)

/-- The endings whose last pause ends at the same time, grouped in the order of time. -/
def groups : List Ending → List (List Ending)
  | [] => []
  | e :: rest =>
    match groups rest with
    | (next :: more) :: others =>
      if next.ended.micros = e.ended.micros then (e :: next :: more) :: others
      else [e] :: (next :: more) :: others
    | others => [e] :: others

def inOrder (es : List Ending) : List Ending :=
  let byTime := es.mergeSort fun a b => decide (a.ended.micros ≤ b.ended.micros)
  (groups byTime).flatMap fun group =>
    let woken :=
      if group.all (·.ended.micros == 0) then group
      else heapOrder group.length (group.mergeSort fun a b => a.slept.le b.slept)
    woken.mergeSort fun a b => a.ended.le b.ended

end Guildhall.Simulation
