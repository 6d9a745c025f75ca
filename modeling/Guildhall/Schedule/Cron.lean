import Guildhall.Schedule.At
import Guildhall.Schedule.Cron.Search

/-!
# Cron schedules

Runs at the times that an expression matches on the clocks of a zone.
-/

namespace Guildhall.Schedule

open Time

structure CronSchedule where
  expression : String
  fields : Cron.Fields
  zone : Zone
  explicitZone : Bool
  deriving DecidableEq, Repr

namespace Cron

/-- The instants at which the clocks show a time in seconds. -/
def instantsAt (z : Zone) (seconds : Nat) : List Int :=
  z.instants (Int.ofNat seconds * second)

/-- The first minute from a time on that the clocks do show, at most `fuel` minutes on. -/
def firstExisting (z : Zone) : Nat → Nat → Nat
  | 0, seconds => seconds
  | fuel + 1, seconds =>
    if (instantsAt z seconds).isEmpty then firstExisting z fuel (seconds + 60) else seconds

/-- The first match from a time on that the clocks do show, in at most `fuel` matches. -/
def existingMatch (f : Fields) (z : Zone) : Nat → Nat → Except Failure (Option Nat)
  | 0, _ => .ok none
  | fuel + 1, seconds => do
    match ← firstMatch f seconds with
    | none => return none
    | some t =>
      if (instantsAt z t).isEmpty then existingMatch f z fuel (afterWall f t) else return some t

/-- The first of the instants of a wall-clock time that lies after `after`, or the last one. -/
def laterOf (after : Int) : List Int → Option Int
  | [] => none
  | [i] => some i
  | i :: rest => if after < i then some i else laterOf after rest

/-- The instant of a match. A match that the clocks skip is moved to the end of the gap, or left
out for another one if any hour matches or the gap ends before `after`. -/
def settle (f : Fields) (z : Zone) (after : Int) (t : Nat) : Except Failure (Option Int) :=
  let instants := instantsAt z t
  if !instants.isEmpty then .ok (laterOf after instants)
  else
    let moved := laterOf after (instantsAt z (firstExisting z 1440 t))
    match moved with
    | some i =>
      if isAny f.hour || i ≤ after then do
        match ← existingMatch f z 5000 (afterWall f t) with
        | none => return none
        | some t => return laterOf after (instantsAt z t)
      else .ok (some i)
    | none => .ok none

/-- The first match after a wall-clock time, if it is an instant between two others. -/
def between (f : Fields) (z : Zone) (wall : Int) (after before : Int) :
    Except Failure (Option Int) := do
  match ← firstMatch f (afterWall f (wall / second).toNat) with
  | none => return none
  | some t =>
    match laterOf after (instantsAt z t) with
    | none => return none
    | some i => return if after < i && i < before then some i else none

/-- The first match after an instant. When the clocks are changed on the way, the match may come
earlier than the one found on the old clocks. -/
def nextOf (f : Fields) (z : Zone) (after : Int) : Except Failure (Option Int) := do
  let wall := z.wallAt after
  match ← firstMatch f (afterWall f (wall / second).toNat) with
  | none => return none
  | some t =>
    match ← settle f z after t with
    | none => return none
    | some i =>
      let change := z.offsetAt i - z.offsetAt after
      if change = 0 then return some i
      else
        match ← between f z (wall + change) after i with
        | some earlier => return some earlier
        | none => return some i

def earlier : Option Int → Option Int → Option Int
  | none, b => b
  | a, none => a
  | some a, some b => some (min a b)

/-- The first match after an instant. If both day and weekday are restricted, one of them is
enough. -/
def next (f : Fields) (z : Zone) (after : Int) : Except Failure (Option Int) :=
  if !isAny f.day && !isAny f.weekday then do
    let byDay ← nextOf { f with weekday := [.any] } z after
    let byWeekday ← nextOf { f with day := [.any] } z after
    return earlier byDay byWeekday
  else nextOf f z after

end Cron

namespace CronSchedule

def make (expression zone : Value) : Except Failure CronSchedule :=
  match expression with
  | .atom (.str s) =>
    match Cron.parse s with
    | none => .error (.invalidValue ("Invalid cron expression: " ++ s))
    | some fields => do
      let (zone, explicit) ← readZone zone
      return ⟨s, fields, zone, explicit⟩
  | _ => .error .wrongShape

def useDefaultZone (c : CronSchedule) (zone : Value) : Except Failure CronSchedule :=
  if c.explicitZone then .ok c
  else do
    let (zone, _) ← readZone zone
    return { c with zone := zone }

def nextMatch (c : CronSchedule) (after : Int) : Except Failure Moment := do
  if !(wallInRange after && wallInRange (c.zone.wallAt after)) then .error .outOfRange
  match ← Cron.next c.fields c.zone after with
  | none => .error .noMatch
  | some i => if wallInRange i then return .utc i else .error .outOfRange

def firstRun (c : CronSchedule) (now : Moment) : Except Failure Moment := c.nextMatch now.instant

/-- The first run after both the previous one and now. -/
def nextAfter (c : CronSchedule) (previous now : Moment) : Except Failure Moment :=
  c.nextMatch (max previous.instant now.instant)

def describe (c : CronSchedule) : String := s!"cron '{c.expression}' ({c.zone.key})"

def literal (c : CronSchedule) : String := s!"CronSchedule({Text.quoted c.expression})"

end CronSchedule

end Guildhall.Schedule
