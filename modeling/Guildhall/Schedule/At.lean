import Guildhall.Failure
import Guildhall.Text.Blank
import Guildhall.Text.Case
import Guildhall.Time.TimeOfDay
import Guildhall.Time.Zone
import Guildhall.Value

/-!
# Times of day

Runs at one or more times of day in a zone, perhaps only on some days of the week.
-/

namespace Guildhall.Schedule

open Time

/-- The days of the week by name; Monday is 0. -/
def weekdayNames : List String := ["mon", "tue", "wed", "thu", "fri", "sat", "sun"]

/-- A schedule by times of day. Without `explicitZone` the zone may still be replaced by a
default. -/
structure At where
  times : List TimeOfDay
  weekdays : Option (List Nat)
  zone : Zone
  explicitZone : Bool
  deriving DecidableEq, Repr

/-- The zone that a key names, as far as failures go. -/
def zoneOfKey (key : String) : Except Failure Zone :=
  match Zone.ofKey key with
  | .ok z => .ok z
  | .error (.unknown _) => .error .unknownZone
  | .error fault => .error (.invalidValue fault.message)

def readZone : Value → Except Failure (Zone × Bool)
  | .atom .null => .ok (.universal, false)
  | .atom (.str key) => (zoneOfKey key).map (·, true)
  | _ => .error .wrongType

inductive TimeInput
  | time (t : TimeOfDay)
  | text (s : String)
  | other

def TimeInput.read : TimeInput → Except Failure TimeOfDay
  | time t => .ok { t with offset := none }
  | text s =>
    match TimeOfDay.ofText? (Text.trim s) with
    | some t => .ok t
    | none => .error (.invalidValue ("Invalid time of day: " ++ Text.quoted s))
  | other => .error .wrongShape

/-- The times without repetitions, the first of equal ones kept. -/
def distinctTimes : List TimeOfDay → List TimeOfDay
  | [] => []
  | t :: rest => t :: (distinctTimes rest).filter fun other => !t.same other

/-- The times in order. Times with and without a zone have no order among them. -/
def sortTimes (times : List TimeOfDay) : Except Failure (List TimeOfDay) :=
  let times := distinctTimes times
  if times.any (·.offset.isSome) && times.any (·.offset.isNone) then .error .wrongType
  else .ok (times.mergeSort TimeOfDay.le)

/-- The weekday that a value means: a number from 0, or a name of which three letters count. -/
def readWeekday : Value → Except Failure Nat
  | .atom (.bool b) => .ok (if b then 1 else 0)
  | .atom (.int i) =>
    if 0 ≤ i && i ≤ 6 then .ok i.toNat
    else .error (.invalidValue s!"Weekday must be 0 (Monday) to 6 (Sunday), got {i}")
  | .atom (.str s) =>
    let key := String.ofList ((Text.lower (Text.trim s)).toList.take 3)
    match weekdayNames.findIdx? (· == key) with
    | some i => .ok i
    | none => .error (.invalidValue ("Unknown weekday: " ++ Text.quoted s))
  | _ => .error .wrongShape

/-- The weekdays that a value lists, in order and without repetitions; none for no restriction. -/
def readWeekdays (v : Value) : Except Failure (Option (List Nat)) :=
  if !v.isTrue then .ok none
  else do
    let items ← match v with
      | .list items => .ok items
      | .map entries => .ok (entries.map fun entry => .atom entry.1)
      | .atom (.str s) => .ok (s.toList.map fun c => .str (String.ofList [c]))
      | .atom _ => .error .wrongType
    let days ← items.mapM readWeekday
    return some ((List.range 7).filter (days.contains ·))

namespace At

/-- The schedule of times, weekdays and a zone. -/
def make (times : List TimeInput) (weekdays zone : Value) : Except Failure At := do
  let times ← sortTimes (← times.mapM TimeInput.read)
  if times.isEmpty then .error (.invalidValue "At least one time of day is required")
  let weekdays ← readWeekdays weekdays
  let (zone, explicit) ← readZone zone
  return ⟨times, weekdays, zone, explicit⟩

def midnight (zone : Value) : Except Failure At :=
  make [.time ⟨0, none⟩] .null zone

def useDefaultZone (a : At) (zone : Value) : Except Failure At :=
  if a.explicitZone then .ok a
  else do
    let (zone, _) ← readZone zone
    return { a with zone := zone }

/-- Whether the schedule runs on a day, given by its number. -/
def runsOn (a : At) (number : Nat) : Bool :=
  match a.weekdays with
  | none => true
  | some days => days.contains (weekdayOf number)

def firstOfDay (a : At) (number : Nat) (after : Int) : Option Int :=
  (a.times.map fun t => a.zone.instantOf (Int.ofNat number * day + t.micros)).find? (after < ·)

/-- The first run after an instant on the given number of days from one on. -/
def search (a : At) (after : Int) : Nat → Nat → Except Failure Moment
  | 0, _ => .error (.runtime s!"No matching time found after {(Moment.utc after).text}")
  | days + 1, number =>
    if dayLimit ≤ number then .error .outOfRange
    else if !a.runsOn number then a.search after days (number + 1)
    else
      match a.firstOfDay number after with
      | some instant =>
        if wallInRange instant then .ok (.utc instant) else .error .outOfRange
      | none => a.search after days (number + 1)

def nextMatch (a : At) (after : Int) : Except Failure Moment :=
  let wall := a.zone.wallAt after
  if wallInRange after && wallInRange wall then a.search after 8 (wall / day).toNat
  else .error .outOfRange

def firstRun (a : At) (now : Moment) : Except Failure Moment := a.nextMatch now.instant

/-- The first run after both the previous one and now. -/
def nextAfter (a : At) (previous now : Moment) : Except Failure Moment :=
  a.nextMatch (max previous.instant now.instant)

def describe (a : At) : String :=
  let times := ", ".intercalate (a.times.map TimeOfDay.text)
  match a.weekdays with
  | none => s!"daily at {times} ({a.zone.key})"
  | some days =>
    let names := ", ".intercalate (days.map fun d => weekdayNames.getD d "")
    s!"at {times} on {names} ({a.zone.key})"

def literal (a : At) : String := s!"AtSchedule({Text.quoted a.describe})"

end At

end Guildhall.Schedule
