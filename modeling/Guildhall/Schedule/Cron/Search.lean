import Guildhall.Failure
import Guildhall.Schedule.Cron.Field
import Guildhall.Time.Calendar

/-!
# Matching wall-clock times

The search for the next wall-clock time that an expression matches. Times are in seconds from the
start of year 1. The search moves from the largest field that does not match to that field's
next listed value, until all fields match or too many years have passed.
-/

namespace Guildhall.Schedule.Cron

open Time

def daySeconds : Nat := 86400

/-- The distance from `x` to the next listed value, going round at `round` if there is one; values
beyond that are not there this time. A listed last day is `last`. -/
def distance (x last : Nat) (round : Option Nat) (items : List Item) : Option Nat :=
  let values := items.filterMap fun
    | .any => none
    | .last => some last
    | .value n => some n
  match values.find? fun v => x ≤ v && round.all (v ≤ ·) with
  | some v => some (v - x)
  | none =>
    match round, values with
    | some n, first :: _ => some (first + n - x)
    | _, _ => none

/-- What a field asks of a time that does not match yet. -/
inductive Move
  | stay
  | to (seconds : Nat)
  | stop
  deriving DecidableEq, Repr

def startOfDay (number : Nat) : Nat := number * daySeconds

def startOfMonth (year month : Nat) : Nat :=
  let m := month - 1
  startOfDay (Date.mk (year + m / 12) (m % 12 + 1) 1).number

def moveYear (f : Fields) (d : Date) : Move :=
  match f.year with
  | none => .stay
  | some items =>
    if isAny items then .stay
    else
      match distance d.year 0 none items with
      | none => .stop
      | some 0 => .stay
      | some n => .to (startOfMonth (d.year + n) 1)

def moveMonth (f : Fields) (d : Date) : Move :=
  if isAny f.month then .stay
  else
    match distance d.month 0 (some 12) f.month with
    | none => .stay
    | some 0 => .stay
    | some n => .to (startOfMonth d.year (d.month + n))

def moveDay (f : Fields) (d : Date) : Move :=
  let length := daysInMonth d.year d.month
  if isAny f.day || (f.day.contains .last && d.day = length) then .stay
  else
    match distance d.day length (some length) f.day with
    | none => .stay
    | some 0 => .stay
    | some n => .to (startOfDay (d.number + n))

def daysOfWeekday (year month weekday : Nat) : List Nat :=
  ((List.range (daysInMonth year month)).map (· + 1)).filter fun day =>
    ((Date.mk year month day).number + 1) % 7 == weekday

def ordinalDay? (year month weekday : Nat) : Ordinal → Option Nat
  | .last => (daysOfWeekday year month weekday).getLast?
  | .nth n => (daysOfWeekday year month weekday)[n - 1]?

/-- The move to the next weekday of the month that counts. -/
def moveOrdinal (f : Fields) (d : Date) : Move :=
  let candidates := (f.ordinals.filterMap fun (weekday, ordinal) =>
    ordinalDay? d.year d.month weekday ordinal).filter (d.day ≤ ·)
  match candidates with
  | [] => .to (startOfMonth d.year (d.month + 1))
  | first :: rest =>
    let next := rest.foldl min first
    if next = d.day then .stay else .to (startOfDay (d.number + (next - d.day)))

def moveWeekday (f : Fields) (d : Date) : Move :=
  if isAny f.weekday then .stay
  else
    match distance ((d.number + 1) % 7) 0 (some 7) f.weekday with
    | none => .stay
    | some 0 => .stay
    | some n => .to (startOfDay (d.number + n))

/-- The move to the next listed hour, minute or second, with `unit` the seconds of one. -/
def moveClock (items : List Item) (time unit round : Nat) : Move :=
  if isAny items then .stay
  else
    match distance (time / unit % round) 0 (some round) items with
    | none => .stay
    | some 0 => .stay
    | some n => .to ((time / unit + n) * unit)

def firstMove : List Move → Move
  | [] => .stay
  | .stay :: rest => firstMove rest
  | move :: _ => move

def move (f : Fields) (time : Nat) : Move :=
  let d := Date.ofNumber (time / daySeconds)
  firstMove [
    moveYear f d, moveMonth f d, moveDay f d,
    if f.ordinals.isEmpty then moveWeekday f d else moveOrdinal f d,
    moveClock f.hour time 3600 24, moveClock f.minute time 60 60,
    match f.second with
    | some items => moveClock items time 1 60
    | none => .stay]

/-- The first match from a time on and below a limit. Times past year 9999 are out of range. -/
def searchFrom (f : Fields) (limit time : Nat) : Except Failure (Option Nat) :=
  match move f time with
  | .stay => .ok (some time)
  | .stop => .ok none
  | .to later =>
    if startOfDay dayLimit ≤ later then .error .outOfRange
    else if _h : time < later ∧ later < limit then searchFrom f limit later
    else .ok none
termination_by limit - time
decreasing_by omega

def searchYears : Nat := 50

/-- The first match from a time on, within the years that a search covers. -/
def firstMatch (f : Fields) (time : Nat) : Except Failure (Option Nat) :=
  let year := (Date.ofNumber (time / daySeconds)).year
  if startOfDay dayLimit ≤ time then .error .outOfRange
  else searchFrom f (startOfMonth (year + searchYears + 1) 1) time

/-- Where the search for a match after a wall-clock time begins: at the next minute, or at the
next second if the expression has seconds. -/
def afterWall (f : Fields) (seconds : Nat) : Nat :=
  match f.second with
  | some _ => seconds + 1
  | none => (seconds / 60 + 1) * 60

end Guildhall.Schedule.Cron
