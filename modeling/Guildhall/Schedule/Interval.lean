import Guildhall.Failure
import Guildhall.Time.Duration
import Guildhall.Value

/-!
# Interval schedules

Runs at a fixed distance, anchored to the first run.
-/

namespace Guildhall.Schedule

open Time

structure Interval where
  length : Int
  positive : 0 < length
  deriving DecidableEq, Repr

namespace Interval

def ofDuration (length : Int) : Except Failure Interval :=
  if h : 0 < length then .ok ⟨length, h⟩
  else .error (.invalidValue s!"Interval must be positive, got {durationText length}")

def inRange (length : Int) : Except Failure Int :=
  if durationInRange length then .ok length else .error .outOfRange

/-- The length of a part of a duration, in units of `unit` microseconds: the exact microseconds
and a rest that is rounded only when all parts are known. -/
def partLength (unit : Nat) (amount : Value) : Except Failure (Int × Double) :=
  match amount with
  | .atom (.bool b) => .ok (if b then Int.ofNat unit else 0, .zero)
  | .atom (.int i) => .ok (i * Int.ofNat unit, .zero)
  | .atom (.float x) =>
    match x with
    | .notANumber => .error (.invalidValue "cannot convert float NaN to integer")
    | .infinite _ => .error .outOfRange
    | .finite _ _ _ =>
      let rest := x.fractionPart.scaleNat unit
      .ok (x.truncate * Int.ofNat unit + rest.truncate, rest.fractionPart)
  | _ => .error .wrongType

/-- The whole microseconds nearest to `base + rest`, ties to the even one. -/
def roundRest (base : Int) (rest : Double) : Int :=
  match rest with
  | .finite negative mantissa exponent =>
    let (num, den) := Double.signedFraction negative mantissa exponent
    let total := base * Int.ofNat den + num
    let size := Int.ofNat (Double.divideEven total.natAbs den)
    if total < 0 then -size else size
  | _ => base

def sumParts : List (Nat × Value) → Int → Double → Except Failure Int
  | [], base, rest => .ok (roundRest base rest)
  | (unit, amount) :: more, base, rest => do
    let (whole, fraction) ← partLength unit amount
    sumParts more (base + whole) (rest.add fraction)

/-- The units of the parts of a duration, in the order in which they are added up. -/
def units : List (String × Nat) :=
  [("microseconds", 1), ("milliseconds", 1000), ("seconds", 1000000), ("minutes", 60000000),
    ("hours", 3600000000), ("days", 86400000000), ("weeks", 604800000000)]

def ofParts (amounts : String → Option Value) : Except Failure Interval := do
  let parts := units.filterMap fun (name, unit) => (amounts name).map (unit, ·)
  ofDuration (← inRange (← sumParts parts 0 .zero))

def ofSeconds (seconds : Value) : Except Failure Interval :=
  ofParts fun name => if name = "seconds" then some seconds else none

def minutely : Interval := ⟨minute, by decide⟩

def hourly : Interval := ⟨hour, by decide⟩

def daily : Interval := ⟨day, by decide⟩

/-- The moment some time later, within the years that can be represented. -/
def later (m : Moment) (micros : Int) : Except Failure Moment :=
  if wallInRange (m.wall + micros) then .ok { m with wall := m.wall + micros }
  else .error .outOfRange

def firstRun (i : Interval) (now : Moment) : Except Failure Moment :=
  later now i.length

/-- The number of intervals from one run to the next: the least that leads past `now`, at least
one. -/
def steps (i : Interval) (previous now : Moment) : Int :=
  max 1 ((now.instant - previous.instant) / i.length + 1)

/-- The first run after `now` on the grid through `previous`, and later than it. -/
def nextAfter (i : Interval) (previous now : Moment) : Except Failure Moment := do
  later previous (← inRange (i.steps previous now * i.length))

def describe (i : Interval) : String := "every " ++ durationText i.length

def literal (i : Interval) : String := s!"IntervalSchedule({durationLiteral i.length})"

end Interval

end Guildhall.Schedule
