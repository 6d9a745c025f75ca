import Guildhall.Time.Moment

/-!
# Durations

Lengths of time in microseconds, and how they are written.
-/

namespace Guildhall.Time

def durationLimit : Int := 999999999

def durationInRange (d : Int) : Bool :=
  -durationLimit ≤ d / day && d / day ≤ durationLimit

/-- A duration for people: days if there are any, then hours, minutes and seconds. -/
def durationText (d : Int) : String :=
  let days := d / day
  let t := d % day
  let clock := s!"{t / hour}:{twoDigits (t / minute % 60)}:{twoDigits (t / second % 60)}"
  let clock := if t % second = 0 then clock
    else clock ++ "." ++ Double.padded 6 (t % second).toNat
  if days = 0 then clock
  else
    let plural := if days.natAbs = 1 then "" else "s"
    s!"{days} day{plural}, {clock}"

def durationLiteral (d : Int) : String :=
  let part (name : String) (n : Int) : List String := if n = 0 then [] else [s!"{name}={n}"]
  let parts := part "days" (d / day) ++ part "seconds" (d % day / second) ++
    part "microseconds" (d % second)
  let inside := if parts.isEmpty then "0" else ", ".intercalate parts
  s!"datetime.timedelta({inside})"

/-- The microseconds of a number of seconds: the whole seconds exactly, the rest rounded half to
even; none when the duration cannot be represented. -/
def durationOfSeconds (seconds : Double) : Option Int :=
  match seconds with
  | .finite _ _ _ =>
    let rest := (seconds.fractionPart.scaleNat 1000000).timesRounded 1
    let total := seconds.truncate * second + rest
    if durationInRange total then some total else none
  | _ => none

def secondsOf (micros : Int) : Double :=
  Double.ofFraction (micros < 0) micros.natAbs 1000000

end Guildhall.Time
