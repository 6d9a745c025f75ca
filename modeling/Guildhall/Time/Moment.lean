import Guildhall.Number.Double
import Guildhall.Time.Calendar

/-!
# Moments

Wall-clock times in microseconds from the start of year 1, and moments: wall-clock times with a
distance from universal time.
-/

namespace Guildhall.Time

def second : Int := 1000000

def minute : Int := 60 * second

def hour : Int := 60 * minute

def day : Int := 24 * hour

def wallLimit : Int := Int.ofNat dayLimit * day

def wallInRange (wall : Int) : Bool :=
  0 ≤ wall && wall < wallLimit

def dateOfWall (wall : Int) : Date :=
  .ofNumber (wall / day).toNat

def timeOfWall (wall : Int) : Int := wall % day

def wallOfDate (d : Date) : Int := Int.ofNat d.number * day

structure Moment where
  wall : Int
  offset : Int
  deriving DecidableEq, Repr, Inhabited

def Moment.instant (m : Moment) : Int := m.wall - m.offset

def Moment.utc (instant : Int) : Moment := ⟨instant, 0⟩

def twoDigits (n : Int) : String := Double.padded 2 n.toNat

/-- A time of day with seconds, and with microseconds if there are any. -/
def clockText (t : Int) : String :=
  let base := s!"{twoDigits (t / hour)}:{twoDigits (t / minute % 60)}:{twoDigits (t / second % 60)}"
  if t % second = 0 then base else base ++ "." ++ Double.padded 6 (t % second).toNat

def Date.text (d : Date) : String :=
  s!"{Double.padded 4 d.year}-{Double.padded 2 d.month}-{Double.padded 2 d.day}"

/-- A distance from universal time: hours and minutes, and seconds if there are any. -/
def offsetText (offset : Int) : String :=
  let sign := if offset < 0 then "-" else "+"
  let size := Int.ofNat offset.natAbs
  let base := s!"{sign}{twoDigits (size / hour)}:{twoDigits (size / minute % 60)}"
  if size % minute = 0 then base
  else if size % second = 0 then s!"{base}:{twoDigits (size / second % 60)}"
  else s!"{base}:{twoDigits (size / second % 60)}." ++ Double.padded 6 (size % second).toNat

/-- A wall-clock time with a given mark between date and time. -/
def wallText (mark : String) (wall : Int) : String :=
  (dateOfWall wall).text ++ mark ++ clockText (timeOfWall wall)

def Moment.text (m : Moment) : String :=
  wallText "T" m.wall ++ offsetText m.offset

def Moment.shortText (m : Moment) : String :=
  wallText " " (m.wall / second * second)

def digitsValue? (cs : List Char) : Option Nat :=
  if cs.isEmpty || !cs.all (fun c => '0' ≤ c && c ≤ '9') then none
  else some (cs.foldl (fun n c => n * 10 + (c.toNat - 48)) 0)

/-- Hours and minutes, as microseconds, from the five characters `HH:MM`. -/
def readHoursMinutes : List Char → Option Int
  | [a, b, ':', c, d] => do
    let h ← digitsValue? [a, b]
    let m ← digitsValue? [c, d]
    return Int.ofNat h * hour + Int.ofNat m * minute
  | _ => none

/-- An offset `Z` or `±HH:MM`. -/
def readOffset : List Char → Option Int
  | ['Z'] => some 0
  | '+' :: cs => readHoursMinutes cs
  | '-' :: cs => (readHoursMinutes cs).map (-·)
  | _ => none

def fractionMicros (digits : List Char) : Option Int := do
  let six := (digits ++ List.replicate 6 '0').take 6
  return Int.ofNat (← digitsValue? six)

/-- The moment written as `YYYY-MM-DDTHH:MM:SS[.ffffff]` and an offset. -/
def Moment.ofText? (text : String) : Option Moment :=
  match text.toList with
  | y1 :: y2 :: y3 :: y4 :: '-' :: m1 :: m2 :: '-' :: d1 :: d2 :: _ :: rest => do
    let year ← digitsValue? [y1, y2, y3, y4]
    let month ← digitsValue? [m1, m2]
    let dayOfMonth ← digitsValue? [d1, d2]
    let hm ← readHoursMinutes (rest.take 5)
    match rest.drop 5 with
    | ':' :: s1 :: s2 :: more => do
      let seconds ← digitsValue? [s1, s2]
      let (fraction, tail) := match more with
        | '.' :: cs => (cs.takeWhile Char.isDigit, cs.dropWhile Char.isDigit)
        | cs => ([], cs)
      let micros ← if fraction.isEmpty then some 0 else fractionMicros fraction
      let offset ← readOffset tail
      return ⟨wallOfDate ⟨year, month, dayOfMonth⟩ + hm + Int.ofNat seconds * second + micros,
        offset⟩
    | _ => none
  | _ => none

end Guildhall.Time
