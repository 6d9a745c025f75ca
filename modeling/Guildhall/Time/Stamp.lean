import Guildhall.Time.Duration

/-!
# Stamps

Dates and times as documents hold them: a day of the calendar, or a wall-clock time with or without
a distance from universal time.
-/

namespace Guildhall.Time

inductive Stamp
  | date (d : Date)
  | time (wall : Int) (offset : Option Int)
  deriving DecidableEq, Repr

namespace Stamp

/-- Whether two stamps are the same. Times with an offset are when they are at the same instant. -/
def same : Stamp → Stamp → Bool
  | time wall (some offset), time wall' (some offset') => wall - offset == wall' - offset'
  | a, b => a == b

def text : Stamp → String
  | date d => d.text
  | time wall offset => wallText " " wall ++ (offset.map offsetText).getD ""

def zoneLiteral (offset : Int) : String :=
  if offset = 0 then "datetime.timezone.utc"
  else s!"datetime.timezone({durationLiteral offset})"

/-- The stamp as the call that makes it. Seconds and microseconds are left out at the end when they
are zero. -/
def literal : Stamp → String
  | date d => s!"datetime.date({d.year}, {d.month}, {d.day})"
  | time wall offset =>
    let d := dateOfWall wall
    let t := timeOfWall wall
    let clock := [t / hour, t / minute % 60, t / second % 60, t % second]
    let clock := clock.take 2 ++ ((clock.drop 2).reverse.dropWhile (· = 0)).reverse
    let parts := [Int.ofNat d.year, Int.ofNat d.month, Int.ofNat d.day] ++ clock
    let zone := match offset with
      | none => ""
      | some offset => ", tzinfo=" ++ zoneLiteral offset
    "datetime.datetime(" ++ ", ".intercalate (parts.map toString) ++ zone ++ ")"

end Stamp

end Guildhall.Time
