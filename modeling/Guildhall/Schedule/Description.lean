import Guildhall.Schedule.Schedule

/-!
# Described schedules

Schedules read from descriptions: a type and what that type needs.
-/

namespace Guildhall.Schedule

open Time

/-- A time of day given by its hour, minute, second and microsecond. -/
def clockTime? : Value → Option (Except Failure TimeOfDay)
  | .map [(.str "time", .list parts)] =>
    let part (i : Nat) : Int := match parts[i]? with
      | some (.atom (.int n)) => n
      | _ => 0
    some ((TimeOfDay.ofParts (part 0) (part 1) (part 2) (part 3)).mapError .invalidValue)
  | _ => none

def timeInput (v : Value) : Except Failure TimeInput :=
  match clockTime? v, v with
  | some t, _ => t.map .time
  | none, .atom (.str s) => .ok (.text s)
  | none, _ => .ok .other

/-- One time or several; the keys of a mapping are its times. -/
def timesInput (v : Value) : Except Failure (List TimeInput) :=
  match clockTime? v, v with
  | some t, _ => t.map fun t => [.time t]
  | none, .atom (.str s) => .ok [.text s]
  | none, .list xs => xs.mapM timeInput
  | none, .map entries => .ok (entries.map fun entry =>
      match entry.1 with
      | .str s => .text s
      | _ => .other)
  | none, .atom _ => .error .wrongType

def ofValue (description : Value) : Except Failure Schedule :=
  let zone := description.get "tz"
  match (description.get "type").text with
  | "interval" =>
    match description.field? "delta" with
    | some parts => (Interval.ofParts parts.field?).map .interval
    | none => (Interval.ofSeconds (description.get "seconds")).map .interval
  | "minutely" => .ok (.interval .minutely)
  | "hourly" => .ok (.interval .hourly)
  | "daily" => .ok (.interval .daily)
  | "at" => do
    let times ← timesInput (description.get "times")
    return .times (← At.make times (description.get "weekdays") zone)
  | "at_midnight" => (At.midnight zone).map .times
  | "cron" => (CronSchedule.make (description.get "expr") zone).map .cron
  | _ => .error .wrongType

/-- The first `count` runs that follow one another from an instant on, and what kept further
ones from being found. -/
def following (s : Schedule) : Nat → Moment → List Moment × Option Failure
  | 0, _ => ([], none)
  | count + 1, last =>
    match s.nextAfter last last with
    | .error e => ([], some e)
    | .ok next =>
      let (more, e) := s.following count next
      (next :: more, e)

end Guildhall.Schedule
