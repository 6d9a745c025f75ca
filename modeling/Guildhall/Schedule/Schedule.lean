import Guildhall.Schedule.Cron
import Guildhall.Schedule.Interval

/-!
# Schedules

When a task runs: at intervals, at times of day, or by a cron expression.
-/

namespace Guildhall

inductive Schedule
  | interval (i : Schedule.Interval)
  | times (a : Schedule.At)
  | cron (c : Schedule.CronSchedule)
  deriving DecidableEq, Repr

namespace Schedule

open Time

def firstRun (s : Schedule) (now : Moment) : Except Failure Moment :=
  match s with
  | interval i => i.firstRun now
  | times a => a.firstRun now
  | cron c => c.firstRun now

/-- The run after a previous one, later than now. -/
def nextAfter (s : Schedule) (previous now : Moment) : Except Failure Moment :=
  match s with
  | interval i => i.nextAfter previous now
  | times a => a.nextAfter previous now
  | cron c => c.nextAfter previous now

def describe : Schedule → String
  | interval i => i.describe
  | times a => a.describe
  | cron c => c.describe

/-- The schedule as a programmer would see it. -/
def literal : Schedule → String
  | interval i => i.literal
  | times a => a.literal
  | cron c => c.literal

def zoned : Schedule → Bool
  | interval _ => false
  | _ => true

/-- Whether the zone was given with the schedule; none for a schedule without a zone. -/
def explicitZone : Schedule → Option Bool
  | interval _ => none
  | times a => some a.explicitZone
  | cron c => some c.explicitZone

def useDefaultZone (s : Schedule) (zone : Value) : Except Failure Schedule :=
  match s with
  | interval i => .ok (.interval i)
  | times a => (a.useDefaultZone zone).map .times
  | cron c => (c.useDefaultZone zone).map .cron

end Schedule

end Guildhall
