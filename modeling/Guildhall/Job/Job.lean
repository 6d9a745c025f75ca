import Guildhall.Schedule.Schedule

/-!
# Jobs

Recurring background jobs, and what is known about their runs. Messages to people call them tasks.
-/

namespace Guildhall

open Time

/-- Whether a job waits for its next run, has a run under way, or will never run again. -/
inductive Job.State
  | idle
  | running
  | cancelled
  deriving DecidableEq, Repr

def Job.State.name : Job.State → String
  | idle => "idle"
  | running => "running"
  | cancelled => "cancelled"

/-- A job: when it runs, what it does, and the record of its runs. Durations are in seconds. -/
structure Job (ε : Type) where
  name : String
  schedule : Schedule
  executor : ε
  feature : String
  nextRun : Option Moment
  state : Job.State
  lastRun : Option Moment
  lastDuration : Option Double
  lastError : Option String
  runCount : Nat
  failureCount : Nat
  skippedTicks : Nat

namespace Job

variable {ε : Type}

def new (name : String) (schedule : Schedule) (executor : ε) (feature : String)
    (nextRun : Moment) : Job ε :=
  ⟨name, schedule, executor, feature, some nextRun, .idle, none, none, none, 0, 0, 0⟩

def toValue (t : Job ε) : Value :=
  let moment (m : Option Moment) : Value := .textOrNull (m.map Moment.text)
  .record [("name", .str t.name), ("schedule", .str t.schedule.describe),
    ("module", .str t.feature), ("state", .str t.state.name), ("next_run", moment t.nextRun),
    ("last_run", moment t.lastRun),
    ("last_duration", .textOrNull (t.lastDuration.map (Double.fixed 6))),
    ("last_error", .textOrNull t.lastError), ("run_count", .count t.runCount),
    ("failure_count", .count t.failureCount), ("skipped_ticks", .count t.skippedTicks)]

/-- The job in short: its name, its state, its next run, the counts, and the last error. -/
def summary (t : Job ε) : Value :=
  .list [.str t.name, .str t.state.name, .textOrNull (t.nextRun.map Moment.text),
    .count t.runCount, .count t.failureCount, .count t.skippedTicks, .textOrNull t.lastError]

/-- Whether a job is listed before another: by next run, then by name; one without a next run
comes last. -/
def listedBefore (a b : Job ε) : Bool :=
  let key (t : Job ε) : Int := match t.nextRun with
    | some m => m.instant
    | none => wallLimit - 1
  key a < key b || (key a == key b && decide (a.name ≤ b.name))

end Job

end Guildhall
