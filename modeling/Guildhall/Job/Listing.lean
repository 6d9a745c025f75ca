import Guildhall.Job.Scheduler

/-!
# Job listing

The jobs of a scheduler for people.
-/

namespace Guildhall.Job

variable {ε : Type}

def line (t : Job ε) : String :=
  let next := (t.nextRun.map fun m => m.shortText ++ " UTC").getD "never"
  let trouble := match t.lastError with
    | none => ""
    | some e => if e.isEmpty then "" else s!" (last error: {e})"
  s!"- {t.name} [{t.state.name}] {t.schedule.describe}, next: {next}" ++ trouble

/-- All jobs, one a line, below a heading. -/
def listing (s : Scheduler ε) : String :=
  match s.listed with
  | [] => "No scheduled tasks."
  | jobs =>
    "\n".intercalate (s!"**Scheduled tasks ({jobs.length})**" :: jobs.map line)

end Guildhall.Job
