import Guildhall.Chat.Action

/-!
# The job command

The command that lists background jobs.
-/

namespace Guildhall.Feature

open Chat (Entry)

variable {σ : Type}

/-- The command that shows the listing of the jobs. -/
def jobEntries (listing : σ → String) : List (Entry σ) :=
  let run := fun _ => Dispatch.Script.call (fun s => (listing s, s)) fun text => .give (.str text)
  [([], { Chat.plain "tasks" "tasks" (some (.custom run))
      "List scheduled tasks and their next run." with permissions := ["tasks.view"] })]

end Guildhall.Feature
