import Guildhall.Service.Service

/-!
# Heartbeat

A module for simulated runs: a job that beats every minute, a subscriber that hears every job
that completes, and a command that tells how many it has heard.
-/

namespace Guildhall.Simulation

open Service (Body Module)

def heartbeatName : String := "heartbeat"

/-- How many completed jobs the subscriber has heard of. -/
def beats (b : Body) : Nat :=
  ((b.hooks.bus.subscriptions.find? fun s => s.name == heartbeatName).map (·.delivered)).getD 0

def beatEntry : Chat.Entry Body :=
  ([], Chat.plain heartbeatName "beat" (some (.custom fun _ =>
    Dispatch.Script.call (fun b => (beats b, b)) fun n => .give (.count n))) "")

def heartbeat : Module where
  name := heartbeatName
  setup s := do
    let s ← s.addCommands [beatEntry]
    let jobs ← s.body.jobs.add heartbeatName (.interval .minutely) [⟨0, .ok (.str "alive")⟩] true
      heartbeatName
    let bus := s.body.hooks.bus.subscribe .taskCompleted heartbeatName .prompt
    return { s with body := { s.body with jobs := jobs, hooks := { s.body.hooks with bus := bus } } }

end Guildhall.Simulation
