import Guildhall.Dispatch.Dispatcher
import Guildhall.Hook.Delivery
import Guildhall.Job.Listing
import Guildhall.Service.Archive
import Guildhall.Simulation.Clockwork

/-!
# Body

What commands can act on: permissions, jobs and subscribers, in one time.
-/

namespace Guildhall.Service

open Dispatch (Cache Context Script)
open Hook (Event Timeline)
open Permission (Access Source)
open Simulation (Clockwork)

structure Body where
  archive : Archive
  jobs : Clockwork
  hooks : Timeline Event
  heard : Option (List Event)

namespace Body

def access : Access Body :=
  Archive.access.within (·.archive) fun a b => { b with archive := a }

/-- Subscribers are told about events. -/
def publish (events : List Event) (b : Body) : Body :=
  let bus := events.foldl (fun bus e => bus.publish e.kind e) b.hooks.bus
  { b with hooks := { b.hooks with bus := bus }, heard := b.heard.map (· ++ events) }

/-- Tells subscribers what has become of jobs, and lets them catch up with the time. -/
def catchUp (b : Body) : Body :=
  let b := { b with jobs := { b.jobs with events := [] } }.publish b.jobs.events
  { b with hooks := b.hooks.advance b.jobs.now }

def sleep (micros : Nat) (b : Body) : Body :=
  { b with jobs := b.jobs.sleep micros }.catchUp

/-- Begins to deliver events and to run jobs. -/
def start (b : Body) : Body :=
  { b with
    hooks := { b.hooks with bus := b.hooks.bus.start }
    jobs := b.jobs.start }

/-- Stops running jobs, within a grace period if there is one, and then delivering events. -/
def stop (grace : Option Nat) (b : Body) : Body :=
  let b := { b with jobs := b.jobs.stop grace }.catchUp
  let hooks := b.hooks.close (some Hook.defaultPatience)
  { b with hooks := hooks, jobs := { b.jobs with now := hooks.now } }

/-- Runs a script, letting time pass where it pauses. -/
def follow (source : Source Body) (ctx : Context) :
    Script Body → Cache → Body → Except Failure Value × Body
  | .done result, _, b => (result, b)
  | .permissions askers next, c, b =>
    let (told, c, b) := c.replies source ctx.caller.guild ctx.caller.author askers b
    follow source ctx (next told) c b
  | .pause micros next, c, b => follow source ctx next c (b.sleep micros)
  | .act change next, c, b => follow source ctx (next b) c (change b)

end Body

end Guildhall.Service
