import Guildhall.Chat.Action
import Guildhall.Time.Duration

/-!
# Described behaviour

Commands that are made up for a simulation: they echo, greet, fail, or tell about the author's
permissions, after a while. Failures are described too; `failure` reads them.
-/

namespace Guildhall.Simulation

open Dispatch (Context Script)

variable {σ : Type}

/-- The microseconds of a number of seconds, at least none. -/
def micros (seconds : Value) : Nat :=
  let amount := match seconds with
    | .atom (.int i) => Double.ofInt i
    | .atom (.float x) => x
    | _ => .zero
  ((Time.durationOfSeconds amount).getD 0).toNat

def checkAll (ctx : Context) : List String → List Value → Script σ
  | [], answers => .give (.list answers.reverse)
  | node :: rest, answers =>
    Script.hasPermission ctx node fun held => checkAll ctx rest (.bool held :: answers)

/-- Asks twice at the same time and gives the permissions, which both are told. -/
def askTwice : Script σ :=
  .permissions 2 fun replies =>
    match replies with
    | .ok g :: .ok _ :: _ => .give (.list [.texts g.effective, .bool true])
    | .ok _ :: .error e :: _ => .fail (.dispatch e)
    | .error e :: _ => .fail (.dispatch e)
    | _ => .give .null

def scriptBody (failure : Value → Failure) (description : Value) (ctx : Context) : Script σ :=
  match (description.get "kind").text with
  | "echo" => .give (.texts ctx.args)
  | "const" => .give (description.get "value")
  | "greet" => .give (.str ("hello, " ++ ctx.caller.author))
  | "raise" => .fail (failure description)
  | "check" => checkAll ctx (description.get "nodes").words []
  | "effective" => Script.withPermissions fun g => .give (.texts g.effective)
  | "twice" => askTwice
  | _ => .give .null

def script (failure : Value → Failure) (description : Value) (ctx : Context) : Script σ :=
  let body := scriptBody failure description ctx
  match micros (description.get "sleep") with
  | 0 => body
  | wait => .pause wait body

/-- The action of a described command; none without a description. -/
def action? (failure : Value → Failure) : Value → Option (Chat.Action σ)
  | .atom .null => none
  | description => some (.custom (script failure description))

end Guildhall.Simulation
