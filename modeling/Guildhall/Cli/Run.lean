import Guildhall.Cli.Usage
import Guildhall.Command.Tree
import Guildhall.Service.Setup

/-!
# Runs of the program

What the program prints for its arguments, and with which code it exits.
-/

namespace Guildhall.Cli

open Config (Settings Surroundings)

/-- Whether a character moves the cursor and is not shown: a bell, a backspace, a tab or feed down
the page, or a carriage return. -/
def isCursorControl (c : Char) : Bool := [7, 8, 11, 12, 13].contains c.toNat

/-- The characters of a line with spaces in place of tabs, which reach to columns of eight. -/
def expandTabs : Nat → List Char → List Char
  | _, [] => []
  | column, c :: rest =>
    if c = '\t' then
      let width := 8 - column % 8
      List.replicate width ' ' ++ expandTabs (column + width) rest
    else c :: expandTabs (if c = '\n' then 0 else column + 1) rest

def shown (text : String) : String :=
  String.ofList (expandTabs 0 (text.toList.filter fun c => !isCursorControl c))

/-- Lines, each with a line break behind it. -/
def printed (lines : List String) : String := String.join (lines.map (· ++ "\n"))

/-- What a run leaves behind: its exit code, what it prints, and the address it serves, if any. -/
structure Ending where
  code : Nat
  output : String
  served : Option (String × Int)
  deriving DecidableEq, Repr

def serviceFor (s : Settings) (w : Surroundings) (now : Time.Moment) : Except Failure Service := do
  let service ← Service.ofSettings s w now
  match service.load Service.usualModules with
  | (none, service) => return service
  | (some e, _) => throw (.invalidValue e.message)

/-- What is printed about the outcome of a message, and the exit code. -/
def outcomeEnding (service : Service) (o : Dispatch.Outcome) : Ending :=
  let reply := service.manners.reply o
  if o.ok then ⟨0, printed (if reply.isEmpty then [] else [shown reply]), none⟩
  else ⟨1, printed [o.kind, shown reply], none⟩

def Order.run (s : Settings) (service : Service) : Order → Ending × Service
  | .commands => (⟨0, printed service.registry.drawing, none⟩, service)
  | .serve host number =>
    let number := match number with
      | some n => if n = 0 then s.listenPort else n
      | none => s.listenPort
    (⟨0, "", some (host, number)⟩, service)
  | .exec message guild channel author =>
    let (outcome, service) := service.start.dispatch message ⟨author, guild, channel⟩
    (outcomeEnding service outcome, service.stop)

/-- One run of the program. It fails when the service cannot be set up. -/
def run (s : Settings) (now : Time.Moment) (arguments : List String) (w : Surroundings) :
    Except Failure Ending × Surroundings :=
  match Wish.ofArguments false arguments with
  | .nothing => (.ok ⟨1, printed programPage.lines, none⟩, w)
  | .help page => (.ok ⟨0, printed page.lines, none⟩, w)
  | .misuse => (.ok ⟨2, "", none⟩, w)
  | .order order =>
    match serviceFor s w now with
    | .error e => (.error e, w)
    | .ok service =>
      let (ending, service) := order.run s service
      (.ok ending, service.saved (s.permissionsPath w) w)

end Guildhall.Cli
