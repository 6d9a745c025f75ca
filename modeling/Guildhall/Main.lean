import Guildhall.Cli.Run
import Guildhall.Http.Exchange
import Std.Time.DateTime.Timestamp

/-!
# The program

Collects what the program finds around it, runs it and writes back what it leaves. Served requests
come from standard input, one described in each line, and are answered there one by one.
-/

namespace Guildhall.Program

open Config (Settings Surroundings)

def variableNames : List String :=
  ["DOTENV_PATH", "GUILDBOT_DATA_DIR", "COMMAND_PREFIX", "SUPERUSERS", "IGNORE_BOTS",
    "SCHEDULER_WORKERS", "SHUTDOWN_GRACE_SECONDS", "BOT_TIMEZONE", "BOT_PORT", "ADMIN_SECRET",
    "LOG_LEVEL", "BOT_VERSION", "BOT_BUILT", "PERMISSIONS_FILE"]

def surroundings : IO Surroundings := do
  let environment ← variableNames.filterMapM fun name =>
    return (← IO.getEnv name).map fun value => (name, value)
  let home := (← IO.getEnv "HOME").getD "/"
  return ⟨environment, home, toString (← IO.currentDir), []⟩

def withFile (path : String) (w : Surroundings) : IO Surroundings :=
  try
    return w.write path (← IO.FS.readFile path)
  catch _ => return w

/-- Puts a file that has changed where it belongs. -/
def writeBack (path : String) (before after : Surroundings) : IO Unit :=
  match after.file? path with
  | some text => unless before.file? path = some text do IO.FS.writeFile path text
  | none => return

def currentMoment : IO Time.Moment := do
  let sinceEpoch := (← Std.Time.Timestamp.now).toNanosecondsSinceUnixEpoch.toInt / 1000
  let epoch := (Time.Moment.ofText? "1970-01-01T00:00:00+00:00").getD (.utc 0)
  return { epoch with wall := epoch.wall + sinceEpoch }

/-- Answers the requests that come in, after the time that has passed since the last one. -/
partial def serveRequests (secret : String) (input : IO.FS.Stream) (since : Nat) (s : Service) :
    IO Service := do
  let line ← input.getLine
  if line.isEmpty then return s
  let now ← IO.monoMsNow
  let s := { s with body := s.body.sleep ((now - since) * 1000) }
  match Json.parse line.toList with
  | .error e =>
    IO.println (Json.render (.record [("error", .str (e.message line.toList))]))
    serveRequests secret input now s
  | .ok description =>
    let (response, s) := Http.respond secret (.ofValue description) s
    IO.println (Json.render (match response with
      | .ok answer => answer.toValue
      | .error e => .record [("error", .str e.message)]))
    serveRequests secret input now s

/-- Starts the service, serves until the input ends, and stops. -/
def serve (settings : Settings) (w : Surroundings) : IO Unit := do
  match Cli.serviceFor settings w (← currentMoment) with
  | .error e => IO.eprintln e.message
  | .ok service =>
    let started := service.start
    let ended ← serveRequests settings.secret (← IO.getStdin) (← IO.monoMsNow) started
    let path := settings.permissionsPath w
    writeBack path w (ended.stop.saved path w)

def runWith (settings : Settings) (arguments : List String) (w : Surroundings) : IO UInt32 := do
  let path := settings.permissionsPath w
  let w ← withFile path w
  IO.FS.createDirAll w.dataDirectory
  let (result, after) := Cli.run settings (← currentMoment) arguments w
  writeBack path w after
  match result with
  | .error e =>
    IO.eprintln e.message
    return 1
  | .ok ending =>
    IO.print ending.output
    if let some (host, listenPort) := ending.served then
      IO.eprintln s!"Serving requests for {host}:{listenPort} from standard input"
      serve settings after
    return ending.code.toUInt32

end Guildhall.Program

/-- The program: settings from the environment and its file, then the arguments. -/
def main (arguments : List String) : IO UInt32 := do
  let w ← Guildhall.Program.surroundings
  let w ← Guildhall.Program.withFile w.envPath w
  match Guildhall.Config.Settings.load w with
  | .error e =>
    IO.eprintln e.message
    return 1
  | .ok settings => Guildhall.Program.runWith settings arguments w
