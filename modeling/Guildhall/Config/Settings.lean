import Guildhall.Config.EnvFile
import Guildhall.Config.Place
import Guildhall.Failure
import Guildhall.Number.Numeral
import Guildhall.Permission.Grants
import Guildhall.Text.Case
import Guildhall.Value

/-!
# Settings

What the program is told by its environment and by an environment file, which wins.
-/

namespace Guildhall.Config

/-- The settings. `grace` is in seconds; an empty `permissionsFile` stands for the usual one. -/
structure Settings where
  envPath : String
  sigil : String
  superusers : List String
  ignoreBots : Bool
  workers : Int
  grace : Double
  zone : String
  listenPort : Int
  secret : String
  logLevel : String
  version : String
  built : String
  permissionsFile : String

def installedVersion : String := "0.4.0"

def dataVariable : String := "GUILDBOT_DATA_DIR"

def Surroundings.dataDirectory (w : Surroundings) : String :=
  match w.named? dataVariable with
  | some path => normalPath path
  | none => below w.home ".guildbot"

/-- The first text that is not empty, or the last. -/
def orElse (text fallback : String) : String := if text.isEmpty then fallback else text

/-- Where the environment file is: at a given path, or with the data, or here. -/
def Surroundings.envPath (w : Surroundings) : String :=
  let given := (w.named? "DOTENV_PATH").getD ""
  let data := (w.named? dataVariable).getD ""
  if !given.isEmpty then normalPath given
  else if !data.isEmpty then below data ".env"
  else ".env"

/-- What the environment file or else the environment says about a key; nothing is an empty
text. -/
def Surroundings.setting (w : Surroundings) (envPath key : String) : String :=
  let inFile := match w.file? envPath with
    | some text => valueOf key (readAssignments text)
    | none => ""
  orElse inFile ((w.named? key).getD "")

def splitIds (text : String) : List String :=
  Permission.distinct (((Text.split ',' text).map Text.trim).filter fun id => !id.isEmpty)

def saysYes (word : String) : Bool :=
  ["1", "true", "yes", "on"].contains (Text.lower word)

namespace Settings

def initial (envPath : String) : Settings :=
  ⟨envPath, "!", [], true, 4, .ofInt 10, "UTC", 3978, "", "INFO", installedVersion, "unknown", ""⟩

/-- Reads all settings again, one after the other. A value that cannot be read ends it; what has
been read by then holds. -/
def reload (s : Settings) (w : Surroundings) : Except Failure Unit × Settings :=
  let read := w.setting s.envPath
  let bots := read "IGNORE_BOTS"
  let s := { s with
    sigil := orElse (read "COMMAND_PREFIX") "!"
    superusers := splitIds (read "SUPERUSERS")
    ignoreBots := bots.isEmpty || saysYes bots }
  match Number.readInt (orElse (read "SCHEDULER_WORKERS") "4") with
  | .error message => (.error (.invalidValue message), s)
  | .ok workers =>
    let s := { s with workers := max 1 workers }
    match Number.readDouble (orElse (read "SHUTDOWN_GRACE_SECONDS") "10") with
    | .error message => (.error (.invalidValue message), s)
    | .ok grace =>
      let s := { s with grace := grace, zone := orElse (read "BOT_TIMEZONE") "UTC" }
      match Number.readInt (orElse (read "BOT_PORT") "3978") with
      | .error message => (.error (.invalidValue message), s)
      | .ok listenPort =>
        (.ok (), { s with
          listenPort := listenPort
          secret := read "ADMIN_SECRET"
          logLevel := Text.upper (orElse (read "LOG_LEVEL") "INFO")
          version := orElse (read "BOT_VERSION") installedVersion
          built := orElse (read "BOT_BUILT") "unknown"
          permissionsFile := read "PERMISSIONS_FILE" })

def load (w : Surroundings) : Except Failure Settings :=
  match (initial w.envPath).reload w with
  | (.ok (), s) => .ok s
  | (.error e, _) => .error e

/-- Writes assignments to the environment file and reads all settings again. -/
def writeEnv (s : Settings) (w : Surroundings) (changes : List (String × String)) :
    Except Failure Unit × Settings × Surroundings :=
  let w := w.write s.envPath (withAssignments changes (w.file? s.envPath))
  let (result, s) := s.reload w
  (result, s, w)

def permissionsPath (s : Settings) (w : Surroundings) : String :=
  if s.permissionsFile.isEmpty then below w.dataDirectory "permissions.yaml"
  else normalPath s.permissionsFile

def toValue (s : Settings) (w : Surroundings) : Value :=
  .record [("command_prefix", .str s.sigil), ("superusers", .texts (Permission.sortTexts s.superusers)),
    ("ignore_bots", .bool s.ignoreBots), ("scheduler_workers", .int s.workers),
    ("shutdown_grace_seconds", .str s.grace.text), ("timezone", .str s.zone),
    ("bot_port", .int s.listenPort), ("admin_secret", .str s.secret), ("log_level", .str s.logLevel),
    ("bot_version", .str s.version), ("bot_built", .str s.built),
    ("data_dir", .str w.dataDirectory), ("permissions_path", .str (s.permissionsPath w)),
    ("env_path", .str s.envPath)]

end Settings

end Guildhall.Config
