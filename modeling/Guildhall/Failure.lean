import Guildhall.Text.Quoted

/-!
# Failures

Why a command, a task or a subscriber did not succeed. Dispatch errors are part of an outcome and
shown to the user; every other failure is contained where it happens.
-/

namespace Guildhall

/-- What kept a permission file from being loaded. -/
inductive LoadFault
  | malformedText
  | wrongShape
  | wrongType
  | invalidValue
  | directory
  deriving DecidableEq, Repr

mutual

inductive DispatchError
  | general (message : String)
  | unknownCommand (name : String)
  | invalidArguments (message usage : String)
  | permissionDenied (identifier : String)
  | lookupFailed (guild : Option String) (user reason : String) (cause : Failure)
  | execution (command : String) (cause : Failure)
  | guildOnly (command : String)
  deriving DecidableEq, Repr

/-- What a command, a task, a subscriber or a store may fail with. -/
inductive Failure
  | dispatch (error : DispatchError)
  | runtime (message : String)
  | invalidValue (message : String)
  | missingKey (key : String)
  | store (message : String) (cause : Option LoadFault)
  | wrongType
  | wrongShape
  | outOfRange
  | pastEnd
  | directory
  | unknownZone
  | noMatch
  | unknown
  deriving DecidableEq, Repr

end

mutual

def DispatchError.message : DispatchError → String
  | .general message => message
  | .unknownCommand name =>
    if name.isEmpty then "Unknown command" else "Unknown command: " ++ name
  | .invalidArguments message _ => message
  | .permissionDenied identifier => "Missing permission: " ++ identifier
  | .lookupFailed guild user reason _ =>
    let detail := if reason.isEmpty then "" else ": " ++ reason
    s!"Could not load permissions of {user} in guild " ++ guild.getD "None" ++ detail
  | .execution command cause => s!"Command '{command}' failed: " ++ cause.message
  | .guildOnly command => s!"Command '{command}' can only be used in guilds"

def Failure.message : Failure → String
  | .dispatch error => error.message
  | .runtime message => message
  | .invalidValue message => message
  | .missingKey key => Text.quoted key
  | .store message _ => message
  | .wrongType => "wrong type of value"
  | .wrongShape => "wrong shape of value"
  | .outOfRange => "value out of range"
  | .pastEnd => "string index out of range"
  | .directory => "is a directory"
  | .unknownZone => "unknown time zone"
  | .noMatch => "no matching time"
  | .unknown => ""

end

def DispatchError.kind : DispatchError → String
  | .general _ => "error"
  | .unknownCommand _ => "unknown_command"
  | .invalidArguments _ _ => "invalid_arguments"
  | .permissionDenied _ => "permission_denied"
  | .lookupFailed _ _ _ _ => "permission_lookup_failed"
  | .execution _ _ => "execution_error"
  | .guildOnly _ => "guild_only"

/-- Why a command could not be added to a registry, or a task to a scheduler. -/
inductive RegistrationError
  | duplicateCommand (name parent : String)
  | unknownParent (path segment : String)
  | locked
  | duplicateTask (name : String)
  | invalid (message : String)
  | failed (cause : Failure)
  deriving DecidableEq, Repr

def RegistrationError.message : RegistrationError → String
  | duplicateCommand name parent =>
    let place := if parent.isEmpty then "at the root" else s!"under '{parent}'"
    s!"Command name or alias '{name}' already registered " ++ place
  | unknownParent path segment =>
    s!"Cannot register under '{path}': no command named '{segment}'"
  | locked => "Command registry is sealed; register commands during setup"
  | duplicateTask name => s!"Task '{name}' already registered"
  | invalid message => message
  | failed cause => cause.message

def taskFailedMessage (task : String) (cause : Failure) : String :=
  s!"Task '{task}' failed: " ++ cause.message

def subscriberFailedMessage (subscriber event : String) (cause : Failure) : String :=
  s!"Hook subscriber {subscriber} failed on {event}: " ++ cause.message

end Guildhall
