import Guildhall.Dispatch.Context
import Guildhall.Time.Moment

/-!
# Events

What subscribers can be told about.
-/

namespace Guildhall.Hook

inductive Kind
  | messageReceived
  | commandExecuted
  | commandFailed
  | commandDenied
  | taskCompleted
  | taskFailed
  deriving DecidableEq, Repr

namespace Kind

def all : List Kind :=
  [messageReceived, commandExecuted, commandFailed, commandDenied, taskCompleted, taskFailed]

def name : Kind → String
  | messageReceived => "message_received"
  | commandExecuted => "command_executed"
  | commandFailed => "command_failed"
  | commandDenied => "command_denied"
  | taskCompleted => "task_completed"
  | taskFailed => "task_failed"

def ofName? (text : String) : Option Kind :=
  all.find? fun kind => kind.name == text

def ofValue (value : Value) : Except Failure Kind :=
  let known := match value with
    | .atom (.str text) => ofName? text
    | _ => none
  match known with
  | some kind => .ok kind
  | none => .error (.invalidValue s!"{value.literal} is not a valid EventKind")

end Kind

/-- Something that happened. Durations are in seconds. -/
inductive Event
  | messageReceived (content : String) (guild : Option String) (channel author : String)
      (authorIsBot : Bool)
  | commandExecuted (context : Dispatch.Context) (result : Value)
  | commandFailed (context : Dispatch.Context) (error : DispatchError)
  | commandDenied (context : Dispatch.Context) (identifier : String)
  | taskCompleted (task : String) (scheduledFor : Time.Moment) (duration : Double)
      (result : Value)
  | taskFailed (task : String) (scheduledFor : Time.Moment) (duration : Double)
      (failed : String) (cause : Failure)

def Event.kind : Event → Kind
  | messageReceived _ _ _ _ _ => .messageReceived
  | commandExecuted _ _ => .commandExecuted
  | commandFailed _ _ => .commandFailed
  | commandDenied _ _ => .commandDenied
  | taskCompleted _ _ _ _ => .taskCompleted
  | taskFailed _ _ _ _ _ => .taskFailed

/-- What an event tells, as a list. Durations are written with six places. -/
def Event.toValue : Event → Value
  | messageReceived content guild channel author authorIsBot =>
    .list [.str content, .textOrNull guild, .str channel, .str author, .bool authorIsBot]
  | commandExecuted context result => .list [.str context.command, result]
  | commandFailed context error => .list [.str context.command, .str error.kind]
  | commandDenied context identifier => .list [.str context.command, .str identifier]
  | taskCompleted task scheduledFor duration result =>
    .list [.str task, .str scheduledFor.text, .str (duration.fixed 6), result]
  | taskFailed task scheduledFor duration failed cause =>
    .list [.str task, .str scheduledFor.text, .str (duration.fixed 6),
      .str (taskFailedMessage failed cause)]

/-- Events by the name of their kind; kinds without events are left out. -/
def summary (events : List Event) : Value :=
  .record (Kind.all.filterMap fun kind =>
    match events.filter (·.kind == kind) with
    | [] => none
    | first :: rest => some (kind.name, .list ((first :: rest).map Event.toValue)))

end Guildhall.Hook
