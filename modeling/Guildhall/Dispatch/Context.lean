import Guildhall.Failure
import Guildhall.Value

/-!
# Invocations and outcomes

Who sent a message, what the dispatcher made of it and how it ended.
-/

namespace Guildhall.Dispatch

structure Caller where
  author : String
  guild : Option String
  channel : String
  deriving DecidableEq, Repr

/-- What is known about an invocation. The node, the command's full name and its arguments are
filled in once the message is found to begin with a command. -/
structure Context where
  caller : Caller
  raw : String
  superuser : Bool
  tokens : List String
  node : Option Nat
  command : String
  args : List String
  deriving DecidableEq, Repr

def Context.toValue (ctx : Context) : Value :=
  .record [("author", .str ctx.caller.author), ("guild", .textOrNull ctx.caller.guild),
    ("channel", .str ctx.caller.channel), ("tokens", .texts ctx.tokens),
    ("command", .str ctx.command), ("args", .texts ctx.args), ("superuser", .bool ctx.superuser),
    ("node", (ctx.node.map Value.count).getD .null)]

structure Outcome where
  context : Context
  result : Except DispatchError Value

def Outcome.ok (o : Outcome) : Bool :=
  match o.result with
  | .ok _ => true
  | .error _ => false

def Outcome.kind (o : Outcome) : String :=
  match o.result with
  | .ok _ => "ok"
  | .error e => e.kind

end Guildhall.Dispatch
