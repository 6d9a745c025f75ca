import Guildhall.Cli.Arguments

/-!
# Usage

What the program can be asked to do, and its pages of help.
-/

namespace Guildhall.Cli

/-- What the program is to do: to serve requests, to show the command tree, or to carry out one
message. -/
inductive Order
  | serve (host : String) (listenPort : Option Int)
  | commands
  | exec (message : String) (guild : Option String) (channel author : String)
  deriving DecidableEq, Repr

/-- A page of help: how to call the program, what that is for, and sections of entries, with
explanations from a certain column on. -/
structure Page where
  usage : List String
  purpose : Option String
  column : Nat
  sections : List (String × List (String × String))
  deriving DecidableEq, Repr

def fill (width : Nat) (text : String) : String :=
  text ++ String.ofList (List.replicate (width - text.length) ' ')

def Page.entry (column : Nat) (term explanation : String) : String :=
  if explanation.isEmpty then term else fill column term ++ explanation

def Page.lines (p : Page) : List String :=
  p.usage ++ (p.purpose.map fun text => ["", text]).getD [] ++
    p.sections.flatMap fun (title, entries) =>
      "" :: title :: entries.map fun (term, explanation) => Page.entry p.column term explanation

def helpEntry : String × String := ("  -h, --help", "show this help message and exit")

def programPage : Page where
  usage := ["usage: guildbot-run [-h] \x7bserve,commands,exec\x7d ..."]
  purpose := some "Run the bot server or talk to the command core locally."
  column := 24
  sections :=
    [("positional arguments:",
      [("  \x7bserve,commands,exec\x7d", ""),
        ("    serve", "Run the HTTP server, hook bus and scheduler."),
        ("    commands", "Print the registered command tree."),
        ("    exec", "Dispatch one message locally and print the reply.")]),
      ("options:", [helpEntry])]

def servePage : Page where
  usage := ["usage: guildbot-run serve [-h] [--host HOST] [--port PORT]"]
  purpose := none
  column := 15
  sections :=
    [("options:",
      [helpEntry, ("  --host HOST", "Listen address (default: 0.0.0.0)."),
        ("  --port PORT", "Listen port (default: BOT_PORT from config).")])]

def commandsPage : Page where
  usage := ["usage: guildbot-run commands [-h]"]
  purpose := none
  column := 14
  sections := [("options:", [helpEntry])]

def execPage : Page where
  usage :=
    ["usage: guildbot-run exec [-h] [--guild GUILD] [--channel CHANNEL]",
      fill 25 "" ++ "[--author AUTHOR]", fill 25 "" ++ "message"]
  purpose := none
  column := 21
  sections :=
    [("positional arguments:", [("  message", "Message text without the command prefix.")]),
      ("options:",
        [helpEntry, ("  --guild GUILD", "Guild id (default: direct message)."),
          ("  --channel CHANNEL", "Channel id (default: cli)."),
          ("  --author AUTHOR", "Author user id (default: cli).")])]

/-- What the program is asked: an order, a page of help, nothing at all, or something that it does
not understand. -/
inductive Wish
  | order (o : Order)
  | help (page : Page)
  | nothing
  | misuse
  deriving DecidableEq, Repr

/-- Whether the value of an option will do: the number to listen at is an integer, other options
take any text. -/
def acceptsValue (name value : String) : Bool :=
  name ≠ "--port" || (Number.readInt value).isOk

/-- The order that the collected arguments of a command make up. -/
def Wish.ofReading (page : Page) (order : Collected → Order) : Reading Collected → Wish
  | .given c => .order (order c)
  | .help => .help page
  | .misuse => .misuse

def readCommand (name : String) (arguments : List String) : Wish :=
  match name with
  | "serve" =>
    .ofReading servePage
      (fun c => .serve ((c.values.lookup "--host").getD "0.0.0.0")
        ((c.values.lookup "--port").bind fun text => (Number.readInt text).toOption))
      (Grammar.read ⟨["--host", "--port"], false⟩ acceptsValue arguments)
  | "commands" =>
    .ofReading commandsPage (fun _ => .commands) (Grammar.read ⟨[], false⟩ acceptsValue arguments)
  | "exec" =>
    .ofReading execPage
      (fun c => .exec (c.word.getD "") (c.values.lookup "--guild")
        ((c.values.lookup "--channel").getD "cli") ((c.values.lookup "--author").getD "cli"))
      (Grammar.read ⟨["--guild", "--channel", "--author"], true⟩ acceptsValue arguments)
  | _ => .misuse

/-- What the program is asked for. The first word is the name of a command, and all that follows
belongs to that; an unknown option before it spoils everything but a call for help. -/
def Wish.ofArguments (spoilt : Bool) : List String → Wish
  | [] => if spoilt then .misuse else .nothing
  | text :: rest =>
    match Grammar.piece ⟨[], false⟩ text with
    | .word name =>
      match readCommand name rest with
      | .help page => .help page
      | wish => if spoilt then .misuse else wish
    | .help isSpoilt => if isSpoilt then .misuse else .help programPage
    | .unknown => ofArguments true rest
    | _ => .misuse

end Guildhall.Cli
