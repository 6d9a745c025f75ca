import Guildhall.Value

/-!
# Inbound messages

A message as a chat connector delivers it, read from loosely typed data. Numbers are accepted as
ids, and several spellings as truth values.
-/

namespace Guildhall.Chat

structure Message where
  content : String
  guild : Option String
  channel : String
  author : String
  authorIsBot : Bool
  deriving DecidableEq, Repr

def Message.toValue (m : Message) : Value :=
  .record [("content", .str m.content), ("guild", .textOrNull m.guild),
    ("channel", .str m.channel), ("author", .str m.author), ("author_is_bot", .bool m.authorIsBot)]

inductive Flaw
  | missing
  | notText
  | unclearBool
  | notBool
  | notMapping
  deriving DecidableEq, Repr

def Flaw.kind : Flaw → String
  | missing => "missing"
  | notText => "string_type"
  | unclearBool => "bool_parsing"
  | notBool => "bool_type"
  | notMapping => "model_type"

def Flaw.message : Flaw → String
  | missing => "Field required"
  | notText => "Input should be a valid string"
  | unclearBool => "Input should be a valid boolean, unable to interpret input"
  | notBool => "Input should be a valid boolean"
  | notMapping => "Input should be a valid dictionary or instance of InboundMessage"

structure FieldError where
  field : Option String
  flaw : Flaw
  input : Value
  deriving Repr

/-- The complaint as data; `full` tells also what the data at fault was. -/
def FieldError.toValue (full : Bool) (e : FieldError) : Value :=
  let found := if full then [("input", e.input)] else []
  let expected := if full && e.flaw == .notMapping then
    [("ctx", Value.record [("class_name", .str "InboundMessage")])] else []
  .record ([("type", .str e.flaw.kind), ("loc", Value.texts e.field.toList),
    ("msg", .str e.flaw.message)] ++ found ++ expected)

def readText : Value → Except Flaw String
  | .atom (.str s) => .ok s
  | .atom (.int i) => .ok (toString i)
  | .atom (.float x) => .ok x.text
  | _ => .error .notText

def readGuildId : Value → Except Flaw (Option String)
  | .atom .null => .ok none
  | v => (readText v).map some

def asciiLower (s : String) : String :=
  String.ofList (s.toList.map Char.toLower)

/-- The truth value a word spells, in any case. -/
def boolOfWord (word : String) : Except Flaw Bool :=
  let word := asciiLower word
  if ["1", "true", "yes", "on", "y", "t"].contains word then .ok true
  else if ["0", "false", "no", "off", "n", "f"].contains word then .ok false
  else .error .unclearBool

/-- The number of non-negative integers in a signed word. -/
def wordLimit : Nat := 9223372036854775808

/-- The truth value an integer stands for. Integers that do not fit a word are of no use at all. -/
def boolOfInt (i : Int) : Except Flaw Bool :=
  if i = 0 then .ok false
  else if i = 1 then .ok true
  else if -Int.ofNat wordLimit ≤ i && i < Int.ofNat wordLimit then .error .unclearBool
  else .error .notBool

def readBool : Value → Except Flaw Bool
  | .atom (.bool b) => .ok b
  | .atom (.str s) => boolOfWord s
  | .atom (.int i) => boolOfInt i
  | .atom (.float x) =>
    if x.sameInt x.truncate && x.truncate.natAbs < wordLimit then boolOfInt x.truncate
    else .error .notBool
  | _ => .error .notBool

/-- One field of a message: what it reads as, and what is wrong with it. -/
def readField {α : Type} (whole : Value) (name : String) (default : Option α)
    (read : Value → Except Flaw α) : Except FieldError α :=
  match whole.field? name with
  | some v => (read v).mapError fun flaw => ⟨some name, flaw, v⟩
  | none =>
    match default with
    | some a => .ok a
    | none => .error ⟨some name, .missing, whole⟩

def complaint {ε α : Type} : Except ε α → List ε
  | .ok _ => []
  | .error e => [e]

/-- The message that data describes, or everything wrong with it in the order of the fields. -/
def Message.ofValue (data : Value) : Except (List FieldError) Message :=
  match data with
  | .map _ =>
    let content := readField data "content" none readText
    let guild := readField data "guild" (some none) readGuildId
    let channel := readField data "channel" none readText
    let author := readField data "author" none readText
    let authorIsBot := readField data "author_is_bot" (some false) readBool
    match content, guild, channel, author, authorIsBot with
    | .ok content, .ok guild, .ok channel, .ok author, .ok authorIsBot =>
      .ok ⟨content, guild, channel, author, authorIsBot⟩
    | content, guild, channel, author, authorIsBot =>
      .error (complaint content ++ complaint guild ++ complaint channel ++ complaint author ++
        complaint authorIsBot)
  | _ => .error [⟨none, .notMapping, data⟩]

end Guildhall.Chat
