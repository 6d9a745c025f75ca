import Guildhall.Assoc
import Guildhall.Number.Numeral

/-!
# Command line arguments

Options begin with a dash; the value of one follows an equals sign or is the next argument. A long
option may be cut short as long as it can be told from the others. After `--` nothing is an option.
-/

namespace Guildhall.Cli

/-- What a command understands besides `-h` and `--help`: long options, all with a value, and
whether there is a word. -/
structure Grammar where
  options : List String
  takesWord : Bool
  deriving DecidableEq, Repr

/-- What one argument is. A call for help may be spoilt by a value. -/
inductive Piece
  | word (text : String)
  | separator
  | option (name : String) (value : Option String)
  | help (spoilt : Bool)
  | unknown
  | ambiguous
  deriving DecidableEq, Repr

inductive Reading (α : Type)
  | given (result : α)
  | help
  | misuse
  deriving DecidableEq, Repr

/-- A text up to its first equals sign, and what follows. -/
def cutValue (text : List Char) : List Char × Option String :=
  match Text.cut '=' text with
  | some (name, value) => (name, some (String.ofList value))
  | none => (text, none)

def isDigitOfAny (c : Char) : Bool := (Number.digitValue? c).isSome

/-- Whether a text consists of digits, perhaps with a point before the last of them. -/
def isAmount (text : List Char) : Bool :=
  match text.dropWhile isDigitOfAny with
  | [] => !text.isEmpty
  | '.' :: fraction => !fraction.isEmpty && fraction.all isDigitOfAny
  | _ => false

/-- Whether a text is a negative number, perhaps with a line break behind it. -/
def isNegativeNumber (text : List Char) : Bool :=
  match text with
  | '-' :: cs => isAmount (if cs.getLast? = some '\n' then cs.dropLast else cs)
  | _ => false

/-- What an argument that could be an option of some name, perhaps cut short, is. -/
def Grammar.longPiece (g : Grammar) (text : List Char) : Option Piece :=
  let (name, value) := cutValue text
  let known := "--help" :: g.options
  let candidates :=
    if known.contains (String.ofList name) then [String.ofList name]
    else known.filter fun option => name.isPrefixOf option.toList
  match candidates with
  | [] => none
  | ["--help"] => some (.help value.isSome)
  | [option] => some (.option option value)
  | _ => some .ambiguous

/-- Whether what follows the letter for help spoils the call: a value or a dash, perhaps after
more such letters. -/
def isSpoilt : List Char → Bool
  | 'h' :: rest => isSpoilt rest
  | c :: _ => c = '=' || c = '-'
  | [] => false

/-- What a single dash and a letter stand for; only help has a letter. -/
def shortPiece : List Char → Option Piece
  | '-' :: 'h' :: rest => some (.help (isSpoilt rest))
  | _ => none

def Grammar.piece (g : Grammar) (text : String) : Piece :=
  match text.toList with
  | ['-', '-'] => .separator
  | '-' :: c :: rest =>
    let cs := '-' :: c :: rest
    match if c = '-' then g.longPiece cs else shortPiece cs with
    | some p => p
    | none =>
      if isNegativeNumber cs || cs.contains ' ' then .word text else .unknown
  | _ => .word text

def Grammar.pieces (g : Grammar) : List String → List Piece
  | [] => []
  | text :: rest =>
    match g.piece text with
    | .separator => .separator :: rest.map .word
    | p => p :: g.pieces rest

structure Collected where
  values : List (String × String)
  word : Option String
  surplus : Bool
  deriving DecidableEq, Repr

def Collected.empty : Collected := ⟨[], none, false⟩

/-- Goes through the arguments. A call for help is answered at once and so is an option without
its value or with one that `check` refuses; what is too much shows at the end. The word may have
the separator before or after it. -/
def Grammar.collect (g : Grammar) (check : String → String → Bool) :
    List Piece → Collected → Reading Collected
  | [], c => .given c
  | .help spoilt :: _, _ => if spoilt then .misuse else .help
  | .option name (some value) :: rest, c =>
    if check name value then g.collect check rest { c with values := Assoc.put name value c.values }
    else .misuse
  | .option name none :: .word value :: rest, c =>
    if check name value then g.collect check rest { c with values := Assoc.put name value c.values }
    else .misuse
  | .option _ none :: _, _ => .misuse
  | .word text :: .separator :: rest, c =>
    if g.takesWord && c.word.isNone then g.collect check rest { c with word := some text }
    else g.collect check rest { c with surplus := true }
  | .word text :: rest, c =>
    if g.takesWord && c.word.isNone then g.collect check rest { c with word := some text }
    else g.collect check rest { c with surplus := true }
  | .separator :: .word text :: rest, c =>
    if g.takesWord && c.word.isNone then g.collect check rest { c with word := some text }
    else g.collect check rest { c with surplus := true }
  | .separator :: rest, c => g.collect check rest { c with surplus := true }
  | .unknown :: rest, c => g.collect check rest { c with surplus := true }
  | .ambiguous :: _, _ => .misuse

/-- Reads the arguments of a command. Every argument must be clear, nothing may be left over and
the word may not be missing. -/
def Grammar.read (g : Grammar) (check : String → String → Bool)
    (arguments : List String) : Reading Collected :=
  let pieces := g.pieces arguments
  if pieces.contains .ambiguous then .misuse
  else
    match g.collect check pieces .empty with
    | .given c => if c.surplus || (g.takesWord && c.word.isNone) then .misuse else .given c
    | other => other

end Guildhall.Cli
