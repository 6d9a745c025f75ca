import Guildhall.Yaml.Scalar

/-!
# Writing documents

Mappings and lists of texts in block form, with two spaces of indentation, in ASCII. Lines are
broken at blanks beyond column 80.
-/

namespace Guildhall.Yaml

def isLineEnd (c : Char) : Bool :=
  c = '\n' || c = '\x85' || c = '\u2028' || c = '\u2029'

def isSeparating (c : Char) : Bool :=
  c = '\x00' || c = ' ' || c = '\t' || c = '\r' || isLineEnd c

def needsEscape (c : Char) : Bool :=
  c ≠ '\n' && !(32 ≤ c.toNat && c.toNat ≤ 126)

/-- Whether a text holds something that would be read as a mark in a block, looked at from a
character on; `before` is the character before it. -/
def hasMark : Option Char → List Char → Bool
  | _, [] => false
  | before, c :: rest =>
    let separated := match rest with
      | [] => true
      | d :: _ => isSeparating d
    let here := match before with
      | none =>
        "#,[]\x7b\x7d&*!|>'\"%@\x60".toList.contains c ||
          ((c = '?' || c = ':' || c = '-') && separated)
      | some b => (c = ':' && separated) || (c = '#' && isSeparating b)
    here || hasMark (some c) rest

/-- Whether a line end comes right before a blank. -/
def hasBreakSpace : List Char → Bool
  | a :: b :: rest => (isLineEnd a && b = ' ') || hasBreakSpace (b :: rest)
  | _ => false

/-- Whether a blank comes right before a line end. -/
def hasSpaceBreak : List Char → Bool
  | a :: b :: rest => (a = ' ' && isLineEnd b) || hasSpaceBreak (b :: rest)
  | _ => false

/-- Whether a text begins or ends with a blank or a line end. -/
def hasLooseEnd (cs : List Char) : Bool :=
  let loose (c : Char) : Bool := c = ' ' || isLineEnd c
  cs.head?.any loose || cs.getLast?.any loose

def isMultiline (cs : List Char) : Bool := cs.any isLineEnd

def allowsPlain (cs : List Char) : Bool :=
  !(hasLooseEnd cs || hasBreakSpace cs || hasSpaceBreak cs || cs.any needsEscape ||
    isMultiline cs || hasMark none cs || "---".toList.isPrefixOf cs || "...".toList.isPrefixOf cs)

def allowsSingle (cs : List Char) : Bool :=
  !(hasBreakSpace cs || hasSpaceBreak cs || cs.any needsEscape)

inductive Style
  | plain
  | single
  | double
  deriving DecidableEq, Repr

/-- The style of a text; `key` for a key that stands before its value on one line. -/
def styleOf (key : Bool) (text : String) : Style :=
  let cs := text.toList
  if kindOf text = .text && !(key && isMultiline cs) && allowsPlain cs then .plain
  else if allowsSingle cs && !(key && isMultiline cs) then .single
  else .double

def isSimpleKey (text : String) : Bool :=
  text.length < 123 && !text.isEmpty && !isMultiline text.toList

structure Output where
  text : List Char
  column : Nat
  spaced : Bool
  fresh : Bool

namespace Output

def start : Output := ⟨[], 0, true, true⟩

def put (o : Output) (cs : List Char) : Output :=
  { o with text := cs.reverse ++ o.text, column := o.column + cs.length }

def newline (o : Output) : Output := ⟨'\n' :: o.text, 0, true, true⟩

/-- A mark, after a blank if one is needed. `fresh` keeps the line open for further marks, and
`spaced` says that no blank is needed after it. -/
def mark (o : Output) (cs : List Char) (needsSpace spaced fresh : Bool) : Output :=
  let written := if o.spaced || !needsSpace then o.put cs else o.put (' ' :: cs)
  { written with spaced := spaced, fresh := o.fresh && fresh }

/-- Moves to an indentation, on a new line unless this one can still take it. -/
def toIndent (o : Output) (indent : Nat) : Output :=
  let o :=
    if !o.fresh || indent < o.column || (o.column = indent && !o.spaced) then o.newline else o
  if o.column < indent then
    { o.put (List.replicate (indent - o.column) ' ') with spaced := true }
  else o

def inScalar (o : Output) : Output := { o with spaced := false, fresh := false }

def width : Nat := 80

/-- A run of characters at the start of a text, and the rest. -/
def splitRun (p : Char → Bool) (cs : List Char) : List Char × List Char :=
  (cs.takeWhile p, cs.dropWhile p)

/-- The words and blanks of a plain scalar; a single blank may become a line break. -/
def plainFrom (indent : Nat) (fold : Bool) : Nat → List Char → Output → Output
  | 0, _, o => o
  | fuel + 1, cs, o =>
    match cs with
    | [] => o
    | ' ' :: _ =>
      let (blanks, rest) := splitRun (· = ' ') cs
      let o := if blanks.length = 1 && width < o.column && fold
        then (o.toIndent indent).inScalar else o.put blanks
      plainFrom indent fold fuel rest o
    | _ =>
      let (word, rest) := splitRun (· ≠ ' ') cs
      plainFrom indent fold fuel rest (o.put word)

def plain (o : Output) (indent : Nat) (fold : Bool) (cs : List Char) : Output :=
  if cs.isEmpty then o
  else
    let o := if o.spaced then o else o.put [' ']
    plainFrom indent fold (cs.length + 1) cs o.inScalar

/-- The line ends of a single-quoted scalar: one more than there are in the text. -/
def lineEnds (o : Output) (breaks : List Char) (indent : Nat) : Output :=
  let o := if breaks.head? = some '\n' then o.newline else o
  let o := breaks.foldl (fun o c =>
    if c = '\n' then o.newline else { o.newline with text := c :: o.text }) o
  o.toIndent indent

/-- The parts of a single-quoted scalar. `first` holds at the very start. -/
def singleFrom (indent : Nat) (fold : Bool) : Nat → Bool → List Char → Output → Output
  | 0, _, _, o => o
  | fuel + 1, first, cs, o =>
    match cs with
    | [] => o
    | c :: rest =>
      if c = ' ' then
        let (blanks, rest) := splitRun (· = ' ') cs
        let o := if blanks.length = 1 && width < o.column && fold && !first && !rest.isEmpty
          then o.toIndent indent else o.put blanks
        singleFrom indent fold fuel false rest o
      else if isLineEnd c then
        let (breaks, rest) := splitRun isLineEnd cs
        singleFrom indent fold fuel false rest (o.lineEnds breaks indent)
      else if c = '\'' then singleFrom indent fold fuel false rest (o.put ['\'', '\''])
      else
        let (word, rest) := splitRun (fun c => !(c = ' ' || isLineEnd c || c = '\'')) cs
        singleFrom indent fold fuel false rest (o.put word)

def single (o : Output) (indent : Nat) (fold : Bool) (cs : List Char) : Output :=
  let o := o.mark ['\''] true false false
  (singleFrom indent fold (cs.length + 1) true cs o).mark ['\''] false false false

def upperHex (n : Nat) : Char := if n < 10 then Char.ofNat (48 + n) else Char.ofNat (55 + n)

def upperHexDigits : Nat → Nat → List Char
  | 0, _ => []
  | count + 1, n => upperHexDigits count (n / 16) ++ [upperHex (n % 16)]

def escapeLetter? : Char → Option Char
  | '\x00' => some '0'
  | '\x07' => some 'a'
  | '\x08' => some 'b'
  | '\t' => some 't'
  | '\n' => some 'n'
  | '\x0b' => some 'v'
  | '\x0c' => some 'f'
  | '\r' => some 'r'
  | '\x1b' => some 'e'
  | '"' => some '"'
  | '\\' => some '\\'
  | '\x85' => some 'N'
  | '\xa0' => some '_'
  | '\u2028' => some 'L'
  | '\u2029' => some 'P'
  | _ => none

def escaped (c : Char) : List Char :=
  match escapeLetter? c with
  | some letter => ['\\', letter]
  | none =>
    let n := c.toNat
    if n ≤ 0xFF then '\\' :: 'x' :: upperHexDigits 2 n
    else if n ≤ 0xFFFF then '\\' :: 'u' :: upperHexDigits 4 n
    else '\\' :: 'U' :: upperHexDigits 8 n

/-- Whether a character cannot stand for itself in double quotes. -/
def isEscaped (c : Char) : Bool :=
  c = '"' || c = '\\' || !(32 ≤ c.toNat && c.toNat ≤ 126)

/-- A line break inside double quotes, after the characters `held`; a blank that begins the next
line is marked. -/
def foldDouble (o : Output) (indent : Nat) (held rest : List Char) : Output :=
  let o := ((o.put (held ++ ['\\'])).toIndent indent).inScalar
  if rest.head? = some ' ' then o.put ['\\'] else o

/-- The characters of a double-quoted scalar from the one at `index` on, of `length` in all.
`held` are characters not written yet, in reverse. -/
def doubleFrom (indent : Nat) (fold : Bool) (length : Nat) :
    Nat → List Char → List Char → Output → Output
  | _, held, [], o => o.put held.reverse
  | index, held, c :: rest, o =>
    let special := isEscaped c
    let o := if special then (o.put held.reverse).put (escaped c) else o
    let held := if special then [] else held
    let reach := if special then o.column - 1 else o.column + held.length
    let breaks := 0 < index && index + 1 < length && (c = ' ' || special || held.isEmpty) &&
      width < reach && fold
    if breaks then
      let next := if special then rest else c :: rest
      let o := o.foldDouble indent held.reverse next
      doubleFrom indent fold length (index + 1) (if special then [] else [c]) rest o
    else doubleFrom indent fold length (index + 1) (if special then [] else c :: held) rest o

def double (o : Output) (indent : Nat) (fold : Bool) (cs : List Char) : Output :=
  let o := o.mark ['"'] true false false
  (doubleFrom indent fold cs.length 0 [] cs o).mark ['"'] false false false

/-- A text in its style; continued lines are indented by `indent`. A key is not broken. -/
def scalar (o : Output) (indent : Nat) (key : Bool) (text : String) : Output :=
  match styleOf key text with
  | .plain => o.plain indent (!key) text.toList
  | .single => o.single indent (!key) text.toList
  | .double => o.double indent (!key) text.toList

def textOf : Scalar → String
  | .str s => s
  | other => other.text

mutual

/-- A value whose block is indented by `indent`; `mapped` for a value in a mapping. -/
def value : Value → Nat → Bool → Output → Output
  | .atom s, indent, _, o => o.scalar (indent + 2) false (textOf s)
  | .list [], _, _, o => (o.mark ['['] true true false).mark [']'] false false false
  | .list items, indent, mapped, o =>
    listItems items (if mapped && !o.fresh then indent else indent + 2) o
  | .map [], _, _, o => (o.mark ['\x7b'] true true false).mark ['\x7d'] false false false
  | .map entries, indent, _, o => mapEntries entries (indent + 2) o

def listItems : List Value → Nat → Output → Output
  | [], _, o => o
  | item :: rest, indent, o =>
    let o := (o.toIndent indent).mark ['-'] true false true
    listItems rest indent (value item indent false o)

def mapEntries : List (Scalar × Value) → Nat → Output → Output
  | [], _, o => o
  | (key, item) :: rest, indent, o =>
    let o := o.toIndent indent
    let key := textOf key
    if isSimpleKey key then
      let o := (o.scalar (indent + 2) true key).mark [':'] false false false
      mapEntries rest indent (value item indent true o)
    else
      let o := (o.mark ['?'] true false true).scalar (indent + 2) false key
      let o := (o.toIndent indent).mark [':'] true false true
      mapEntries rest indent (value item indent true o)

end

end Output

mutual

/-- A value with the entries of every mapping in the order of their keys. -/
def sortKeys : Value → Value
  | .atom s => .atom s
  | .list items => .list (sortItems items)
  | .map entries => .map ((sortEntries entries).mergeSort fun a b =>
      decide (Output.textOf a.1 ≤ Output.textOf b.1))

def sortItems : List Value → List Value
  | [] => []
  | item :: rest => sortKeys item :: sortItems rest

def sortEntries : List (Scalar × Value) → List (Scalar × Value)
  | [] => []
  | (key, item) :: rest => (key, sortKeys item) :: sortEntries rest

end

def render (v : Value) : String :=
  let o := match sortKeys v with
    | .map [] => Output.value (.map []) 0 false .start
    | .map entries => Output.mapEntries entries 0 .start
    | other => Output.value other 0 false .start
  String.ofList (o.toIndent 0).text.reverse

end Guildhall.Yaml
