import Guildhall.Yaml.Scalar

/-!
# Tokens of a document

The marks and words of a document in the order of the text. Indentation becomes marks for the
begin and the end of blocks, and a word that turns out to be a key gets a mark put before it. An
escape for half of a surrogate pair stands for the character with code zero, as there is no
character for it.
-/

namespace Guildhall.Yaml

/-- A mark or a word. A scalar is plain when it was written without quotes. -/
inductive Token
  | documentStart
  | documentEnd
  | directive
  | sequenceStart
  | mappingStart
  | blockEnd
  | flowSequenceStart
  | flowSequenceEnd
  | flowMappingStart
  | flowMappingEnd
  | entry
  | flowEntry
  | key
  | value
  | aliasOf (name : String)
  | anchor (name : String)
  | tag (text : String)
  | scalar (text : String) (plain : Bool)
  | streamEnd
  deriving DecidableEq, Repr

structure KeyPlace where
  number : Nat
  required : Bool
  index : Nat
  line : Nat
  column : Nat
  deriving DecidableEq, Repr

/-- How far the text is read, and what is known about the surroundings. The tokens are in
reverse. -/
structure Scanner where
  rest : List Char
  index : Nat
  line : Nat
  column : Nat
  flow : Nat
  indent : Int
  indents : List Int
  keyAllowed : Bool
  keys : List (Nat × KeyPlace)
  tokens : List Token
  finished : Bool

def isBreak (c : Char) : Bool :=
  c = '\n' || c = '\r' || c = '\x85' || c = '\u2028' || c = '\u2029'

def nul : Char := '\x00'

/-- Whether a character ends a word: a blank, a line end or the end of the text. -/
def isGap (c : Char) : Bool := c = nul || c = ' ' || c = '\t' || isBreak c

def oneOf (chars : String) (c : Char) : Bool := chars.toList.contains c

namespace Scanner

def start (text : List Char) : Scanner :=
  ⟨text, 0, 0, 0, 0, -1, [], true, [], [], false⟩

def peek (s : Scanner) (n : Nat) : Char := (s.rest.drop n).headD nul

def forward (s : Scanner) : Scanner :=
  match s.rest with
  | [] => s
  | c :: rest =>
    let s := { s with rest := rest, index := s.index + 1 }
    if isBreak c && !(c = '\r' && rest.head? = some '\n') then
      { s with line := s.line + 1, column := 0 }
    else if c = '\ufeff' then s
    else { s with column := s.column + 1 }

def skip (s : Scanner) : Nat → Scanner
  | 0 => s
  | n + 1 => (s.forward).skip n

def run (s : Scanner) (p : Char → Bool) : List Char := s.rest.takeWhile p

def skipWhile (s : Scanner) (p : Char → Bool) : Scanner := s.skip (s.run p).length

/-- After a line end, if there is one here, and what it stands for. -/
def lineBreak (s : Scanner) : List Char × Scanner :=
  match s.rest with
  | '\r' :: '\n' :: _ => (['\n'], s.skip 2)
  | c :: _ =>
    if c = '\n' || c = '\r' || c = '\x85' then (['\n'], s.forward)
    else if c = '\u2028' || c = '\u2029' then ([c], s.forward)
    else ([], s)
  | [] => ([], s)

/-- Whether a line of the document is `mark` here: three characters and a gap. -/
def atMark (s : Scanner) (mark : String) : Bool :=
  mark.toList.isPrefixOf s.rest && isGap (s.peek 3)

def atBoundary (s : Scanner) : Bool := s.atMark "---" || s.atMark "..."

def push (s : Scanner) (t : Token) : Scanner := { s with tokens := t :: s.tokens }

/-- A token put in at a place counted from the first one. -/
def insertAt (s : Scanner) (number : Nat) (t : Token) : Scanner :=
  let after := s.tokens.length - number
  { s with tokens := s.tokens.take after ++ t :: s.tokens.drop after }

/-- Forgets the place of a key on this level, which must not have been required. -/
def dropKey (s : Scanner) : Scan Scanner :=
  match s.keys.lookup s.flow with
  | none => .ok s
  | some place =>
    if place.required then bad
    else .ok { s with keys := s.keys.filter fun k => k.1 ≠ s.flow }

def saveKey (s : Scanner) : Scan Scanner :=
  if !s.keyAllowed then .ok s
  else do
    let required := s.flow = 0 && s.indent = Int.ofNat s.column
    let s ← s.dropKey
    let place : KeyPlace := ⟨s.tokens.length, required, s.index, s.line, s.column⟩
    return { s with keys := (s.flow, place) :: s.keys }

/-- Forgets the places of keys that are on another line or too far back. -/
def dropStaleKeys (s : Scanner) : Scan Scanner :=
  let stale (place : KeyPlace) : Bool := place.line ≠ s.line || place.index + 1024 < s.index
  if s.keys.any fun k => stale k.2 && k.2.required then bad
  else .ok { s with keys := s.keys.filter fun k => !stale k.2 }

/-- Ends the blocks that are indented more than a column, innermost first. -/
def unwind (column : Int) : List Int → Int → List Token → List Int × Int × List Token
  | [], indent, tokens =>
    if column < indent then ([], -1, .blockEnd :: tokens) else ([], indent, tokens)
  | outer :: indents, indent, tokens =>
    if column < indent then unwind column indents outer (.blockEnd :: tokens)
    else (outer :: indents, indent, tokens)

/-- Ends the blocks that are indented more than a column; inside brackets there are none. -/
def unwindTo (s : Scanner) (column : Int) : Scanner :=
  if s.flow ≠ 0 then s
  else
    let (indents, indent, tokens) := unwind column s.indents s.indent s.tokens
    { s with indents := indents, indent := indent, tokens := tokens }

def opensBlock (s : Scanner) (column : Nat) : Bool := s.indent < Int.ofNat column

/-- The scanner inside a block that begins at a column. -/
def indentTo (s : Scanner) (column : Nat) : Scanner :=
  { s with indents := s.indent :: s.indents, indent := Int.ofNat column }

def allowKey (s : Scanner) (allowed : Bool) : Scanner := { s with keyAllowed := allowed }

def mark (s : Scanner) (t : Token) : Scanner := (s.push t).forward

/-- After blanks, comments and line ends; at most `fuel` lines. -/
def toNextToken : Nat → Scanner → Scanner
  | 0, s => s
  | fuel + 1, s =>
    let s := s.skipWhile (· = ' ')
    let s := if s.peek 0 = '#' then s.skipWhile (fun c => !isBreak c) else s
    match s.lineBreak with
    | ([], s) => s
    | (_, s) => toNextToken fuel (if s.flow = 0 then s.allowKey true else s)

/-- The blanks and line ends inside a plain scalar, as they count; none when the scalar ends
here. -/
def plainBreaks : Nat → Scanner → List Char → Option (List Char) × Scanner
  | 0, s, breaks => (some breaks.reverse, s)
  | fuel + 1, s, breaks =>
    if s.peek 0 = ' ' then plainBreaks fuel s.forward breaks
    else
      match s.lineBreak with
      | ([], s) => (some breaks.reverse, s)
      | (c, s) =>
        if s.atBoundary then (none, s) else plainBreaks fuel s (c ++ breaks)

/-- What stands between two words of a plain scalar; nothing when the scalar ends here. -/
def plainSpaces (s : Scanner) : List Char × Scanner :=
  let blanks := s.run (· = ' ')
  let s := s.skip blanks.length
  match s.lineBreak with
  | ([], s) => (blanks, s)
  | (first, s) =>
    let s := s.allowKey true
    if s.atBoundary then ([], s)
    else
      match plainBreaks s.rest.length s [] with
      | (none, s) => ([], s)
      | (some breaks, s) =>
        if first ≠ ['\n'] then (first ++ breaks, s)
        else if breaks.isEmpty then ([' '], s)
        else (breaks, s)

def plainLength (flow : Bool) : List Char → Nat
  | [] => 0
  | c :: rest =>
    let next := rest.headD nul
    let ends := isGap c || (c = ':' && (isGap next || (flow && oneOf ",[]\x7b\x7d" next))) ||
      (flow && oneOf ",?[]\x7b\x7d" c)
    if ends then 0 else plainLength flow rest + 1

/-- The rest of a plain scalar, with what stands before its next word. -/
def plainRest (indent : Int) : Nat → Scanner → List Char → List Char → List Char × Scanner
  | 0, s, done, _ => (done, s)
  | fuel + 1, s, done, spaces =>
    if s.peek 0 = '#' then (done, s)
    else
      let length := plainLength (s.flow ≠ 0) s.rest
      if length = 0 then (done, s)
      else
        let done := done ++ spaces ++ s.rest.take length
        let (spaces, s) := ((s.allowKey false).skip length).plainSpaces
        if spaces.isEmpty || s.peek 0 = '#' || (s.flow = 0 && Int.ofNat s.column < indent) then
          (done, s)
        else plainRest indent fuel s done spaces

def plain (s : Scanner) : Scanner :=
  let (text, after) := plainRest (s.indent + 1) s.rest.length s [] []
  after.push (.scalar (String.ofList text) true)

/-- The line ends after the first inside a quoted scalar; a document must not end there. -/
def quotedBreaks : Nat → Scanner → List Char → Scan (List Char × Scanner)
  | 0, s, breaks => .ok (breaks.reverse, s)
  | fuel + 1, s, breaks =>
    if s.atBoundary then bad
    else
      let s := s.skipWhile fun c => c = ' ' || c = '\t'
      match s.lineBreak with
      | ([], s) => .ok (breaks.reverse, s)
      | (c, s) => quotedBreaks fuel s (c ++ breaks)

/-- The blanks and line ends inside a quoted scalar, as they count. -/
def quotedSpaces (s : Scanner) : Scan (List Char × Scanner) :=
  let blanks := s.run fun c => c = ' ' || c = '\t'
  let s := s.skip blanks.length
  if s.rest.isEmpty then bad
  else
    match s.lineBreak with
    | ([], s) => .ok (blanks, s)
    | (first, s) => do
      let (breaks, s) ← quotedBreaks (s.rest.length + 1) s []
      return (if first ≠ ['\n'] then first ++ breaks
        else if breaks.isEmpty then [' '] else breaks, s)

def escapeChar? : Char → Option Char
  | '0' => some nul
  | 'a' => some '\x07'
  | 'b' => some '\x08'
  | 't' => some '\t'
  | '\t' => some '\t'
  | 'n' => some '\n'
  | 'v' => some '\x0b'
  | 'f' => some '\x0c'
  | 'r' => some '\r'
  | 'e' => some '\x1b'
  | ' ' => some ' '
  | '"' => some '"'
  | '\\' => some '\\'
  | '/' => some '/'
  | 'N' => some '\x85'
  | '_' => some '\xa0'
  | 'L' => some '\u2028'
  | 'P' => some '\u2029'
  | _ => none

def escapeDigits? : Char → Option Nat
  | 'x' => some 2
  | 'u' => some 4
  | 'U' => some 8
  | _ => none

/-- The escape here, after the backslash: what it stands for. -/
def escape (s : Scanner) : Scan (List Char × Scanner) :=
  let c := s.peek 0
  match escapeChar? c with
  | some image => .ok ([image], s.forward)
  | none =>
    match escapeDigits? c with
    | some count =>
      let digits := (s.rest.drop 1).take count
      if digits.length = count && digits.all (fun d => (Json.hexValue? d).isSome) then
        let code := digits.foldl (fun n d => n * 16 + (Json.hexValue? d).getD 0) 0
        if code < 0x110000 then .ok ([Char.ofNat code], s.skip (count + 1))
        else if code < 0x80000000 then badValue
        else .error (.unforeseen .tooLarge)
      else bad
    | none =>
      match s.lineBreak with
      | ([], _) => bad
      | (_, s) => quotedBreaks (s.rest.length + 1) s []

def quotedRest (double : Bool) : Nat → Scanner → List Char → Scan (List Char × Scanner)
  | 0, _, _ => bad
  | fuel + 1, s, done =>
    match s.rest with
    | [] => bad
    | c :: rest =>
      if c = ' ' || c = '\t' || isBreak c then do
        let (spaces, s) ← s.quotedSpaces
        quotedRest double fuel s (done ++ spaces)
      else if double then
        if c = '"' then .ok (done, s.forward)
        else if c = '\\' then do
          let (image, s) ← s.forward.escape
          quotedRest double fuel s (done ++ image)
        else
          let word := s.run fun c => !(c = '"' || c = '\\' || isGap c)
          quotedRest double fuel (s.skip word.length) (done ++ word)
      else if c = '\'' then
        if rest.head? = some '\'' then quotedRest double fuel (s.skip 2) (done ++ ['\''])
        else .ok (done, s.forward)
      else
        let word := s.run fun c => !(c = '\'' || isGap c)
        quotedRest double fuel (s.skip word.length) (done ++ word)

def quoted (s : Scanner) (double : Bool) : Scan Scanner := do
  let (text, s) ← quotedRest double (s.rest.length + 1) s.forward []
  return s.push (.scalar (String.ofList text) false)

/-- What happens to the line ends at the end of a block scalar. -/
inductive Chomp
  | strip
  | clip
  | keep
  deriving DecidableEq

/-- The marks after the begin of a block scalar: chomping and the indentation, if given. -/
def blockMarks (s : Scanner) : Scan (Chomp × Option Nat × Scanner) :=
  let chomp (c : Char) : Option Chomp :=
    if c = '+' then some .keep else if c = '-' then some .strip else none
  let digit (c : Char) : Option Nat := if Json.isDigit c then some (c.toNat - 48) else none
  let finish (ch : Chomp) (n : Option Nat) (s : Scanner) : Scan (Chomp × Option Nat × Scanner) :=
    if n = some 0 then bad
    else if s.peek 0 = ' ' || isBreak (s.peek 0) || s.rest.isEmpty then .ok (ch, n, s) else bad
  match chomp (s.peek 0), digit (s.peek 0) with
  | some ch, _ =>
    match digit (s.peek 1) with
    | some n => finish ch (some n) (s.skip 2)
    | none => finish ch none s.forward
  | none, some n =>
    match chomp (s.peek 1) with
    | some ch => finish ch (some n) (s.skip 2)
    | none => finish .clip (some n) s.forward
  | none, none => finish .clip none s

/-- The empty lines before the text of a block scalar, and the widest indentation among them. -/
def blockIndentation : Nat → Scanner → List Char → Nat → List Char × Nat × Scanner
  | 0, s, breaks, widest => (breaks, widest, s)
  | fuel + 1, s, breaks, widest =>
    if s.peek 0 = ' ' then
      let s := s.forward
      blockIndentation fuel s breaks (max widest s.column)
    else
      match s.lineBreak with
      | ([], s) => (breaks, widest, s)
      | (c, s) => blockIndentation fuel s (breaks ++ c) widest

/-- The empty lines inside a block scalar of an indentation. -/
def blockBreaks (indent : Nat) : Nat → Scanner → List Char → List Char × Scanner
  | 0, s, breaks => (breaks, s)
  | fuel + 1, s, breaks =>
    let blanks := ((s.run (· = ' ')).take (indent - s.column)).length
    let s := s.skip blanks
    match s.lineBreak with
    | ([], s) => (breaks, s)
    | (c, s) => blockBreaks indent fuel s (breaks ++ c)

/-- The lines of a block scalar: its text, the last line end and the empty lines after it. -/
def blockLines (folded : Bool) (indent : Nat) :
    Nat → Scanner → List Char → List Char → List Char × List Char × List Char × Scanner
  | 0, s, done, breaks => (done, [], breaks, s)
  | fuel + 1, s, done, breaks =>
    if s.column ≠ indent || s.rest.isEmpty then (done, [], breaks, s)
    else
      let flush := !(s.peek 0 = ' ' || s.peek 0 = '\t')
      let line := s.run fun c => !isBreak c
      let done := done ++ breaks ++ line
      let (last, s) := (s.skip line.length).lineBreak
      let (breaks, s) := blockBreaks indent (s.rest.length + 1) s []
      if s.column = indent && !s.rest.isEmpty then
        let joined := folded && last = ['\n'] && flush && !(s.peek 0 = ' ' || s.peek 0 = '\t')
        let between := if joined then (if breaks.isEmpty then [' '] else []) else last
        blockLines folded indent fuel s (done ++ between) breaks
      else (done, last, breaks, s)

def block (s : Scanner) (folded : Bool) : Scan Scanner := do
  let (chomp, width, s) ← s.forward.blockMarks
  let s := s.skipWhile (· = ' ')
  let s := if s.peek 0 = '#' then s.skipWhile (fun c => !isBreak c) else s
  if !s.rest.isEmpty && !isBreak (s.peek 0) then bad
  let s := (s.lineBreak).2
  let least := max 1 (s.indent + 1).toNat
  let (breaks, indent, s) := match width with
    | none =>
      let (breaks, widest, s) := blockIndentation (s.rest.length + 1) s [] 0
      (breaks, max least widest, s)
    | some n =>
      let indent := least + n - 1
      let (breaks, s) := blockBreaks indent (s.rest.length + 1) s []
      (breaks, indent, s)
  let (text, last, after, s) := blockLines folded indent (s.rest.length + 1) s [] breaks
  let ending := match chomp with
    | .strip => []
    | .clip => last
    | .keep => last ++ after
  return s.push (.scalar (String.ofList (text ++ ending)) false)

def isNameChar (c : Char) : Bool := c.isAlphanum || c = '-' || c = '_'

def name (s : Scanner) : Scan (String × Scanner) :=
  let s := s.forward
  let cs := s.run isNameChar
  let s := s.skip cs.length
  if cs.isEmpty || !(isGap (s.peek 0) || oneOf "?:,]\x7d%@\x60" (s.peek 0)) then bad
  else .ok (String.ofList cs, s)

def isTagChar (c : Char) : Bool := c.isAlphanum || oneOf "-;/?:@&=+$,_.!~*'()[]%" c

/-- The tag here, in its short or its long form. A tab does not end it. -/
def tag (s : Scanner) : Scan Scanner :=
  let cs := s.run fun c => c = '\t' || !isGap c
  let body := match cs.drop 1 with
    | '<' :: long => if long.getLast? = some '>' then long.dropLast else cs
    | short => short
  if body.all isTagChar then .ok ((s.skip cs.length).push (.tag (String.ofList cs))) else bad

def blockEntry (s : Scanner) : Scan Scanner := do
  let s ← if s.flow = 0 then
      if !s.keyAllowed then bad
      else if s.opensBlock s.column then .ok ((s.indentTo s.column).push .sequenceStart)
      else .ok s
    else .ok s
  let s ← (s.allowKey true).dropKey
  return s.mark .entry

def explicitKey (s : Scanner) : Scan Scanner := do
  let s ← if s.flow = 0 then
      if !s.keyAllowed then bad
      else if s.opensBlock s.column then .ok ((s.indentTo s.column).push .mappingStart)
      else .ok s
    else .ok s
  let s ← (s.allowKey (s.flow = 0)).dropKey
  return s.mark .key

/-- The token before a value. The word before it becomes a key if it can. -/
def valueMark (s : Scanner) : Scan Scanner :=
  match s.keys.lookup s.flow with
  | some place =>
    let s := { s with keys := s.keys.filter fun k => k.1 ≠ s.flow }
    let s := s.insertAt place.number .key
    let s := if s.flow = 0 && s.opensBlock place.column then
        (s.indentTo place.column).insertAt place.number .mappingStart
      else s
    .ok ((s.allowKey false).mark .value)
  | none => do
    let s ← if s.flow = 0 then
        if !s.keyAllowed then bad
        else if s.opensBlock s.column then .ok ((s.indentTo s.column).push .mappingStart)
        else .ok s
      else .ok s
    let s ← (s.allowKey (s.flow = 0)).dropKey
    return s.mark .value

def boundary (s : Scanner) (t : Token) : Scan Scanner := do
  let s ← (s.unwindTo (-1)).dropKey
  return ((s.allowKey false).push t).skip 3

def atEnd (s : Scanner) : Scan Scanner := do
  let s ← (s.unwindTo (-1)).dropKey
  return { s.push .streamEnd with finished := true, keys := [] }

def beginsPlain (s : Scanner) : Bool :=
  let c := s.peek 0
  !(isGap c || oneOf "-?:,[]\x7b\x7d#&*!|>'\"%@\x60" c) ||
    (!isGap (s.peek 1) && (c = '-' || (s.flow = 0 && (c = '?' || c = ':'))))

def fetch (s : Scanner) : Scan Scanner := do
  let s := toNextToken (s.rest.length + 1) s
  let s ← s.dropStaleKeys
  let s := s.unwindTo (Int.ofNat s.column)
  let c := s.peek 0
  let block := s.flow = 0
  if s.rest.isEmpty then s.atEnd
  else if c = '%' && s.column = 0 then
    let s ← (s.unwindTo (-1)).dropKey
    return ((s.allowKey false).push .directive).skipWhile fun c => !isBreak c
  else if s.column = 0 && s.atMark "---" then s.boundary .documentStart
  else if s.column = 0 && s.atMark "..." then s.boundary .documentEnd
  else if c = '[' || c = '\x7b' then
    let s ← s.saveKey
    let t := if c = '[' then Token.flowSequenceStart else Token.flowMappingStart
    return (({ s with flow := s.flow + 1 } : Scanner).allowKey true).mark t
  else if c = ']' || c = '\x7d' then
    let s ← s.dropKey
    let t := if c = ']' then Token.flowSequenceEnd else Token.flowMappingEnd
    return (({ s with flow := s.flow - 1 } : Scanner).allowKey false).mark t
  else if c = ',' then
    let s ← (s.allowKey true).dropKey
    return s.mark .flowEntry
  else if c = '-' && isGap (s.peek 1) then s.blockEntry
  else if c = '?' && (!block || isGap (s.peek 1)) then s.explicitKey
  else if c = ':' && (!block || isGap (s.peek 1)) then s.valueMark
  else if c = '*' then
    let s ← s.saveKey
    let (name, s) ← (s.allowKey false).name
    return s.push (.aliasOf name)
  else if c = '&' then
    let s ← s.saveKey
    let (name, s) ← (s.allowKey false).name
    return s.push (.anchor name)
  else if c = '!' then
    let s ← s.saveKey
    (s.allowKey false).tag
  else if block && (c = '|' || c = '>') then
    let s ← (s.allowKey true).dropKey
    s.block (c = '>')
  else if c = '\'' || c = '"' then
    let s ← s.saveKey
    (s.allowKey false).quoted (c = '"')
  else if s.beginsPlain then
    let s ← s.saveKey
    return (s.allowKey false).plain
  else bad

def scanAll : Nat → Scanner → Scan (List Token)
  | 0, _ => bad
  | fuel + 1, s => do
    if s.finished then return s.tokens.reverse
    scanAll fuel (← s.fetch)

end Scanner

def isAllowed (c : Char) : Bool :=
  let n := c.toNat
  n == 9 || n == 10 || n == 13 || (0x20 ≤ n && n ≤ 0x7E) || n == 0x85 ||
    (0xA0 ≤ n && n ≤ 0xD7FF) || (0xE000 ≤ n && n ≤ 0xFFFD) || 0x10000 ≤ n

def tokenize (text : List Char) : Scan (List Token) :=
  if !text.all isAllowed then bad
  else
    let s := Scanner.start text
    let s := if s.peek 0 = '\ufeff' then s.forward else s
    Scanner.scanAll (2 * text.length + 4) s

end Guildhall.Yaml
