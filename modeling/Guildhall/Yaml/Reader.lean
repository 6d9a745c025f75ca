import Guildhall.Yaml.Scanner

/-!
# Reading documents

Tokens become a tree of nodes, and the tree a value. Names refer to earlier nodes, plain words
become numbers and the like, and mappings may take in the entries of others.

Of what a document may hold some is left out. Tags for bytes, sets and lists of pairs count as
unknown ones, and so does the tag of a scalar on a collection. Directives are passed over. A name
refers to a node that is complete, so no value is part of itself. The nesting of nodes has no bound
here, where in truth the stack is exhausted after some hundred levels.
-/

namespace Guildhall.Yaml

/-- A part of a document. The kind of a scalar says what its text stands for. A collection that is
not `fit` has the tag of something else; its entries can still be taken in by others. -/
inductive Node
  | scalar (kind : Kind) (text : String)
  | sequence (fit : Bool) (items : List Node)
  | mapping (fit : Bool) (entries : List (Node × Node))
  deriving Repr, Inhabited

structure Parser where
  tokens : List Token
  anchors : List (String × Node)

namespace Parser

def peek (p : Parser) : Token := p.tokens.headD .streamEnd

def next (p : Parser) : Parser := { p with tokens := p.tokens.tail }

def nothing : Node := .scalar .null ""

structure Properties where
  anchor : Option String
  tag : Option String

/-- The name and the tag at the next token, in either order. -/
def properties (p : Parser) : Properties × Parser :=
  match p.peek with
  | .anchor name =>
    match p.next.peek with
    | .tag text => (⟨some name, some text⟩, p.next.next)
    | _ => (⟨some name, none⟩, p.next)
  | .tag text =>
    match p.next.peek with
    | .anchor name => (⟨some name, some text⟩, p.next.next)
    | _ => (⟨none, some text⟩, p.next)
  | _ => (⟨none, none⟩, p)

def named (anchor : Option String) (n : Node) (p : Parser) : Scan (Node × Parser) :=
  match anchor with
  | none => .ok (n, p)
  | some name =>
    if (p.anchors.lookup name).isSome then bad
    else .ok (n, { p with anchors := (name, n) :: p.anchors })

def shortTag (tag : String) : String :=
  let long := "!<tag:yaml.org,2002:".toList
  let cs := tag.toList
  if long.isPrefixOf cs && cs.getLast? = some '>' then
    "!!" ++ String.ofList (cs.drop long.length).dropLast
  else tag

/-- A scalar with a tag. Without one quoted words are text and plain ones are what they look like;
the lone mark makes a word plain. -/
def scalarNode (text : String) (plain : Bool) (tag : Option String) : Node :=
  let kind := match tag.map shortTag with
    | none => if plain then kindOf text else .text
    | some "!" => kindOf text
    | some "!!str" => .text
    | some "!!null" => .null
    | some "!!bool" => .bool
    | some "!!int" => .int
    | some "!!float" => .float
    | some "!!timestamp" => .timestamp
    | some "!!merge" => .merge
    | some "!!value" => .default
    | some _ => .foreign
  .scalar kind text

def tagFits (kind : String) (tag : Option String) : Bool :=
  match tag.map shortTag with
  | none => true
  | some tag => tag = "!" || tag = "!!" ++ kind

mutual

/-- The node at the next token. `block` allows blocks, and `loose` a sequence that is not
indented. -/
def node : Nat → Bool → Bool → Parser → Scan (Node × Parser)
  | 0, _, _, _ => bad
  | fuel + 1, block, loose, p =>
    match p.peek with
    | .aliasOf name =>
      match p.anchors.lookup name with
      | some n => .ok (n, p.next)
      | none => bad
    | _ => do
      let (props, p) := p.properties
      let sequence (items : List Node) (p : Parser) : Scan (Node × Parser) :=
        named props.anchor (.sequence (tagFits "seq" props.tag) items) p
      let mapping (entries : List (Node × Node)) (p : Parser) : Scan (Node × Parser) :=
        named props.anchor (.mapping (tagFits "map" props.tag) entries) p
      match p.peek with
      | .entry =>
        if loose then
          let (items, p) ← looseItems fuel p
          sequence items p
        else bad
      | .scalar text plain => named props.anchor (scalarNode text plain props.tag) p.next
      | .flowSequenceStart =>
        let (items, p) ← flowItems fuel true p.next
        sequence items p
      | .flowMappingStart =>
        let (entries, p) ← flowEntries fuel true p.next
        mapping entries p
      | .sequenceStart =>
        if block then
          let (items, p) ← blockItems fuel p.next
          sequence items p
        else bad
      | .mappingStart =>
        if block then
          let (entries, p) ← blockEntries fuel p.next
          mapping entries p
        else bad
      | _ =>
        if props.anchor.isSome || props.tag.isSome then
          named props.anchor (scalarNode "" true props.tag) p
        else bad

def blockItems : Nat → Parser → Scan (List Node × Parser)
  | 0, _ => bad
  | fuel + 1, p =>
    match p.peek with
    | .blockEnd => .ok ([], p.next)
    | .entry => do
      let p := p.next
      let (item, p) ← match p.peek with
        | .entry => .ok (nothing, p)
        | .blockEnd => .ok (nothing, p)
        | _ => node fuel true false p
      let (items, p) ← blockItems fuel p
      return (item :: items, p)
    | _ => bad

def looseItems : Nat → Parser → Scan (List Node × Parser)
  | 0, _ => bad
  | fuel + 1, p =>
    match p.peek with
    | .entry => do
      let p := p.next
      let (item, p) ← match p.peek with
        | .entry => .ok (nothing, p)
        | .key => .ok (nothing, p)
        | .value => .ok (nothing, p)
        | .blockEnd => .ok (nothing, p)
        | _ => node fuel true false p
      let (items, p) ← looseItems fuel p
      return (item :: items, p)
    | _ => .ok ([], p)

def blockPart : Nat → Parser → Scan (Node × Parser)
  | 0, _ => bad
  | fuel + 1, p =>
    match p.peek with
    | .key => .ok (nothing, p)
    | .value => .ok (nothing, p)
    | .blockEnd => .ok (nothing, p)
    | _ => node fuel true true p

def blockEntries : Nat → Parser → Scan (List (Node × Node) × Parser)
  | 0, _ => bad
  | fuel + 1, p =>
    match p.peek with
    | .blockEnd => .ok ([], p.next)
    | .key => do
      let (key, p) ← blockPart fuel p.next
      let (value, p) ← match p.peek with
        | .value => blockPart fuel p.next
        | _ => .ok (nothing, p)
      let (entries, p) ← blockEntries fuel p
      return ((key, value) :: entries, p)
    | _ => bad

def flowPart : Nat → Parser → Scan (Node × Parser)
  | 0, _ => bad
  | fuel + 1, p =>
    match p.peek with
    | .value => .ok (nothing, p)
    | .flowEntry => .ok (nothing, p)
    | .flowSequenceEnd => .ok (nothing, p)
    | .flowMappingEnd => .ok (nothing, p)
    | _ => node fuel false false p

/-- The items of a sequence in brackets; a key makes an item a mapping of one entry. -/
def flowItems : Nat → Bool → Parser → Scan (List Node × Parser)
  | 0, _, _ => bad
  | fuel + 1, first, p =>
    match p.peek with
    | .flowSequenceEnd => .ok ([], p.next)
    | t => do
      let p ← if first then .ok p else if t = .flowEntry then .ok p.next else bad
      match p.peek with
      | .flowSequenceEnd => return ([], p.next)
      | .key =>
        let (key, p) ← flowPart fuel p.next
        let (value, p) ← match p.peek with
          | .value => flowPart fuel p.next
          | _ => .ok (nothing, p)
        let (items, p) ← flowItems fuel false p
        return (.mapping true [(key, value)] :: items, p)
      | _ =>
        let (item, p) ← node fuel false false p
        let (items, p) ← flowItems fuel false p
        return (item :: items, p)

def flowEntries : Nat → Bool → Parser → Scan (List (Node × Node) × Parser)
  | 0, _, _ => bad
  | fuel + 1, first, p =>
    match p.peek with
    | .flowMappingEnd => .ok ([], p.next)
    | t => do
      let p ← if first then .ok p else if t = .flowEntry then .ok p.next else bad
      match p.peek with
      | .flowMappingEnd => return ([], p.next)
      | .key =>
        let (key, p) ← flowPart fuel p.next
        let (value, p) ← match p.peek with
          | .value => flowPart fuel p.next
          | _ => .ok (nothing, p)
        let (entries, p) ← flowEntries fuel false p
        return ((key, value) :: entries, p)
      | _ =>
        let (key, p) ← node fuel false false p
        let (entries, p) ← flowEntries fuel false p
        return ((key, nothing) :: entries, p)

end

def skipEnds (p : Parser) : Parser :=
  { p with tokens := p.tokens.dropWhile (· == .documentEnd) }

/-- Whether a token ends a document or begins another one. -/
def isBoundary : Token → Bool
  | .directive => true
  | .documentStart => true
  | .documentEnd => true
  | .streamEnd => true
  | _ => false

def explicitDocument (fuel : Nat) (p : Parser) : Scan (Option Node × Parser) :=
  if p.peek = .streamEnd then .ok (none, p)
  else
    let p : Parser := { p with tokens := p.tokens.dropWhile (· == Token.directive) }
    if p.peek ≠ .documentStart then bad
    else if isBoundary p.next.peek then .ok (some nothing, p.next)
    else do
      let (n, p) ← node fuel true false p.next
      return (some n, p)

def document (fuel : Nat) (p : Parser) : Scan (Option Node × Parser) :=
  if p.peek = .streamEnd then .ok (none, p)
  else if isBoundary p.peek then explicitDocument fuel p.skipEnds
  else do
    let (n, p) ← node fuel true false p
    return (some n, p)

/-- The root node of the only document; none for an empty text. -/
def root (tokens : List Token) : Scan (Option Node) := do
  let (n, p) ← document (2 * tokens.length + 4) ⟨tokens, []⟩
  if p.skipEnds.peek = .streamEnd then return n else bad

end Parser

def isMerge : Node → Bool
  | .scalar .merge _ => true
  | _ => false

/-- Faults by depth: of each level the one that is met first. -/
abbrev Faults := List (Option Fault)

/-- The faults of two parts, the first of which is looked at before the second on every level. -/
def beside : Faults → Faults → Faults
  | [], others => others
  | faults, [] => faults
  | fault :: faults, other :: others => fault.or other :: beside faults others

def faultHere {α : Type} (x : Scan α) : Faults :=
  match x with
  | .ok _ => []
  | .error fault => [some fault]

mutual

/-- Whether a mapping takes in nothing but mappings. -/
def mergesMappings : List (Node × Node) → Bool
  | [] => true
  | (key, item) :: rest =>
    (!isMerge key || match item with
      | .mapping _ entries => mergesMappings entries
      | .sequence _ items => areMergeable items
      | .scalar _ _ => false) && mergesMappings rest

def areMergeable : List Node → Bool
  | [] => true
  | item :: rest =>
    (match item with
      | .mapping _ entries => mergesMappings entries
      | _ => false) && areMergeable rest

end

mutual

/-- The faults of a node. The parts of a collection are looked at after all that stands beside it,
and what a mapping takes in before anything in it. -/
def Node.faults : Node → Faults
  | .scalar kind text => faultHere (scalarValue kind text)
  | .sequence fit items => if fit then none :: itemFaults items else [some (.known .malformedText)]
  | .mapping fit entries =>
    if fit then
      none :: beside (if mergesMappings entries then [] else [some (.known .malformedText)])
        (beside (mergedFaults entries) (ownFaults entries))
    else [some (.known .malformedText)]

def itemFaults : List Node → Faults
  | [] => []
  | item :: rest => beside item.faults (itemFaults rest)

def ownFaults : List (Node × Node) → Faults
  | [] => []
  | (key, item) :: rest =>
    match key with
    | .scalar .merge _ => ownFaults rest
    | .scalar .default _ => beside item.faults (ownFaults rest)
    | .scalar kind text =>
      beside (faultHere (scalarValue kind text)) (beside item.faults (ownFaults rest))
    | _ => [some (.known .malformedText)]

def mergedFaults : List (Node × Node) → Faults
  | [] => []
  | (key, item) :: rest =>
    let here := if isMerge key then
        match item with
        | .mapping _ entries => beside (mergedFaults entries) (ownFaults entries)
        | .sequence _ items => mergedItemFaults items
        | .scalar _ _ => []
      else []
    beside here (mergedFaults rest)

def mergedItemFaults : List Node → Faults
  | [] => []
  | item :: rest =>
    beside (mergedItemFaults rest) (match item with
      | .mapping _ entries => beside (mergedFaults entries) (ownFaults entries)
      | _ => [])

end

/-- The word as a scalar; null for one that is none. -/
def scalarOf (kind : Kind) (text : String) : Scalar := (scalarValue kind text).toOption.getD .null

mutual

/-- The value of a node without faults. -/
def Node.value : Node → Value
  | .scalar kind text => .atom (scalarOf kind text)
  | .sequence _ items => .list (itemValues items)
  | .mapping _ entries =>
    .map ((mergedEntries entries ++ ownEntries entries).foldl
      (fun done (k, v) => Value.insertEntry k v done) [])

def itemValues : List Node → List Value
  | [] => []
  | item :: rest => item.value :: itemValues rest

/-- The entries of a mapping itself; keys are scalars. -/
def ownEntries : List (Node × Node) → List (Scalar × Value)
  | [] => []
  | (key, item) :: rest =>
    match key with
    | .scalar .merge _ => ownEntries rest
    | .scalar .default text => (.str text, item.value) :: ownEntries rest
    | .scalar kind text => (scalarOf kind text, item.value) :: ownEntries rest
    | _ => ownEntries rest

def mergedEntries : List (Node × Node) → List (Scalar × Value)
  | [] => []
  | (key, item) :: rest =>
    let here := if isMerge key then
        match item with
        | .mapping _ entries => mergedEntries entries ++ ownEntries entries
        | .sequence _ items => mergedItems items
        | .scalar _ _ => []
      else []
    here ++ mergedEntries rest

/-- The entries taken in from several mappings, those of the last one first. -/
def mergedItems : List Node → List (Scalar × Value)
  | [] => []
  | item :: rest =>
    mergedItems rest ++ match item with
      | .mapping _ entries => mergedEntries entries ++ ownEntries entries
      | _ => []

end

/-- The value that a text writes; null for an empty text. Of several faults the least deep one is
told. -/
def parse (text : List Char) : Scan Value := do
  match ← Parser.root (← tokenize text) with
  | none => return .null
  | some n =>
    match n.faults.findSome? id with
    | some fault => .error fault
    | none => return n.value

end Guildhall.Yaml
