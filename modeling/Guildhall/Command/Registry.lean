import Guildhall.Assoc
import Guildhall.Command.Definition

/-!
# Command registry

A forest of commands. Nodes are addressed by their position in the order of registration, and
each level of the forest has an index from names and aliases to positions.
-/

namespace Guildhall.Command

/-- The commands directly under one command, or at the root: their positions in order, and the
positions that names and aliases lead to. -/
structure Level where
  members : List Nat
  keys : List (String × Nat)
  deriving DecidableEq, Repr

def Level.empty : Level := ⟨[], []⟩

def Level.insert (l : Level) (keys : List String) (id : Nat) : Level :=
  ⟨l.members ++ [id], l.keys ++ keys.map (·, id)⟩

structure Node (ε : Type) where
  definition : Definition ε
  parent : Option Nat
  level : Level

structure Registry (ε : Type) where
  nodes : List (Node ε)
  top : Level
  isSealed : Bool

structure Draft (ε : Type) where
  definition : Definition ε
  id : Option Nat

namespace Registry

variable {ε : Type}

def empty : Registry ε := ⟨[], .empty, false⟩

def size (r : Registry ε) : Nat := r.nodes.length

def close (r : Registry ε) : Registry ε := { r with isSealed := true }

def levelOf (r : Registry ε) : Option Nat → Level
  | none => r.top
  | some id => (r.nodes[id]?.map (·.level)).getD .empty

/-- The command that a word leads to from a level. -/
def child? (r : Registry ε) (parent : Option Nat) (word : String) : Option Nat :=
  (r.levelOf parent).keys.lookup (Text.lower word)

def namesUp (r : Registry ε) : Nat → Option Nat → List String
  | 0, _ => []
  | _ + 1, none => []
  | fuel + 1, some id =>
    match r.nodes[id]? with
    | none => []
    | some node => namesUp r fuel node.parent ++ [node.definition.name]

def qualifiedName (r : Registry ε) (id : Option Nat) : String :=
  " ".intercalate (r.namesUp (r.size + 1) id)

/-- The command at the end of a path from `parent`; `path` is the whole path, for the error. -/
def walkPath (r : Registry ε) (path : List String) :
    Option Nat → List String → Except RegistrationError (Option Nat)
  | parent, [] => .ok parent
  | parent, word :: rest =>
    match r.child? parent word with
    | some id => r.walkPath path (some id) rest
    | none => .error (.unknownParent (" ".intercalate path) word)

/-- The registry with a node put below `parent`. -/
def insert (r : Registry ε) (parent : Option Nat) (d : Definition ε) : Registry ε :=
  let id := r.size
  let node : Node ε := ⟨d, parent, .empty⟩
  match parent with
  | none => { r with nodes := r.nodes ++ [node], top := r.top.insert d.keys id }
  | some p =>
    let grown := r.nodes.modify p fun above => { above with level := above.level.insert d.keys id }
    { r with nodes := grown ++ [node] }

/-- Registers a well-formed definition below the command at `path`. -/
def register (r : Registry ε) (path : List String) (d : Definition ε) :
    Except RegistrationError (Registry ε) :=
  if r.isSealed then .error .locked
  else
    match r.walkPath path none path with
    | .error e => .error e
    | .ok parent =>
      let taken := (r.levelOf parent).keys.map (·.1)
      match d.keys.find? (taken.contains ·) with
      | some key => .error (.duplicateCommand key (r.qualifiedName parent))
      | none =>
        if d.keys.Nodup then .ok (r.insert parent d)
        else .error (.duplicateCommand d.name (r.qualifiedName parent))

/-- Checks a definition and registers it; its position is the number of commands before. -/
def add (r : Registry ε) (path : List String) (d : Definition ε) :
    Except RegistrationError (Registry ε) := do
  r.register path (← d.check)

def registerDraft (r : Registry ε) (path : List String) (draft : Draft ε) :
    Except RegistrationError (Registry ε × Draft ε) :=
  match draft.id with
  | some _ =>
    .error (.invalid s!"Command '{draft.definition.name}' is already part of a registry")
  | none => do
    let grown ← r.register path draft.definition
    return (grown, { draft with id := some r.size })

/-- The deepest command that words lead to from `here`, and the words left over. -/
def descend (r : Registry ε) : Option Nat → List String → Option Nat × List String
  | here, [] => (here, [])
  | here, word :: rest =>
    match r.child? here word with
    | some id => r.descend (some id) rest
    | none => (here, word :: rest)

/-- The command that a message begins with, and the words after it. -/
def lookup (r : Registry ε) (words : List String) : Option Nat × List String :=
  r.descend none words

/-- The command whose path is exactly the given one. -/
def get (r : Registry ε) (path : List String) : Option Nat :=
  match r.lookup path with
  | (id, []) => id
  | _ => none

def roots (r : Registry ε) : List Nat := r.top.members

/-- The commands directly under a command, in order of registration. -/
def children (r : Registry ε) (id : Nat) : List Nat := (r.levelOf (some id)).members

def parent (r : Registry ε) (id : Nat) : Option Nat := r.nodes[id]?.bind (·.parent)

def definition? (r : Registry ε) (id : Nat) : Option (Definition ε) :=
  r.nodes[id]?.map (·.definition)

def name (r : Registry ε) (id : Nat) : String :=
  ((r.definition? id).map (·.name)).getD ""

/-- Depths and positions depth first, in at most `fuel` steps: the last of the pending ones is next,
and those under it are pending after it, the first one last. -/
def walkFrom (r : Registry ε) : Nat → List (Nat × Nat) → List (Nat × Nat)
  | 0, _ => []
  | fuel + 1, stack =>
    match stack.getLast? with
    | none => []
    | some (depth, id) =>
      (depth, id) :: walkFrom r fuel
        (stack.dropLast ++ (r.children id).reverse.map (depth + 1, ·))

/-- All commands depth first, with their depths. -/
def walk (r : Registry ε) : List (Nat × Nat) :=
  r.walkFrom r.size (r.roots.reverse.map (0, ·))

end Registry

end Guildhall.Command
