import Guildhall.Text.Blank
import Guildhall.Text.Case
import Guildhall.Text.Quoted

/-!
# Permission identifiers

Dotted identifiers such as `admin.kick`. A last segment `*` stands for everything strictly below
the segments before it, and a lone `*` for everything.
-/

namespace Guildhall.Permission

inductive Malformed
  | identifier (value : String)
  | wildcard (value : String)
  deriving DecidableEq, Repr

def Malformed.message : Malformed → String
  | identifier value => "Invalid permission identifier: " ++ Text.quoted value
  | wildcard value => "Wildcard must be the last segment: " ++ Text.quoted value

def segments (value : String) : List (List Char) :=
  Text.splitChars '.' value.toList

/-- What keeps a text from being an identifier, if anything: an empty or blank segment, or a
star that is not the whole last segment. -/
def fault? (value : String) : Option Malformed :=
  let parts := segments value
  if parts.any fun p => p.isEmpty || p.any Text.isBlank then some (.identifier value)
  else if parts.dropLast.contains ['*'] || parts.any fun p => p.contains '*' && p != ['*'] then
    some (.wildcard value)
  else none

structure Node where
  value : String
  valid : fault? value = none
  deriving DecidableEq, Repr

namespace Node

/-- The identifier written exactly as given. -/
def ofValue (value : String) : Except Malformed Node :=
  match h : fault? value with
  | none => .ok ⟨value, h⟩
  | some fault => .error fault

/-- The identifier a text names: blanks around it and case do not matter. -/
def parse (text : String) : Except Malformed Node :=
  ofValue (Text.lower (Text.trim text))

def parts (n : Node) : List (List Char) :=
  segments n.value

def isWildcard (n : Node) : Bool :=
  n.parts.getLast? == some ['*']

/-- The segments that a wildcard's identifiers begin with. -/
def stem (n : Node) : List (List Char) :=
  n.parts.dropLast

/-- Whether holding `held` is enough where `required` is asked for. -/
def covers (held required : Node) : Bool :=
  held == required ||
    (held.isWildcard && held.stem.length < required.parts.length &&
      held.stem.isPrefixOf required.parts)

end Node

/-- All texts as identifiers, or the first complaint. -/
def parseAll : List String → Except Malformed (List Node)
  | [] => .ok []
  | text :: rest => do
    let node ← Node.parse text
    let nodes ← parseAll rest
    return node :: nodes

end Guildhall.Permission
