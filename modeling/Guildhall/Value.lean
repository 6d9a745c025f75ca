import Guildhall.Number.Double
import Guildhall.Text.Quoted
import Guildhall.Time.Stamp

/-!
# Loosely typed values

Values of documents, request bodies and command results: scalars, lists and mappings whose keys
are scalars. A value has no bytes, no sets and no pairs in it, and is not part of itself.

Every value is shown here, as deep as it is nested and as long as its integers are. There are
bounds on both that are not drawn here: lists a thousand deep exhaust the stack before they are
shown, and integers of more than 4300 digits are refused.
-/

namespace Guildhall

inductive Scalar
  | null
  | bool (b : Bool)
  | int (i : Int)
  | float (x : Double)
  | str (s : String)
  | stamp (s : Time.Stamp)
  deriving DecidableEq, Repr, Inhabited

/-- A scalar, a list or a mapping in the order its keys were first given. -/
inductive Value
  | atom (s : Scalar)
  | list (items : List Value)
  | map (entries : List (Scalar × Value))
  deriving Repr, Inhabited

namespace Scalar

/-- The integer that a number or a truth value stands for in comparisons. -/
def asInt? : Scalar → Option Int
  | bool b => some (if b then 1 else 0)
  | int i => some i
  | _ => none

/-- Whether two scalars are the same key: numbers and truth values compare by their number, and
times by their instant. -/
def same (a b : Scalar) : Bool :=
  match a, b with
  | float x, float y => x.same y
  | float x, b => match b.asInt? with
    | some i => x.sameInt i
    | none => false
  | a, float y => match a.asInt? with
    | some i => y.sameInt i
    | none => false
  | stamp s, stamp t => s.same t
  | a, b => match a.asInt?, b.asInt? with
    | some i, some j => i == j
    | none, none => a == b
    | _, _ => false

def isTrue : Scalar → Bool
  | null => false
  | bool b => b
  | int i => i != 0
  | float x => !x.isZero
  | str s => !s.isEmpty
  | stamp _ => true

def text : Scalar → String
  | null => "None"
  | bool b => if b then "True" else "False"
  | int i => toString i
  | float x => x.text
  | str s => s
  | stamp t => t.text

/-- The scalar as it shows inside a list or mapping. -/
def literal : Scalar → String
  | str s => Text.quoted s
  | stamp t => t.literal
  | other => other.text

end Scalar

namespace Value

abbrev null : Value := atom .null

abbrev bool (b : Bool) : Value := atom (.bool b)

abbrev int (i : Int) : Value := atom (.int i)

/-- A double-precision number. -/
abbrev float (x : Double) : Value := atom (.float x)

abbrev str (s : String) : Value := atom (.str s)

def record (fields : List (String × Value)) : Value :=
  map (fields.map fun (key, value) => (.str key, value))

def texts (items : List String) : Value := list (items.map str)

def count (n : Nat) : Value := int (Int.ofNat n)

def textOrNull : Option String → Value
  | some s => str s
  | none => null

/-- The items of a list; other values have none. -/
def items : Value → List Value
  | list xs => xs
  | _ => []

/-- Whether the value counts as present: not null, false, zero or empty. -/
def isTrue : Value → Bool
  | atom s => s.isTrue
  | list items => !items.isEmpty
  | map entries => !entries.isEmpty

mutual

/-- The value as it shows inside a list or mapping. -/
def literal : Value → String
  | atom s => s.literal
  | list items => "[" ++ ", ".intercalate (literals items) ++ "]"
  | map entries => "\x7b" ++ ", ".intercalate (entryLiterals entries) ++ "\x7d"

def literals : List Value → List String
  | [] => []
  | item :: rest => literal item :: literals rest

def entryLiterals : List (Scalar × Value) → List String
  | [] => []
  | (key, value) :: rest => (key.literal ++ ": " ++ literal value) :: entryLiterals rest

end

def text : Value → String
  | atom s => s.text
  | other => other.literal

mutual

/-- Whether two values are equal: numbers by their number, mappings whatever their order. -/
def same : Value → Value → Bool
  | atom a, atom b => a.same b
  | list xs, list ys => sameItems xs ys
  | map xs, map ys => xs.length == ys.length && sameEntries xs ys
  | _, _ => false

def sameItems : List Value → List Value → Bool
  | [], [] => true
  | x :: xs, y :: ys => same x y && sameItems xs ys
  | _, _ => false

def sameEntries : List (Scalar × Value) → List (Scalar × Value) → Bool
  | [], _ => true
  | (key, value) :: rest, others =>
    (match others.find? fun other => other.1.same key with
      | some other => same value other.2
      | none => false) && sameEntries rest others

end

def entry? (key : String) : List (Scalar × Value) → Option Value
  | [] => none
  | (k, v) :: rest => if k.same (.str key) then some v else entry? key rest

/-- The entry of a mapping under a text key; none when it is missing or this is no mapping. -/
def field? (value : Value) (key : String) : Option Value :=
  match value with
  | map entries => entry? key entries
  | _ => none

/-- The entry of a mapping under a text key, or null. -/
def get (value : Value) (key : String) : Value := (value.field? key).getD null

/-- The texts in a list; a text stands for its characters and a mapping for its keys. -/
def words : Value → List String
  | atom (.str s) => s.toList.map String.singleton
  | map entries => entries.map (·.1.text)
  | other => other.items.map text

def textOr (value : Value) (key fallback : String) : String :=
  match value.field? key with
  | some v => v.text
  | none => fallback

/-- The entries with `value` under `key`: in the place of the entry already there, or last. -/
def insertEntry (key : Scalar) (value : Value) :
    List (Scalar × Value) → List (Scalar × Value)
  | [] => [(key, value)]
  | (k, v) :: rest =>
    if k.same key then (k, value) :: rest else (k, v) :: insertEntry key value rest

end Value

end Guildhall
