import Guildhall.Assoc
import Guildhall.Text.Lines

/-!
# Environment files

Files of assignments `KEY=VALUE`, one a line, that a shell can also read.
-/

namespace Guildhall.Config

/-- The text of a quoted value, without its quotes. -/
def unquote? (value : List Char) : Option (List Char) :=
  match value with
  | [] => none
  | mark :: rest =>
    if (mark = '"' || mark = '\'') && rest.getLast? = some mark then some rest.dropLast else none

/-- The characters before the first blank that a comment sign follows, if there is one. -/
def beforeComment? : List Char → Option (List Char)
  | ' ' :: '#' :: _ => some []
  | c :: rest => (beforeComment? rest).map (c :: ·)
  | [] => none

/-- What a value stands for: what is inside its quotes, or what is before a comment. -/
def readValue (text : List Char) : List Char :=
  let value := Text.trimChars Text.isBlank text
  match unquote? value with
  | some inside => inside
  | none =>
    match beforeComment? value with
    | some before => Text.dropWhileEnd Text.isBlank before
    | none => value

/-- A line without the word for shells in front. -/
def withoutExport (line : List Char) : List Char :=
  let word := "export ".toList
  if word.isPrefixOf line then line.drop word.length else line

def readAssignment? (line : List Char) : Option (String × String) :=
  let line := Text.trimChars Text.isBlank line
  if line.head? = some '#' then none
  else
    (Text.cut '=' (withoutExport line)).map fun (key, value) =>
      (String.ofList (Text.trimChars Text.isBlank key), String.ofList (readValue value))

/-- The assignments of a file; a later one of the same key wins. -/
def readAssignments (text : String) : List (String × String) :=
  ((Text.lines (Text.plainLines text.toList)).filterMap readAssignment?).foldl
    (fun found (key, value) => Assoc.put key value found) []

/-- The value of a key; a key that is not assigned has an empty one. -/
def valueOf (key : String) (assignments : List (String × String)) : String :=
  (assignments.lookup key).getD ""

/-- The text of a file with assignments: in the order of the keys, without empty values. -/
def renderAssignments (assignments : List (String × String)) : String :=
  let kept := (Assoc.sorted assignments).filter fun (_, value) => !value.isEmpty
  String.join (kept.map fun (key, value) => key ++ "=\"" ++ value ++ "\"\n")

def assign (changes assignments : List (String × String)) : List (String × String) :=
  changes.foldl (fun found (key, value) => Assoc.put key value found) assignments

/-- The text of a file after some assignments have been made; without a file there were none. -/
def withAssignments (changes : List (String × String)) (text : Option String) : String :=
  renderAssignments (assign changes ((text.map readAssignments).getD []))

end Guildhall.Config
