/-!
# Blank characters

Trimming and splitting of text at blank characters.
-/

namespace Guildhall.Text

/-- Whether a character is blank: a space, a line or paragraph break, or one of the four
information separators. -/
def isBlank (c : Char) : Bool :=
  let code := c.toNat
  (9 ≤ code && code ≤ 13) || (28 ≤ code && code ≤ 32) || code == 0x85 || code == 0xA0 ||
    code == 0x1680 || (0x2000 ≤ code && code ≤ 0x200A) || code == 0x2028 || code == 0x2029 ||
    code == 0x202F || code == 0x205F || code == 0x3000

def dropWhileEnd (p : Char → Bool) : List Char → List Char
  | [] => []
  | c :: rest =>
    match dropWhileEnd p rest with
    | [] => if p c then [] else [c]
    | kept => c :: kept

def trimChars (p : Char → Bool) (cs : List Char) : List Char :=
  dropWhileEnd p (cs.dropWhile p)

def trim (s : String) : String :=
  String.ofList (trimChars isBlank s.toList)

def trimEnd (s : String) : String :=
  String.ofList (dropWhileEnd isBlank s.toList)

/-- The maximal runs of characters that fail `p`, with `word` the run being read, reversed. -/
def fieldsFrom (p : Char → Bool) (word : List Char) : List Char → List (List Char)
  | [] => if word.isEmpty then [] else [word.reverse]
  | c :: rest =>
    if p c then
      if word.isEmpty then fieldsFrom p [] rest else word.reverse :: fieldsFrom p [] rest
    else fieldsFrom p (c :: word) rest

/-- The non-empty words between characters that satisfy `p`. -/
def fields (p : Char → Bool) (s : String) : List String :=
  (fieldsFrom p [] s.toList).map String.ofList

/-- The pieces between occurrences of `sep`, at least one. -/
def splitChars (sep : Char) : List Char → List (List Char)
  | [] => [[]]
  | c :: rest =>
    if c = sep then [] :: splitChars sep rest
    else
      match splitChars sep rest with
      | [] => [[c]]
      | piece :: pieces => (c :: piece) :: pieces

/-- The pieces of a text between occurrences of `sep`, at least one. -/
def split (sep : Char) (s : String) : List String :=
  (splitChars sep s.toList).map String.ofList

def cut (sep : Char) : List Char → Option (List Char × List Char)
  | [] => none
  | c :: rest =>
    if c = sep then some ([], rest)
    else (cut sep rest).map fun (before, after) => (c :: before, after)

end Guildhall.Text
