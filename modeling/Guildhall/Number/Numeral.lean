import Guildhall.Number.Double
import Guildhall.Text.Blank
import Guildhall.Text.Quoted

/-!
# Numerals

Numbers as people write them into settings: digits of any script, single underscores between
digits, blanks around.
-/

namespace Guildhall.Number

/-- Whether a character may stand around a numeral. -/
def isSurrounding (c : Char) : Bool :=
  (9 ≤ c.toNat && c.toNat ≤ 13) || c == ' ' || (127 ≤ c.toNat && Text.isBlank c)

def digitValue? (c : Char) : Option Nat :=
  (Text.decimalRanges.find? fun (low, high) => low ≤ c.toNat && c.toNat ≤ high).map
    fun (low, _) => (c.toNat - low) % 10

/-- The numeral without the characters around it, with digits of one script. -/
def plain (text : String) : List Char :=
  (Text.trimChars isSurrounding text.toList).map fun c =>
    match digitValue? c with
    | some d => Char.ofNat (48 + d)
    | none => c

def isDigit (c : Char) : Bool := '0' ≤ c && c ≤ '9'

/-- The characters without underscores, if each of those stands between two digits; `after` says
whether a digit came before. -/
def withoutMarks (after : Bool) : List Char → Option (List Char)
  | [] => some []
  | '_' :: d :: rest =>
    if after && isDigit d then (withoutMarks true rest).map (d :: ·) else none
  | ['_'] => none
  | c :: rest => (withoutMarks (isDigit c) rest).map (c :: ·)

def natOf (digits : List Char) : Nat :=
  digits.foldl (fun n c => 10 * n + (c.toNat - 48)) 0

/-- A sign, if there is one: whether it is a minus, and what follows. -/
def cutSign : List Char → Bool × List Char
  | '-' :: rest => (true, rest)
  | '+' :: rest => (false, rest)
  | rest => (false, rest)

def digitLimit : Nat := 4300

/-- The integer that a text writes, or what is wrong with it. -/
def readInt (text : String) : Except String Int :=
  let (negative, rest) := cutSign (plain text)
  match withoutMarks false rest with
  | some (d :: more) =>
    if !(d :: more).all isDigit then .error (notInteger text)
    else if digitLimit < (d :: more).length then
      .error (s!"Exceeds the limit ({digitLimit} digits) for integer string conversion: value has "
        ++ s!"{(d :: more).length} digits; use sys.set_int_max_str_digits() to increase the limit")
    else
      let n := Int.ofNat (natOf (d :: more))
      .ok (if negative then -n else n)
  | _ => .error (notInteger text)
where
  /-- The complaint about a text that writes no integer, not longer than needed. -/
  notInteger (text : String) : String :=
    "invalid literal for int() with base 10: " ++ String.ofList ((Text.quoted text).toList.take 200)

/-- The exponent at the end of a numeral; none for something else. -/
def readExponent : List Char → Option Int
  | [] => some 0
  | e :: rest =>
    if e = 'e' || e = 'E' then
      let (negative, digits) := cutSign rest
      if digits.isEmpty || !digits.all isDigit then none
      else
        let n := Int.ofNat (natOf digits)
        some (if negative then -n else n)
    else none

/-- The double that an unsigned numeral writes. -/
def readMagnitude (negative : Bool) (cs : List Char) : Option Double :=
  let word := String.ofList (cs.map Char.toLower)
  if word == "inf" || word == "infinity" then some (.infinite negative)
  else if word == "nan" then some .notANumber
  else
    let whole := cs.takeWhile isDigit
    let rest := cs.dropWhile isDigit
    let (part, rest) := match rest with
      | '.' :: rest => (rest.takeWhile isDigit, rest.dropWhile isDigit)
      | rest => ([], rest)
    if whole.isEmpty && part.isEmpty then none
    else
      (readExponent rest).map fun e =>
        .ofDecimal negative (natOf (whole ++ part)) (e - Int.ofNat part.length)

def readDouble (text : String) : Except String Double :=
  let read := do
    let (negative, rest) := cutSign (← withoutMarks false (plain text))
    readMagnitude negative rest
  match read with
  | some x => .ok x
  | none => .error ("could not convert string to float: " ++ Text.quoted text)

end Guildhall.Number
