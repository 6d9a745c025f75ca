import Guildhall.Failure
import Guildhall.Json.Reader
import Guildhall.Number.Numeral
import Guildhall.Text.Case
import Guildhall.Value

/-!
# Scalars

What a word of a document stands for: nothing, a truth value, a number, a date or time, one of two
special marks, or the word itself. The looks of an unquoted word tell its kind. A tag may give a
word another kind, which it then need not look like.
-/

namespace Guildhall.Yaml

/-- What those who read documents do not foresee: a word that is looked up in vain, one without a
first character to look at, and a number too large for what it stands for. -/
inductive Slip
  | unknownWord (word : String)
  | noCharacter
  | tooLarge
  deriving DecidableEq, Repr

def Slip.failure : Slip → Failure
  | unknownWord word => .missingKey word
  | noCharacter => .pastEnd
  | tooLarge => .outOfRange

/-- Why a document has no value. -/
inductive Fault
  | known (fault : LoadFault)
  | unforeseen (slip : Slip)
  deriving DecidableEq, Repr

abbrev Scan (α : Type) := Except Fault α

def bad {α : Type} : Scan α := .error (.known .malformedText)

def badValue {α : Type} : Scan α := .error (.known .invalidValue)

/-- The kinds of words. A foreign word has a tag that nothing is known about. -/
inductive Kind
  | null
  | bool
  | int
  | float
  | timestamp
  | merge
  | default
  | text
  | foreign
  deriving DecidableEq, Repr

def allDigits (cs : List Char) : Bool := !cs.isEmpty && cs.all Json.isDigit

def isDigitOrLine (c : Char) : Bool := Json.isDigit c || c = '_'

def unsigned : List Char → List Char
  | '+' :: cs => cs
  | '-' :: cs => cs
  | cs => cs

/-- Whether every piece is a number of one or two digits below 60. -/
def allSixties (pieces : List (List Char)) : Bool :=
  pieces.all fun piece =>
    match piece with
    | [c] => Json.isDigit c
    | [a, b] => '0' ≤ a && a ≤ '5' && Json.isDigit b
    | _ => false

def colonPieces : List Char → List (List Char)
  | [] => [[]]
  | c :: rest =>
    if c = ':' then [] :: colonPieces rest
    else
      match colonPieces rest with
      | [] => [[c]]
      | piece :: pieces => (c :: piece) :: pieces

/-- Whether a word is an integer: binary, octal, decimal, hexadecimal or in base 60. -/
def isInt (cs : List Char) : Bool :=
  match unsigned cs with
  | '0' :: 'b' :: rest => !rest.isEmpty && rest.all fun c => c = '0' || c = '1' || c = '_'
  | '0' :: 'x' :: rest =>
    !rest.isEmpty && rest.all fun c => c = '_' || (Json.hexValue? c).isSome
  | ['0'] => true
  | '0' :: rest => rest.all fun c => ('0' ≤ c && c ≤ '7') || c = '_'
  | c :: rest =>
    if '1' ≤ c && c ≤ '9' then
      match colonPieces rest with
      | [only] => only.all isDigitOrLine
      | first :: others => first.all isDigitOrLine && allSixties others
      | [] => false
    else false
  | [] => false

def isExponent : List Char → Bool
  | [] => true
  | mark :: sign :: digits =>
    (mark = 'e' || mark = 'E') && (sign = '+' || sign = '-') && allDigits digits
  | _ => false

/-- Whether a word is a floating-point number; it needs a point. -/
def isFloat (cs : List Char) : Bool :=
  let body := unsigned cs
  let word := String.ofList body
  if [".inf", ".Inf", ".INF"].contains word then true
  else if [".nan", ".NaN", ".NAN"].contains (String.ofList cs) then true
  else
    match cs, body with
    | '.' :: c :: rest, _ => Json.isDigit c && isExponent (rest.dropWhile isDigitOrLine)
    | _, c :: rest =>
      if !Json.isDigit c then false
      else
        match rest.dropWhile isDigitOrLine with
        | '.' :: after => isExponent (after.dropWhile isDigitOrLine)
        | ':' :: after =>
          let sixties := after.takeWhile (· != '.')
          match after.drop sixties.length with
          | '.' :: fraction => allSixties (colonPieces sixties) && fraction.all isDigitOrLine
          | _ => false
        | _ => false
    | _, [] => false

structure StampParts where
  year : Nat
  month : Nat
  day : Nat
  clock : Option (Nat × Nat × Nat × List Char)
  zone : Option Int
  deriving DecidableEq, Repr

/-- The leading one or two digits as a number, and the rest. -/
def oneOrTwo : List Char → Option (Nat × List Char)
  | a :: b :: rest =>
    if Json.isDigit a then
      if Json.isDigit b then some (Json.natOf [a, b], rest) else some (Json.natOf [a], b :: rest)
    else none
  | [a] => if Json.isDigit a then some (Json.natOf [a], []) else none
  | [] => none

/-- Exactly two leading digits as a number, and the rest. -/
def two : List Char → Option (Nat × List Char)
  | a :: b :: rest =>
    if Json.isDigit a && Json.isDigit b then some (Json.natOf [a, b], rest) else none
  | _ => none

def expect (c : Char) : List Char → Option (List Char)
  | d :: rest => if c = d then some rest else none
  | [] => none

/-- The zone at the end of a time, as an offset; blanks may stand before it. -/
def stampZone (cs : List Char) : Option (Option Int) :=
  match cs with
  | [] => some none
  | cs =>
    match cs.dropWhile fun c => c = ' ' || c = '\t' with
    | ['Z'] => some (some 0)
    | sign :: rest => do
      if sign ≠ '+' && sign ≠ '-' then none
      let (h, rest) ← oneOrTwo rest
      let m ← match rest with
        | [] => some 0
        | ':' :: rest => do
          let (m, rest) ← two rest
          if rest.isEmpty then some m else none
        | _ => none
      let size := Int.ofNat h * Time.hour + Int.ofNat m * Time.minute
      return some (if sign = '-' then -size else size)
    | [] => none

def stamp? (cs : List Char) : Option StampParts := do
  let year := cs.take 4
  if !(year.length = 4 && allDigits year) then none
  let rest ← expect '-' (cs.drop 4)
  let (month, afterMonth) ← oneOrTwo rest
  let rest ← expect '-' afterMonth
  let (day, afterDay) ← oneOrTwo rest
  if afterDay.isEmpty then return ⟨Json.natOf year, month, day, none, none⟩
  let rest ← match afterDay with
    | 'T' :: rest => some rest
    | 't' :: rest => some rest
    | cs =>
      let rest := cs.dropWhile fun c => c = ' ' || c = '\t'
      if rest.length < cs.length then some rest else none
  let (h, rest) ← oneOrTwo rest
  let (m, rest) ← two (← expect ':' rest)
  let (s, rest) ← two (← expect ':' rest)
  let (fraction, rest) := match rest with
    | '.' :: more => (more.takeWhile Json.isDigit, more.dropWhile Json.isDigit)
    | rest => ([], rest)
  return ⟨Json.natOf year, month, day, some (h, m, s, fraction), ← stampZone rest⟩

/-- Whether a word looks like a date or time; a date by itself has ten characters. -/
def isStamp (cs : List Char) : Bool :=
  (stamp? cs).any fun parts => parts.clock.isSome || cs.length = 10

def kindOf (word : String) : Kind :=
  let cs := word.toList
  if ["", "~", "null", "Null", "NULL"].contains word then .null
  else if ["yes", "Yes", "YES", "no", "No", "NO", "true", "True", "TRUE", "false", "False",
      "FALSE", "on", "On", "ON", "off", "Off", "OFF"].contains word then .bool
  else if word = "<<" then .merge
  else if word = "=" then .default
  else if isFloat cs then .float
  else if isInt cs then .int
  else if isStamp cs then .timestamp
  else .text

/-- The truth value that a word in lower case spells. -/
def truth? (word : String) : Option Bool :=
  if ["yes", "true", "on"].contains word then some true
  else if ["no", "false", "off"].contains word then some false
  else none

def boolValue (text : String) : Scan Bool :=
  let word := Text.lower text
  match truth? word with
  | some b => .ok b
  | none => .error (.unforeseen (.unknownWord word))

/-- The number that digits of a base write; none without digits. -/
def natOfBase (base : Nat) (digits : List Char) : Option Nat :=
  if digits.isEmpty || !digits.all (fun c => (Json.hexValue? c).any (· < base)) then none
  else some (digits.foldl (fun n c => n * base + (Json.hexValue? c).getD 0) 0)

/-- The integer that a word writes in a base, whose own mark it may repeat. -/
def intOfBase (base : Nat) (mark : Char) (cs : List Char) : Option Int :=
  let (negative, body) := Number.cutSign (Number.plain (String.ofList cs))
  let digits := match body with
    | '0' :: c :: rest => if c.toLower = mark then rest else body
    | _ => body
  (natOfBase base digits).map fun n => if negative then -Int.ofNat n else Int.ofNat n

def decimalInt (cs : List Char) : Option Int := (Number.readInt (String.ofList cs)).toOption

def sixties (pieces : List Int) : Int := pieces.foldl (fun n piece => n * 60 + piece) 0

/-- The integer that an unsigned word without underscores writes. -/
def magnitude (cs : List Char) : Option Int :=
  match cs with
  | ['0'] => some 0
  | '0' :: 'b' :: digits => intOfBase 2 'b' digits
  | '0' :: 'x' :: digits => intOfBase 16 'x' digits
  | '0' :: _ => intOfBase 8 'o' cs
  | _ =>
    if cs.contains ':' then ((colonPieces cs).mapM decimalInt).map sixties else decimalInt cs

/-- The integer that a word writes. A word without a first character to look at is not foreseen,
with a sign or without. -/
def intValue (text : String) : Scan Int :=
  let cs := text.toList.filter (· ≠ '_')
  if (unsigned cs).isEmpty then .error (.unforeseen .noCharacter)
  else
    match magnitude (unsigned cs) with
    | some size => .ok (if cs.head? = some '-' then -size else size)
    | none => badValue

def decimalFloat (cs : List Char) : Option Double :=
  (Number.readDouble (String.ofList cs)).toOption

/-- The sum of digits in base 60, the lowest first, from a power of 60 on; none when a power exceeds
every number. -/
def floatSixties : Nat → Double → List Double → Option Double
  | _, sum, [] => some sum
  | power, sum, digit :: rest =>
    match Double.ofInt (Int.ofNat power) with
    | .infinite _ => none
    | scale => floatSixties (power * 60) (sum.add (digit.scaleNat scale.truncate.toNat)) rest

/-- The number that an unsigned word without underscores and in lower case writes. -/
def floatMagnitude (cs : List Char) : Scan Double :=
  let word := String.ofList cs
  if word = ".inf" then .ok (.infinite false)
  else if word = ".nan" then .ok .notANumber
  else if cs.contains ':' then
    match (colonPieces cs).mapM decimalFloat with
    | none => badValue
    | some digits =>
      match floatSixties 1 .zero digits.reverse with
      | some x => .ok x
      | none => .error (.unforeseen .tooLarge)
  else
    match decimalFloat cs with
    | some x => .ok x
    | none => badValue

def floatValue (text : String) : Scan Double :=
  let cs := (Text.lower (String.ofList (text.toList.filter (· ≠ '_')))).toList
  if cs.isEmpty then .error (.unforeseen .noCharacter)
  else
    (floatMagnitude (unsigned cs)).map fun x => if cs.head? = some '-' then x.negate else x

def StampParts.value? (s : StampParts) : Option Time.Stamp :=
  if s.month = 0 || 12 < s.month || s.day = 0 || Time.daysInMonth s.year s.month < s.day ||
      s.year = 0 then none
  else
    let date := Time.Date.mk s.year s.month s.day
    match s.clock with
    | none => some (.date date)
    | some (h, m, sec, fraction) =>
      if 23 < h || 59 < m || 59 < sec || s.zone.any (fun z => z ≤ -Time.day || Time.day ≤ z) then
        none
      else
        let micros := (Time.fractionMicros fraction).getD 0
        let wall := Time.wallOfDate date + Int.ofNat h * Time.hour + Int.ofNat m * Time.minute +
          Int.ofNat sec * Time.second + micros
        some (.time wall s.zone)

def stampValue (text : String) : Scan Time.Stamp :=
  match stamp? text.toList with
  | none => .error (.known .wrongShape)
  | some parts =>
    match parts.value? with
    | some stamp => .ok stamp
    | none => badValue

def scalarValue (kind : Kind) (text : String) : Scan Scalar :=
  match kind with
  | .null => .ok .null
  | .bool => (boolValue text).map .bool
  | .int => (intValue text).map .int
  | .float => (floatValue text).map .float
  | .timestamp => (stampValue text).map .stamp
  | .text => .ok (.str text)
  | .merge => bad
  | .default => bad
  | .foreign => bad

end Guildhall.Yaml
