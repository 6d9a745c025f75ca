import Guildhall.Value

/-!
# Reading JSON

A reader that says where and why a text is not JSON.
-/

namespace Guildhall.Json

structure SyntaxError where
  reason : String
  position : Nat
  deriving DecidableEq, Repr

def SyntaxError.message (e : SyntaxError) (source : List Char) : String :=
  let before := source.take e.position
  let line := before.count '\n' + 1
  let column := (before.reverse.takeWhile (· != '\n')).length + 1
  s!"{e.reason}: line {line} column {column} (char {e.position})"

structure Cursor where
  position : Nat
  rest : List Char

def Cursor.skip (here : Cursor) (n : Nat) : Cursor :=
  ⟨here.position + n, here.rest.drop n⟩

def isSpace (c : Char) : Bool :=
  c = ' ' || c = '\t' || c = '\n' || c = '\r'

def Cursor.skipSpace (here : Cursor) : Cursor :=
  here.skip (here.rest.takeWhile isSpace).length

def fail {α : Type} (reason : String) (position : Nat) : Except SyntaxError α :=
  .error ⟨reason, position⟩

def hexValue? (c : Char) : Option Nat :=
  if '0' ≤ c && c ≤ '9' then some (c.toNat - 48)
  else if 'a' ≤ c && c ≤ 'f' then some (c.toNat - 87)
  else if 'A' ≤ c && c ≤ 'F' then some (c.toNat - 55)
  else none

/-- The number written by four hexadecimal digits at the start of a text. -/
def hexFour? : List Char → Option Nat
  | a :: b :: c :: d :: _ => do
    let a ← hexValue? a
    let b ← hexValue? b
    let c ← hexValue? c
    let d ← hexValue? d
    return ((a * 16 + b) * 16 + c) * 16 + d
  | _ => none

def shortEscape? : Char → Option Char
  | '"' => some '"'
  | '\\' => some '\\'
  | '/' => some '/'
  | 'b' => some '\x08'
  | 'f' => some '\x0c'
  | 'n' => some '\n'
  | 'r' => some '\r'
  | 't' => some '\t'
  | _ => none

/-- Whether a code unit is the first half of a pair. -/
def isHighHalf (n : Nat) : Bool := 0xD800 ≤ n && n ≤ 0xDBFF

/-- Whether a code unit is the second half of a pair. -/
def isLowHalf (n : Nat) : Bool := 0xDC00 ≤ n && n ≤ 0xDFFF

/-- The escape of a code unit by four digits, with the backslash at `slash`; two halves that
follow each other make one character. Returns the character and the digits' length after the
letter. -/
def unicodeEscape (slash : Nat) (digits : List Char) : Except SyntaxError (Char × Nat) :=
  if digits.length < 5 then fail "Invalid \\uXXXX escape" (slash + 1)
  else
    match hexFour? digits with
    | none => fail "Invalid \\uXXXX escape" (slash + 1)
    | some high =>
      match digits.drop 4 with
      | '\\' :: 'u' :: more =>
        if isHighHalf high && 5 ≤ more.length then
          match hexFour? more with
          | none => fail "Invalid \\uXXXX escape" (slash + 7)
          | some low =>
            if isLowHalf low then
              .ok (Char.ofNat (0x10000 + (high - 0xD800) * 0x400 + (low - 0xDC00)), 10)
            else .ok (Char.ofNat high, 4)
        else .ok (Char.ofNat high, 4)
      | _ => .ok (Char.ofNat high, 4)

/-- The rest of a string that opened at `start`, with `done` the characters read, reversed. -/
def stringBody (start : Nat) : Nat → List Char → Cursor → Except SyntaxError (String × Cursor)
  | 0, _, _ => fail "Unterminated string starting at" start
  | fuel + 1, done, here =>
    match here.rest with
    | [] => fail "Unterminated string starting at" start
    | '"' :: _ => .ok (String.ofList done.reverse, here.skip 1)
    | '\\' :: [] => fail "Unterminated string starting at" start
    | '\\' :: 'u' :: digits => do
      let (c, length) ← unicodeEscape here.position digits
      stringBody start fuel (c :: done) (here.skip (2 + length))
    | '\\' :: c :: _ =>
      match shortEscape? c with
      | some image => stringBody start fuel (image :: done) (here.skip 2)
      | none => fail "Invalid \\escape" here.position
    | c :: _ =>
      if c.toNat ≤ 0x1F then fail "Invalid control character at" here.position
      else stringBody start fuel (c :: done) (here.skip 1)

def string (here : Cursor) : Except SyntaxError (String × Cursor) :=
  stringBody here.position here.rest.length [] (here.skip 1)

def isDigit (c : Char) : Bool := '0' ≤ c && c ≤ '9'

/-- The number written by decimal digits. -/
def natOf (digits : List Char) : Nat :=
  digits.foldl (fun n d => n * 10 + (d.toNat - 48)) 0

/-- The digits before the point: a lone zero or digits without a leading zero. -/
def wholePart : List Char → List Char
  | '0' :: _ => ['0']
  | cs => cs.takeWhile isDigit

def fractionDigits : List Char → List Char
  | '.' :: cs => cs.takeWhile isDigit
  | _ => []

/-- The exponent, its sign and the length of its text, when a digit follows the mark. -/
def exponentPart : List Char → Option (Int × Nat)
  | mark :: cs =>
    if mark = 'e' || mark = 'E' then
      let (negative, signs, digits) := match cs with
        | '-' :: more => (true, 1, more.takeWhile isDigit)
        | '+' :: more => (false, 1, more.takeWhile isDigit)
        | _ => (false, 0, cs.takeWhile isDigit)
      if digits.isEmpty then none
      else
        let n := Int.ofNat (natOf digits)
        some (if negative then -n else n, 1 + signs + digits.length)
    else none
  | [] => none

def number (here : Cursor) : Except SyntaxError (Value × Cursor) :=
  let (negative, body) := match here.rest with
    | '-' :: more => (true, more)
    | cs => (false, cs)
  let whole := wholePart body
  if whole.isEmpty then fail "Expecting value" here.position
  else
    let afterWhole := body.drop whole.length
    let fraction := fractionDigits afterWhole
    let pointLength := if fraction.isEmpty then 0 else fraction.length + 1
    let exponent := exponentPart (afterWhole.drop pointLength)
    let signLength := if negative then 1 else 0
    let length := signLength + whole.length + pointLength
    if fraction.isEmpty && exponent.isNone then
      let n := Int.ofNat (natOf whole)
      .ok (.int (if negative then -n else n), here.skip length)
    else
      let (power, powerLength) := exponent.getD (0, 0)
      let value := Double.ofDecimal negative (natOf (whole ++ fraction))
        (power - Int.ofNat fraction.length)
      .ok (.float value, here.skip (length + powerLength))

def words : List (String × Value) :=
  [("null", .null), ("true", .bool true), ("false", .bool false),
    ("NaN", .float .notANumber), ("Infinity", .float (.infinite false)),
    ("-Infinity", .float (.infinite true))]

mutual

def value : Nat → Cursor → Except SyntaxError (Value × Cursor)
  | 0, here => fail "Expecting value" here.position
  | fuel + 1, here =>
    match here.rest with
    | '"' :: _ => do
      let (s, after) ← string here
      return (.str s, after)
    | '{' :: _ =>
      let inside := (here.skip 1).skipSpace
      match inside.rest with
      | '}' :: _ => .ok (.map [], inside.skip 1)
      | _ => members fuel [] inside
    | '[' :: _ =>
      let inside := (here.skip 1).skipSpace
      match inside.rest with
      | ']' :: _ => .ok (.list [], inside.skip 1)
      | _ => items fuel [] inside
    | _ =>
      match words.find? fun (word, _) => word.toList.isPrefixOf here.rest with
      | some (word, v) => .ok (v, here.skip word.length)
      | none => number here

/-- The members of an object from one at the cursor on; a later one replaces an earlier one of
the same name. -/
def members : Nat → List (Scalar × Value) → Cursor → Except SyntaxError (Value × Cursor)
  | 0, _, here => fail "Expecting value" here.position
  | fuel + 1, done, here =>
    match here.rest with
    | '"' :: _ => do
      let (key, afterKey) ← string here
      let colon := afterKey.skipSpace
      match colon.rest with
      | ':' :: _ => do
        let (v, afterValue) ← value fuel (colon.skip 1).skipSpace
        let done := Value.insertEntry (.str key) v done
        let next := afterValue.skipSpace
        match next.rest with
        | '}' :: _ => .ok (.map done, next.skip 1)
        | ',' :: _ => members fuel done (next.skip 1).skipSpace
        | _ => fail "Expecting ',' delimiter" next.position
      | _ => fail "Expecting ':' delimiter" colon.position
    | _ => fail "Expecting property name enclosed in double quotes" here.position

/-- The items of an array from one at the cursor on, with `done` those read, reversed. -/
def items : Nat → List Value → Cursor → Except SyntaxError (Value × Cursor)
  | 0, _, here => fail "Expecting value" here.position
  | fuel + 1, done, here => do
    let (v, afterValue) ← value fuel here
    let next := afterValue.skipSpace
    match next.rest with
    | ']' :: _ => .ok (.list (v :: done).reverse, next.skip 1)
    | ',' :: _ => items fuel (v :: done) (next.skip 1).skipSpace
    | _ => fail "Expecting ',' delimiter" next.position

end

/-- The value that a whole text writes, or why it writes none. -/
def parse (source : List Char) : Except SyntaxError Value :=
  match source with
  | '\ufeff' :: _ => fail "Unexpected UTF-8 BOM (decode using utf-8-sig)" 0
  | _ => do
    let (v, after) ← value (2 * source.length + 2) (Cursor.skipSpace ⟨0, source⟩)
    let rest := after.skipSpace
    if rest.rest.isEmpty then return v else fail "Extra data" rest.position

end Guildhall.Json
