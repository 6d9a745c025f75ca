/-!
# Double-precision numbers

Binary floating-point numbers with 53 bits of precision as exact data, so that rounding,
reading and printing are computed with integers only.
-/

namespace Guildhall

/-- A double-precision number. A finite one is `±mantissa * 2 ^ exponent` with
`mantissa < 2 ^ 53`, `-1074 ≤ exponent`, and the least such exponent. -/
inductive Double
  | finite (negative : Bool) (mantissa : Nat) (exponent : Int)
  | infinite (negative : Bool)
  | notANumber
  deriving DecidableEq, Repr, Inhabited

namespace Double

/-- The quotient rounded to the nearest integer, ties to the even one. -/
def divideEven (num den : Nat) : Nat :=
  let whole := num / den
  let twice := 2 * (num % den)
  if twice < den then whole
  else if den < twice then whole + 1
  else whole + whole % 2

/-- The quotient `num * 2 ^ shift / den` as a fraction of natural numbers. -/
def scaled (num den : Nat) (shift : Int) : Nat × Nat :=
  if 0 ≤ shift then (num * Nat.pow 2 shift.toNat, den) else (num, den * Nat.pow 2 (-shift).toNat)

/-- The double nearest to `±num / den`, ties to an even mantissa. -/
def ofFraction (negative : Bool) (num den : Nat) : Double :=
  if num = 0 then finite negative 0 (-1074)
  else
    let guess : Int := (Int.ofNat num.log2 - Int.ofNat den.log2) - 53
    let tooLarge (e : Int) : Bool :=
      let (a, b) := scaled num den (-e)
      Nat.pow 2 53 * b ≤ a
    let exponent := if tooLarge guess then guess + 1 else guess
    let exponent := max (-1074) exponent
    let (a, b) := scaled num den (-exponent)
    let mantissa := divideEven a b
    let (mantissa, exponent) :=
      if mantissa = Nat.pow 2 53 then (Nat.pow 2 52, exponent + 1) else (mantissa, exponent)
    if 971 < exponent then infinite negative else finite negative mantissa exponent

def zero : Double := finite false 0 (-1074)

def ofInt (i : Int) : Double :=
  ofFraction (i < 0) i.natAbs 1

/-- The double nearest to `±digits * 10 ^ exponent`. -/
def ofDecimal (negative : Bool) (digits : Nat) (exponent : Int) : Double :=
  if digits = 0 then finite negative 0 (-1074)
  else
    let magnitude : Int := exponent + Int.ofNat (Nat.repr digits).length
    if 320 < magnitude then infinite negative
    else if magnitude < -340 then finite negative 0 (-1074)
    else if 0 ≤ exponent then ofFraction negative (digits * Nat.pow 10 exponent.toNat) 1
    else ofFraction negative digits (Nat.pow 10 (-exponent).toNat)

def fraction (mantissa : Nat) (exponent : Int) : Nat × Nat :=
  scaled mantissa 1 exponent

def isZero : Double → Bool
  | finite _ mantissa _ => mantissa == 0
  | _ => false

def isNegative : Double → Bool
  | finite negative _ _ => negative
  | infinite negative => negative
  | notANumber => false

def negate : Double → Double
  | finite negative mantissa exponent => finite (!negative) mantissa exponent
  | infinite negative => infinite (!negative)
  | notANumber => notANumber

def truncate : Double → Int
  | finite negative mantissa exponent =>
    let (num, den) := fraction mantissa exponent
    if negative then -Int.ofNat (num / den) else Int.ofNat (num / den)
  | _ => 0

def fractionPart : Double → Double
  | finite negative mantissa exponent =>
    let (num, den) := fraction mantissa exponent
    ofFraction negative (num % den) den
  | other => other

/-- The value of a finite double times `scale`, rounded to an integer, ties to even. -/
def timesRounded (scale : Nat) : Double → Int
  | finite negative mantissa exponent =>
    let (num, den) := fraction mantissa exponent
    let n := divideEven (num * scale) den
    if negative then -Int.ofNat n else Int.ofNat n
  | _ => 0

/-- The rounded product with a natural number. -/
def scaleNat (scale : Nat) : Double → Double
  | finite negative mantissa exponent =>
    let (num, den) := fraction mantissa exponent
    ofFraction negative (num * scale) den
  | other => other

def signedFraction (negative : Bool) (mantissa : Nat) (exponent : Int) : Int × Nat :=
  let (num, den) := fraction mantissa exponent
  (if negative then -Int.ofNat num else Int.ofNat num, den)

def add : Double → Double → Double
  | finite s m e, finite s' m' e' =>
    let (a, b) := signedFraction s m e
    let (a', b') := signedFraction s' m' e'
    let num := a * b' + a' * b
    if num = 0 then finite (s && s') 0 (-1074) else ofFraction (num < 0) num.natAbs (b * b')
  | notANumber, _ => notANumber
  | _, notANumber => notANumber
  | infinite s, infinite s' => if s = s' then infinite s else notANumber
  | infinite s, _ => infinite s
  | _, infinite s => infinite s

/-- The sign of the difference between a double and the fraction `num / den`; none for a number
that is not one. -/
def compareFraction (x : Double) (num : Int) (den : Nat) : Option Ordering :=
  match x with
  | notANumber => none
  | infinite negative => some (if negative then .lt else .gt)
  | finite negative mantissa exponent =>
    let (a, b) := signedFraction negative mantissa exponent
    some (compare (a * den) (num * b))

/-- Whether two doubles are the same number: zeros of both signs are, and nothing equals what
is not a number. -/
def same : Double → Double → Bool
  | notANumber, _ => false
  | _, notANumber => false
  | x, y => (x.isZero && y.isZero) || x == y

def sameInt (x : Double) (i : Int) : Bool :=
  x.compareFraction i 1 == some .eq

structure Decimal where
  digits : Nat
  exponent : Int

/-- Whether the decimal number reads back as the positive double `mantissa * 2 ^ exponent`. -/
def Decimal.readsAs (d : Decimal) (mantissa : Nat) (exponent : Int) : Bool :=
  ofDecimal false d.digits d.exponent == finite false mantissa exponent

/-- The magnitude divided by `10 ^ exponent`, as a fraction. -/
def shifted (num den : Nat) (exponent : Int) : Nat × Nat :=
  if 0 ≤ exponent then (num, den * Nat.pow 10 exponent.toNat)
  else (num * Nat.pow 10 (-exponent).toNat, den)

/-- The decimal exponent of the leading digit of `num / den`, found by estimate and
correction. -/
def leadingExponent (num den : Nat) : Int :=
  let estimate : Int :=
    Int.ofNat (Nat.repr num).length - Int.ofNat (Nat.repr den).length
  let (a, b) := shifted num den estimate
  if a < b then estimate - 1 else estimate

/-- The shortest decimal that reads back as the double, nearest to it among those, with between
`17 - steps` and 17 digits. -/
def shortest (mantissa : Nat) (exponent : Int) (lead : Int) : Nat → Decimal
  | 0 =>
    let (num, den) := fraction mantissa exponent
    let (a, b) := shifted num den (lead - 16)
    ⟨divideEven a b, lead - 16⟩
  | steps + 1 =>
    let scale := lead - 16 + Int.ofNat (steps + 1)
    let (num, den) := fraction mantissa exponent
    let (a, b) := shifted num den scale
    let below : Decimal := ⟨a / b, scale⟩
    let above : Decimal := ⟨a / b + 1, scale⟩
    let (near, far) :=
      if 2 * (a % b) < b || (2 * (a % b) == b && a / b % 2 == 0) then (below, above)
      else (above, below)
    if near.readsAs mantissa exponent then near
    else if far.readsAs mantissa exponent then far
    else shortest mantissa exponent lead steps

def stripZeros (digits : List Char) : List Char :=
  (digits.reverse.dropWhile (· == '0')).reverse

/-- An exponent with a sign and at least two digits. -/
def exponentText (e : Int) : String :=
  let digits := Nat.repr e.natAbs
  (if e < 0 then "e-" else "e+") ++ (if digits.length < 2 then "0" ++ digits else digits)

/-- The usual notation of significant digits whose first one stands at `10 ^ lead`. -/
def layout (digits : List Char) (lead : Int) : String :=
  let zeros (n : Nat) : List Char := List.replicate n '0'
  if lead < -4 || 16 ≤ lead then
    match digits with
    | [] => "0.0"
    | [d] => String.ofList [d] ++ exponentText lead
    | d :: rest => String.ofList (d :: '.' :: rest) ++ exponentText lead
  else if lead < 0 then
    String.ofList ('0' :: '.' :: zeros (-lead - 1).toNat ++ digits)
  else
    let count := lead.toNat + 1
    if digits.length ≤ count then
      String.ofList (digits ++ zeros (count - digits.length) ++ ['.', '0'])
    else String.ofList (digits.take count ++ '.' :: digits.drop count)

/-- The shortest text that reads back as the number. -/
def text : Double → String
  | notANumber => "nan"
  | infinite negative => if negative then "-inf" else "inf"
  | finite negative mantissa exponent =>
    let sign := if negative then "-" else ""
    if mantissa = 0 then sign ++ "0.0"
    else
      let (num, den) := fraction mantissa exponent
      let found := shortest mantissa exponent (leadingExponent num den) 16
      let digits := (Nat.repr found.digits).toList
      let lead := found.exponent + Int.ofNat digits.length - 1
      sign ++ layout (stripZeros digits) lead

/-- A natural number in decimal, padded with zeros on the left. -/
def padded (width n : Nat) : String :=
  let digits := Nat.repr n
  String.ofList (List.replicate (width - digits.length) '0') ++ digits

/-- The number with exactly `places` digits after the point. -/
def fixed (places : Nat) : Double → String
  | finite negative mantissa exponent =>
    let (num, den) := fraction mantissa exponent
    let n := divideEven (num * Nat.pow 10 places) den
    let sign := if negative then "-" else ""
    let whole := sign ++ Nat.repr (n / Nat.pow 10 places)
    if places = 0 then whole else whole ++ "." ++ padded places (n % Nat.pow 10 places)
  | infinite negative => if negative then "-inf" else "inf"
  | notANumber => "nan"

end Double

end Guildhall
