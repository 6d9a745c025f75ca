import Guildhall.Text.Blank
import Guildhall.Text.Case

/-!
# Cron expressions

Five to seven fields: minute, hour, day, month, weekday, second and year. A field lists values,
ranges, steps and names.
-/

namespace Guildhall.Schedule.Cron

inductive Place
  | minute
  | hour
  | day
  | month
  | weekday
  | second
  | year
  deriving DecidableEq, Repr

def places : List Place := [.minute, .hour, .day, .month, .weekday, .second, .year]

def Place.least : Place → Nat
  | minute => 0
  | hour => 0
  | day => 1
  | month => 1
  | weekday => 0
  | second => 0
  | year => 1970

def Place.greatest : Place → Nat
  | minute => 59
  | hour => 23
  | day => 31
  | month => 12
  | weekday => 6
  | second => 59
  | year => 2099

/-- One listed value: any, the last day of the month, or a number. -/
inductive Item
  | any
  | last
  | value (n : Nat)
  deriving DecidableEq, Repr

inductive Ordinal
  | last
  | nth (n : Nat)
  deriving DecidableEq, Repr

structure Fields where
  minute : List Item
  hour : List Item
  day : List Item
  month : List Item
  weekday : List Item
  second : Option (List Item)
  year : Option (List Item)
  ordinals : List (Nat × Ordinal)
  deriving DecidableEq, Repr

/-- Whether a field lets any value pass. -/
def isAny (items : List Item) : Bool := items.contains .any

def monthNames : List String :=
  ["jan", "feb", "mar", "apr", "may", "jun", "jul", "aug", "sep", "oct", "nov", "dec"]

def weekdayNames : List String := ["sun", "mon", "tue", "wed", "thu", "fri", "sat"]

def number? (cs : List Char) : Option Nat :=
  if cs.isEmpty || !cs.all (fun c => '0' ≤ c && c ≤ '9') then none
  else some (cs.foldl (fun n c => n * 10 + (c.toNat - 48)) 0)

def named? (place : Place) (cs : List Char) : Option Nat :=
  let word := String.ofList cs
  match place with
  | .month => (monthNames.findIdx? (· == word)).map (· + 1)
  | .weekday => weekdayNames.findIdx? (· == word)
  | _ => none

/-- A number as it counts in an expression of `count` fields: weekday 7 is Sunday in five
fields, day 0 the first in six. -/
def counted (place : Place) (count n : Nat) : Nat :=
  match place with
  | .weekday => if n = 7 && count = 5 then 0 else n
  | .day => if n = 0 && count = 6 then 1 else n
  | _ => n

def plainItem (place : Place) (count : Nat) (cs : List Char) : Option Item := do
  if cs = ['*'] then return .any
  if place = .day && cs = ['l'] then return .last
  let n ← (number? cs).orElse fun _ => named? place cs
  let n := counted place count n
  if place.least ≤ n && n ≤ place.greatest then return .value n else none

structure Range where
  low : List Char
  high : List Char
  step : Nat
  deriving DecidableEq, Repr

/-- The range that `low-high` or `low-high/step` writes. -/
def range? (cs : List Char) : Option Range := do
  let (low, rest) ← Text.cut '-' cs
  if low.isEmpty then none
  let high := rest.takeWhile fun c => c != '-' && c != '/'
  if high.isEmpty then none
  match rest.drop high.length with
  | [] => return ⟨low, high, 1⟩
  | '/' :: step => return ⟨low, high, ← number? step⟩
  | _ => none

def lastSlash? (cs : List Char) : Option (List Char × List Char) :=
  let after := cs.reverse.takeWhile (· != '/')
  let before := (cs.reverse.drop (after.length + 1)).reverse
  if after.isEmpty || before.isEmpty || after.length = cs.length then none
  else some (before, after.reverse)

def digitsOf (n : Nat) : List Char := (Nat.repr n).toList

/-- What a word with a range or a step means: the range, and whether it runs to the greatest
value because none was given. -/
def spread? (place : Place) (cs : List Char) : Option (Range × Bool) :=
  let whole := match cs with
    | '*' :: '/' :: c :: rest =>
      digitsOf place.least ++ '-' :: digitsOf place.greatest ++ '/' :: c :: rest
    | cs => cs
  match range? whole with
  | some r => some (r, false)
  | none => do
    let (before, after) ← lastSlash? cs
    let r ← range? (before ++ '-' :: digitsOf place.greatest ++ '/' :: after)
    return (r, true)

/-- The numbers `low`, `low + step`, ... up to `high`. -/
def stepped (low high step : Nat) : List Nat :=
  if high < low then []
  else (List.range ((high - low) / step + 1)).map fun i => low + i * step

def bound? (place : Place) (count : Nat) (cs : List Char) : Option Nat :=
  ((number? cs).orElse fun _ => named? place cs).map (counted place count)

/-- The values of a range. One that ends where it begins is the whole field, unless its end was
not given; one that ends before it begins goes on from the least value. -/
def rangeValues (place : Place) (count : Nat) (r : Range) (openEnded : Bool) :
    Option (List Nat) := do
  let high := if place = .day && r.high = ['l'] then ['3', '1'] else r.high
  let low ← bound? place count r.low
  let high ← bound? place count high
  if r.step = 0 || place.greatest < max low high then none
  if low = high then
    return if openEnded then [low] else stepped place.least place.greatest r.step
  if low < high then return stepped low high r.step
  let first := stepped low place.greatest r.step
  let lastOfFirst := first.getLastD low
  let skipped := place.greatest - lastOfFirst
  let length := place.greatest - place.least + 1
  let skip := if length < lastOfFirst - place.least + r.step && skipped < r.step
    then r.step - skipped else 0
  return first ++ stepped (place.least + skip) high r.step

def isWordChar (c : Char) : Bool := c.isAlphanum || c = '_'

def isNameRange (cs : List Char) : Bool :=
  match Text.cut '-' cs with
  | none => false
  | some (a, b) =>
    let names (all : List String) : Bool :=
      all.contains (String.ofList a) && all.contains (String.ofList b)
    names weekdayNames || names monthNames

/-- A weekday word with a number sign or a leading `l`: the word and which of its month. -/
def ordinal? (cs : List Char) : Option (List Char × Option Ordinal) :=
  match Text.cut '#' cs with
  | some (word, digits) =>
    if (!word.isEmpty && word.all isWordChar) || isNameRange word then
      (number? digits).map fun n =>
        (word, if 1 ≤ n && n ≤ 5 then some (.nth n) else none)
    else none
  | none =>
    match cs with
    | 'l' :: digits => (number? digits).map fun _ => (digits, some .last)
    | _ => none

def wordItems (place : Place) (count : Nat) (cs : List Char) : Option (List Item) :=
  match spread? place cs with
  | some (r, openEnded) => do
    (← rangeValues place count r openEnded).mapM fun n => plainItem place count (digitsOf n)
  | none => (plainItem place count cs).map ([·])

def readWord (place : Place) (count : Nat) (cs : List Char) :
    Option (List Item × List (Nat × Ordinal)) :=
  let marked := if place = .weekday then ordinal? cs else none
  match marked with
  | none => (wordItems place count cs).map (·, [])
  | some (_, none) => none
  | some (word, some ordinal) => do
    let items ← wordItems place count word
    return (items, items.filterMap fun
      | .value n => some (n, ordinal)
      | _ => none)

def Item.le : Item → Item → Bool
  | .any, _ => true
  | _, .any => false
  | .last, .last => true
  | .last, _ => false
  | _, .last => true
  | .value a, .value b => a ≤ b

def sortItems (items : List Item) : List Item := items.eraseDups.mergeSort Item.le

/-- The values of a field, before a full list of them is recognised. -/
def readField (place : Place) (count : Nat) (cs : List Char) :
    Option (List Item × List (Nat × Ordinal)) := do
  let cs ← if cs.contains '?' then
      if cs = ['?'] && (place = .day || place = .weekday) then some ['*'] else none
    else some cs
  let words ← (Text.splitChars ',' cs).mapM (readWord place count)
  return (sortItems (words.flatMap (·.1)), words.flatMap (·.2))

/-- Whether a list is as long as the field has values. -/
def isFull (place : Place) (items : List Item) : Bool :=
  items.length = place.greatest - place.least + 1

/-- The field with a full list replaced by any value. For day and weekday this needs a star in
the other one's text. -/
def simplify (place : Place) (starredDay starredWeekday : Bool) (items : List Item) : List Item :=
  let allowed := match place with
    | .day => starredWeekday
    | .weekday => starredDay
    | _ => true
  if isFull place items && allowed then [.any] else items

def shortcuts : List (String × String) :=
  [("@midnight", "0 0 * * *"), ("@hourly", "0 * * * *"), ("@daily", "0 0 * * *"),
    ("@weekly", "0 0 * * 0"), ("@monthly", "0 0 1 * *"), ("@yearly", "0 0 1 1 *"),
    ("@annually", "0 0 1 1 *")]

def isFieldSpace (c : Char) : Bool :=
  c = ' ' || (9 ≤ c.toNat && c.toNat ≤ 13)

def fieldTexts (expression : String) : List (List Char) :=
  let text := Text.lower expression
  let text := (shortcuts.lookup text).getD text
  Text.fieldsFrom isFieldSpace [] text.toList

/-- Whether weekdays that count only as some of their month stand beside others. -/
def mixesOrdinals (weekday : List Item) (ordinals : List (Nat × Ordinal)) : Bool :=
  let plain := weekday.filter fun item =>
    match item with
    | .value n => !(ordinals.map (·.1)).contains n
    | .last => true
    | .any => false
  !ordinals.isEmpty && !plain.isEmpty && weekday.length != 7

def parse (expression : String) : Option Fields := do
  let texts := fieldTexts expression
  let count := texts.length
  if count < 5 || 7 < count then none
  let read ← (places.zip texts).mapM fun (place, text) =>
    (readField place count text).map fun (items, ordinals) => (place, items, ordinals)
  let starred (i : Nat) : Bool := (texts.getD i []).contains '*'
  let field (i : Nat) : Option (List Item) :=
    (read[i]?).map fun (place, items, _) => simplify place (starred 2) (starred 4) items
  let ordinals := (read.flatMap fun (_, _, ordinals) => ordinals).eraseDups
  let fields : Fields :=
    { minute := ← field 0, hour := ← field 1, day := ← field 2, month := ← field 3,
      weekday := ← field 4, second := field 5, year := field 6, ordinals := ordinals }
  if mixesOrdinals fields.weekday ordinals then none
  return fields

end Guildhall.Schedule.Cron
