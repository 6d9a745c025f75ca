/-!
# Calendar

Dates of the proleptic Gregorian calendar and their numbers, counted in days from the first of
January of year 1.
-/

namespace Guildhall.Time

def isLeap (year : Nat) : Bool :=
  year % 4 == 0 && (year % 100 != 0 || year % 400 == 0)

def daysInMonth (year month : Nat) : Nat :=
  match month with
  | 2 => if isLeap year then 29 else 28
  | 4 => 30
  | 6 => 30
  | 9 => 30
  | 11 => 30
  | _ => 31

def daysBeforeYear (year : Nat) : Nat :=
  let y := year - 1
  y * 365 + y / 4 - y / 100 + y / 400

def daysBeforeMonth (year : Nat) : Nat → Nat
  | 0 => 0
  | 1 => 0
  | month + 2 => daysBeforeMonth year (month + 1) + daysInMonth year (month + 1)

structure Date where
  year : Nat
  month : Nat
  day : Nat
  deriving DecidableEq, Repr

def Date.number (d : Date) : Nat :=
  daysBeforeYear d.year + daysBeforeMonth d.year d.month + (d.day - 1)

/-- The month and day of the day number `n` of a year, searched from `month` on. -/
def monthAndDay (year : Nat) : Nat → Nat → Nat → Nat × Nat
  | 0, month, n => (month, n + 1)
  | fuel + 1, month, n =>
    let length := daysInMonth year month
    if n < length then (month, n + 1) else monthAndDay year fuel (month + 1) (n - length)

/-- The date with a number, found through the cycles of 400, 100, 4 and 1 years. -/
def Date.ofNumber (number : Nat) : Date :=
  let n400 := number / 146097
  let n := number % 146097
  let n100 := min 3 (n / 36524)
  let n := n - n100 * 36524
  let n4 := n / 1461
  let n := n % 1461
  let n1 := min 3 (n / 365)
  let n := n - n1 * 365
  let year := n400 * 400 + n100 * 100 + n4 * 4 + n1 + 1
  let (month, day) := monthAndDay year 11 1 n
  ⟨year, month, day⟩

/-- The day of the week of a day number; Monday is 0. -/
def weekdayOf (number : Nat) : Nat := number % 7

def dayLimit : Nat := 3652059

end Guildhall.Time
