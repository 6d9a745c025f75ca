import Guildhall.Time.Moment

/-!
# Times of day

A time of day as an hour, minute, second and fraction, perhaps with a distance from universal
time, and the written forms it is read from: `HH`, `HH:MM`, `HH:MM:SS` or the same without
colons, a fraction, and a zone. A time does not say which of two it means where the clocks are put
back.
-/

namespace Guildhall.Time

structure TimeOfDay where
  micros : Int
  offset : Option Int
  deriving DecidableEq, Repr

namespace TimeOfDay

def text (t : TimeOfDay) : String :=
  s!"{twoDigits (t.micros / hour)}:{twoDigits (t.micros / minute % 60)}" ++
    (t.offset.map offsetText).getD ""

def ofParts (h m s us : Int) : Except String TimeOfDay :=
  if h < 0 || 23 < h then .error "hour must be in 0..23"
  else if m < 0 || 59 < m then .error "minute must be in 0..59"
  else if s < 0 || 59 < s then .error "second must be in 0..59"
  else if us < 0 || 999999 < us then .error "microsecond must be in 0..999999"
  else .ok ⟨h * hour + m * minute + s * second + us, none⟩

/-! The reader works on the bytes of the text followed by a zero, and looks one byte past a part
before it knows where the part ends. So one stray byte right before a zone goes unnoticed. -/

def digit? (byte : Nat) : Option Nat :=
  if 48 ≤ byte && byte ≤ 57 then some (byte - 48) else none

/-- The number written by the first `count` bytes, and the bytes after them. -/
def digits : Nat → Nat → List Nat → Option (Nat × List Nat)
  | 0, value, bytes => some (value, bytes)
  | _ + 1, _, [] => none
  | count + 1, value, byte :: rest => do
    digits count (value * 10 + (← digit? byte)) rest

structure Parts where
  hour : Nat
  minute : Nat
  second : Nat
  micros : Nat

def Parts.set (p : Parts) (index value : Nat) : Parts :=
  match index with
  | 0 => { p with hour := value }
  | 1 => { p with minute := value }
  | _ => { p with second := value }

/-- Reads a fraction whose part runs until only `after` bytes are left: at most six digits count,
more are skipped. Also tells whether something else follows. -/
def readFraction (p : Parts) (after : Nat) (bytes : List Nat) : Option (Parts × Bool) := do
  let count := min 6 (bytes.length - after)
  let (value, rest) ← digits count 0 bytes
  let rest := rest.dropWhile fun byte => (digit? byte).isSome
  return ({ p with micros := value * Nat.pow 10 (6 - count) }, rest.headD 0 != 0)

/-- Reads the parts from the `index`-th on, of a text that runs until only `after` bytes are
left. `colons` says whether the parts are separated. Also tells whether something else follows. -/
def readParts (after : Nat) : Nat → Nat → Bool → Parts → List Nat → Option (Parts × Bool)
  | 0, _, _, p, bytes => readFraction p after bytes
  | fuel + 1, index, colons, p, bytes => do
    let (value, rest) ← digits 2 0 bytes
    let p := p.set index value
    let next := rest.headD 0
    let colons := if index = 0 then next == 58 else colons
    let beyond := rest.drop 1
    if rest.length ≤ after + 1 then return (p, next != 0)
    else if colons && next == 58 then readParts after fuel (index + 1) colons p beyond
    else if next == 46 || next == 44 then readFraction p after beyond
    else if !colons then readParts after fuel (index + 1) colons p rest
    else none

/-- The parts of a text that runs until only `after` bytes are left. -/
def readClock (after : Nat) (bytes : List Nat) : Option (Parts × Bool) :=
  readParts after 3 0 true ⟨0, 0, 0, 0⟩ bytes

def beginsZone (byte : Nat) : Bool := byte == 43 || byte == 45 || byte == 90

def withOffset (t : TimeOfDay) (negative : Bool) (p : Parts) : Option TimeOfDay :=
  let seconds := (p.hour * 60 + p.minute) * 60 + p.second
  let size : Int := Int.ofNat seconds * second + Int.ofNat p.micros
  if seconds = 0 then some { t with offset := some 0 }
  else if size < day then some { t with offset := some (if negative then -size else size) }
  else none

def readBytes (bytes : List Nat) : Option TimeOfDay := do
  let bytes := if bytes.head? == some 84 then bytes.tail else bytes
  let clock := bytes.takeWhile fun byte => !beginsZone byte
  let zone := bytes.drop clock.length
  let (p, more) ← readClock (zone.length + 1) (bytes ++ [0])
  let time ← (ofParts p.hour p.minute p.second p.micros).toOption
  match zone with
  | [] => if more then none else return time
  | 90 :: rest => if rest.isEmpty then return { time with offset := some 0 } else none
  | sign :: rest =>
    let (z, more) ← readClock 1 (rest ++ [0])
    if more then none else time.withOffset (sign == 45) z

/-- The time that a text writes, blanks around it aside. -/
def ofText? (text : String) : Option TimeOfDay :=
  readBytes (text.toUTF8.toList.map UInt8.toNat)

/-- Whole seconds from universal midnight, and microseconds. -/
def universal (t : TimeOfDay) : Int × Int :=
  (t.micros / second - (t.offset.getD 0) / second, t.micros % second)

/-- Whether two times are the same: as written when both have the same offset or none, at the
same universal time when both have one. -/
def same (a b : TimeOfDay) : Bool :=
  if a.offset = b.offset then a.micros == b.micros
  else
    match a.offset, b.offset with
    | some x, some y => a.universal == b.universal && a.micros - x == b.micros - y
    | _, _ => false

def le (a b : TimeOfDay) : Bool :=
  if a.offset = b.offset then a.micros ≤ b.micros
  else
    let (s, u) := a.universal
    let (s', u') := b.universal
    s < s' || (s == s' && u ≤ u')

end TimeOfDay

end Guildhall.Time
