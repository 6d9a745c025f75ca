import Guildhall.Time.Moment

/-!
# Time zones

Zones with a standard offset and, for some, a yearly period of summer time. A zone tells the
offset at an instant and the instants of a wall-clock time, of which there may be none or two.

The rules of a zone are those in force today and hold for all years. The history of a zone, with
its earlier offsets and changes, is left out, and so are all zones but the known ones.
-/

namespace Guildhall.Time

/-- A yearly change: at a time of day on the `week`-th given weekday of a month, or on the last
one for week 5. Sunday is 0. -/
structure YearlyChange where
  month : Nat
  week : Nat
  weekday : Nat
  time : Int
  deriving DecidableEq, Repr

structure Summer where
  offset : Int
  begins : YearlyChange
  finishes : YearlyChange
  deriving DecidableEq, Repr

structure Zone where
  key : String
  standard : Int
  summer : Option Summer
  deriving DecidableEq, Repr

def YearlyChange.wall (c : YearlyChange) (year : Nat) : Int :=
  let first := (Date.mk year c.month 1).number
  let weekdayOfFirst := (weekdayOf first + 1) % 7
  let firstSuch := (c.weekday + 7 - weekdayOfFirst) % 7
  let candidate := firstSuch + 7 * (c.week - 1)
  let dayIndex := if candidate < daysInMonth year c.month then candidate else candidate - 7
  Int.ofNat (first + dayIndex) * day + c.time

namespace Zone

def inSummer (z : Zone) (s : Summer) (instant : Int) : Bool :=
  let year := (dateOfWall (instant + z.standard)).year
  let begins := s.begins.wall year - z.standard
  let finishes := s.finishes.wall year - s.offset
  if begins ≤ finishes then begins ≤ instant && instant < finishes
  else !(finishes ≤ instant && instant < begins)

def offsetAt (z : Zone) (instant : Int) : Int :=
  match z.summer with
  | none => z.standard
  | some s => if z.inSummer s instant then s.offset else z.standard

/-- Whether a wall-clock time, taken to have an offset, does have it. -/
def has (z : Zone) (wall offset : Int) : Bool :=
  z.offsetAt (wall - offset) == offset

/-- The instants at which the clocks show a wall-clock time, earlier first. -/
def instants (z : Zone) (wall : Int) : List Int :=
  match z.summer with
  | none => [wall - z.standard]
  | some s => ([s.offset, z.standard].filter (z.has wall)).map (wall - ·)

/-- The instant of a wall-clock time: the first of two, and by the offset before the gap for one
that is skipped. -/
def instantOf (z : Zone) (wall : Int) : Int :=
  (z.instants wall).headD (wall - z.standard)

def wallAt (z : Zone) (instant : Int) : Int := instant + z.offsetAt instant

def fixed (key : String) (minutes : Int) : Zone := ⟨key, minutes * minute, none⟩

def varying (key : String) (minutes summerMinutes : Int) (begins finishes : YearlyChange) : Zone :=
  ⟨key, minutes * minute, some ⟨summerMinutes * minute, begins, finishes⟩⟩

def known : List Zone :=
  [fixed "UTC" 0,
    varying "Europe/Berlin" 60 120 ⟨3, 5, 0, 2 * hour⟩ ⟨10, 5, 0, 3 * hour⟩,
    varying "Europe/London" 0 60 ⟨3, 5, 0, hour⟩ ⟨10, 5, 0, 2 * hour⟩,
    varying "America/New_York" (-300) (-240) ⟨3, 2, 0, 2 * hour⟩ ⟨11, 1, 0, 2 * hour⟩,
    varying "Australia/Lord_Howe" 630 660 ⟨10, 1, 0, 2 * hour⟩ ⟨4, 1, 0, 2 * hour⟩,
    varying "Australia/Sydney" 600 660 ⟨10, 1, 0, 2 * hour⟩ ⟨4, 1, 0, 3 * hour⟩,
    fixed "Asia/Kolkata" 330,
    fixed "Asia/Kathmandu" 345,
    fixed "Pacific/Kiritimati" 840]

def universal : Zone := fixed "UTC" 0

inductive KeyFault
  | absolute (key : String)
  | notNormalized (key : String)
  | outside (key : String)
  | unknown (key : String)
  deriving DecidableEq, Repr

def KeyFault.message : KeyFault → String
  | absolute key => "ZoneInfo keys may not be absolute paths, got: " ++ key
  | notNormalized key => "ZoneInfo keys must be normalized relative paths, got: " ++ key
  | outside key => "ZoneInfo keys must refer to subdirectories of TZPATH, got: " ++ key
  | unknown key => "No time zone found with key " ++ key

/-- The parts of a relative path without empty and redundant ones. -/
def normalParts : List (List Char) → List (List Char) → List (List Char)
  | [], done => done.reverse
  | part :: rest, done =>
    if part.isEmpty || part == ['.'] then normalParts rest done
    else if part == ['.', '.'] then
      match done with
      | above :: others =>
        if above == ['.', '.'] then normalParts rest (part :: done) else normalParts rest others
      | [] => normalParts rest [part]
    else normalParts rest (part :: done)

def ofKey (key : String) : Except KeyFault Zone :=
  let cs := key.toList
  let pieces : List (List Char) := cs.foldr (fun c pieces =>
    if c = '/' then [] :: pieces
    else
      match pieces with
      | piece :: others => (c :: piece) :: others
      | [] => [[c]]) [[]]
  let parts := normalParts pieces []
  let normal := if parts.isEmpty then ['.'] else ['/'].intercalate parts
  if cs.head? = some '/' then .error (.absolute key)
  else if normal.length ≠ cs.length then .error (.notNormalized key)
  else if parts.isEmpty || parts.head? == some ['.', '.'] then .error (.outside key)
  else
    match known.find? (·.key == key) with
    | some z => .ok z
    | none => .error (.unknown key)

end Zone

end Guildhall.Time
