import Guildhall.Text.Quoted

/-!
# UTF-8

Bytes of text, and text from bytes with an account of the first bytes that are not well formed.
-/

namespace Guildhall.Text

inductive Utf8Fault
  | start
  | continuation
  | ending
  deriving DecidableEq, Repr

def Utf8Fault.message : Utf8Fault → String
  | start => "invalid start byte"
  | continuation => "invalid continuation byte"
  | ending => "unexpected end of data"

structure Malformation where
  byte : Nat
  position : Nat
  count : Nat
  fault : Utf8Fault
  deriving DecidableEq, Repr

def Malformation.message (m : Malformation) : String :=
  let place :=
    if m.count = 1 then
      "byte 0x" ++ String.ofList (hexDigits 2 m.byte) ++ s!" in position {m.position}"
    else s!"bytes in position {m.position}-{m.position + m.count - 1}"
  s!"'utf-8' codec can't decode {place}: " ++ m.fault.message

def continues (byte : Nat) : Bool := 0x80 ≤ byte && byte < 0xC0

/-- The number of bytes after a first byte of a longer character, and the bits it carries. -/
def leadOf? (byte : Nat) : Option (Nat × Nat) :=
  if 0xC2 ≤ byte && byte < 0xE0 then some (1, byte - 0xC0)
  else if 0xE0 ≤ byte && byte < 0xF0 then some (2, byte - 0xE0)
  else if 0xF0 ≤ byte && byte < 0xF5 then some (3, byte - 0xF0)
  else none

/-- Whether the second byte suits the first: no character is written longer than it must be, and
none is a surrogate or beyond the last one. -/
def secondFits (first second : Nat) : Bool :=
  continues second &&
    !(first == 0xE0 && second < 0xA0) && !(first == 0xED && 0xA0 ≤ second) &&
    !(first == 0xF0 && second < 0x90) && !(first == 0xF4 && 0x90 ≤ second)

/-- Reads the bytes after a first one: `need` are to come, `seen` have come, with `code` so far.
Yields the code of the character and the rest. -/
def readTail (first : Nat) :
    Nat → Nat → Nat → List Nat → Except (Nat × Utf8Fault) (Nat × List Nat)
  | 0, _, code, rest => .ok (code, rest)
  | _ + 1, seen, _, [] => .error (seen, .ending)
  | need + 1, seen, code, byte :: rest =>
    if (if seen = 1 then secondFits first byte else continues byte) then
      readTail first need (seen + 1) (code * 64 + (byte - 0x80)) rest
    else .error (seen, .continuation)

/-- Reads at most `fuel` characters, with `done` those read, reversed. -/
def readUtf8 : Nat → Nat → List Char → List Nat → Except Malformation (List Char)
  | 0, _, done, _ => .ok done.reverse
  | _ + 1, _, done, [] => .ok done.reverse
  | fuel + 1, position, done, byte :: rest =>
    if byte < 0x80 then readUtf8 fuel (position + 1) (Char.ofNat byte :: done) rest
    else
      match leadOf? byte with
      | none => .error ⟨byte, position, 1, .start⟩
      | some (need, bits) =>
        match readTail byte need 1 bits rest with
        | .ok (code, rest) => readUtf8 fuel (position + need + 1) (Char.ofNat code :: done) rest
        | .error (count, fault) => .error ⟨byte, position, count, fault⟩

def ofUtf8 (bytes : List Nat) : Except Malformation (List Char) :=
  readUtf8 (bytes.length + 1) 0 [] bytes

def encodeChar (c : Char) : List Nat :=
  let code := c.toNat
  let trail (bits : Nat) : Nat := 0x80 + bits % 64
  if code < 0x80 then [code]
  else if code < 0x800 then [0xC0 + code / 64, trail code]
  else if code < 0x10000 then [0xE0 + code / 4096, trail (code / 64), trail code]
  else [0xF0 + code / 262144, trail (code / 4096), trail (code / 64), trail code]

def toUtf8 (s : String) : List Nat := s.toList.flatMap encodeChar

end Guildhall.Text
