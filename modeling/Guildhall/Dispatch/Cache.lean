import Guildhall.Permission.Resolver

/-!
# Permissions of one invocation

Everything that runs within an invocation shares one resolution of the author's permissions. The
first to ask reads the store, others wait for it; after a failed read the next one waiting reads
again.
-/

namespace Guildhall.Dispatch

open Permission (Grants Source)

structure Cache where
  known : Option Grants
  reader : Option Nat
  waiting : List Nat
  deriving DecidableEq, Repr

abbrev Reply := Nat × Except DispatchError Grants

namespace Cache

/-- Nothing known and nobody asking. -/
def empty : Cache := ⟨none, none, []⟩

/-- Somebody asks: the known permissions are given at once, else the asker reads or waits. -/
def ask (c : Cache) (asker : Nat) : Cache × List Reply :=
  match c.known with
  | some grants => (c, [(asker, .ok grants)])
  | none =>
    match c.reader with
    | none => ({ c with reader := some asker }, [])
    | some _ => ({ c with waiting := c.waiting ++ [asker] }, [])

/-- The reader is done: a success serves everybody, a failure only the reader. -/
def finish (c : Cache) (result : Except DispatchError Grants) : Cache × List Reply :=
  match c.reader with
  | none => (c, [])
  | some asker =>
    match result with
    | .ok grants =>
      (⟨some grants, none, []⟩, (asker :: c.waiting).map fun other => (other, .ok grants))
    | .error e => (⟨none, c.waiting.head?, c.waiting.tail⟩, [(asker, .error e)])

def askAll (c : Cache) : List Nat → Cache × List Reply
  | [] => (c, [])
  | asker :: rest =>
    let (c, told) := c.ask asker
    let (c, more) := c.askAll rest
    (c, told ++ more)

/-- Reads until nobody waits, at most `fuel` times. -/
def serve {σ : Type} (source : Source σ) (guild : Option String) (user : String) :
    Nat → Cache → σ → List Reply × Cache × σ
  | 0, c, s => ([], c, s)
  | fuel + 1, c, s =>
    match c.reader with
    | none => ([], c, s)
    | some _ =>
      let (result, s) := source.resolve guild user s
      let (c, told) := c.finish result
      let (more, c, s) := serve source guild user fuel c s
      (told ++ more, c, s)

/-- The replies to `count` askers that ask at the same time. -/
def replies {σ : Type} (source : Source σ) (guild : Option String) (user : String)
    (count : Nat) (c : Cache) (s : σ) : List (Except DispatchError Grants) × Cache × σ :=
  let (c, told) := c.askAll (List.range count)
  let (more, c, s) := serve source guild user count c s
  ((told ++ more).map (·.2), c, s)

end Cache

end Guildhall.Dispatch
