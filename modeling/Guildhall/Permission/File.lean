import Guildhall.Permission.Document
import Guildhall.Permission.Resolver
import Guildhall.Text.Lines
import Guildhall.Yaml.Reader
import Guildhall.Yaml.Writer

/-!
# Permission files

A store that keeps a file. The file is read again whenever its time stamp has changed, so
changes made by an operator take effect; every change to the store is preceded by such a reading
and saved at once.

A place either takes a whole text or refuses it before anything is written. A write that breaks off
once the old text is gone, as on a full disk, is left out. So are documents nested so deep that
reading or showing their values exhausts the stack; no store foresees that failure either, and it
would be passed on as the unforeseen ones are here.
-/

namespace Guildhall.Permission

inductive Content
  | absent
  | directory
  | file (text : String)
  deriving DecidableEq, Repr

/-- A place on a disk: what is there, its time stamp, the stamp of the next change, and what a
program that writes there fails with, if it cannot. -/
structure Disk where
  content : Content
  stamp : Nat
  nextStamp : Nat
  refusal : Option Failure
  deriving DecidableEq, Repr

namespace Disk

def empty : Disk := ⟨.absent, 0, 1, none⟩

def closed (refusal : Failure) : Disk := { empty with refusal := some refusal }

/-- The place that a path names, with nothing there yet. No file has a name with a NUL character. -/
def atPath (path : String) : Disk :=
  if path.toList.contains '\x00' then closed (.invalidValue "embedded null byte") else empty

/-- Other content, with a time stamp of its own. -/
def put (d : Disk) (c : Content) : Disk :=
  { d with content := c, stamp := d.nextStamp, nextStamp := d.nextStamp + 1 }

/-- Other content under the old time stamp. -/
def putUnnoticed (d : Disk) (c : Content) : Disk := { d with content := c }

def isThere (d : Disk) : Bool := d.content ≠ .absent

def Writable (d : Disk) : Prop := d.content ≠ .directory ∧ d.refusal = none

theorem writable_empty : Writable .empty := ⟨by simp [empty], rfl⟩

theorem Writable.put {d : Disk} (h : d.Writable) {c : Content} (hc : c ≠ .directory) :
    (d.put c).Writable := ⟨hc, h.2⟩

end Disk

/-- The text of the file there, if there is one, with plain line ends. -/
def Disk.text? (d : Disk) : Option String :=
  match d.content with
  | .file text => some (String.ofList (Text.plainLines text.toList))
  | _ => none

structure FileStore where
  path : String
  store : Store
  seen : Option Nat
  deriving DecidableEq, Repr

def loadFailure (path detail : String) (fault : LoadFault) : Failure :=
  .store s!"Failed to load {path}: {detail}" (some fault)

def documentFailure (path : String) : Failure → Failure
  | .invalidValue message => loadFailure path message .invalidValue
  | .wrongShape => loadFailure path Failure.wrongShape.message .wrongShape
  | other => loadFailure path other.message .wrongType

/-- The detail shown for a text that cannot be read. -/
def faultDetail : LoadFault → String
  | .malformedText => "the text is not well formed"
  | .wrongShape => Failure.wrongShape.message
  | .wrongType => Failure.wrongType.message
  | .invalidValue => "invalid value"
  | .directory => Failure.directory.message

def Store.ofText (path text : String) : Except Failure Store :=
  match Yaml.parse (Text.plainLines text.toList) with
  | .error (.known fault) => .error (loadFailure path (faultDetail fault) fault)
  | .error (.unforeseen slip) => .error slip.failure
  | .ok document =>
    let document := if document.isTrue then document else .map []
    match document with
    | .map entries =>
      match Store.ofValue (.map entries) with
      | .ok s => .ok s
      | .error e => .error (documentFailure path e)
    | _ => .error (.store s!"{path}: top level must be a mapping" none)

def Store.toText (s : Store) : String := Yaml.render s.toValue

namespace FileStore

/-- Reads the file again if it is there and has another time stamp. -/
def refresh (f : FileStore) (d : Disk) : Except Failure FileStore :=
  match d.content with
  | .absent => .ok f
  | .directory =>
    if f.seen = some d.stamp then .ok f
    else .error (loadFailure f.path (faultDetail .directory) .directory)
  | .file text =>
    if f.seen = some d.stamp then .ok f
    else do
      let s ← Store.ofText f.path text
      return { f with store := s, seen := some d.stamp }

/-- A new store for a path, with what the file holds. -/
def openAt (path : String) (d : Disk) : Except Failure FileStore :=
  refresh ⟨path, .empty, none⟩ d

def save (f : FileStore) (d : Disk) : Except Failure (FileStore × Disk) :=
  match d.content, d.refusal with
  | .directory, _ => .error .directory
  | _, some refusal => .error refusal
  | _, none =>
    let d := d.put (.file f.store.toText)
    .ok ({ f with seen := some d.stamp }, d)

/-- A change: checked, applied to what the file holds by now, and saved if there was anything to
change. The store in memory is changed even when saving fails. -/
def write (f : FileStore) (d : Disk) (w : Write) :
    Except Failure Bool × FileStore × Disk :=
  match w.canonical with
  | .error fault => (.error fault.failure, f, d)
  | .ok w =>
    match f.refresh d with
    | .error e => (.error e, f, d)
    | .ok f =>
      let (store, changed) := f.store.apply w
      let f := { f with store := store }
      if !changed then (.ok false, f, d)
      else
        match f.save d with
        | .ok (f, d) => (.ok true, f, d)
        | .error e => (.error e, f, d)

def read {α : Type} (get : Store → Except Failure α) (s : FileStore × Disk) :
    Except Failure α × (FileStore × Disk) :=
  match s.1.refresh s.2 with
  | .error e => (.error e, s)
  | .ok f => (get f.store, (f, s.2))

/-- The reads of a store that keeps a file. -/
def source : Source (FileStore × Disk) where
  memberRoles guild user := read fun s => .ok (s.memberRoles guild user)
  rolePermissions guild role := read fun s => .ok (s.rolePermissions guild role)
  overrides guild user := read fun s => orFailure (s.overrides guild user)

end FileStore

end Guildhall.Permission
