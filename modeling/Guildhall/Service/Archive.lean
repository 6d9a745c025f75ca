import Guildhall.Permission.Request

/-!
# Archive

Where a service keeps permissions: in memory, in a file, or nowhere, so that nobody has any and
nothing can be changed.
-/

namespace Guildhall.Service

open Permission (Access Disk FileStore Source Store)

inductive Keeping
  | memory (store : Store)
  | file (store : FileStore)
  | readOnly

structure Archive where
  keeping : Keeping
  disk : Disk

def Archive.isReadOnly (a : Archive) : Bool :=
  match a.keeping with
  | .readOnly => true
  | _ => false

def onStore {α : Type} (inMemory : Store → α × Store)
    (inFile : FileStore × Disk → α × FileStore × Disk) (without : α) (a : Archive) :
    α × Archive :=
  match a.keeping with
  | .memory store =>
    let (r, store) := inMemory store
    (r, { a with keeping := .memory store })
  | .file store =>
    let (r, store, disk) := inFile (store, a.disk)
    (r, ⟨.file store, disk⟩)
  | .readOnly => (without, a)

/-- The operations of an archive; what a read-only one lacks is a wrong shape. -/
def Archive.access : Access Archive where
  source :=
    { memberRoles := fun guild user =>
        onStore (Source.memory.memberRoles guild user) (FileStore.source.memberRoles guild user)
          (.ok [])
      rolePermissions := fun guild role =>
        onStore (Source.memory.rolePermissions guild role)
          (FileStore.source.rolePermissions guild role) (.ok [])
      overrides := fun guild user =>
        onStore (Source.memory.overrides guild user) (FileStore.source.overrides guild user)
          (.ok []) }
  change w := onStore (Access.memory.change w) (Access.file.change w) (.error .wrongShape)
  content a :=
    match a.keeping with
    | .memory store => .ok store.toValue
    | .file store => .ok store.store.toValue
    | .readOnly => .error .wrongShape
  load document :=
    onStore (Access.memory.load document) (Access.file.load document) (.error .wrongShape)

end Guildhall.Service
