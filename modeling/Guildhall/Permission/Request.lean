import Guildhall.Permission.Document
import Guildhall.Permission.File
import Guildhall.Permission.Resolver

/-!
# Requests to a store

What can be asked of any permission store, and the answers. Requests are read from descriptions in
which an id may be any scalar and stands for its text.
-/

namespace Guildhall.Permission

inductive Request
  | change (w : Write)
  | memberRoles (guild user : String)
  | rolePermissions (guild role : String)
  | overrides (guild user : String)
  | resolve (guild : Option String) (user : String)
  | holds (guild : Option String) (user node : String)
  | content
  | load (document : Value)

inductive Answer
  | done
  | cleared (wasThere : Bool)
  | texts (items : List String)
  | overrides (items : List Override)
  | grants (g : Grants)
  | held (b : Bool)
  | content (document : Value)

/-- The members of a set of values, equal ones merged. -/
def mergeSame : List Value → List Value
  | [] => []
  | v :: rest => v :: (mergeSame rest).filter fun w => !v.same w

def Request.ofValue? (description : Value) : Option Request :=
  let id (key : String) : String := (description.get key).text
  let guild? := match description.get "guild" with
    | .atom .null => none
    | other => some other.text
  match id "do" with
  | "set_member_roles" =>
    let roles := (mergeSame (description.get "roles").items).map Value.text
    some (.change (.setMemberRoles (id "guild") (id "user") roles))
  | "grant_role" => some (.change (.grantRole (id "guild") (id "role") (id "node")))
  | "revoke_role" => some (.change (.revokeRole (id "guild") (id "role") (id "node")))
  | "set_override" =>
    let allow := (description.get "allow").isTrue
    some (.change (.setOverride (id "guild") (id "user") (id "node") allow))
  | "clear_override" => some (.change (.clearOverride (id "guild") (id "user") (id "node")))
  | "get_member_roles" => some (.memberRoles (id "guild") (id "user"))
  | "get_role_permissions" => some (.rolePermissions (id "guild") (id "role"))
  | "get_overrides" => some (.overrides (id "guild") (id "user"))
  | "resolve" => some (.resolve guild? (id "user"))
  | "has_permission" => some (.holds guild? (id "user") (id "node"))
  | "to_dict" => some .content
  | "load_dict" => some (.load (description.get "data"))
  | _ => none

/-- What a change answers: whether there was an override to clear, otherwise nothing. -/
def Write.answer (w : Write) (changed : Bool) : Answer :=
  match w with
  | clearOverride _ _ _ => .cleared changed
  | _ => .done

structure Access (σ : Type) where
  source : Source σ
  change : Write → σ → Except Failure Bool × σ
  content : σ → Except Failure Value
  load : Value → σ → Except Failure Unit × σ

def Access.memory : Access Store where
  source := Source.memory
  change w s :=
    match s.write w with
    | .ok (s, changed) => (.ok changed, s)
    | .error fault => (.error fault.failure, s)
  content s := .ok s.toValue
  load document s :=
    match Store.ofValue document with
    | .ok s => (.ok (), s)
    | .error e => (.error e, s)

def Access.file : Access (FileStore × Disk) where
  source := FileStore.source
  change w s :=
    let (result, f, d) := s.1.write s.2 w
    (result, f, d)
  content s := .ok s.1.store.toValue
  load document s :=
    match Store.ofValue document with
    | .ok store => (.ok (), { s.1 with store := store }, s.2)
    | .error e => (.error e, s)

variable {σ : Type}

def onPart {ω α : Type} (part : ω → σ) (put : σ → ω → ω) (act : σ → α × σ) (whole : ω) : α × ω :=
  let (a, s) := act (part whole)
  (a, put s whole)

/-- A store that lives in a part of a larger state. -/
def Access.within {ω : Type} (access : Access σ) (part : ω → σ) (put : σ → ω → ω) : Access ω where
  source :=
    { memberRoles := fun guild user => onPart part put (access.source.memberRoles guild user)
      rolePermissions := fun guild role =>
        onPart part put (access.source.rolePermissions guild role)
      overrides := fun guild user => onPart part put (access.source.overrides guild user) }
  change w := onPart part put (access.change w)
  content whole := access.content (part whole)
  load document := onPart part put (access.load document)

def answered {α ε : Type} (form : α → Answer) (failure : ε → Failure) :
    Except ε α × σ → Except Failure Answer × σ
  | (.ok a, s) => (.ok (form a), s)
  | (.error e, s) => (.error (failure e), s)

def Access.ask (access : Access σ) (request : Request) (s : σ) : Except Failure Answer × σ :=
  match request with
  | .change w => answered w.answer id (access.change w s)
  | .memberRoles guild user =>
    answered (.texts ∘ sortTexts) id (access.source.memberRoles guild user s)
  | .rolePermissions guild role =>
    answered (.texts ∘ sortTexts) id (access.source.rolePermissions guild role s)
  | .overrides guild user => answered .overrides id (access.source.overrides guild user s)
  | .resolve guild user => answered .grants .dispatch (access.source.resolve guild user s)
  | .holds guild user node =>
    match access.source.resolve guild user s with
    | (.ok g, s) => ((orFailure (g.hasText node)).map .held, s)
    | (.error e, s) => (.error (.dispatch e), s)
  | .content => ((access.content s).map .content, s)
  | .load document => answered (fun _ => .done) id (access.load document s)

/-- An answer as data; resolved permissions are told with `checks`, their answers to a list of
questions. -/
def Answer.toValue (checks : Grants → Value) : Answer → Value
  | done => .null
  | cleared wasThere => .bool wasThere
  | texts items => .texts items
  | overrides items =>
    let pairs := items.map fun o => (o.node.value, o.allow)
    let sorted := pairs.mergeSort fun a b => decide (a.1 ≤ b.1)
    .list (sorted.map fun (node, allow) => .list [.str node, .bool allow])
  | grants g =>
    .record [("granted", .texts g.grantedTexts), ("revoked", .texts g.revokedTexts),
      ("effective", .texts g.effective), ("has", checks g)]
  | held b => .bool b
  | content document => document

end Guildhall.Permission
