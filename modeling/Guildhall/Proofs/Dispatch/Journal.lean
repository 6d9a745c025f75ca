import Guildhall.Dispatch.Dispatcher
import Guildhall.Permission.Request
import Guildhall.Proofs.Permission.Reading

/-!
# Journals

A dispatcher that notes every executor it runs, and with what, in a journal beside the
surroundings. The journal changes nothing else.
-/

namespace Guildhall

namespace Permission.Source

variable {ω σ : Type}

def beside (ω : Type) (source : Source σ) : Source (ω × σ) where
  memberRoles guild user := onPart Prod.snd (fun s w => (w.1, s)) (source.memberRoles guild user)
  rolePermissions guild role :=
    onPart Prod.snd (fun s w => (w.1, s)) (source.rolePermissions guild role)
  overrides guild user := onPart Prod.snd (fun s w => (w.1, s)) (source.overrides guild user)

theorem allRolePermissions_beside (source : Source σ) (guild : String) (roles : List String)
    (j : ω) (s : σ) :
    (source.beside ω).allRolePermissions guild roles (j, s) =
      ((source.allRolePermissions guild roles s).1,
        (j, (source.allRolePermissions guild roles s).2)) := by
  induction roles generalizing s with
  | nil => rfl
  | cons role rest ih =>
    have hrole : (source.beside ω).rolePermissions guild role (j, s) =
      ((source.rolePermissions guild role s).1, (j, (source.rolePermissions guild role s).2)) := rfl
    simp only [allRolePermissions, hrole]
    obtain ⟨told, s⟩ := source.rolePermissions guild role s
    cases told with
    | error e => rfl
    | ok nodes =>
      simp only [ih]
      obtain ⟨more, s⟩ := source.allRolePermissions guild rest s
      cases more <;> rfl

theorem resolve_beside (source : Source σ) (guild : Option String) (user : String) (j : ω)
    (s : σ) :
    (source.beside ω).resolve guild user (j, s) =
      ((source.resolve guild user s).1, (j, (source.resolve guild user s).2)) := by
  cases guild with
  | none => rfl
  | some guild =>
    have hroles : (source.beside ω).memberRoles guild user (j, s) =
      ((source.memberRoles guild user s).1, (j, (source.memberRoles guild user s).2)) := rfl
    have hover (s : σ) : (source.beside ω).overrides guild user (j, s) =
      ((source.overrides guild user s).1, (j, (source.overrides guild user s).2)) := rfl
    simp only [resolve, read, hroles]
    obtain ⟨roles, s⟩ := source.memberRoles guild user s
    cases roles with
    | error e => rfl
    | ok roles =>
      simp only [allRolePermissions_beside]
      obtain ⟨texts, s⟩ := source.allRolePermissions guild (sortTexts roles) s
      cases texts with
      | error e => rfl
      | ok texts =>
        simp only [hover]
        obtain ⟨overrides, s⟩ := source.overrides guild user s
        cases overrides with
        | error e => rfl
        | ok overrides =>
          simp only
          cases parseAll texts <;> rfl

end Permission.Source

namespace Dispatch

open Permission (Source)

variable {ε σ ω : Type}

namespace Cache

theorem serve_beside (source : Source σ) (guild : Option String) (user : String) (fuel : Nat)
    (c : Cache) (j : ω) (s : σ) :
    serve (source.beside ω) guild user fuel c (j, s) =
      ((serve source guild user fuel c s).1, (serve source guild user fuel c s).2.1,
        (j, (serve source guild user fuel c s).2.2)) := by
  induction fuel generalizing c s with
  | zero => rfl
  | succ fuel ih =>
    unfold serve
    cases c.reader with
    | none => rfl
    | some asker => simp only [Source.resolve_beside, ih]

theorem replies_beside (source : Source σ) (guild : Option String) (user : String) (count : Nat)
    (c : Cache) (j : ω) (s : σ) :
    replies (source.beside ω) guild user count c (j, s) =
      ((replies source guild user count c s).1, (replies source guild user count c s).2.1,
        (j, (replies source guild user count c s).2.2)) := by
  simp only [replies, serve_beside]

end Cache

namespace Script

/-- A script that leaves alone what stands beside its surroundings. -/
def beside (ω : Type) : Script σ → Script (ω × σ)
  | .done result => .done result
  | .permissions askers next => .permissions askers fun told => (next told).beside ω
  | .pause microseconds next => .pause microseconds (next.beside ω)
  | .act change next => .act (fun w => (w.1, change w.2)) fun w => (next w.2).beside ω

theorem run_beside (source : Source σ) (ctx : Context) (script : Script σ) (c : Cache) (j : ω)
    (s : σ) :
    (script.beside ω).run (source.beside ω) ctx c (j, s) =
      ((script.run source ctx c s).1, (script.run source ctx c s).2.1,
        (j, (script.run source ctx c s).2.2)) := by
  induction script generalizing c s with
  | done result => rfl
  | permissions askers next ih => simp only [beside, run, Cache.replies_beside, ih]
  | pause microseconds next ih => simp only [beside, run, ih]
  | act change next ih => simp only [beside, run, ih]

end Script

structure Call (ε : Type) where
  executor : ε
  context : Context

def Stage.calls : Stage ε → List (Call ε)
  | .settled _ _ => []
  | .ready invocation => [⟨invocation.executor, invocation.context⟩]

namespace Dispatcher

/-- The dispatcher with a journal: every executor that is run is noted before anything else. -/
def journaled (d : Dispatcher ε σ) : Dispatcher ε (List (Call ε) × σ) where
  registry := d.registry
  source := d.source.beside (List (Call ε))
  superusers := d.superusers
  perform executor ctx :=
    .act (fun w => (w.1 ++ [⟨executor, ctx⟩], w.2)) fun _ =>
      (d.perform executor ctx).beside (List (Call ε))

/-- The executors that carrying out a message runs, in order. -/
def journal (d : Dispatcher ε σ) (message : String) (caller : Caller) (s : σ) : List (Call ε) :=
  (d.journaled.dispatch message caller ([], s)).2.2.1

theorem firstMissing_journaled (d : Dispatcher ε σ) (ctx : Context) (required : List String)
    (j : List (Call ε)) (s : σ) :
    d.journaled.firstMissing ctx required (j, s) =
      ((d.firstMissing ctx required s).1, (d.firstMissing ctx required s).2.1,
        (j, (d.firstMissing ctx required s).2.2)) := by
  cases required with
  | nil => rfl
  | cons first rest =>
    unfold firstMissing journaled
    simp only [Cache.replies_beside]
    split
    · rfl
    · split
      · rfl
      · obtain ⟨told, c, s⟩ :=
          Cache.empty.replies d.source ctx.caller.guild ctx.caller.author 1 s
        cases told with
        | nil => rfl
        | cons reply more =>
          cases reply with
          | error e => rfl
          | ok grants =>
            simp only
            cases grants.firstMissing (first :: rest) <;> rfl

theorem prepare_journaled (d : Dispatcher ε σ) (message : String) (caller : Caller)
    (j : List (Call ε)) (s : σ) :
    d.journaled.prepare message caller (j, s) =
      ((d.prepare message caller s).1, (j, (d.prepare message caller s).2)) := by
  have hregistry : d.journaled.registry = d.registry := rfl
  have hsuperusers : d.journaled.superusers = d.superusers := rfl
  have husage : d.journaled.subcommandUsage = d.subcommandUsage := rfl
  unfold prepare
  simp only [firstMissing_journaled, hregistry, hsuperusers, husage]
  cases Command.tokenize message with
  | error unclosed => rfl
  | ok tokens =>
    simp only
    obtain ⟨found, args⟩ := d.registry.lookup tokens
    cases found.bind fun id => (d.registry.definition? id).map (id, ·) with
    | none => rfl
    | some entry =>
      obtain ⟨id, definition⟩ := entry
      simp only
      split
      · rfl
      · obtain ⟨gate, cache, s⟩ := d.firstMissing _ definition.permissions s
        rcases gate with e | (_ | missing)
        · rfl
        · cases definition.executor <;> rfl
        · rfl

/-- Keeping a journal changes neither the outcome nor the events nor the surroundings. -/
theorem dispatch_journaled (d : Dispatcher ε σ) (message : String) (caller : Caller)
    (j : List (Call ε)) (s : σ) :
    d.journaled.dispatch message caller (j, s) =
      ((d.dispatch message caller s).1, (d.dispatch message caller s).2.1,
        (j ++ Stage.calls (d.prepare message caller s).1, (d.dispatch message caller s).2.2)) := by
  unfold dispatch
  rw [prepare_journaled]
  obtain ⟨stage, s⟩ := d.prepare message caller s
  cases stage with
  | settled outcome events => simp [Stage.calls]
  | ready invocation =>
    simp [script, journaled, Script.run, Script.run_beside, Stage.calls]

end Dispatcher

end Dispatch

end Guildhall
