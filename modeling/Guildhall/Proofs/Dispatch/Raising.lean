import Guildhall.Chat.Bot
import Guildhall.Proofs.Dispatch.Ending

/-!
# Failures on the way

Carrying out a message as a sequence of steps that may raise a failure. A raised failure ends the
message, unless it is caught right where it arises and is of a kind that is expected there. With a
registry in use every failure that is raised is caught, and what comes of the steps is what the
dispatcher tells.
-/

namespace Guildhall.Dispatch

open Chat (Manners Message)
open Command (Definition)
open Hook (Event)
open Permission (Grants Node orFailure)

variable {ε σ α β : Type}

/-- Steps in surroundings of type `σ` that may raise a failure and may publish events. Events that
have been published stay published when a failure is raised. -/
abbrev Attempt (σ α : Type) := EStateM Failure (List Event × σ) α

namespace Attempt

/-- An operation on the surroundings; its failure is raised. -/
def perform (act : σ → Except Failure α × σ) : Attempt σ α := fun w =>
  match act w.2 with
  | (.ok a, s) => .ok a (w.1, s)
  | (.error failure, s) => .error failure (w.1, s)

def raising (result : Except Failure α) : Attempt σ α := perform fun s => (result, s)

def publish (event : Event) : Attempt σ Unit := modify fun w => (w.1 ++ [event], w.2)

def caught (step : Attempt σ α) : Attempt σ (Except Failure α) :=
  tryCatch (Except.ok <$> step) fun failure => pure (.error failure)

variable {events : List Event} {s : σ}

theorem run_perform (act : σ → Except Failure α × σ) :
    (perform act).run (events, s) =
      match (act s).1 with
      | .ok a => .ok a (events, (act s).2)
      | .error failure => .error failure (events, (act s).2) := by
  simp only [perform, EStateM.run]
  obtain ⟨result, s'⟩ := act s
  cases result <;> rfl

theorem run_bind_caught (step : Attempt σ α) (next : Except Failure α → Attempt σ β)
    (w : List Event × σ) :
    (caught step >>= next).run w =
      match step.run w with
      | .ok a w => (next (.ok a)).run w
      | .error failure w => (next (.error failure)).run w := by
  simp only [caught, bind, EStateM.bind, EStateM.run, tryCatch, tryCatchThe,
    MonadExceptOf.tryCatch, EStateM.tryCatch, Functor.map, EStateM.map]
  cases step w <;> rfl

end Attempt

namespace Dispatcher

/-- Looks up the permissions of a member. Whatever goes wrong is a failed lookup. -/
def lookUp (d : Dispatcher ε σ) (guild user : String) : Attempt σ Grants := do
  let reading : Attempt σ Grants := .perform (d.source.read guild user)
  match ← reading.caught with
  | .ok grants => return grants
  | .error cause => throw (.dispatch (.lookupFailed (some guild) user cause.message cause))

/-- What the author of a message is missing, and the permissions as far as they are known by then.
The lookup may fail, and so may the reading of an identifier. -/
def gate (d : Dispatcher ε σ) (ctx : Context) (required : List String) :
    Attempt σ (Option String × Cache) :=
  match required with
  | [] => return (none, .empty)
  | first :: _ =>
    if ctx.superuser then return (none, .empty)
    else
      match ctx.caller.guild with
      | none => return (some first, .empty)
      | some guild => do
        let grants ← d.lookUp guild ctx.caller.author
        let missing ← Attempt.raising (orFailure (grants.firstMissing required))
        return (missing, ⟨some grants, none, []⟩)

/-- Runs a permitted command. Its executor may fail with anything. -/
def execute (d : Dispatcher ε σ) (ctx : Context) (id : Nat) (definition : Definition ε)
    (cache : Cache) : Attempt σ Outcome :=
  match definition.executor with
  | none => return ctx.refuse (d.needsSubcommand ctx id definition)
  | some executor => do
    let run : Attempt σ Value := .perform fun s =>
      let (result, _, s) := (d.perform executor ctx).run d.source ctx cache s
      (result, s)
    match ← run.caught with
    | .ok v => return ⟨ctx, .ok v⟩
    | .error failure => return ctx.refuse (reported ctx definition failure)

/-- Tells subscribers how a command that was let through has ended. -/
def announce (outcome : Outcome) : Attempt σ Unit :=
  match outcome.result with
  | .ok v => .publish (.commandExecuted outcome.context v)
  | .error e => .publish (.commandFailed outcome.context e)

/-- Carries out a command that may be run where it was written. Of what the gate raises only the
failure of a lookup is caught. -/
def proceed (d : Dispatcher ε σ) (ctx : Context) (id : Nat) (definition : Definition ε) :
    Attempt σ Outcome := do
  match ← (d.gate ctx definition.permissions).caught with
  | .error (.dispatch (.lookupFailed guild user reason cause)) =>
    return ctx.refuse (.lookupFailed guild user reason cause)
  | .error failure => throw failure
  | .ok (some missing, _) =>
    Attempt.publish (.commandDenied ctx missing)
    return ctx.refuse (.permissionDenied missing)
  | .ok (none, cache) =>
    let outcome ← d.execute ctx id definition cache
    announce outcome
    return outcome

/-- Carries out a message step by step. Of what the reading of its words raises only a complaint
about them is caught. -/
def carryOut (d : Dispatcher ε σ) (message : String) (caller : Caller) : Attempt σ Outcome := do
  let ctx := Context.start message caller (d.superusers.contains caller.author)
  let reading : Attempt σ (List String) := .raising <|
    (Command.tokenize message).mapError fun unclosed =>
      .dispatch (.invalidArguments unclosed.message "")
  match ← reading.caught with
  | .error (.dispatch (.invalidArguments complaint usage)) =>
    return ctx.refuse (.invalidArguments complaint usage)
  | .error failure => throw failure
  | .ok tokens =>
    let ctx := { ctx with tokens := tokens }
    let (found, args) := d.registry.lookup tokens
    match found.bind fun id => (d.registry.definition? id).map (id, ·) with
    | none => return ctx.refuse (.unknownCommand (tokens.headD ""))
    | some (id, definition) =>
      let ctx := { ctx with
        node := some id, args := args, command := d.registry.qualifiedName (some id) }
      if definition.guildOnly && caller.guild.isNone then return ctx.refuse (.guildOnly ctx.command)
      else d.proceed ctx id definition

/-- Takes an inbound message: announces it, and carries it out if it is a command. -/
def receive (d : Dispatcher ε σ) (manners : Manners) (m : Message) :
    Attempt σ (Option Outcome) := do
  Attempt.publish m.event
  match manners.command? m with
  | none => return none
  | some text => return some (← d.carryOut text m.caller)

variable {d : Dispatcher ε σ} {ctx : Context} {events : List Event} {s : σ}

theorem run_lookUp (guild user : String) :
    (d.lookUp guild user).run (events, s) =
      match d.source.resolve (some guild) user s with
      | (.ok grants, s) => .ok grants (events, s)
      | (.error e, s) => .error (.dispatch e) (events, s) := by
  simp only [lookUp, Attempt.run_bind_caught, Attempt.run_perform, Permission.Source.resolve]
  obtain ⟨told, s'⟩ := d.source.read guild user s
  cases told <;> rfl

/-- The gate raises nothing but the failure of a lookup where identifiers are canonical. -/
theorem run_gate {required : List String} (hrequired : Permission.CanonicalTexts required) :
    (d.gate ctx required).run (events, s) =
      match d.firstMissing ctx required s with
      | (.ok missing, cache, s) => .ok (missing, cache) (events, s)
      | (.error e, _, s) => .error (.dispatch e) (events, s) := by
  obtain ⟨nodes, hcanonical, rfl⟩ := hrequired
  rcases nodes with _ | ⟨n, rest⟩
  · rfl
  cases hsuper : ctx.superuser with
  | true =>
    rw [firstMissing_superuser _ hsuper]
    simp [gate, hsuper]
  | false =>
    cases hguild : ctx.caller.guild with
    | none =>
      rw [List.map_cons, firstMissing_outside hsuper hguild]
      simp [gate, hsuper, hguild]
    | some guild =>
      cases hresolve : d.source.resolve (some guild) ctx.caller.author s with
      | mk result s' =>
        cases result with
        | error e =>
          rw [List.map_cons, firstMissing_failed hsuper hguild hresolve]
          simp [-bind_pure_comp, gate, hsuper, hguild, EStateM.run_bind, run_lookUp, hresolve]
        | ok g =>
          -- Canonical identifiers are read without fault, so that nothing is raised any more.
          rw [firstMissing_resolved hcanonical (List.cons_ne_nil n rest) hsuper hguild hresolve]
          have hread := g.firstMissing_values hcanonical
          rw [List.map_cons] at hread ⊢
          simp [-bind_pure_comp, gate, hsuper, hguild, EStateM.run_bind, run_lookUp, hresolve,
            Attempt.raising, Attempt.run_perform, hread, orFailure]

theorem run_execute {id : Nat} {definition : Definition ε} {cache : Cache} {executor : ε}
    (hexecutor : definition.executor = some executor) :
    (d.execute ctx id definition cache).run (events, s) =
      let (result, _, s) := (d.perform executor ctx).run d.source ctx cache s
      .ok (conclude ⟨ctx, executor, definition.usage, cache⟩ result).1 (events, s) := by
  simp only [execute, hexecutor, Attempt.run_bind_caught, Attempt.run_perform]
  obtain ⟨result, cache', s'⟩ := (d.perform executor ctx).run d.source ctx cache s
  rw [conclude_eq]
  cases result <;> rfl

theorem run_announce (invocation : Invocation ε) (result : Except Failure Value) :
    (announce (conclude invocation result).1 : Attempt σ Unit).run (events, s) =
      .ok () (events ++ (conclude invocation result).2, s) := by
  cases result <;> rfl

theorem run_proceed {id : Nat} {definition : Definition ε}
    (hcanonical : Permission.CanonicalTexts definition.permissions)
    (hsuper : ctx.superuser = d.superusers.contains ctx.caller.author) :
    (d.proceed ctx id definition).run (events, s) =
      .ok (d.admitted ctx id definition s).1
        (events ++ (d.admitted ctx id definition s).2.1, (d.admitted ctx id definition s).2.2) := by
  simp only [proceed, Attempt.run_bind_caught, run_gate hcanonical, admitted]
  cases hgate : d.firstMissing ctx definition.permissions s with
  | mk missing rest =>
    obtain ⟨cache, s'⟩ := rest
    cases missing with
    | error e =>
      -- Whatever the gate raises is a failed lookup, which is caught.
      have hfailed : (d.firstMissing ctx definition.permissions s).1 = .error e := by rw [hgate]
      obtain ⟨-, guild, cause, -, -, rfl⟩ :=
        (firstMissing_eq_error_iff hcanonical hsuper).mp hfailed
      dsimp only
      rw [List.append_nil]
      rfl
    | ok missing =>
      cases missing with
      | some text => rfl
      | none =>
        dsimp only
        rw [EStateM.run_bind]
        cases hexecutor : definition.executor with
        | none =>
          simp only [execute, hexecutor]
          rfl
        | some executor =>
          rw [run_execute hexecutor]
          dsimp only
          rw [EStateM.run_bind, run_announce]
          rfl

/-- With a registry in use no failure gets through, and the steps come to what the dispatcher
tells. -/
theorem run_carryOut (hr : d.registry.Reachable) (message : String) (caller : Caller) :
    (d.carryOut message caller).run (events, s) =
      .ok (d.dispatch message caller s).1
        (events ++ (d.dispatch message caller s).2.1, (d.dispatch message caller s).2.2) := by
  simp only [carryOut, Attempt.run_bind_caught, Attempt.raising, Attempt.run_perform]
  cases htokens : Command.tokenize message with
  | error fault =>
    rw [dispatch_of_unclosed htokens, List.append_nil]
    rfl
  | ok tokens =>
    simp only [Except.mapError]
    cases hlookup : d.registry.lookup tokens with
    | mk found args =>
      cases found with
      | none =>
        rw [dispatch_of_unknown htokens hlookup, List.append_nil]
        rfl
      | some id =>
        obtain ⟨definition, hdefined⟩ := hr.forest.exists_definition hlookup
        have hbegins : d.Begins message caller (d.contextOf message caller tokens (some id) args)
          id definition := ⟨htokens, hlookup, hdefined, rfl⟩
        rw [hbegins.dispatch_eq]
        simp only [Option.bind_some, hdefined, Option.map_some]
        cases definition.guildOnly && caller.guild.isNone with
        | true =>
          simp only [if_true, List.append_nil]
          rfl
        | false => exact run_proceed (hr.canonicalTexts hdefined) hbegins.superuser_eq

theorem run_receive (hr : d.registry.Reachable) (manners : Manners) (m : Message) :
    (d.receive manners m).run (events, s) =
      .ok (Chat.handle manners d m s).1
        (events ++ (Chat.handle manners d m s).2.1, (Chat.handle manners d m s).2.2) := by
  have hpublish : (Attempt.publish m.event : Attempt σ Unit).run (events, s) =
      .ok () (events ++ [m.event], s) := rfl
  simp only [receive, EStateM.run_bind, hpublish, Chat.handle]
  cases manners.command? m with
  | none => rfl
  | some text =>
    rw [EStateM.run_bind, run_carryOut hr, List.append_assoc]
    rfl

/-- What subscribers may be told of an outcome: nothing of a refusal, or what is missing, or the
outcome's own error, and its result exactly where there is one. -/
inductive Tells (outcome : Outcome) : List Event → Prop
  | nothing {e : DispatchError} (refused : outcome.result = .error e) : Tells outcome []
  | denied {text : String} (refused : outcome.result = .error (.permissionDenied text)) :
      Tells outcome [.commandDenied outcome.context text]
  | failed {e : DispatchError} (failed : outcome.result = .error e) :
      Tells outcome [.commandFailed outcome.context e]
  | executed {v : Value} (result : outcome.result = .ok v) :
      Tells outcome [.commandExecuted outcome.context v]

theorem Ends.tells {message : String} {caller : Caller} {outcome : Outcome}
    (h : d.Ends message caller s outcome events) : Tells outcome events := by
  cases h with
  | unclosed | unknown | outside | lookupFailed => exact .nothing rfl
  | denied => exact .denied rfl
  | group | failed => exact .failed rfl
  | executed => exact .executed rfl

theorem Tells.not_received {outcome : Outcome} (h : Tells outcome events) {event : Event}
    (hevent : event ∈ events) : event.kind ≠ .messageReceived := by
  intro hkind
  cases h with
  | nothing => cases hevent
  | denied | failed | executed =>
    obtain rfl := List.mem_singleton.mp hevent
    cases hkind

/-- With a registry in use carrying out a message never raises a failure. It ends in one outcome,
that of the first stage that fails, and with the events that belong to it. An inbound message is
announced once and before all else, also one that is dropped; what else is told is what its
dispatch tells. -/
theorem ends_by_first_failure (d : Dispatcher ε σ) (hr : d.registry.Reachable) (message : String)
    (caller : Caller) (s : σ) :
    (∃ outcome events s',
      (d.carryOut message caller).run ([], s) = .ok outcome (events, s') ∧
        d.dispatch message caller s = (outcome, events, s') ∧
        (∀ other told, d.Ends message caller s other told ↔ other = outcome ∧ told = events) ∧
        Tells outcome events) ∧
      ∀ (manners : Manners) (m : Message), ∃ answer told s',
        (d.receive manners m).run ([], s) = .ok answer (m.event :: told, s') ∧
          Chat.handle manners d m s = (answer, m.event :: told, s') ∧
          (∀ event ∈ told, event.kind ≠ .messageReceived) ∧
          match manners.command? m with
          | none => answer = none ∧ told = []
          | some text =>
            ∃ outcome, answer = some outcome ∧ d.Ends text m.caller s outcome told := by
  have hdispatched (message : String) (caller : Caller) : d.Ends message caller s
      (d.dispatch message caller s).1 (d.dispatch message caller s).2.1 :=
    (ends_iff hr).mpr ⟨rfl, rfl⟩
  constructor
  · have hends := hdispatched message caller
    refine ⟨_, _, _, run_carryOut hr message caller, rfl, fun other told => ?_, hends.tells⟩
    rw [ends_iff hr, eq_comm, List.nil_append, eq_comm (a := told)]
  · intro manners m
    have hreceive : (d.receive manners m).run ([], s) = _ := run_receive hr manners m
    cases hcommand : manners.command? m with
    | none =>
      have hhandle : Chat.handle manners d m s = (none, [m.event], s) := by
        simp [Chat.handle, hcommand]
      rw [hhandle] at hreceive
      refine ⟨none, [], s, hreceive, hhandle, fun event hevent => ?_, rfl, rfl⟩
      cases hevent
    | some text =>
      have hends := hdispatched text m.caller
      have hhandle : Chat.handle manners d m s =
          (some (d.dispatch text m.caller s).1, m.event :: (d.dispatch text m.caller s).2.1,
            (d.dispatch text m.caller s).2.2) := by
        simp [Chat.handle, hcommand]
      rw [hhandle] at hreceive
      exact ⟨_, _, _, hreceive, hhandle, fun event => hends.tells.not_received, _, rfl, hends⟩

/-- An executor that complains without a usage is reported with that of its command. -/
theorem complains_with_usage :
    let kick : Definition Unit := ⟨"kick", some (), "", "kick <user>", "", ["k"], [], true, ""⟩
    let d : Dispatcher Unit Permission.Store :=
      ⟨Command.Registry.empty.insert none kick, .memory, [],
        fun _ _ => .fail (.dispatch (.invalidArguments "whom?" ""))⟩
    d.registry.Reachable ∧ ∃ outcome events s',
      (d.carryOut "K" ⟨"42", some "1", "c"⟩).run ([], .empty) = .ok outcome (events, s') ∧
        Tells outcome events ∧
        outcome.result = .error (.invalidArguments "whom?" "kick <user>") := by
  intro kick d
  have hnames : Command.namesFault? "kick" ["k"] = none := by decide +kernel
  have hcheck : kick.check = .ok kick :=
    Definition.check_eq_ok.mpr ⟨hnames, [], by rfl, rfl⟩
  have hregistered : Command.Registry.empty.register [] kick = .ok d.registry :=
    Command.Registry.register_eq_ok.mpr
      ⟨rfl, none, rfl, fun key _ => List.not_mem_nil, by decide +kernel, rfl⟩
  have hr : d.registry.Reachable := .register .empty hcheck hregistered
  obtain ⟨⟨outcome, events, s', hrun, -, hunique, htells⟩, -⟩ :=
    ends_by_first_failure d hr "K" ⟨"42", some "1", "c"⟩ .empty
  have hbegins : d.Begins "K" ⟨"42", some "1", "c"⟩
      (d.contextOf "K" ⟨"42", some "1", "c"⟩ ["K"] (some 0) []) 0 kick :=
    ⟨by decide +kernel, by decide +kernel, rfl, rfl⟩
  obtain ⟨rfl, -⟩ := (hunique _ _).mp <|
    .failed hbegins (fun _ => Option.some_ne_none _) (.inl rfl) rfl rfl
  exact ⟨hr, _, events, s', hrun, htells, rfl⟩

end Dispatcher

end Guildhall.Dispatch
