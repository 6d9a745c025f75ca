import Guildhall.Proofs.Command.Forest
import Guildhall.Proofs.Dispatch.Gate

/-!
# How a message ends

A message passes one stage after another: its words are told apart, they begin with a command, the
command may be run where the message was written, the author's permissions are looked up, none is
missing, there is something to run, and it runs. The first stage that fails says how the message
ends and what subscribers are told.
-/

namespace Guildhall.Dispatch

open Command (Definition)
open Hook (Event)
open Permission (CanonicalTexts Grants Node Reading Source)

variable {ε σ : Type}

namespace Dispatcher

structure Begins (d : Dispatcher ε σ) (message : String) (caller : Caller) (ctx : Context)
    (id : Nat) (definition : Definition ε) : Prop where
  tokenized : Command.tokenize message = .ok ctx.tokens
  found : d.registry.lookup ctx.tokens = (some id, ctx.args)
  defined : d.registry.definition? id = some definition
  context : ctx = d.contextOf message caller ctx.tokens (some id) ctx.args

def Placed (caller : Caller) (definition : Definition ε) : Prop :=
  definition.guildOnly = true → caller.guild ≠ none

/-- Whether permissions matter: something is required and the author is no superuser. -/
def Checked (d : Dispatcher ε σ) (caller : Caller) (required : List String) : Prop :=
  required ≠ [] ∧ caller.author ∉ d.superusers

/-- Whether the author of a message holds an identifier in the guild they write in. -/
def Held (d : Dispatcher ε σ) (caller : Caller) (s : σ) (text : String) : Prop :=
  ∃ guild r, ∃ n : Node, caller.guild = some guild ∧
    (d.source.reading guild caller.author s).1 = .ok r ∧ n.value = text ∧ r.Holds n

/-- Whether `text` is the first of the required identifiers that the author does not hold. -/
def FirstUnmet (d : Dispatcher ε σ) (caller : Caller) (s : σ) (required : List String)
    (text : String) : Prop :=
  ∃ met rest, required = met ++ text :: rest ∧ (∀ other ∈ met, d.Held caller s other) ∧
    ¬ d.Held caller s text

def needsSubcommand (d : Dispatcher ε σ) (ctx : Context) (id : Nat) (definition : Definition ε) :
    DispatchError :=
  .invalidArguments s!"'{ctx.command}' needs a subcommand" (d.subcommandUsage id definition.usage)

def reported (ctx : Context) (definition : Definition ε) : Failure → DispatchError
  | .dispatch (.invalidArguments message usage) =>
    .invalidArguments message (if usage.isEmpty then definition.usage else usage)
  | failure => .execution ctx.command failure

def admitted (d : Dispatcher ε σ) (ctx : Context) (id : Nat) (definition : Definition ε) (s : σ) :
    Outcome × List Event × σ :=
  match d.firstMissing ctx definition.permissions s with
  | (.error e, _, s) => (ctx.refuse e, [], s)
  | (.ok (some missing), _, s) =>
    (ctx.refuse (.permissionDenied missing), [.commandDenied ctx missing], s)
  | (.ok none, cache, s) =>
    match definition.executor with
    | none =>
      let e := d.needsSubcommand ctx id definition
      (ctx.refuse e, [.commandFailed ctx e], s)
    | some executor =>
      let (result, _, s) := (d.perform executor ctx).run d.source ctx cache s
      let (outcome, events) := conclude ⟨ctx, executor, definition.usage, cache⟩ result
      (outcome, events, s)

/-- What the executor of a command comes to once nothing is missing. -/
def resultOf (d : Dispatcher ε σ) (ctx : Context) (definition : Definition ε) (executor : ε)
    (s : σ) : Except Failure Value :=
  let gate := d.firstMissing ctx definition.permissions s
  ((d.perform executor ctx).run d.source ctx gate.2.1 gate.2.2).1

/-- How a message ends, and what the dispatcher tells subscribers: by the first stage that fails,
or with a result. -/
inductive Ends (d : Dispatcher ε σ) (message : String) (caller : Caller) (s : σ) :
    Outcome → List Event → Prop
  | unclosed {fault : Command.Unclosed} (unclosed : Command.tokenize message = .error fault) :
      Ends d message caller s
        ((Context.start message caller (d.superusers.contains caller.author)).refuse
          (.invalidArguments fault.message "")) []
  | unknown {tokens args : List String} (tokenized : Command.tokenize message = .ok tokens)
      (unknown : d.registry.lookup tokens = (none, args)) :
      Ends d message caller s
        ({ Context.start message caller (d.superusers.contains caller.author) with
            tokens := tokens }.refuse (.unknownCommand (tokens.headD ""))) []
  | outside {ctx : Context} {id : Nat} {definition : Definition ε}
      (begins : d.Begins message caller ctx id definition)
      (misplaced : ¬ Placed caller definition) :
      Ends d message caller s (ctx.refuse (.guildOnly ctx.command)) []
  | lookupFailed {ctx : Context} {id : Nat} {definition : Definition ε} {guild : String}
      {cause : Failure} (begins : d.Begins message caller ctx id definition)
      (placed : Placed caller definition) (checked : d.Checked caller definition.permissions)
      (within : caller.guild = some guild)
      (failed : (d.source.read guild caller.author s).1 = .error cause) :
      Ends d message caller s
        (ctx.refuse (.lookupFailed (some guild) caller.author cause.message cause)) []
  | denied {ctx : Context} {id : Nat} {definition : Definition ε} {text : String}
      (begins : d.Begins message caller ctx id definition)
      (placed : Placed caller definition) (checked : d.Checked caller definition.permissions)
      (read : ∀ guild, caller.guild = some guild →
        ∃ g, (d.source.read guild caller.author s).1 = .ok g)
      (unmet : d.FirstUnmet caller s definition.permissions text) :
      Ends d message caller s (ctx.refuse (.permissionDenied text)) [.commandDenied ctx text]
  | group {ctx : Context} {id : Nat} {definition : Definition ε}
      (begins : d.Begins message caller ctx id definition) (placed : Placed caller definition)
      (authorised : d.Authorised caller s definition.permissions)
      (inert : definition.executor = none) :
      Ends d message caller s (ctx.refuse (d.needsSubcommand ctx id definition))
        [.commandFailed ctx (d.needsSubcommand ctx id definition)]
  | failed {ctx : Context} {id : Nat} {definition : Definition ε} {executor : ε}
      {failure : Failure} (begins : d.Begins message caller ctx id definition)
      (placed : Placed caller definition)
      (authorised : d.Authorised caller s definition.permissions)
      (runs : definition.executor = some executor)
      (failed : d.resultOf ctx definition executor s = .error failure) :
      Ends d message caller s (ctx.refuse (reported ctx definition failure))
        [.commandFailed ctx (reported ctx definition failure)]
  | executed {ctx : Context} {id : Nat} {definition : Definition ε} {executor : ε} {v : Value}
      (begins : d.Begins message caller ctx id definition) (placed : Placed caller definition)
      (authorised : d.Authorised caller s definition.permissions)
      (runs : definition.executor = some executor)
      (result : d.resultOf ctx definition executor s = .ok v) :
      Ends d message caller s ⟨ctx, .ok v⟩ [.commandExecuted ctx v]

section Missing

variable {d : Dispatcher ε σ} {ctx : Context} {s : σ} {required : List String}

theorem resolve_eq_error {guild user : String} {e : DispatchError} :
    (d.source.resolve (some guild) user s).1 = .error e ↔
      ∃ cause, (d.source.read guild user s).1 = .error cause ∧
        e = .lookupFailed (some guild) user cause.message cause := by
  simp only [Source.resolve]
  obtain ⟨told, s'⟩ := d.source.read guild user s
  cases told with
  | ok g => simp
  | error cause => simp [eq_comm]

theorem read_of_resolve {guild user : String} {g : Grants} {s' : σ}
    (h : d.source.resolve (some guild) user s = (.ok g, s')) :
    (d.source.read guild user s).1 = .ok g := by
  simp only [Source.resolve] at h
  cases hread : d.source.read guild user s with
  | mk told s'' =>
    rw [hread] at h
    cases told <;> cases h
    rfl

theorem held_iff {guild : String} {g : Grants} (hguild : ctx.caller.guild = some guild)
    (hresolve : (d.source.resolve (some guild) ctx.caller.author s).1 = .ok g) (n : Node) :
    d.Held ctx.caller s n.value ↔ g.has n = true := by
  obtain ⟨r, hreading, hr⟩ := d.source.resolve_eq_ok.mp hresolve
  rw [Reading.resolved_has hr]
  constructor
  · rintro ⟨guild', r', m, hguild', hreading', hvalue, hholds⟩
    obtain rfl : guild = guild' := Option.some.inj (hguild.symm.trans hguild')
    obtain rfl : r = r' := Except.ok.inj (hreading.symm.trans hreading')
    rwa [← Node.eq_of_value hvalue]
  · intro hholds
    exact ⟨guild, r, n, hguild, hreading, rfl, hholds⟩

/-- The first identifier of a list that is not held is unique, and a search finds it. -/
theorem firstUnmet_map_iff {nodes : List Node} {guild : String} {g : Grants}
    (hguild : ctx.caller.guild = some guild)
    (hresolve : (d.source.resolve (some guild) ctx.caller.author s).1 = .ok g) {text : String} :
    d.FirstUnmet ctx.caller s (nodes.map (·.value)) text ↔
      (nodes.find? fun n => !g.has n).map (·.value) = some text := by
  have hheld := held_iff hguild hresolve
  rw [Option.map_eq_some_iff]
  constructor
  · rintro ⟨met, rest, hsplit, hmet, hunmet⟩
    obtain ⟨first, more, rfl, rfl, hmore⟩ := List.map_eq_append_iff.mp hsplit
    obtain ⟨n, last, rfl, rfl, rfl⟩ := List.map_eq_cons_iff.mp hmore
    refine ⟨n, List.find?_eq_some_iff_append.mpr ⟨?_, first, last, rfl, fun m hm => ?_⟩, rfl⟩
    · simpa [hheld] using hunmet
    · simpa using (hheld m).mp (hmet m.value (List.mem_map_of_mem hm))
  · rintro ⟨n, hfind, rfl⟩
    obtain ⟨hn, first, last, rfl, hfirst⟩ := List.find?_eq_some_iff_append.mp hfind
    refine ⟨first.map (·.value), last.map (·.value), by simp, fun other hother => ?_, ?_⟩
    · obtain ⟨m, hm, rfl⟩ := List.mem_map.mp hother
      simpa [hheld] using hfirst m hm
    · simpa [hheld] using hn

theorem not_held_outside {caller : Caller} (hguild : caller.guild = none) (text : String) :
    ¬ d.Held caller s text := by
  rintro ⟨guild, r, n, hsome, -⟩
  rw [hguild] at hsome
  cases hsome

/-- What the gate may find: that permissions do not matter, that the author writes outside guilds,
that their permissions cannot be looked up, or the first identifier that they do not hold. -/
inductive Gated (d : Dispatcher ε σ) (ctx : Context) (s : σ) (required : List String) :
    Except DispatchError (Option String) → Prop
  | unchecked (free : ¬ d.Checked ctx.caller required) : Gated d ctx s required (.ok none)
  | outside {first : String} {rest : List String} (checked : d.Checked ctx.caller required)
      (without : ctx.caller.guild = none) (cons : required = first :: rest) :
      Gated d ctx s required (.ok (some first))
  | failed {guild : String} {cause : Failure} (checked : d.Checked ctx.caller required)
      (within : ctx.caller.guild = some guild)
      (failed : (d.source.read guild ctx.caller.author s).1 = .error cause) :
      Gated d ctx s required
        (.error (.lookupFailed (some guild) ctx.caller.author cause.message cause))
  | resolved {guild : String} {g : Grants} {nodes : List Node}
      (checked : d.Checked ctx.caller required) (within : ctx.caller.guild = some guild)
      (read : ∃ g, (d.source.read guild ctx.caller.author s).1 = .ok g)
      (resolved : (d.source.resolve (some guild) ctx.caller.author s).1 = .ok g)
      (values : required = nodes.map (·.value)) :
      Gated d ctx s required (.ok ((nodes.find? fun n => !g.has n).map (·.value)))

theorem gated_firstMissing (hrequired : CanonicalTexts required)
    (hsuper : ctx.superuser = d.superusers.contains ctx.caller.author) :
    d.Gated ctx s required (d.firstMissing ctx required s).1 := by
  obtain ⟨nodes, hcanonical, rfl⟩ := hrequired
  rcases nodes with _ | ⟨n, rest⟩
  · exact .unchecked fun hchecked => hchecked.1 rfl
  cases h : ctx.superuser with
  | true =>
    have hmem : ctx.caller.author ∈ d.superusers := by simpa [h] using hsuper.symm
    rw [firstMissing_superuser _ h]
    exact .unchecked fun hchecked => hchecked.2 hmem
  | false =>
    have hmem : ctx.caller.author ∉ d.superusers := by simpa [h] using hsuper.symm
    have hchecked : d.Checked ctx.caller ((n :: rest).map (·.value)) := ⟨by simp, hmem⟩
    cases hguild : ctx.caller.guild with
    | none =>
      have hfound : (d.firstMissing ctx ((n :: rest).map (·.value)) s).1 = .ok (some n.value) := by
        rw [List.map_cons, firstMissing_outside h hguild]
      exact hfound ▸ .outside hchecked hguild rfl
    | some guild =>
      cases hresolve : d.source.resolve (some guild) ctx.caller.author s with
      | mk result s' =>
        have hfst : (d.source.resolve (some guild) ctx.caller.author s).1 = result := by
          rw [hresolve]
        cases result with
        | error e =>
          obtain ⟨cause, hcause, rfl⟩ := resolve_eq_error.mp hfst
          have hfound : (d.firstMissing ctx ((n :: rest).map (·.value)) s).1 =
              .error (.lookupFailed (some guild) ctx.caller.author cause.message cause) := by
            rw [List.map_cons, firstMissing_failed h hguild hresolve]
          exact hfound ▸ .failed hchecked hguild hcause
        | ok g =>
          rw [firstMissing_resolved hcanonical (List.cons_ne_nil n rest) h hguild hresolve]
          exact .resolved hchecked hguild ⟨g, read_of_resolve hresolve⟩ hfst rfl

/-- The gate fails where permissions matter and cannot be looked up. -/
theorem firstMissing_eq_error_iff (hrequired : CanonicalTexts required) {e : DispatchError}
    (hsuper : ctx.superuser = d.superusers.contains ctx.caller.author) :
    (d.firstMissing ctx required s).1 = .error e ↔
      d.Checked ctx.caller required ∧ ∃ guild cause, ctx.caller.guild = some guild ∧
        (d.source.read guild ctx.caller.author s).1 = .error cause ∧
        e = .lookupFailed (some guild) ctx.caller.author cause.message cause := by
  have hgated := gated_firstMissing (s := s) hrequired hsuper
  generalize (d.firstMissing ctx required s).1 = found at hgated ⊢
  cases hgated with
  | unchecked free => simp [free]
  | outside checked without cons => simp [without]
  | @failed guild cause checked within failed =>
    rw [and_iff_right checked]
    constructor
    · intro heq
      exact ⟨guild, cause, within, failed, (Except.error.inj heq).symm⟩
    · rintro ⟨guild', cause', within', failed', rfl⟩
      obtain rfl := Option.some.inj (within.symm.trans within')
      rw [Except.error.inj (failed.symm.trans failed')]
  | resolved checked within read resolved values =>
    obtain ⟨g, hread⟩ := read
    simp [within, hread]

theorem firstMissing_eq_some_iff (hrequired : CanonicalTexts required) {text : String}
    (hsuper : ctx.superuser = d.superusers.contains ctx.caller.author) :
    (d.firstMissing ctx required s).1 = .ok (some text) ↔ d.Checked ctx.caller required ∧
      (∀ guild, ctx.caller.guild = some guild →
        ∃ g, (d.source.read guild ctx.caller.author s).1 = .ok g) ∧
      d.FirstUnmet ctx.caller s required text := by
  have hgated := gated_firstMissing (s := s) hrequired hsuper
  generalize (d.firstMissing ctx required s).1 = found at hgated ⊢
  cases hgated with
  | unchecked free => simp [free]
  | @outside first rest checked without cons =>
    rw [Except.ok.injEq, Option.some.injEq, and_iff_right checked, cons]
    constructor
    · rintro rfl
      refine ⟨fun guild within => ?_, [], rest, rfl, ?_, not_held_outside without first⟩
      · rw [without] at within
        cases within
      · intro other hother
        cases hother
    · rintro ⟨-, met, more, hsplit, hmet, -⟩
      cases met with
      | nil => exact (List.cons.inj hsplit).1
      | cons other met =>
        exact absurd (hmet other List.mem_cons_self) (not_held_outside without other)
  | failed checked within failed => simp [within, failed]
  | resolved checked within read resolved values =>
    obtain ⟨g, hread⟩ := read
    rw [Except.ok.injEq, and_iff_right checked, values, firstUnmet_map_iff within resolved]
    simp [within, hread]

end Missing

section Stages

variable {d : Dispatcher ε σ} {message : String} {caller : Caller} {s : σ} {ctx : Context}
  {id : Nat} {definition : Definition ε}

theorem dispatch_of_unclosed {fault : Command.Unclosed}
    (h : Command.tokenize message = .error fault) :
    d.dispatch message caller s =
      ((Context.start message caller (d.superusers.contains caller.author)).refuse
        (.invalidArguments fault.message ""), [], s) := by
  simp [dispatch, prepare, h]

theorem dispatch_of_undefined {tokens args : List String} {node : Option Nat}
    (h : Command.tokenize message = .ok tokens)
    (hlookup : d.registry.lookup tokens = (node, args))
    (hnone : node.bind d.registry.definition? = none) :
    d.dispatch message caller s =
      ({ Context.start message caller (d.superusers.contains caller.author) with
          tokens := tokens }.refuse (.unknownCommand (tokens.headD "")), [], s) := by
  have hfound : (node.bind fun id => (d.registry.definition? id).map (id, ·)) = none := by
    cases node with
    | none => rfl
    | some id => simpa using hnone
  simp [dispatch, prepare, h, hlookup, hfound]

theorem dispatch_of_unknown {tokens args : List String}
    (h : Command.tokenize message = .ok tokens)
    (hlookup : d.registry.lookup tokens = (none, args)) :
    d.dispatch message caller s =
      ({ Context.start message caller (d.superusers.contains caller.author) with
          tokens := tokens }.refuse (.unknownCommand (tokens.headD "")), [], s) :=
  dispatch_of_undefined h hlookup rfl

theorem conclude_eq (executor : ε) (cache : Cache) (result : Except Failure Value) :
    conclude ⟨ctx, executor, definition.usage, cache⟩ result =
      match result with
      | .ok v => (⟨ctx, .ok v⟩, [.commandExecuted ctx v])
      | .error failure => (ctx.refuse (reported ctx definition failure),
          [.commandFailed ctx (reported ctx definition failure)]) := by
  rcases result with failure | v
  · rcases failure with (_ | _ | ⟨message, usage⟩ | _ | _ | _ | _) | _ <;> rfl
  · rfl

/-- A message that begins with a command is refused where the command may not be run, and else
admitted. -/
theorem Begins.dispatch_eq (h : d.Begins message caller ctx id definition) :
    d.dispatch message caller s =
      if definition.guildOnly && caller.guild.isNone then
        (ctx.refuse (.guildOnly ctx.command), [], s)
      else d.admitted ctx id definition s := by
  obtain ⟨htokenized, hfound, hdefined, hcontext⟩ := h
  -- The context is the one that the dispatcher fills in on its way.
  obtain ⟨caller, message, superuser, tokens, node, command, args⟩ := ctx
  simp only [contextOf, Context.mk.injEq] at hcontext htokenized hfound
  obtain ⟨rfl, rfl, rfl, -, rfl, rfl, -⟩ := hcontext
  simp only [dispatch, prepare, htokenized, hfound, Option.bind_some, hdefined, Option.map_some,
    Context.start, admitted]
  cases definition.guildOnly && caller.guild.isNone with
  | true => rfl
  | false =>
    simp only [Bool.false_eq_true, if_false]
    obtain ⟨gate, cache, s'⟩ := d.firstMissing _ definition.permissions s
    rcases gate with e | (_ | missing)
    · rfl
    · cases definition.executor <;> rfl
    · rfl

/-- Where a command may be run, the gate and then its executor decide. -/
theorem Begins.dispatch_placed (h : d.Begins message caller ctx id definition)
    (hplaced : Placed caller definition) :
    d.dispatch message caller s = d.admitted ctx id definition s := by
  have hnot : ¬ (definition.guildOnly && caller.guild.isNone) = true := by
    simpa [Placed] using hplaced
  rw [h.dispatch_eq, if_neg hnot]

theorem Begins.dispatch_misplaced (h : d.Begins message caller ctx id definition)
    (hmisplaced : ¬ Placed caller definition) :
    d.dispatch message caller s = (ctx.refuse (.guildOnly ctx.command), [], s) := by
  have hnot : (definition.guildOnly && caller.guild.isNone) = true := by
    simpa [Placed] using hmisplaced
  rw [h.dispatch_eq, if_pos hnot]

theorem Begins.caller_eq (h : d.Begins message caller ctx id definition) :
    ctx.caller = caller := by
  rw [h.context]
  rfl

theorem Begins.superuser_eq (h : d.Begins message caller ctx id definition) :
    ctx.superuser = d.superusers.contains caller.author := by
  rw [h.context]
  rfl

theorem admitted_of_error {e : DispatchError}
    (h : (d.firstMissing ctx definition.permissions s).1 = .error e) :
    d.admitted ctx id definition s =
      (ctx.refuse e, [], (d.firstMissing ctx definition.permissions s).2.2) := by
  rw [admitted, ← Prod.eta (d.firstMissing ctx definition.permissions s), h]

theorem admitted_of_missing {text : String}
    (h : (d.firstMissing ctx definition.permissions s).1 = .ok (some text)) :
    d.admitted ctx id definition s =
      (ctx.refuse (.permissionDenied text), [.commandDenied ctx text],
        (d.firstMissing ctx definition.permissions s).2.2) := by
  rw [admitted, ← Prod.eta (d.firstMissing ctx definition.permissions s), h]

theorem admitted_of_inert (h : (d.firstMissing ctx definition.permissions s).1 = .ok none)
    (hexecutor : definition.executor = none) :
    d.admitted ctx id definition s =
      (ctx.refuse (d.needsSubcommand ctx id definition),
        [.commandFailed ctx (d.needsSubcommand ctx id definition)],
        (d.firstMissing ctx definition.permissions s).2.2) := by
  rw [admitted, ← Prod.eta (d.firstMissing ctx definition.permissions s), h]
  simp only [hexecutor]

theorem admitted_of_result (id : Nat) {executor : ε}
    (h : (d.firstMissing ctx definition.permissions s).1 = .ok none)
    (hexecutor : definition.executor = some executor) :
    ((d.admitted ctx id definition s).1, (d.admitted ctx id definition s).2.1) =
      match d.resultOf ctx definition executor s with
      | .ok v => (⟨ctx, .ok v⟩, [.commandExecuted ctx v])
      | .error failure => (ctx.refuse (reported ctx definition failure),
          [.commandFailed ctx (reported ctx definition failure)]) := by
  rw [admitted, ← Prod.eta (d.firstMissing ctx definition.permissions s), h]
  simp only [hexecutor, resultOf, conclude_eq]

theorem Permits.begins {call : Call ε} (h : d.Permits message caller s definition call) :
    ∃ id, d.Begins message caller call.context id definition := by
  obtain ⟨id, hid, hdefined⟩ := Option.bind_eq_some_iff.mp h.defined
  refine ⟨id, h.tokenized, ?_, hdefined, ?_⟩
  · rw [h.found, hid]
  · rw [← hid]
    exact h.context

theorem Permits.caller_eq {call : Call ε} (h : d.Permits message caller s definition call) :
    call.context.caller = caller := by
  rw [h.context]
  rfl

/-- A message that may run an executor ends with what the executor comes to, and leaves behind what
the executor leaves. -/
theorem Permits.dispatch_of_run (hr : d.registry.Reachable) {call : Call ε}
    (h : d.Permits message caller s definition call) {result : Except Failure Value}
    {after : Cache} {s' : σ}
    (hrun : (d.perform call.executor call.context).run d.source call.context
      (d.firstMissing call.context definition.permissions s).2.1
      (d.firstMissing call.context definition.permissions s).2.2 = (result, after, s')) :
    (d.dispatch message caller s).1.result =
        result.mapError (reported call.context definition) ∧
      (d.dispatch message caller s).2.2 = s' := by
  obtain ⟨id, hbegins⟩ := h.begins
  have hgate := (firstMissing_eq_none_iff (hr.canonicalTexts hbegins.defined)
    hbegins.caller_eq hbegins.superuser_eq).mpr h.authorised
  rw [hbegins.dispatch_placed h.placed, admitted,
    ← Prod.eta (d.firstMissing call.context definition.permissions s), hgate]
  simp only [h.executable, hrun, conclude_eq, and_true]
  cases result <;> rfl

theorem Ends.dispatch_eq (hr : d.registry.Reachable) {outcome : Outcome} {events : List Event}
    (h : d.Ends message caller s outcome events) :
    (d.dispatch message caller s).1 = outcome ∧ (d.dispatch message caller s).2.1 = events := by
  cases h with
  | unclosed hunclosed => simp [dispatch_of_unclosed hunclosed]
  | unknown htokens hlookup => simp [dispatch_of_unknown htokens hlookup]
  | outside hbegins hmisplaced => simp [hbegins.dispatch_misplaced hmisplaced]
  | @lookupFailed ctx id definition guild cause hbegins hplaced hchecked hwithin hfailed =>
    obtain rfl := hbegins.caller_eq
    rw [hbegins.dispatch_placed hplaced]
    have hgate := (firstMissing_eq_error_iff (hr.canonicalTexts hbegins.defined)
      hbegins.superuser_eq).mpr ⟨hchecked, guild, cause, hwithin, hfailed, rfl⟩
    rw [admitted_of_error hgate]
    exact ⟨rfl, rfl⟩
  | denied hbegins hplaced hchecked hread hunmet =>
    obtain rfl := hbegins.caller_eq
    rw [hbegins.dispatch_placed hplaced]
    have hgate := (firstMissing_eq_some_iff (hr.canonicalTexts hbegins.defined)
      hbegins.superuser_eq).mpr ⟨hchecked, hread, hunmet⟩
    rw [admitted_of_missing hgate]
    exact ⟨rfl, rfl⟩
  | group hbegins hplaced hauthorised hinert =>
    rw [hbegins.dispatch_placed hplaced]
    have hgate := (firstMissing_eq_none_iff (hr.canonicalTexts hbegins.defined)
      hbegins.caller_eq hbegins.superuser_eq).mpr hauthorised
    rw [admitted_of_inert hgate hinert]
    exact ⟨rfl, rfl⟩
  | @failed ctx id definition executor failure hbegins hplaced hauthorised hruns hfailed =>
    have hgate := (firstMissing_eq_none_iff (s := s) (hr.canonicalTexts hbegins.defined)
      hbegins.caller_eq hbegins.superuser_eq).mpr hauthorised
    have hadmitted := admitted_of_result id hgate hruns
    rw [hfailed] at hadmitted
    rw [hbegins.dispatch_placed hplaced]
    exact Prod.ext_iff.mp hadmitted
  | @executed ctx id definition executor v hbegins hplaced hauthorised hruns hresult =>
    have hgate := (firstMissing_eq_none_iff (s := s) (hr.canonicalTexts hbegins.defined)
      hbegins.caller_eq hbegins.superuser_eq).mpr hauthorised
    have hadmitted := admitted_of_result id hgate hruns
    rw [hresult] at hadmitted
    rw [hbegins.dispatch_placed hplaced]
    exact Prod.ext_iff.mp hadmitted

theorem Begins.ends (hr : d.registry.Reachable) (h : d.Begins message caller ctx id definition)
    (hplaced : Placed caller definition) :
    ∃ outcome events, d.Ends message caller s outcome events := by
  obtain rfl := h.caller_eq
  have hcanonical := hr.canonicalTexts h.defined
  cases hgate : (d.firstMissing ctx definition.permissions s).1 with
  | error e =>
    obtain ⟨hchecked, guild, cause, hwithin, hfailed, -⟩ :=
      (firstMissing_eq_error_iff hcanonical h.superuser_eq).mp hgate
    exact ⟨_, _, .lookupFailed h hplaced hchecked hwithin hfailed⟩
  | ok missing =>
    cases missing with
    | some text =>
      obtain ⟨hchecked, hread, hunmet⟩ :=
        (firstMissing_eq_some_iff hcanonical h.superuser_eq).mp hgate
      exact ⟨_, _, .denied h hplaced hchecked hread hunmet⟩
    | none =>
      have hauthorised := (firstMissing_eq_none_iff hcanonical rfl h.superuser_eq).mp hgate
      cases hexecutor : definition.executor with
      | none => exact ⟨_, _, .group h hplaced hauthorised hexecutor⟩
      | some executor =>
        cases hresult : d.resultOf ctx definition executor s with
        | error failure => exact ⟨_, _, .failed h hplaced hauthorised hexecutor hresult⟩
        | ok v => exact ⟨_, _, .executed h hplaced hauthorised hexecutor hresult⟩

theorem exists_ends (hr : d.registry.Reachable) (message : String) (caller : Caller) (s : σ) :
    ∃ outcome events, d.Ends message caller s outcome events := by
  cases htokens : Command.tokenize message with
  | error fault => exact ⟨_, _, .unclosed htokens⟩
  | ok tokens =>
    cases hlookup : d.registry.lookup tokens with
    | mk found args =>
      cases found with
      | none => exact ⟨_, _, .unknown htokens hlookup⟩
      | some id =>
        obtain ⟨definition, hdefined⟩ := hr.forest.exists_definition hlookup
        have hbegins : d.Begins message caller (d.contextOf message caller tokens (some id) args)
          id definition := ⟨htokens, hlookup, hdefined, rfl⟩
        by_cases hplaced : Placed caller definition
        · exact hbegins.ends hr hplaced
        · exact ⟨_, _, .outside hbegins hplaced⟩

/-- The stages determine how a message ends, and the dispatcher follows them. -/
theorem ends_iff (hr : d.registry.Reachable) {outcome : Outcome} {events : List Event} :
    d.Ends message caller s outcome events ↔
      (d.dispatch message caller s).1 = outcome ∧
        (d.dispatch message caller s).2.1 = events := by
  constructor
  · exact Ends.dispatch_eq hr
  · rintro ⟨rfl, rfl⟩
    obtain ⟨outcome, events, hends⟩ := exists_ends hr message caller s
    obtain ⟨rfl, rfl⟩ := hends.dispatch_eq hr
    exact hends

end Stages

end Dispatcher

end Guildhall.Dispatch
