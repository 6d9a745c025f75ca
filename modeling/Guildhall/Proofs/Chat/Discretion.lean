import Guildhall.Chat.Bot
import Guildhall.Proofs.Dispatch.Ending
import Mathlib.Data.List.Forall2

/-!
# What replies tell of failures

Two runs of a message that differ only in what stores and executors fail with. Whatever an executor
fails with, the replies are the same. A lookup that fails before the executor is run shows in the
reply what the store has failed with.
-/

namespace Guildhall

open Dispatch (Cache Caller Context Dispatcher Outcome Reply Script)
open Permission (Grants Source)

variable {ε σ σ' α : Type} {R : σ → σ' → Prop} {s : σ} {s' : σ'}

inductive SameButFailure (R : σ → σ' → Prop) :
    Except Failure α × σ → Except Failure α × σ' → Prop
  | ok (a : α) {s : σ} {s' : σ'} (state : R s s') : SameButFailure R (.ok a, s) (.ok a, s')
  | error (e e' : Failure) {s : σ} {s' : σ'} (state : R s s') :
    SameButFailure R (.error e, s) (.error e', s')

inductive SameButLookup (caller : Caller) :
    Except DispatchError α → Except DispatchError α → Prop
  | same (result : Except DispatchError α) : SameButLookup caller result result
  | failed {guild : String} (within : caller.guild = some guild) (cause cause' : Failure) :
    SameButLookup caller (.error (.lookupFailed (some guild) caller.author cause.message cause))
      (.error (.lookupFailed (some guild) caller.author cause'.message cause'))

namespace Permission

structure Source.Mirrors (R : σ → σ' → Prop) (source : Source σ) (source' : Source σ') : Prop where
  memberRoles (guild user : String) {s : σ} {s' : σ'} (state : R s s') :
    SameButFailure R (source.memberRoles guild user s) (source'.memberRoles guild user s')
  rolePermissions (guild role : String) {s : σ} {s' : σ'} (state : R s s') :
    SameButFailure R (source.rolePermissions guild role s) (source'.rolePermissions guild role s')
  overrides (guild user : String) {s : σ} {s' : σ'} (state : R s s') :
    SameButFailure R (source.overrides guild user s) (source'.overrides guild user s')

namespace Source.Mirrors

variable {source : Source σ} {source' : Source σ'}

theorem allRolePermissions (h : source.Mirrors R source') (guild : String) (roles : List String)
    (state : R s s') :
    SameButFailure R (source.allRolePermissions guild roles s)
      (source'.allRolePermissions guild roles s') := by
  induction roles generalizing s s' with
  | nil => exact .ok [] state
  | cons role rest ih =>
    unfold Source.allRolePermissions
    have hrole := h.rolePermissions guild role state
    generalize source.rolePermissions guild role s = told at hrole ⊢
    generalize source'.rolePermissions guild role s' = told' at hrole ⊢
    cases hrole with
    | error e e' state => exact .error e e' state
    | ok nodes state =>
      have hrest := ih state
      dsimp only
      generalize source.allRolePermissions guild rest _ = told at hrest ⊢
      generalize source'.allRolePermissions guild rest _ = told' at hrest ⊢
      cases hrest with
      | error e e' state => exact .error e e' state
      | ok more state => exact .ok (nodes ++ more) state

theorem read (h : source.Mirrors R source') (guild user : String) (state : R s s') :
    SameButFailure R (source.read guild user s) (source'.read guild user s') := by
  unfold Source.read
  have hroles := h.memberRoles guild user state
  generalize source.memberRoles guild user s = told at hroles ⊢
  generalize source'.memberRoles guild user s' = told' at hroles ⊢
  cases hroles with
  | error e e' state => exact .error e e' state
  | ok roles state =>
    have htexts := h.allRolePermissions guild (sortTexts roles) state
    dsimp only
    generalize source.allRolePermissions guild (sortTexts roles) _ = told at htexts ⊢
    generalize source'.allRolePermissions guild (sortTexts roles) _ = told' at htexts ⊢
    cases htexts with
    | error e e' state => exact .error e e' state
    | ok texts state =>
      have hoverrides := h.overrides guild user state
      dsimp only
      generalize source.overrides guild user _ = told at hoverrides ⊢
      generalize source'.overrides guild user _ = told' at hoverrides ⊢
      cases hoverrides with
      | error e e' state => exact .error e e' state
      | ok overrides state =>
        dsimp only
        cases parseAll texts with
        | error fault => exact .error _ _ state
        | ok nodes => exact .ok _ state

theorem resolve (h : source.Mirrors R source') (caller : Caller) (state : R s s') :
    SameButLookup caller (source.resolve caller.guild caller.author s).1
        (source'.resolve caller.guild caller.author s').1 ∧
      R (source.resolve caller.guild caller.author s).2
        (source'.resolve caller.guild caller.author s').2 := by
  cases hguild : caller.guild with
  | none => exact ⟨.same _, state⟩
  | some guild =>
    have hread := h.read guild caller.author state
    simp only [Source.resolve]
    generalize source.read guild caller.author s = told at hread ⊢
    generalize source'.read guild caller.author s' = told' at hread ⊢
    cases hread with
    | error e e' state => exact ⟨.failed hguild e e', state⟩
    | ok g state => exact ⟨.same _, state⟩

end Source.Mirrors

end Permission

namespace Dispatch

open Permission (Grants Source)

variable {source : Source σ} {source' : Source σ'} {caller : Caller}

/-- Replies to the same askers that differ at most in why a lookup has failed. -/
def Replies (caller : Caller) : List Reply → List Reply → Prop :=
  List.Forall₂ fun told told' => told.1 = told'.1 ∧ SameButLookup caller told.2 told'.2

theorem Replies.refl (caller : Caller) (told : List Reply) : Replies caller told told :=
  List.forall₂_same.mpr fun _ _ => ⟨rfl, .same _⟩

theorem Cache.finish_mirrors {result result' : Except DispatchError Grants}
    (h : SameButLookup caller result result') (c : Cache) :
    (c.finish result).1 = (c.finish result').1 ∧
      Replies caller (c.finish result).2 (c.finish result').2 := by
  cases h with
  | same => exact ⟨rfl, .refl caller _⟩
  | failed within cause cause' =>
    unfold finish
    cases c.reader with
    | none => exact ⟨rfl, .refl caller _⟩
    | some asker => exact ⟨rfl, .cons ⟨rfl, .failed within cause cause'⟩ .nil⟩

theorem Cache.serve_mirrors (h : source.Mirrors R source') (caller : Caller) (fuel : Nat)
    (c : Cache) (state : R s s') :
    let served := Cache.serve source caller.guild caller.author fuel c s
    let served' := Cache.serve source' caller.guild caller.author fuel c s'
    Replies caller served.1 served'.1 ∧ served.2.1 = served'.2.1 ∧ R served.2.2 served'.2.2 := by
  induction fuel generalizing c s s' with
  | zero => exact ⟨.nil, rfl, state⟩
  | succ fuel ih =>
    simp only [serve]
    cases c.reader with
    | none => exact ⟨.nil, rfl, state⟩
    | some asker =>
      obtain ⟨hresult, hnext⟩ := h.resolve caller state
      obtain ⟨hcache, htold⟩ := finish_mirrors hresult c
      obtain ⟨hmore, hlast, hend⟩ := ih (c.finish _).1 hnext
      simp only [hcache] at hmore hlast hend ⊢
      exact ⟨List.rel_append htold hmore, hlast, hend⟩

/-- Those who ask at the same time are told alike, and as much is known afterwards. -/
theorem Cache.replies_mirrors (h : source.Mirrors R source') (caller : Caller) (count : Nat)
    (c : Cache) (state : R s s') :
    let told := c.replies source caller.guild caller.author count s
    let told' := c.replies source' caller.guild caller.author count s'
    List.Forall₂ (SameButLookup caller) told.1 told'.1 ∧ told.2.1 = told'.2.1 ∧
      R told.2.2 told'.2.2 := by
  obtain ⟨hmore, hlast, hend⟩ :=
    serve_mirrors h caller count (c.askAll (List.range count)).1 state
  refine ⟨?_, hlast, hend⟩
  have htold := List.rel_append (Replies.refl caller (c.askAll (List.range count)).2) hmore
  exact List.forall₂_map_left_iff.mpr (List.forall₂_map_right_iff.mpr (htold.imp fun _ _ h => h.2))

def complaint? : Failure → Option (String × String)
  | .dispatch (.invalidArguments message usage) => some (message, usage)
  | _ => none

theorem complaint?_eq_some {e : Failure} {told : String × String} :
    complaint? e = some told ↔ e = .dispatch (.invalidArguments told.1 told.2) := by
  constructor
  · intro h
    unfold complaint? at h
    split at h
    · cases h
      rfl
    · cases h
  · rintro rfl
    rfl

inductive SameButCause : Except Failure Value → Except Failure Value → Prop
  | value (v : Value) : SameButCause (.ok v) (.ok v)
  | failure {e e' : Failure} (complaint : complaint? e = complaint? e') :
    SameButCause (.error e) (.error e')

/-- Scripts for an author that do the same, except that they may fail with something else. What the
author holds is told to both; why a lookup has failed may be told differently, and does not make
them differ in any other way. -/
inductive Script.Mirrors (R : σ → σ' → Prop) (caller : Caller) : Script σ → Script σ' → Prop
  | done {result result' : Except Failure Value} (same : SameButCause result result') :
    Mirrors R caller (.done result) (.done result')
  | permissions (askers : Nat) {next : List (Except DispatchError Grants) → Script σ}
      {next' : List (Except DispatchError Grants) → Script σ'}
      (next_mirrors : ∀ told told', List.Forall₂ (SameButLookup caller) told told' →
        Mirrors R caller (next told) (next' told')) :
    Mirrors R caller (.permissions askers next) (.permissions askers next')
  | pause (microseconds : Nat) {next : Script σ} {next' : Script σ'}
      (next_mirrors : Mirrors R caller next next') :
    Mirrors R caller (.pause microseconds next) (.pause microseconds next')
  | act {change : σ → σ} {change' : σ' → σ'} {next : σ → Script σ} {next' : σ' → Script σ'}
      (change_mirrors : ∀ s s', R s s' → R (change s) (change' s'))
      (next_mirrors : ∀ s s', R s s' → Mirrors R caller (next s) (next' s')) :
    Mirrors R caller (.act change next) (.act change' next')

/-- An executor that asks for the author's permissions may fail with what the lookup fails with, and
does not differ otherwise. -/
theorem Script.Mirrors.withPermissions {next : Grants → Script σ} {next' : Grants → Script σ'}
    (h : ∀ g, (next g).Mirrors R caller (next' g)) :
    (Script.withPermissions next).Mirrors R caller (Script.withPermissions next') := by
  refine .permissions 1 fun told told' htold => ?_
  cases htold with
  | nil => exact h .none
  | @cons reply reply' _ _ hfirst hrest =>
    cases hfirst with
    | failed within cause cause' => exact .done (.failure rfl)
    | same =>
      cases reply with
      | error e => exact .done (.failure rfl)
      | ok g => exact h g

theorem Script.Mirrors.run (hsource : source.Mirrors R source') {ctx : Context}
    {script : Script σ} {script' : Script σ'} (h : script.Mirrors R ctx.caller script')
    (c : Cache) (state : R s s') :
    let ended := script.run source ctx c s
    let ended' := script'.run source' ctx c s'
    SameButCause ended.1 ended'.1 ∧ R ended.2.2 ended'.2.2 := by
  induction h generalizing c s s' with
  | done same => exact ⟨same, state⟩
  | permissions askers next_mirrors ih =>
    obtain ⟨htold, hcache, hstate⟩ := Cache.replies_mirrors hsource ctx.caller askers c state
    simp only [Script.run]
    rw [← hcache]
    exact ih _ _ htold _ hstate
  | pause microseconds next_mirrors ih => exact ih c state
  | act change_mirrors next_mirrors ih => exact ih _ _ state c (change_mirrors _ _ state)

inductive Outcome.Mirrors (caller : Caller) : Outcome → Outcome → Prop
  | lookup (ctx : Context) {result result' : Except DispatchError Value}
      (same : SameButLookup caller result result') : Mirrors caller ⟨ctx, result⟩ ⟨ctx, result'⟩
  | contained (ctx : Context) (command : String) (cause cause' : Failure) :
    Mirrors caller (ctx.refuse (.execution command cause)) (ctx.refuse (.execution command cause'))

namespace Dispatcher

structure Mirrors (R : σ → σ' → Prop) (d : Dispatcher ε σ) (d' : Dispatcher ε σ') : Prop where
  registry : d'.registry = d.registry
  superusers : d'.superusers = d.superusers
  source : d.source.Mirrors R d'.source
  perform (executor : ε) (ctx : Context) :
    (d.perform executor ctx).Mirrors R ctx.caller (d'.perform executor ctx)

variable {d : Dispatcher ε σ} {d' : Dispatcher ε σ'}

theorem conclude_of_none (invocation : Invocation ε) {e : Failure} (h : complaint? e = none) :
    (conclude invocation (.error e)).1 =
      invocation.context.refuse (.execution invocation.context.command e) := by
  unfold conclude
  dsimp only
  split
  · cases h
  · rfl

theorem conclude_mirrors (invocation : Invocation ε) (caller : Caller)
    {result result' : Except Failure Value} (h : SameButCause result result') :
    (conclude invocation result).1.Mirrors caller (conclude invocation result').1 := by
  cases h with
  | value v => exact .lookup _ (.same _)
  | @failure e e' complaint =>
    cases he : complaint? e with
    | none =>
      rw [conclude_of_none invocation he, conclude_of_none invocation (complaint ▸ he)]
      exact .contained _ _ e e'
    | some told =>
      obtain rfl := complaint?_eq_some.mp he
      obtain rfl := complaint?_eq_some.mp (complaint ▸ he)
      exact .lookup _ (.same _)

theorem Mirrors.firstMissing (h : d.Mirrors R d') (ctx : Context) (required : List String)
    (state : R s s') :
    let gate := d.firstMissing ctx required s
    let gate' := d'.firstMissing ctx required s'
    SameButLookup ctx.caller gate.1 gate'.1 ∧ gate.2.1 = gate'.2.1 ∧ R gate.2.2 gate'.2.2 := by
  cases required with
  | nil => exact ⟨.same _, rfl, state⟩
  | cons first rest =>
    simp only [Dispatcher.firstMissing, Cache.replies_empty]
    obtain ⟨hresolve, hstate⟩ := h.source.resolve ctx.caller state
    generalize d.source.resolve ctx.caller.guild ctx.caller.author s = told at hresolve hstate ⊢
    generalize d'.source.resolve ctx.caller.guild ctx.caller.author s' = told' at hresolve hstate ⊢
    obtain ⟨result, t⟩ := told
    obtain ⟨result', t'⟩ := told'
    split
    · exact ⟨.same _, rfl, state⟩
    · split
      · exact ⟨.same _, rfl, state⟩
      · cases hresolve with
        | failed within cause cause' => exact ⟨.failed within cause cause', rfl, hstate⟩
        | same =>
          cases result with
          | error e => exact ⟨.same _, rfl, hstate⟩
          | ok g =>
            dsimp only
            cases g.firstMissing (first :: rest) <;> exact ⟨.same _, rfl, hstate⟩

theorem Mirrors.admitted (h : d.Mirrors R d') (ctx : Context) (id : Nat)
    (definition : Command.Definition ε) (state : R s s') :
    let ended := d.admitted ctx id definition s
    let ended' := d'.admitted ctx id definition s'
    Outcome.Mirrors ctx.caller ended.1 ended'.1 ∧ R ended.2.2 ended'.2.2 := by
  have hneeds : d'.needsSubcommand ctx id definition = d.needsSubcommand ctx id definition := by
    simp only [needsSubcommand, subcommandUsage, h.registry]
  simp only [Dispatcher.admitted, hneeds]
  obtain ⟨hgate, hcache, hstate⟩ := h.firstMissing ctx definition.permissions state
  generalize d.firstMissing ctx definition.permissions s = gate at hgate hcache hstate ⊢
  generalize d'.firstMissing ctx definition.permissions s' = gate' at hgate hcache hstate ⊢
  obtain ⟨found, cache, t⟩ := gate
  obtain ⟨found', cache', t'⟩ := gate'
  obtain rfl : cache = cache' := hcache
  cases hgate with
  | failed within cause cause' => exact ⟨.lookup ctx (.failed within cause cause'), hstate⟩
  | same =>
    cases found with
    | error e => exact ⟨.lookup ctx (.same _), hstate⟩
    | ok required =>
      cases required with
      | some missing => exact ⟨.lookup ctx (.same _), hstate⟩
      | none =>
        dsimp only
        cases definition.executor with
        | none => exact ⟨.lookup ctx (.same _), hstate⟩
        | some executor =>
          obtain ⟨hended, hstate⟩ := (h.perform executor ctx).run h.source cache hstate
          exact ⟨conclude_mirrors _ ctx.caller hended, hstate⟩

theorem Mirrors.begins (h : d.Mirrors R d') {message : String} {caller : Caller} {ctx : Context}
    {id : Nat} {definition : Command.Definition ε}
    (hbegins : d.Begins message caller ctx id definition) :
    d'.Begins message caller ctx id definition := by
  obtain ⟨htokenized, hfound, hdefined, hcontext⟩ := hbegins
  rw [← h.registry] at hfound hdefined
  rw [contextOf, ← h.registry, ← h.superusers] at hcontext
  exact ⟨htokenized, hfound, hdefined, hcontext⟩

/-- Outcomes differ at most in a failure, as stores and executors do. -/
theorem Mirrors.dispatch (h : d.Mirrors R d') (message : String) (caller : Caller)
    (state : R s s') :
    let ended := d.dispatch message caller s
    let ended' := d'.dispatch message caller s'
    Outcome.Mirrors caller ended.1 ended'.1 ∧ R ended.2.2 ended'.2.2 := by
  cases htokens : Command.tokenize message with
  | error fault =>
    simp only [dispatch_of_unclosed htokens, h.superusers]
    exact ⟨.lookup _ (.same _), state⟩
  | ok tokens =>
    cases hlookup : d.registry.lookup tokens with
    | mk node args =>
      cases hdefined : node.bind d.registry.definition? with
      | none =>
        have hlookup' : d'.registry.lookup tokens = (node, args) := by rw [h.registry, hlookup]
        have hdefined' : node.bind d'.registry.definition? = none := by rw [h.registry, hdefined]
        simp only [dispatch_of_undefined htokens hlookup hdefined,
          dispatch_of_undefined htokens hlookup' hdefined', h.superusers]
        exact ⟨.lookup _ (.same _), state⟩
      | some definition =>
        obtain ⟨id, rfl, hid⟩ := Option.bind_eq_some_iff.mp hdefined
        have hbegins : d.Begins message caller (d.contextOf message caller tokens (some id) args) id
            definition := ⟨htokens, hlookup, hid, rfl⟩
        simp only [hbegins.dispatch_eq, (h.begins hbegins).dispatch_eq]
        split
        · exact ⟨.lookup _ (.same _), state⟩
        · exact h.admitted (d.contextOf message caller tokens (some id) args) id definition state

end Dispatcher

end Dispatch

namespace Chat

open Command (Definition)

theorem message_lookupFailed (guild : Option String) (user reason : String) (cause : Failure) :
    (DispatchError.lookupFailed guild user reason cause).message =
      s!"Could not load permissions of {user} in guild " ++ guild.getD "None" ++
        if reason.isEmpty then "" else ": " ++ reason := rfl

theorem message_lookupFailed_inj {guild : Option String} {user reason reason' : String}
    {cause cause' : Failure} :
    (DispatchError.lookupFailed guild user reason cause).message =
      (DispatchError.lookupFailed guild user reason' cause').message ↔ reason = reason' := by
  rw [message_lookupFailed, message_lookupFailed, String.append_right_inj]
  constructor
  · intro h
    split at h <;> split at h <;> simp_all
  · rintro rfl
    rfl

/-- Of outcomes that differ at most in a failure, those that the user is told differently are those
of a lookup that fails, before anything is run, with different texts. -/
theorem reply_ne_iff {caller : Caller} {o o' : Outcome} (h : o.Mirrors caller o')
    (manners : Manners) :
    manners.reply o ≠ manners.reply o' ↔ ∃ guild cause cause', caller.guild = some guild ∧
      o.result = .error (.lookupFailed (some guild) caller.author cause.message cause) ∧
      o'.result = .error (.lookupFailed (some guild) caller.author cause'.message cause') ∧
      cause.message ≠ cause'.message := by
  cases h with
  | contained ctx command cause cause' =>
    refine iff_of_false (fun hne => hne rfl) ?_
    rintro ⟨guild, first, second, -, hresult, -⟩
    cases hresult
  | lookup ctx same =>
    cases same with
    | same result =>
      refine iff_of_false (fun hne => hne rfl) ?_
      rintro ⟨guild, cause, cause', -, hresult, hresult', hne⟩
      exact hne (DispatchError.lookupFailed.inj
        (Except.error.inj (hresult.symm.trans hresult'))).2.2.1
    | @failed guild within cause cause' =>
      have hreply (reason : String) (cause : Failure) :
          manners.reply ⟨ctx, .error (.lookupFailed (some guild) caller.author reason cause)⟩ =
            (DispatchError.lookupFailed (some guild) caller.author reason cause).message := rfl
      rw [hreply, hreply, Ne, message_lookupFailed_inj]
      constructor
      · intro hne
        exact ⟨guild, cause, cause', within, rfl, rfl, hne⟩
      · rintro ⟨_, _, _, -, hresult, hresult', hne⟩ hsame
        obtain ⟨-, -, htold, -⟩ := DispatchError.lookupFailed.inj (Except.error.inj hresult)
        obtain ⟨-, -, htold', -⟩ := DispatchError.lookupFailed.inj (Except.error.inj hresult')
        exact hne (htold.symm.trans (hsame.trans htold'))

/-- Two runs of a message, with the same commands, the same superusers, and stores and executors
that differ at most in what they fail with. Both drop the message or neither does. The replies
differ only where, before anything is run, the author's permissions cannot be looked up and the
store has failed with different texts; there they do differ. Whatever executors fail with, apart
from complaints about the arguments, the replies are the same. -/
theorem replies_hide_all_but_failed_lookups {d : Dispatcher ε σ} {d' : Dispatcher ε σ'}
    (h : d.Mirrors R d') (state : R s s') (manners : Manners) (m : Message) :
    let ended := handle manners d m s
    let ended' := handle manners d' m s'
    R ended.2.2 ended'.2.2 ∧
      (ended.1 = none ∧ ended'.1 = none ∨
        ∃ o o', ended.1 = some o ∧ ended'.1 = some o' ∧
          (manners.reply o ≠ manners.reply o' ↔ ∃ guild cause cause', m.guild = some guild ∧
            o.result = .error (.lookupFailed (some guild) m.author cause.message cause) ∧
            o'.result = .error (.lookupFailed (some guild) m.author cause'.message cause') ∧
            cause.message ≠ cause'.message)) := by
  simp only [handle]
  cases manners.command? m with
  | none => exact ⟨state, .inl ⟨rfl, rfl⟩⟩
  | some text =>
    obtain ⟨houtcome, hstate⟩ := h.dispatch text m.caller state
    exact ⟨hstate, .inr ⟨_, _, rfl, rfl, reply_ne_iff houtcome manners⟩⟩

/-- A bot whose store and whose executors all fail. It knows a command that anybody may run and one
that a permission is required for; both ask for the author's permissions. -/
def broken (e : Failure) : Dispatcher Unit Unit :=
  let look : Definition Unit := ⟨"look", some (), "", "", "", [], [], false, ""⟩
  let kick : Definition Unit := ⟨"kick", some (), "", "", "", [], ["admin.kick"], true, ""⟩
  let source : Source Unit := ⟨fun _ _ s => (.error e, s), fun _ _ s => (.error e, s),
    fun _ _ s => (.error e, s)⟩
  ⟨(Command.Registry.empty.insert none look).insert none kick, source, [],
    fun _ _ => .withPermissions fun _ => .fail e⟩

theorem broken_mirrors {e e' : Failure} (h : Dispatch.complaint? e = Dispatch.complaint? e') :
    (broken e).Mirrors Eq (broken e') where
  registry := rfl
  superusers := rfl
  source := ⟨fun _ _ _ _ state => .error e e' state, fun _ _ _ _ state => .error e e' state,
    fun _ _ _ _ state => .error e e' state⟩
  perform _ _ := .withPermissions fun _ => .done (.failure h)

/-- A command whose executor cannot look up permissions gets the same reply, whatever the store has
failed with. -/
theorem lookup_of_an_executor_is_not_told :
    let password : Failure := .runtime "db password is hunter2"
    let fire : Failure := .store "disk on fire" none
    let manners : Manners := ⟨"!", true⟩
    let m : Message := ⟨"!look", some "1", "c", "42", false⟩
    (broken password).Mirrors Eq (broken fire) ∧
      ∃ o o', (handle manners (broken password) m ()).1 = some o ∧
        (handle manners (broken fire) m ()).1 = some o' ∧
        manners.reply o = "Something went wrong while running `look`." ∧
        manners.reply o' = manners.reply o := by
  intro password fire manners m
  have hmirrors : (broken password).Mirrors Eq (broken fire) := broken_mirrors rfl
  have htold : (handle manners (broken password) m ()).1.map manners.reply =
      some "Something went wrong while running `look`." := by
    decide +kernel
  have hkind : (handle manners (broken password) m ()).1.map (·.kind) =
      some "execution_error" := by
    decide +kernel
  refine ⟨hmirrors, ?_⟩
  obtain ⟨-, ⟨hdropped, -⟩ | ⟨o, o', ho, ho', hreply⟩⟩ :=
    replies_hide_all_but_failed_lookups hmirrors (Eq.refl ()) manners m
  · rw [hdropped] at hkind
    cases hkind
  · rw [ho, Option.map_some, Option.some.injEq] at htold hkind
    refine ⟨o, o', ho, ho', htold, ?_⟩
    by_contra hne
    obtain ⟨guild, cause, -, -, hresult, -⟩ := hreply.mp (Ne.symm hne)
    simp [Dispatch.Outcome.kind, hresult, DispatchError.kind] at hkind

/-- The reply to a command that requires a permission tells what the store has failed with, so that
replies do depend on it. -/
theorem lookup_before_an_executor_is_told :
    ¬ ∀ {ε σ σ' : Type} (R : σ → σ' → Prop) (d : Dispatcher ε σ) (d' : Dispatcher ε σ'),
      d.Mirrors R d' → ∀ s s', R s s' → ∀ (manners : Manners) (m : Message),
        (handle manners d m s).1.map manners.reply =
          (handle manners d' m s').1.map manners.reply := by
  intro h
  let password : Failure := .runtime "db password is hunter2"
  let fire : Failure := .store "disk on fire" none
  let manners : Manners := ⟨"!", true⟩
  let m : Message := ⟨"!kick bob", some "1", "c", "42", false⟩
  have hpassword : (handle manners (broken password) m ()).1.map manners.reply =
      some "Could not load permissions of 42 in guild 1: db password is hunter2" := by
    decide +kernel
  have hfire : (handle manners (broken fire) m ()).1.map manners.reply =
      some "Could not load permissions of 42 in guild 1: disk on fire" := by
    decide +kernel
  have hsame := h Eq (broken password) (broken fire) (broken_mirrors rfl) () () rfl manners m
  rw [hpassword, hfire] at hsame
  revert hsame
  decide

end Chat

end Guildhall
