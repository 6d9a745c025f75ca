import Guildhall.Proofs.Command.Registry
import Guildhall.Proofs.Dispatch.Journal
import Guildhall.Proofs.Permission.Replay

/-!
# The gate

A message runs an executor exactly when it is a command for one and its author may run it.
-/

namespace Guildhall.Dispatch

open Command (Definition)
open Permission (CanonicalTexts Grants Node Reading Source)

variable {ε σ : Type}

namespace Cache

/-- A single asker with nothing known resolves, and what is resolved stays known. -/
theorem replies_empty (source : Source σ) (guild : Option String) (user : String) (s : σ) :
    empty.replies source guild user 1 s =
      match source.resolve guild user s with
      | (.ok g, s) => ([.ok g], ⟨some g, none, []⟩, s)
      | (.error e, s) => ([.error e], empty, s) := by
  simp only [replies, List.range_one, askAll, ask, empty, List.append_nil, List.nil_append, serve,
    finish]
  obtain ⟨result, s⟩ := source.resolve guild user s
  cases result <;> rfl

theorem askAll_known (g : Grants) (ids : List Nat) :
    askAll ⟨some g, none, []⟩ ids = (⟨some g, none, []⟩, ids.map fun id => (id, .ok g)) := by
  induction ids with
  | nil => rfl
  | cons id ids ih => simp [askAll, ask, ih]

theorem serve_idle (source : Source σ) (guild : Option String) (user : String) (fuel : Nat)
    {c : Cache} (h : c.reader = none) (s : σ) : serve source guild user fuel c s = ([], c, s) := by
  cases fuel with
  | zero => rfl
  | succ fuel => rw [serve, h]

theorem replies_known (source : Source σ) (guild : Option String) (user : String) (count : Nat)
    (g : Grants) (s : σ) :
    (⟨some g, none, []⟩ : Cache).replies source guild user count s =
      (List.replicate count (.ok g), ⟨some g, none, []⟩, s) := by
  simp [replies, askAll_known, serve_idle, Function.comp_def]

end Cache

namespace Dispatcher

/-- Whether the author of a message may do what requires `required`: nothing is required, or the
author is a superuser, or they hold each identifier in the guild they write in. -/
def Authorised (d : Dispatcher ε σ) (caller : Caller) (s : σ) (required : List String) : Prop :=
  required = [] ∨ caller.author ∈ d.superusers ∨
    ∃ guild r g, caller.guild = some guild ∧
      (d.source.reading guild caller.author s).1 = .ok r ∧
      (d.source.resolve (some guild) caller.author s).1 = .ok g ∧
      ∀ text ∈ required, ∃ n : Node, n.value = text ∧ r.Holds n

def contextOf (d : Dispatcher ε σ) (message : String) (caller : Caller) (tokens : List String)
    (node : Option Nat) (args : List String) : Context :=
  ⟨caller, message, d.superusers.contains caller.author, tokens, node,
    d.registry.qualifiedName node, args⟩

/-- Whether a message runs an executor: the message has tokens, they begin with a command that has
an executor, the command may be run where the message was written, and its author may run it. The
executor is run with the words that do not belong to the command. -/
structure Permits (d : Dispatcher ε σ) (message : String) (caller : Caller) (s : σ)
    (definition : Definition ε) (call : Call ε) : Prop where
  tokenized : Command.tokenize message = .ok call.context.tokens
  found : d.registry.lookup call.context.tokens = (call.context.node, call.context.args)
  defined : call.context.node.bind d.registry.definition? = some definition
  executable : definition.executor = some call.executor
  placed : definition.guildOnly = true → caller.guild ≠ none
  authorised : d.Authorised caller s definition.permissions
  context : call.context = d.contextOf message caller call.context.tokens call.context.node
    call.context.args

/-- What an executor is told that asks for an identifier, after the gate. -/
def asked (d : Dispatcher ε σ) (ctx : Context) (gate : Except DispatchError (Option String) ×
    Cache × σ) (required : String) : Except Failure Value :=
  ((Script.hasPermission ctx required fun held => .give (.bool held)).run d.source ctx gate.2.1
    gate.2.2).1

section Gate

variable {d : Dispatcher ε σ} {ctx : Context} {nodes : List Node} {s : σ}

theorem firstMissing_superuser (required : List String) (h : ctx.superuser = true) :
    d.firstMissing ctx required s = (.ok none, .empty, s) := by
  cases required <;> simp [firstMissing, h]

theorem firstMissing_outside {first : String} {rest : List String} (h : ctx.superuser = false)
    (hguild : ctx.caller.guild = none) :
    d.firstMissing ctx (first :: rest) s = (.ok (some first), .empty, s) := by
  simp [firstMissing, h, hguild]

theorem firstMissing_failed {first : String} {rest : List String} (h : ctx.superuser = false)
    {guild : String} (hguild : ctx.caller.guild = some guild) {e : DispatchError} {s' : σ}
    (hresolve : d.source.resolve (some guild) ctx.caller.author s = (.error e, s')) :
    d.firstMissing ctx (first :: rest) s = (.error e, .empty, s') := by
  simp [firstMissing, h, hguild, Cache.replies_empty, hresolve]

/-- In a guild the gate resolves the author's permissions, and keeps them for the executor. -/
theorem firstMissing_resolved (hcanonical : ∀ n ∈ nodes, n.Canonical) (hsome : nodes ≠ [])
    (h : ctx.superuser = false) {guild : String} (hguild : ctx.caller.guild = some guild)
    {g : Grants} {s' : σ}
    (hresolve : d.source.resolve (some guild) ctx.caller.author s = (.ok g, s')) :
    d.firstMissing ctx (nodes.map (·.value)) s =
      (.ok ((nodes.find? fun n => !g.has n).map (·.value)), ⟨some g, none, []⟩, s') := by
  have hmissing := g.firstMissing_values hcanonical
  cases nodes with
  | nil => exact absurd rfl hsome
  | cons n rest =>
    rw [List.map_cons] at hmissing ⊢
    simp [firstMissing, h, hguild, Cache.replies_empty, hresolve, hmissing]

theorem find?_not_held_eq_none {g : Grants} :
    (nodes.find? fun n => !g.has n).map (·.value) = none ↔ ∀ n ∈ nodes, g.has n = true := by
  simp

theorem firstMissing_eq_none_iff {caller : Caller} {required : List String}
    (hrequired : CanonicalTexts required) (hcaller : ctx.caller = caller)
    (hsuper : ctx.superuser = d.superusers.contains caller.author) :
    (d.firstMissing ctx required s).1 = .ok none ↔ d.Authorised caller s required := by
  obtain ⟨nodes, hcanonical, rfl⟩ := hrequired
  subst hcaller
  rcases nodes with _ | ⟨n, rest⟩
  · simp [firstMissing, Authorised]
  cases h : ctx.superuser with
  | true =>
    have hmem : ctx.caller.author ∈ d.superusers := by simpa [h] using hsuper.symm
    simp [firstMissing_superuser _ h, Authorised, hmem]
  | false =>
    have hmem : ctx.caller.author ∉ d.superusers := by simpa [h] using hsuper.symm
    cases hguild : ctx.caller.guild with
    | none => simp [firstMissing_outside h hguild, Authorised, hmem, hguild]
    | some guild =>
      cases hresolve : d.source.resolve (some guild) ctx.caller.author s with
      | mk result s' =>
        cases result with
        | error e =>
          simp [firstMissing_failed h hguild hresolve, Authorised, hmem, hguild, hresolve]
        | ok g =>
          have hok : (d.source.resolve (some guild) ctx.caller.author s).1 = .ok g := by
            rw [hresolve]
          obtain ⟨r, hreading, hr⟩ := d.source.resolve_eq_ok.mp hok
          rw [firstMissing_resolved hcanonical (List.cons_ne_nil n rest) h hguild hresolve,
            Except.ok.injEq, find?_not_held_eq_none]
          constructor
          · intro hall
            refine .inr (.inr ⟨guild, r, g, hguild, hreading, hok, fun text htext => ?_⟩)
            obtain ⟨m, hm, rfl⟩ := List.mem_map.mp htext
            exact ⟨m, rfl, (Reading.resolved_has hr).mp (hall m hm)⟩
          · rintro (hnil | hsuper | ⟨guild', r', g', hguild', hreading', -, hall⟩)
            · cases hnil
            · exact absurd hsuper hmem
            · obtain rfl : guild = guild' := Option.some.inj (hguild.symm.trans hguild')
              obtain rfl : r = r' := Except.ok.inj (hreading.symm.trans hreading')
              intro m hm
              obtain ⟨held, hvalue, hholds⟩ := hall m.value (List.mem_map.mpr ⟨m, hm, rfl⟩)
              rw [Node.eq_of_value hvalue] at hholds
              exact (Reading.resolved_has hr).mpr hholds

theorem asked_after_gate {required : List String} (hrequired : CanonicalTexts required)
    {g : Grants} (hresolve : (d.source.resolve ctx.caller.guild ctx.caller.author s).1 = .ok g) :
    (d.firstMissing ctx required s).1 = .ok none ↔
      ∀ text ∈ required, d.asked ctx (d.firstMissing ctx required s) text = .ok (.bool true) := by
  obtain ⟨nodes, hcanonical, rfl⟩ := hrequired
  rcases nodes with _ | ⟨n, rest⟩
  · simp [firstMissing]
  cases h : ctx.superuser with
  | true =>
    simp [firstMissing_superuser _ h, asked, Script.hasPermission, h, Script.give, Script.run]
  | false =>
    cases hguild : ctx.caller.guild with
    | none =>
      rw [List.map_cons, firstMissing_outside h hguild]
      constructor
      · intro hpassed
        cases hpassed
      · intro hall
        have hfirst := hall n.value List.mem_cons_self
        simp [asked, Script.hasPermission, h, hguild, Script.give, Script.run] at hfirst
    | some guild =>
      rw [hguild] at hresolve
      have hpair : d.source.resolve (some guild) ctx.caller.author s =
          (.ok g, (d.source.resolve (some guild) ctx.caller.author s).2) := by rw [← hresolve]
      have hgate :=
        firstMissing_resolved hcanonical (List.cons_ne_nil n rest) h hguild hpair
      have hasked (m : Node) (hm : m.Canonical) :
          d.asked ctx (d.firstMissing ctx ((n :: rest).map (·.value)) s) m.value =
            .ok (.bool (g.has m)) := by
        rw [hgate]
        simp [asked, Script.hasPermission, h, hguild, Script.withPermissions, Script.run,
          Cache.replies_known, g.hasText_value hm, Script.give]
      rw [hgate, Except.ok.injEq, find?_not_held_eq_none, ← hgate]
      constructor
      · intro hall text htext
        obtain ⟨m, hm, rfl⟩ := List.mem_map.mp htext
        rw [hasked m (hcanonical m hm), hall m hm]
      · intro hall m hm
        have htold := hall m.value (List.mem_map.mpr ⟨m, hm, rfl⟩)
        rw [hasked m (hcanonical m hm)] at htold
        simpa using htold

end Gate

variable {d : Dispatcher ε σ} {message : String} {caller : Caller} {s : σ}

theorem journal_eq : d.journal message caller s = (d.prepare message caller s).1.calls := by
  simp [journal, dispatch_journaled]

/-- What a message that begins with a command comes to depends on the guild, the gate and whether
the command has an executor. -/
theorem calls_prepare {tokens args : List String} {id : Nat} {definition : Definition ε}
    (htokens : Command.tokenize message = .ok tokens)
    (hfound : d.registry.lookup tokens = (some id, args))
    (hdefined : d.registry.definition? id = some definition) :
    (d.prepare message caller s).1.calls =
      let ctx := d.contextOf message caller tokens (some id) args
      if definition.guildOnly && caller.guild.isNone then []
      else
        match (d.firstMissing ctx definition.permissions s).1, definition.executor with
        | .ok none, some executor => [⟨executor, ctx⟩]
        | _, _ => [] := by
  simp only [prepare, htokens, hfound, Option.bind_some, hdefined, Option.map_some,
    Context.start, contextOf]
  split
  · rfl
  · obtain ⟨gate, cache, s'⟩ := d.firstMissing _ definition.permissions s
    rcases gate with e | (_ | missing)
    · rfl
    · cases definition.executor <;> rfl
    · rfl

theorem permits_of_mem_journal (hr : d.registry.Reachable) {call : Call ε}
    (hcall : call ∈ d.journal message caller s) :
    ∃ definition, d.Permits message caller s definition call := by
  rw [journal_eq] at hcall
  cases htokens : Command.tokenize message with
  | error unclosed => simp [prepare, htokens, Stage.calls] at hcall
  | ok tokens =>
    cases hfound : d.registry.lookup tokens with
    | mk found args =>
      cases hdefined : found.bind d.registry.definition? with
      | none =>
        have hentry : found.bind (fun id => (d.registry.definition? id).map (id, ·)) = none := by
          cases found with
          | none => rfl
          | some id =>
            rw [Option.bind_some] at hdefined ⊢
            rw [hdefined, Option.map_none]
        simp [prepare, htokens, hfound, hentry, Stage.calls] at hcall
      | some definition =>
        obtain ⟨id, rfl, hid⟩ := Option.bind_eq_some_iff.mp hdefined
        rw [calls_prepare htokens hfound hid] at hcall
        dsimp only at hcall
        split at hcall
        case isTrue => cases hcall
        case isFalse hplaced =>
          split at hcall
          case h_2 => cases hcall
          case h_1 executor hgate hexecutor =>
            cases List.mem_singleton.mp hcall
            have hauthorised := (firstMissing_eq_none_iff (hr.canonicalTexts hid) rfl rfl).mp hgate
            refine ⟨definition, htokens, hfound, hid, hexecutor, fun hguild hnone => ?_,
              hauthorised, rfl⟩
            exact hplaced (by simp [hguild, hnone])

/-- What a message may run, it runs, and nothing else. -/
theorem journal_of_permits (hr : d.registry.Reachable) {definition : Definition ε}
    {call : Call ε} (h : d.Permits message caller s definition call) :
    d.journal message caller s = [call] := by
  rw [journal_eq]
  obtain ⟨executor, ctx⟩ := call
  obtain ⟨id, hid, hdefined⟩ := Option.bind_eq_some_iff.mp h.defined
  have hfound := h.found
  have hcontext := h.context
  simp only at hid hfound hcontext
  rw [hid] at hfound hcontext
  have hgate : (d.firstMissing ctx definition.permissions s).1 = .ok none :=
    (firstMissing_eq_none_iff (hr.canonicalTexts hdefined) (by rw [hcontext]; rfl)
      (by rw [hcontext]; rfl)).mpr h.authorised
  have hplaced : ¬ (definition.guildOnly && caller.guild.isNone) = true := by
    simpa using h.placed
  rw [calls_prepare h.tokenized hfound hdefined]
  simp only [if_neg hplaced, ← hcontext, hgate, h.executable]

theorem mem_journal_of_permits (hr : d.registry.Reachable) {definition : Definition ε}
    {call : Call ε} (h : d.Permits message caller s definition call) :
    call ∈ d.journal message caller s := by
  rw [journal_of_permits hr h]
  exact List.mem_singleton_self call

/-- A message runs an executor if and only if it begins with a command that has one, is written
where the command may be run, and its author is authorised. Then it runs just the executor of that
command, once, with the words left over. Where the author's permissions can be resolved, the gate
lets pass exactly what an executor would be told that the author holds. -/
theorem runs_iff_permitted (d : Dispatcher ε σ) (hr : d.registry.Reachable) (message : String)
    (caller : Caller) (s : σ) :
    (∀ call, call ∈ d.journal message caller s ↔
        ∃ definition, d.Permits message caller s definition call) ∧
      (d.journal message caller s).length ≤ 1 ∧
      ∀ (ctx : Context) (id : Nat) (definition : Definition ε) (g : Grants),
        d.registry.definition? id = some definition →
        (d.source.resolve ctx.caller.guild ctx.caller.author s).1 = .ok g →
        ((d.firstMissing ctx definition.permissions s).1 = .ok none ↔
          ∀ text ∈ definition.permissions,
            d.asked ctx (d.firstMissing ctx definition.permissions s) text = .ok (.bool true)) := by
  refine ⟨fun call => ⟨permits_of_mem_journal hr, ?_⟩, ?_,
    fun ctx id definition g hdefinition hresolve => ?_⟩
  · rintro ⟨definition, hpermits⟩
    exact mem_journal_of_permits hr hpermits
  · rw [journal_eq]
    cases (d.prepare message caller s).1 <;> simp [Stage.calls]
  · exact asked_after_gate (hr.canonicalTexts hdefinition) hresolve

/-- A moderator runs a guild command by an alias, in whatever case. -/
theorem runs_for_a_moderator :
    let kick : Definition Unit := ⟨"kick", some (), "", "", "", ["k"], ["Admin.Kick"], true, ""⟩
    let checked : Definition Unit := { kick with permissions := ["admin.kick"] }
    let d : Dispatcher Unit Permission.Store :=
      ⟨Command.Registry.empty.insert none checked, .memory, [], fun _ _ => .done (.ok .null)⟩
    let s : Permission.Store :=
      .replay [.setMemberRoles "1" "42" ["mod"], .grantRole "1" "mod" "admin.*"]
    d.registry.Reachable ∧ ∃ definition call,
      d.Permits "K '@x y'" ⟨"42", some "1", "c"⟩ s definition call ∧ call.context.args = ["@x y"] := by
  intro kick checked d s
  have hnames : Command.namesFault? "kick" ["k"] = none := by decide +kernel
  have hcheck : kick.check = .ok checked :=
    Definition.check_eq_ok.mpr ⟨hnames, [⟨"admin.kick", by decide⟩], by rfl, rfl⟩
  have hregistered : Command.Registry.empty.register [] checked = .ok d.registry := by
    cbv
  have hr : d.registry.Reachable := .register .empty hcheck hregistered
  obtain ⟨hruns, -, -⟩ := runs_iff_permitted d hr "K '@x y'" ⟨"42", some "1", "c"⟩ s
  have hargs : (d.journal "K '@x y'" ⟨"42", some "1", "c"⟩ s).map (·.context.args) = [["@x y"]] := by
    decide +kernel
  obtain ⟨call, hcall, hcontext⟩ := List.mem_map.mp (hargs ▸ List.mem_singleton_self ["@x y"])
  obtain ⟨definition, hpermits⟩ := (hruns call).mp hcall
  exact ⟨hr, definition, call, hpermits, hcontext⟩

end Dispatcher

end Guildhall.Dispatch
