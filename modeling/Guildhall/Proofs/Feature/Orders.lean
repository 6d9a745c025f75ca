import Guildhall.Proofs.Dispatch.Ending
import Guildhall.Proofs.Dispatch.Lookups
import Guildhall.Proofs.Feature.Permissions

/-!
# Orders

An order names a member or a role, and identifiers. All of its words are read before anything is
changed: an order with a malformed word changes nothing at all, and any other does what it says for
every identifier that it names, and nothing besides.
-/

namespace Guildhall.Feature

open Command (Definition)
open Dispatch (Call Caller Context Dispatcher)
open Permission (Access Node Store Write lastWord)

variable {ctx : Context} {guild target : String} {nodes : List Node} {s : Store}

namespace Order

/-- What a member is left with for each identifier that is named: a decision, or none. -/
def decision? : Order → Option (Option Bool)
  | allow => some (some true)
  | deny => some (some false)
  | reset => some none
  | _ => none

def granting? : Order → Option Bool
  | grant => some true
  | ungrant => some false
  | _ => none

/-- The store after an order: the member or the role that it names is left with what it says about
the identifiers that it names, and all else is as before, in every guild. -/
structure Done (order : Order) (guild target : String) (nodes : List Node)
    (before after : Store) : Prop where
  memberRoles (g user role : String) :
    role ∈ after.memberRoles g user ↔ role ∈ before.memberRoles g user
  grants (g role : String) (n : Node) :
    n.value ∈ after.rolePermissions g role ↔
      match if guild = g ∧ roleId target = role ∧ n ∈ nodes then order.granting? else none with
      | some granted => granted = true
      | none => n.value ∈ before.rolePermissions g role
  decisions (g user : String) (n : Node) :
    (after.overrideEntries g user).lookup n.value =
      (if guild = g ∧ memberId target = user ∧ n ∈ nodes then order.decision? else none).getD
        ((before.overrideEntries g user).lookup n.value)

structure Says (order : Order) (guild target : String) (n : Node) (w : Write) : Prop where
  rolesFor (g user : String) : w.rolesFor g user = none
  grantFor (g role : String) (m : Node) : w.grantFor g role m =
    if n = m then if guild = g ∧ roleId target = role then order.granting? else none else none
  overrideFor (g user : String) (m : Node) : w.overrideFor g user m =
    if n = m then if guild = g ∧ memberId target = user then order.decision? else none else none

section Says

variable {order : Order} {n : Node} {w : Write}

theorem says_decision (hn : n.Canonical) {d : Option Bool} (hdecision : order.decision? = some d)
    (hgranting : order.granting? = none) (hroles : ∀ g user, w.rolesFor g user = none)
    (hgrant : ∀ g role m, w.grantFor g role m = none)
    (hoverride : ∀ g user m, w.overrideFor g user m =
      if guild = g ∧ memberId target = user ∧ Node.parse n.value = .ok m then some d else none) :
    order.Says guild target n w where
  rolesFor := hroles
  grantFor g role m := by rw [hgrant, hgranting, ite_self, ite_self]
  overrideFor g user m := by
    have hparse : Node.parse n.value = .ok n := hn
    simp only [hoverride, hdecision, hparse, Except.ok.injEq]
    by_cases heq : n = m <;> simp [heq]

theorem says_granting (hn : n.Canonical) {granted : Bool}
    (hgranting : order.granting? = some granted) (hdecision : order.decision? = none)
    (hroles : ∀ g user, w.rolesFor g user = none)
    (hoverride : ∀ g user m, w.overrideFor g user m = none)
    (hgrant : ∀ g role m, w.grantFor g role m =
      if guild = g ∧ roleId target = role ∧ Node.parse n.value = .ok m then some granted
      else none) :
    order.Says guild target n w where
  rolesFor := hroles
  grantFor g role m := by
    have hparse : Node.parse n.value = .ok n := hn
    simp only [hgrant, hgranting, hparse, Except.ok.injEq]
    by_cases heq : n = m <;> simp [heq]
  overrideFor g user m := by rw [hoverride, hdecision, ite_self, ite_self]

theorem exists_changes (horder : order ≠ .roles) (h : Names ctx.args target nodes)
    (hguild : guildOf ctx = guild) :
    ∃ write : Node → Write, order.writes ctx = nodes.map write ∧
      ∀ n ∈ nodes, order.Says guild target n (write n) := by
  obtain ⟨texts, hargs, hread⟩ := h.exists_readIdentifiers
  simp only [writes, hargs, hread, hguild, List.map_map]
  cases order with
  | allow => exact ⟨_, rfl, fun n hn => says_decision (h.canonical n hn) rfl rfl (fun _ _ => rfl)
      (fun _ _ _ => rfl) fun _ _ _ => rfl⟩
  | deny => exact ⟨_, rfl, fun n hn => says_decision (h.canonical n hn) rfl rfl (fun _ _ => rfl)
      (fun _ _ _ => rfl) fun _ _ _ => rfl⟩
  | reset => exact ⟨_, rfl, fun n hn => says_decision (h.canonical n hn) rfl rfl (fun _ _ => rfl)
      (fun _ _ _ => rfl) fun _ _ _ => rfl⟩
  | grant => exact ⟨_, rfl, fun n hn => says_granting (h.canonical n hn) rfl rfl (fun _ _ => rfl)
      (fun _ _ _ => rfl) fun _ _ _ => rfl⟩
  | ungrant => exact ⟨_, rfl, fun n hn => says_granting (h.canonical n hn) rfl rfl (fun _ _ => rfl)
      (fun _ _ _ => rfl) fun _ _ _ => rfl⟩
  | roles => exact absurd rfl horder

theorem done_foldl (horder : order ≠ .roles) (h : Names ctx.args target nodes)
    (hguild : guildOf ctx = guild) (s : Store) :
    order.Done guild target nodes s ((order.writes ctx).foldl Store.after s) := by
  obtain ⟨write, hwrites, heach⟩ := exists_changes horder h hguild
  have hword {α : Type} {word : Write → Option α} {said : Option α} {n : Node}
      (hsaid : ∀ m ∈ nodes, word (write m) = if m = n then said else none) :
      lastWord word (order.writes ctx) = if n ∈ nodes then said else none := by
    rw [hwrites, Permission.lastWord_map hsaid]
  refine ⟨fun g user role => ?_, fun g role n => ?_, fun g user n => ?_⟩
  · rw [Store.mem_memberRoles_foldl]
    have hnone : lastWord (Write.rolesFor g user) (order.writes ctx) = none := by
      rw [hwrites, lastWord, List.findSome?_eq_none_iff]
      intro w hw
      obtain ⟨m, hm, rfl⟩ := List.mem_map.mp (List.mem_reverse.mp hw)
      exact (heach m hm).rolesFor g user
    rw [hnone, Option.getD_none]
  · have hlast : lastWord (Write.grantFor g role n) (order.writes ctx) =
        if guild = g ∧ roleId target = role ∧ n ∈ nodes then order.granting? else none := by
      rw [hword fun m hm => (heach m hm).grantFor g role n]
      by_cases hmem : n ∈ nodes <;> simp [hmem]
    have hgrants := s.mem_rolePermissions_foldl (order.writes ctx) g role n
    rw [hlast] at hgrants
    exact hgrants
  · rw [Store.lookup_overrideEntries_foldl, hword fun m hm => (heach m hm).overrideFor g user n]
    by_cases hmem : n ∈ nodes <;> simp [hmem]

end Says

/-- A message that runs an order other than the replacement of roles, in a guild, does all that the
order says or nothing. Where the order names nobody, or no identifier, or anything malformed, it
ends with a complaint about the arguments and the store is what it was. Otherwise it succeeds, what
it says is done for every identifier that it names, for this guild and the member or role named, and
nothing else is changed. A reset reports exactly the identifiers that there was an override for,
each once. -/
theorem all_or_nothing {ε : Type} {d : Dispatcher ε Store} (hr : d.registry.Reachable)
    (hsource : d.source = .memory) (hs : s.Reachable) {message : String} {caller : Caller}
    {definition : Definition ε} {call : Call ε}
    (hpermits : d.Permits message caller s definition call) (hguild : caller.guild = some guild)
    {order : Order} (horder : order ≠ .roles)
    (hscript : d.perform call.executor call.context = order.script Access.memory call.context) :
    let ended := d.dispatch message caller s
    (Malformed call.context.args → (∃ complaint, ended.1.result =
        .error (.invalidArguments complaint definition.usage)) ∧ ended.2.2 = s) ∧
      ∀ target nodes, Names call.context.args target nodes →
        ∃ reply, ended.1.result = .ok (.str reply) ∧
          order.Done guild target nodes s ended.2.2 ∧
          (order = .reset → ∃ removed : List String,
            removed.Nodup ∧
              (∀ n : Node, n.value ∈ removed ↔ n ∈ nodes ∧
                ((s.overrideEntries guild (memberId target)).lookup n.value).isSome) ∧
              reply = if removed.isEmpty then
                  s!"{memberId target} has no overrides for {shown (nodes.map (·.value))}."
                else s!"Removed overrides {shown removed} from {memberId target}.") := by
  intro ended
  have hcaller : guildOf call.context = guild := by
    rw [guildOf, hpermits.caller_eq, hguild, Option.getD_some]
  have hcanonical := hs.sound.2
  constructor
  · intro hmalformed
    obtain ⟨complaint, hrun⟩ := run_malformed .memory call.context _ horder hmalformed s
    obtain ⟨hresult, hstore⟩ := hpermits.dispatch_memory hr hsource hcanonical hscript hrun
    exact ⟨⟨complaint, hresult⟩, hstore⟩
  · intro target nodes hnames
    obtain ⟨reply, hrun⟩ := run_named .memory call.context _ horder hnames s
    obtain ⟨hresult, hstore⟩ := hpermits.dispatch_memory hr hsource hcanonical hscript hrun
    refine ⟨reply, hresult, hstore ▸ done_foldl horder hnames hcaller s, ?_⟩
    rintro rfl
    obtain ⟨removed, hreset, hnodup, hmem⟩ := run_reset .memory call.context _ hnames s
    obtain ⟨htold, -⟩ := hpermits.dispatch_memory hr hsource hcanonical hscript hreset
    rw [hresult] at htold
    refine ⟨removed, hnodup, fun n => ?_, ?_⟩
    · rw [hmem, hcaller, List.mem_map]
      refine and_congr ⟨?_, fun hn => ⟨n, hn, rfl⟩⟩ Iff.rfl
      rintro ⟨m, hm, hvalue⟩
      exact Node.eq_of_value hvalue ▸ hm
    · exact Scalar.str.inj (Value.atom.inj (Except.ok.inj htold))

/-- A reset that names a denial twice and something else reports the denial, and leaves that of
another member. With a malformed word at its end the same reset would change nothing. -/
theorem reset_of_a_denial :
    let reset : Definition Order :=
      ⟨"reset", some .reset, "", "<@User> <Permission...>", "", [], [], true, "perms"⟩
    let d : Dispatcher Order Store := ⟨Command.Registry.empty.insert none reset, .memory, [],
      fun order ctx => order.script Access.memory ctx⟩
    let s : Store := .replay [.setOverride "1" "42" "admin.kick" false,
      .setOverride "1" "43" "admin.kick" false]
    let ended := d.dispatch "reset <@42> Admin.Kick admin.ban ADMIN.kick" ⟨"9", some "1", "c"⟩ s
    let failed := d.dispatch "reset <@42> Admin.Kick admin..ban" ⟨"9", some "1", "c"⟩ s
    (∃ reply, ended.1.result = .ok (.str reply)) ∧
      (ended.2.2.overrideEntries "1" "42").lookup "admin.kick" = none ∧
      (ended.2.2.overrideEntries "1" "43").lookup "admin.kick" = some false ∧
      (∃ complaint, failed.1.result =
        .error (.invalidArguments complaint "<@User> <Permission...>")) ∧ failed.2.2 = s := by
  intro reset d s ended failed
  let kick : Node := ⟨"admin.kick", by decide⟩
  let ban : Node := ⟨"admin.ban", by decide⟩
  have hcheck : reset.check = .ok reset :=
    Command.Definition.check_eq_ok.mpr ⟨by decide +kernel, [], by rfl, rfl⟩
  have hregistered : Command.Registry.empty.register [] reset = .ok d.registry := by
    cbv
  have hr : d.registry.Reachable := .register .empty hcheck hregistered
  have hs : s.Reachable := Permission.Store.Reachable.foldl .empty _
  have hpermits (message : String) (args : List String)
      (htokens : Command.tokenize message = .ok ("reset" :: args))
      (hfound : d.registry.lookup ("reset" :: args) = (some 0, args)) :
      d.Permits message ⟨"9", some "1", "c"⟩ s reset
        ⟨.reset, d.contextOf message ⟨"9", some "1", "c"⟩ ("reset" :: args) (some 0) args⟩ :=
    ⟨htokens, hfound, rfl, rfl, fun _ => Option.some_ne_none _, .inl rfl, rfl⟩
  have hguild : (⟨"9", some "1", "c"⟩ : Caller).guild = some "1" := rfl
  have horder : Order.reset ≠ .roles := by decide
  obtain ⟨-, hdone⟩ := all_or_nothing hr rfl hs
    (hpermits "reset <@42> Admin.Kick admin.ban ADMIN.kick"
      ["<@42>", "Admin.Kick", "admin.ban", "ADMIN.kick"] (by decide +kernel) (by decide +kernel))
    hguild horder rfl
  obtain ⟨hrefused, -⟩ := all_or_nothing hr rfl hs
    (hpermits "reset <@42> Admin.Kick admin..ban" ["<@42>", "Admin.Kick", "admin..ban"]
      (by decide +kernel) (by decide +kernel)) hguild horder rfl
  have hnames : Names ["<@42>", "Admin.Kick", "admin.ban", "ADMIN.kick"] "<@42>"
      [kick, ban, kick] :=
    ⟨⟨_, rfl, .cons (by decide +kernel) (.cons (by decide +kernel)
      (.cons (by decide +kernel) .nil))⟩, List.cons_ne_nil _ _⟩
  obtain ⟨reply, hreply, hchanged, -⟩ := hdone "<@42>" _ hnames
  have hunreadable : ∀ n, Node.parse "admin..ban" ≠ .ok n := by
    intro n hn
    have hfault : (Node.parse "admin..ban").isOk = false := by decide +kernel
    rw [hn] at hfault
    cases hfault
  have hword : "admin..ban" ∈ ["Admin.Kick", "admin..ban"] := by simp
  obtain ⟨hcomplaint, hkept⟩ := hrefused (.identifier hword hunreadable)
  refine ⟨⟨reply, hreply⟩, (hchanged.decisions "1" "42" kick).trans ?_,
    (hchanged.decisions "1" "43" kick).trans ?_, hcomplaint, hkept⟩
  · decide +kernel
  · decide +kernel

end Order

end Guildhall.Feature
