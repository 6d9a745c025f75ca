import Guildhall.Proofs.Dispatch.Ending
import Guildhall.Proofs.Permission.Shared
import Guildhall.Service.Body

/-!
# Lookups in memory

Whatever has been asked of a store in memory, everything it holds is in canonical form, so no lookup
fails there. This carries over to a store that is kept somewhere in a larger state, and to the gate:
no message ends with a lookup that has failed.
-/

namespace Guildhall

namespace Permission

variable {σ ω : Type} {s : Store}

inductive Store.Recorded (s : Store) : String → Prop
  | granted {guild role text : String} {record : GuildRecord} {texts : List String}
      (guild_mem : (guild, record) ∈ s.guilds) (role_mem : (role, texts) ∈ record.roles)
      (text_mem : text ∈ texts) : Recorded s text
  | overridden {guild user text : String} {record : GuildRecord} {entries : List (String × Bool)}
      {allow : Bool} (guild_mem : (guild, record) ∈ s.guilds)
      (user_mem : (user, entries) ∈ record.overrides) (entry_mem : (text, allow) ∈ entries) :
      Recorded s text

theorem Store.Reachable.exists_canonical (h : s.Reachable) {text : String}
    (hrecorded : s.Recorded text) : ∃ n : Node, n.Canonical ∧ n.value = text := by
  obtain ⟨htidy, hcanonical⟩ := h.sound
  cases hrecorded with
  | granted hguild hrole htext =>
    exact (htidy.sound hcanonical hguild).grants _ hrole _ htext
  | overridden hguild huser hentry =>
    exact ((htidy.sound hcanonical hguild).decisions _ huser).2 _ hentry

theorem Store.Canonical.exists_overrides (hs : s.Canonical) (guild user : String) :
    ∃ os, s.overrides guild user = .ok os := by
  obtain ⟨os, hos, -⟩ := exists_readOverrides (hs.overrides guild user)
  exact ⟨os, hos⟩

theorem Store.Canonical.resolves (hs : s.Canonical) (guild : Option String) (user : String) :
    ∃ g, Source.memory.resolve guild user s = (.ok g, s) := by
  cases guild with
  | none => exact ⟨_, rfl⟩
  | some guild =>
    obtain ⟨g, hresolve, -⟩ := hs.exists_resolve guild user
    exact ⟨g, hresolve⟩

theorem answered_state {α ε : Type} (form : α → Answer) (failure : ε → Failure)
    (result : Except ε α × σ) : (answered form failure result).2 = result.2 := by
  obtain ⟨told, s⟩ := result
  cases told <;> rfl

theorem Store.Reachable.ask (h : s.Reachable) (request : Request) :
    (Access.memory.ask request s).2.Reachable := by
  cases request with
  | change w =>
    have hafter : (Access.memory.ask (.change w) s).2 = s.after w := by
      rw [Access.ask, answered_state]
      simp only [Access.memory, Store.after]
      split <;> simp_all
    exact hafter ▸ .change h w
  | load document =>
    rw [Access.ask, answered_state]
    simp only [Access.memory]
    cases hload : Store.ofValue document with
    | ok loaded => exact .load hload
    | error failure => exact h
  | resolve guild user =>
    obtain ⟨g, hresolve⟩ := h.sound.2.resolves guild user
    rw [Access.ask, answered_state]
    show (Source.memory.resolve guild user s).2.Reachable
    rw [hresolve]
    exact h
  | holds guild user node =>
    obtain ⟨g, hresolve⟩ := h.sound.2.resolves guild user
    have hmemory : Access.memory.source.resolve guild user s = (.ok g, s) := hresolve
    simp only [Access.ask, hmemory]
    exact h
  | content => exact h
  | memberRoles guild user => exact h
  | rolePermissions guild role => exact h
  | overrides guild user =>
    rw [Access.ask, answered_state]
    exact h

theorem Store.Reachable.answersOf (h : s.Reachable) (requests : List Request) :
    (Shared.answersOf (fun s request => Access.memory.ask request s) s requests).2.Reachable := by
  induction requests generalizing s with
  | nil => exact h
  | cons request rest ih => exact ih (h.ask request)

structure Source.Over (source : Source σ) (found : σ → Store → Prop) : Prop where
  memberRoles (guild user : String) {whole : σ} {s : Store} (h : found whole s) :
    ∃ next, source.memberRoles guild user whole = (.ok (s.memberRoles guild user), next) ∧
      found next s
  rolePermissions (guild role : String) {whole : σ} {s : Store} (h : found whole s) :
    ∃ next, source.rolePermissions guild role whole = (.ok (s.rolePermissions guild role), next) ∧
      found next s
  overrides (guild user : String) {whole : σ} {s : Store} (h : found whole s) :
    ∃ next, source.overrides guild user whole = (orFailure (s.overrides guild user), next) ∧
      found next s

theorem over_memory : Source.memory.Over Eq where
  memberRoles _ _ _ _ h := h ▸ ⟨_, rfl, rfl⟩
  rolePermissions _ _ _ _ h := h ▸ ⟨_, rfl, rfl⟩
  overrides _ _ _ _ h := h ▸ ⟨_, rfl, rfl⟩

namespace Source.Over

variable {source : Source σ} {found : σ → Store → Prop} {whole : σ}

theorem allRolePermissions (h : source.Over found) (guild : String) (roles : List String)
    (hfound : found whole s) :
    ∃ next, source.allRolePermissions guild roles whole =
      (.ok (roles.flatMap (s.rolePermissions guild)), next) ∧ found next s := by
  induction roles generalizing whole with
  | nil => exact ⟨whole, rfl, hfound⟩
  | cons role rest ih =>
    obtain ⟨next, hrole, hnext⟩ := h.rolePermissions guild role hfound
    obtain ⟨last, hrest, hlast⟩ := ih hnext
    refine ⟨last, ?_, hlast⟩
    simp only [Source.allRolePermissions, hrole, hrest, List.flatMap_cons]

theorem allRolePermissions_memory (s : Store) (guild : String) (roles : List String) :
    Source.memory.allRolePermissions guild roles s =
      (.ok (roles.flatMap (s.rolePermissions guild)), s) := by
  obtain ⟨same, htexts, rfl⟩ := over_memory.allRolePermissions guild roles (Eq.refl s)
  exact htexts

theorem read (h : source.Over found) (hfound : found whole s) (guild user : String) :
    ∃ next, source.read guild user whole = ((Source.memory.read guild user s).1, next) ∧
      found next s := by
  obtain ⟨first, hroles, hfirst⟩ := h.memberRoles guild user hfound
  obtain ⟨second, htexts, hsecond⟩ :=
    h.allRolePermissions guild (sortTexts (s.memberRoles guild user)) hfirst
  obtain ⟨last, hoverrides, hlast⟩ := h.overrides guild user hsecond
  refine ⟨last, ?_, hlast⟩
  simp only [Source.read, hroles, htexts, hoverrides, memory_memberRoles,
    allRolePermissions_memory, memory_overrides]
  cases s.overrides guild user with
  | error fault => rfl
  | ok os =>
    simp only [orFailure]
    generalize parseAll _ = parsed
    cases parsed <;> rfl

theorem resolve (h : source.Over found) (hfound : found whole s) (guild : Option String)
    (user : String) :
    ∃ next, source.resolve guild user whole = ((Source.memory.resolve guild user s).1, next) ∧
      found next s := by
  cases guild with
  | none => exact ⟨whole, rfl, hfound⟩
  | some guild =>
    obtain ⟨next, hread, hnext⟩ := h.read hfound guild user
    refine ⟨next, ?_, hnext⟩
    simp only [Source.resolve, hread]
    obtain ⟨told, same⟩ := Source.memory.read guild user s
    cases told <;> rfl

end Source.Over

theorem Source.Over.within {access : Access σ} {found : σ → Store → Prop}
    (h : access.source.Over found) {part : ω → σ} {put : σ → ω → ω}
    (hput : ∀ a whole, part (put a whole) = a) :
    (access.within part put).source.Over fun whole s => found (part whole) s where
  memberRoles guild user whole s hfound := by
    obtain ⟨next, hread, hnext⟩ := h.memberRoles guild user hfound
    refine ⟨put next whole, ?_, by rwa [hput]⟩
    simp only [Access.within, onPart, hread]
  rolePermissions guild role whole s hfound := by
    obtain ⟨next, hread, hnext⟩ := h.rolePermissions guild role hfound
    refine ⟨put next whole, ?_, by rwa [hput]⟩
    simp only [Access.within, onPart, hread]
  overrides guild user whole s hfound := by
    obtain ⟨next, hread, hnext⟩ := h.overrides guild user hfound
    refine ⟨put next whole, ?_, by rwa [hput]⟩
    simp only [Access.within, onPart, hread]

end Permission

namespace Service

open Permission (Source Store)

theorem over_archive : Archive.access.source.Over fun archive s => archive.keeping = .memory s where
  memberRoles guild user archive s h := by
    refine ⟨{ archive with keeping := .memory s }, ?_, rfl⟩
    simp only [Archive.access, onStore, h, Source.memory_memberRoles]
  rolePermissions guild role archive s h := by
    refine ⟨{ archive with keeping := .memory s }, ?_, rfl⟩
    simp only [Archive.access, onStore, h, Source.memory_rolePermissions]
  overrides guild user archive s h := by
    refine ⟨{ archive with keeping := .memory s }, ?_, rfl⟩
    simp only [Archive.access, onStore, h, Source.memory_overrides]

theorem over_body : Body.access.source.Over fun b s => b.archive.keeping = .memory s :=
  over_archive.within fun _ _ => rfl

end Service

namespace Dispatch

open Command (Definition)
open Permission (Access Node Request Shared Source Store)

variable {ε σ : Type} {d : Dispatcher ε σ} {message : String} {caller : Caller} {s : σ}

namespace Dispatcher

theorem firstMissing_memory {d : Dispatcher ε Store} (hsource : d.source = .memory) {s : Store}
    (hs : s.Canonical) (ctx : Context) (required : List String) :
    (d.firstMissing ctx required s).2.2 = s := by
  cases required with
  | nil => rfl
  | cons first rest =>
    obtain ⟨g, hresolve⟩ := hs.resolves ctx.caller.guild ctx.caller.author
    simp only [firstMissing, hsource, Cache.replies_empty, hresolve]
    split
    · rfl
    · split
      · rfl
      · cases g.firstMissing (first :: rest) <;> rfl

/-- A message that may run an executor ends with what the executor comes to from the store as it
is. -/
theorem Permits.dispatch_memory {d : Dispatcher ε Store} (hr : d.registry.Reachable)
    (hsource : d.source = .memory) {s : Store} (hs : s.Canonical) {definition : Definition ε}
    {call : Call ε} (h : d.Permits message caller s definition call) {script : Script Store}
    (hscript : d.perform call.executor call.context = script) {result : Except Failure Value}
    {after : Cache} {s' : Store}
    (hrun : script.run .memory call.context
      (d.firstMissing call.context definition.permissions s).2.1 s = (result, after, s')) :
    (d.dispatch message caller s).1.result =
        result.mapError (reported call.context definition) ∧
      (d.dispatch message caller s).2.2 = s' :=
  h.dispatch_of_run hr (by rw [hscript, hsource, firstMissing_memory hsource hs, hrun])

theorem resolve_of_firstMissing {ctx : Context} {required : List String} {e : DispatchError}
    (h : (d.firstMissing ctx required s).1 = .error e) :
    (d.source.resolve ctx.caller.guild ctx.caller.author s).1 = .error e := by
  cases required with
  | nil => cases h
  | cons first rest =>
    cases hsuper : ctx.superuser with
    | true =>
      rw [firstMissing_superuser _ hsuper] at h
      cases h
    | false =>
      cases hguild : ctx.caller.guild with
      | none =>
        rw [firstMissing_outside hsuper hguild] at h
        cases h
      | some guild =>
        cases hresolve : d.source.resolve (some guild) ctx.caller.author s with
        | mk told s' =>
          cases told with
          | error failed =>
            rw [firstMissing_failed hsuper hguild hresolve] at h
            obtain rfl := Except.error.inj h
            rfl
          | ok g =>
            simp only [firstMissing, hsuper, hguild, Cache.replies_empty, hresolve] at h
            simp only [Bool.false_eq_true, if_false, Option.isNone_some] at h
            split at h <;> cases h

theorem conclude_ne_lookupFailed (invocation : Invocation ε) (result : Except Failure Value)
    (guild : Option String) (user reason : String) (cause : Failure) :
    (conclude invocation result).1.result ≠ .error (.lookupFailed guild user reason cause) := by
  unfold conclude
  cases result with
  | ok v => nofun
  | error failure =>
    simp only [Context.refuse]
    split <;> nofun

/-- A message ends with a failed lookup only where its author's permissions cannot be resolved. -/
theorem resolve_of_lookupFailed {guild : Option String} {user reason : String} {cause : Failure}
    (h : (d.dispatch message caller s).1.result =
      .error (.lookupFailed guild user reason cause)) :
    (d.source.resolve caller.guild caller.author s).1 =
      .error (.lookupFailed guild user reason cause) := by
  unfold dispatch at h
  cases hprepare : d.prepare message caller s with
  | mk stage s' =>
    rw [hprepare] at h
    cases stage with
    | ready invocation => exact absurd h (conclude_ne_lookupFailed _ _ _ _ _ _)
    | settled outcome events =>
      simp only [prepare] at hprepare
      split at hprepare
      · cases hprepare
        cases h
      · split at hprepare
        · cases hprepare
          cases h
        · split at hprepare
          · cases hprepare
            cases h
          · split at hprepare
            case h_1 e cache s' hgate =>
              cases hprepare
              cases h
              exact resolve_of_firstMissing (congrArg Prod.fst hgate)
            case h_2 =>
              cases hprepare
              cases h
            case h_3 =>
              split at hprepare <;> cases hprepare
              cases h

theorem ne_lookupFailed (found : σ → Store → Prop) (h : d.source.Over found) {t : Store}
    (hfound : found s t) (ht : t.Canonical) (message : String) (caller : Caller)
    (guild : Option String) (user reason : String) (cause : Failure) :
    (d.dispatch message caller s).1.result ≠ .error (.lookupFailed guild user reason cause) := by
  intro hfailed
  obtain ⟨g, hmemory⟩ := ht.resolves caller.guild caller.author
  obtain ⟨next, hresolve, -⟩ := h.resolve hfound caller.guild caller.author
  have herror := resolve_of_lookupFailed hfailed
  rw [hresolve, hmemory] at herror
  cases herror

/-- Whatever has been asked of a store in memory, be it a change or to load a document, and whether
or not it has succeeded: every identifier that the store holds is read as itself, as is every
identifier that any text names. So the overrides and the permissions of a user can be read in every
guild and outside guilds, and no message ends with a failed lookup, wherever in a larger state the
store is kept. -/
theorem lookups_succeed_in_memory (requests : List Request) :
    let s := (Shared.answersOf (fun s request => Access.memory.ask request s) .empty requests).2
    (∀ text, s.Recorded text → ∃ n, Node.parse text = .ok n ∧ n.value = text) ∧
      (∀ text n, Node.parse text = .ok n → Node.parse n.value = .ok n) ∧
      (∀ guild user, ∃ os, s.overrides guild user = .ok os ∧
        Source.memory.overrides guild user s = (.ok os, s)) ∧
      (∀ guild user, ∃ g, Source.memory.resolve guild user s = (.ok g, s)) ∧
      ∀ {ε σ : Type} (d : Dispatcher ε σ) (found : σ → Store → Prop), d.source.Over found →
        ∀ whole, found whole s → ∀ (message : String) (caller : Caller) (guild : Option String)
          (user reason : String) (cause : Failure),
          (d.dispatch message caller whole).1.result ≠
            .error (.lookupFailed guild user reason cause) := by
  intro s
  have hreachable : s.Reachable := Store.Reachable.answersOf .empty requests
  have hcanonical := hreachable.sound.2
  refine ⟨fun text hrecorded => ?_, fun text n => Node.canonical_of_parse, fun guild user => ?_,
    hcanonical.resolves, fun d found hover whole hfound => ?_⟩
  · obtain ⟨n, hn, rfl⟩ := hreachable.exists_canonical hrecorded
    exact ⟨n, hn, rfl⟩
  · obtain ⟨os, hos⟩ := hcanonical.exists_overrides guild user
    refine ⟨os, hos, ?_⟩
    rw [Source.memory_overrides, hos]
    rfl
  · exact ne_lookupFailed found hover hfound hcanonical

/-- The document is loaded and the malformed change is refused. The denial is looked up in an
archive. -/
theorem denial_looked_up_in_an_archive :
    let kick : Definition Unit := ⟨"kick", some (), "", "", "", [], ["admin.kick"], true, ""⟩
    let d : Dispatcher Unit Service.Archive :=
      ⟨Command.Registry.empty.insert none kick, Service.Archive.access.source, [],
        fun _ _ => .done (.ok .null)⟩
    let document : Value := .map [(.str "guilds", .map [(.int 1, .map [(.str "overrides",
      .map [(.int 42, .map [(.str "deny", .list [.str " Admin.* "])])])])])]
    let requests : List Request :=
      [.load document, .change (.setOverride "1" "42" "admin..kick" true), .load .null]
    let s := (Shared.answersOf (fun s request => Access.memory.ask request s) .empty requests).2
    s.overrideEntries "1" "42" = [("admin.*", false)] ∧
      ∀ (guild : Option String) (user reason : String) (cause : Failure),
        (d.dispatch "kick" ⟨"42", some "1", "c"⟩ ⟨.memory s, .empty⟩).1.result ≠
          .error (.lookupFailed guild user reason cause) := by
  intro kick d document requests s
  obtain ⟨-, -, -, -, hmessages⟩ := lookups_succeed_in_memory requests
  exact ⟨by decide +kernel, hmessages d _ Service.over_archive ⟨.memory s, .empty⟩ rfl "kick"
    ⟨"42", some "1", "c"⟩⟩

end Dispatcher

end Dispatch

end Guildhall
