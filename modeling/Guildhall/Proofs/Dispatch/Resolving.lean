import Guildhall.Proofs.Dispatch.Gate
import Guildhall.Proofs.Dispatch.Sharing

/-!
# What an invocation resolves

The gate and the scripts of executors share permissions as calls do: each invocation is a run of
calls, in which the resolutions are those of the store.
-/

namespace Guildhall.Dispatch

open Permission (Grants Source)
open scoped List

variable {ε σ : Type} {source : Source σ} {ctx : Context}

def Deed.result? : Deed → Option (Except DispatchError Grants)
  | .succeeds _ g => some (.ok g)
  | .fails _ e => some (.error e)
  | _ => none

inductive Resolves (source : Source σ) (ctx : Context) :
    σ → List (Except DispatchError Grants) → σ → Prop
  | nil (s : σ) : Resolves source ctx s [] s
  | cons {s mid last : σ} {result : Except DispatchError Grants}
      {results : List (Except DispatchError Grants)}
      (first : source.resolve ctx.caller.guild ctx.caller.author s = (result, mid))
      (rest : Resolves source ctx mid results last) : Resolves source ctx s (result :: results) last

structure Answers (source : Source σ) (ctx : Context) (askers : List Nat) (deeds : List Deed)
    (s last : σ) : Prop where
  askers : (deeds.flatMap Deed.replies).map (·.1) = askers
  resolves : Resolves source ctx s (deeds.filterMap Deed.result?) last

def told (deeds : List Deed) : List (Except DispatchError Grants) :=
  (deeds.flatMap Deed.replies).map (·.2)

theorem replies_map {f : Asker → Deed} {g : Grants} (h : ∀ a, (f a).replies = [(a.id, .ok g)])
    (askers : List Asker) :
    (askers.map f).flatMap Deed.replies = askers.map fun a => (a.id, .ok g) := by
  simp only [List.flatMap_map, h, ← List.map_eq_flatMap]

theorem results_map {f : Asker → Deed} (h : ∀ a, (f a).result? = none) (askers : List Asker) :
    (askers.map f).filterMap Deed.result? = [] := by
  simp only [List.filterMap_eq_nil_iff, List.forall_mem_map, h, implies_true]

namespace Sharing

def rest (known : Option Grants) : Sharing := ⟨known, false, [], []⟩

theorem run_wakes (g : Grants) (queue : List Asker) :
    Run ctx ⟨some g, false, queue, []⟩ (queue.map fun a => .wakes a (.told g)) (rest (some g)) := by
  induction queue with
  | nil => exact .nil _
  | cons a queue ih => exact .cons (.wake rfl rfl) ih

theorem run_tells (g : Grants) {askers : List Asker}
    (h : ∀ a ∈ askers, a.query.settled ctx = false) :
    (rest (some g)).Run ctx (askers.map fun a => .asks a (.told g)) (rest (some g)) := by
  induction askers with
  | nil => exact .nil _
  | cons a askers ih =>
    obtain ⟨ha, hrest⟩ := List.forall_mem_cons.mp h
    exact .cons (.ask ha) (ih hrest)

theorem run_waits (a : Asker) (queue : List Asker) {askers : List Asker}
    (h : ∀ b ∈ askers, b.query.settled ctx = false) :
    Run ctx ⟨none, true, queue, [a]⟩ (askers.map fun b => .asks b .waits)
      ⟨none, true, queue ++ askers, [a]⟩ := by
  induction askers generalizing queue with
  | nil =>
    rw [List.append_nil]
    exact .nil _
  | cons b askers ih =>
    obtain ⟨hb, hrest⟩ := List.forall_mem_cons.mp h
    have hrun := ih (queue ++ [b]) hrest
    rw [List.append_assoc, List.singleton_append] at hrun
    exact .cons (.ask hb) hrun

end Sharing

open Sharing (rest)

namespace Cache

theorem askAll_read (id : Nat) (waiting ids : List Nat) :
    askAll ⟨none, some id, waiting⟩ ids = (⟨none, some id, waiting ++ ids⟩, []) := by
  induction ids generalizing waiting with
  | nil => simp [askAll]
  | cons next ids ih => simp [askAll, ask, ih]

theorem serve_of_ok {guild : Option String} {user : String} {g : Grants} {s mid : σ}
    (h : source.resolve guild user s = (.ok g, mid)) (fuel id : Nat) (waiting : List Nat) :
    serve source guild user (fuel + 1) ⟨none, some id, waiting⟩ s =
      ((id :: waiting).map fun other => (other, .ok g), ⟨some g, none, []⟩, mid) := by
  simp [serve, h, finish, serve_idle]

theorem serve_of_error {guild : Option String} {user : String} {e : DispatchError} {s mid : σ}
    (h : source.resolve guild user s = (.error e, mid)) (fuel id : Nat) (waiting : List Nat) :
    serve source guild user (fuel + 1) ⟨none, some id, waiting⟩ s =
      let served := serve source guild user fuel ⟨none, waiting.head?, waiting.tail⟩ mid
      ((id, .error e) :: served.1, served.2) := by
  simp [serve, h, finish]

/-- Serving those who wait is a run in which one after the other resolves, until a resolution
succeeds. -/
theorem serve_answers (source : Source σ) (ctx : Context) (fuel : Nat) (a : Asker)
    (queue : List Asker) (hfuel : queue.length < fuel) (s : σ) :
    let served := serve source ctx.caller.guild ctx.caller.author fuel
      ⟨none, some a.id, queue.map (·.id)⟩ s
    ∃ deeds known, Sharing.Run ctx ⟨none, true, queue, [a]⟩ deeds (rest known) ∧
      deeds.flatMap Deed.replies = served.1 ∧ served.2.1 = (rest known).cache ∧
      Answers source ctx ((a :: queue).map (·.id)) deeds s served.2.2 := by
  -- Each resolution takes one off the line, so the fuel lasts until the line is empty.
  induction fuel generalizing a queue s with
  | zero => cases hfuel
  | succ fuel ih =>
    have ha : a ∈ [a] := List.mem_singleton_self a
    obtain ⟨result, mid, hresolve⟩ : ∃ result mid,
      source.resolve ctx.caller.guild ctx.caller.author s = (result, mid) := ⟨_, _, rfl⟩
    cases result with
    | ok g =>
      have hrun : Sharing.Run ctx ⟨none, true, queue, [a]⟩
          (.succeeds a g :: queue.map fun b => .wakes b (.told g)) (rest (some g)) :=
        .cons (.succeed ha g) (by simpa using Sharing.run_wakes g queue)
      have hreplies : (Deed.succeeds a g :: queue.map fun b => .wakes b (.told g)).flatMap
          Deed.replies = (a :: queue).map fun b => (b.id, .ok g) := by
        rw [List.flatMap_cons, replies_map (fun _ => rfl)]
        rfl
      rw [serve_of_ok hresolve]
      refine ⟨_, some g, hrun, by simp [hreplies], rfl, by simp [hreplies], ?_⟩
      rw [List.filterMap_cons_some (show Deed.result? (.succeeds a g) = some (.ok g) from rfl),
        results_map fun _ => rfl]
      exact .cons hresolve (.nil mid)
    | error e =>
      have hfails : Sharing.Step ctx ⟨none, true, queue, [a]⟩ (.fails a e)
          ⟨none, false, queue, []⟩ := by
        have hstep : Sharing.Step ctx ⟨none, true, queue, [a]⟩ _ _ := .fail ha e
        rwa [List.erase_cons_head] at hstep
      rw [serve_of_error hresolve]
      cases queue with
      | nil =>
        rw [serve_idle _ _ _ _ rfl]
        exact ⟨[.fails a e], none, .cons hfails (.nil _), rfl, rfl, rfl, .cons hresolve (.nil mid)⟩
      | cons b queue =>
        obtain ⟨deeds, known, hrun, hreplies, hcache, hanswers⟩ :=
          ih b queue (Nat.lt_of_succ_lt_succ hfuel) mid
        exact ⟨.fails a e :: .wakes b .resolves :: deeds, known,
          .cons hfails (.cons (.wake rfl rfl) hrun), congrArg _ hreplies, hcache,
          congrArg _ hanswers.askers, .cons hresolve hanswers.resolves⟩

theorem replies_answers (source : Source σ) {askers : List Asker} {count : Nat}
    (hids : askers.map (·.id) = List.range count)
    (h : ∀ a ∈ askers, a.query.settled ctx = false) (known : Option Grants) (s : σ) :
    let replied := (rest known).cache.replies source ctx.caller.guild ctx.caller.author count s
    ∃ deeds known', (rest known).Run ctx deeds (rest known') ∧ told deeds = replied.1 ∧
      replied.2.1 = (rest known').cache ∧
      Answers source ctx (List.range count) deeds s replied.2.2 := by
  cases known with
  | some g =>
    have hreplies : (askers.map fun a => Deed.asks a (.told g)).flatMap Deed.replies =
        (List.range count).map fun id => (id, .ok g) := by
      rw [replies_map fun _ => rfl, ← hids, List.map_map]
      rfl
    have hcache : (rest (some g)).cache = ⟨some g, none, []⟩ := rfl
    rw [hcache, replies_known]
    refine ⟨_, some g, Sharing.run_tells g h, ?_, rfl, ?_, ?_⟩
    · simp [told, hreplies, Function.comp_def]
    · simp [hreplies, Function.comp_def]
    · rw [results_map fun _ => rfl]
      exact .nil s
  | none =>
    cases askers with
    | nil =>
      obtain rfl : count = 0 := List.range_eq_nil.mp hids.symm
      exact ⟨[], none, .nil _, rfl, rfl, rfl, .nil s⟩
    | cons a askers =>
      -- The first to ask resolves, and all others are behind it in line before this has ended.
      obtain ⟨ha, hothers⟩ := List.forall_mem_cons.mp h
      have hlength : askers.length < count := by
        have hlength := congrArg List.length hids
        rw [List.length_map, List.length_cons, List.length_range] at hlength
        omega
      have hask : (rest none).cache.askAll (List.range count) =
          (⟨none, some a.id, askers.map (·.id)⟩, []) := by
        have hfirst : (rest none).cache.ask a.id = (⟨none, some a.id, []⟩, []) := rfl
        simp only [← hids, List.map_cons, askAll, hfirst, askAll_read, List.nil_append]
      have hrun : (rest none).Run ctx (.asks a .resolves :: askers.map fun b => .asks b .waits)
          ⟨none, true, askers, [a]⟩ :=
        .cons (.ask ha) (Sharing.run_waits a [] hothers)
      have hnothing : (Deed.asks a .resolves :: askers.map fun b => .asks b .waits).flatMap
          Deed.replies = [] := by simp [Deed.replies]
      have hnone : (Deed.asks a .resolves :: askers.map fun b => .asks b .waits).filterMap
          Deed.result? = [] := by simp [Deed.result?]
      obtain ⟨deeds, known', hserves, hreplies, hcache, hanswers⟩ :=
        serve_answers source ctx count a askers hlength s
      simp only [replies, hask]
      refine ⟨_, known', hrun.append hserves, ?_, hcache, ?_, ?_⟩
      · rw [told, List.flatMap_append, hnothing, hreplies]
      · rw [List.flatMap_append, hnothing, List.nil_append, hanswers.askers, ← hids]
      · rw [List.filterMap_append, hnone]
        exact hanswers.resolves

end Cache

inductive Script.Shares (source : Source σ) (ctx : Context) :
    Script σ → σ → List Deed → Except Failure Value → σ → Prop
  | done (result : Except Failure Value) (s : σ) : Shares source ctx (.done result) s [] result s
  | permissions {askers : Nat} {next : List (Except DispatchError Grants) → Script σ}
      {calls deeds : List Deed} {result : Except Failure Value} {s mid last : σ}
      (answers : Answers source ctx (List.range askers) calls s mid)
      (rest : Shares source ctx (next (told calls)) mid deeds result last) :
    Shares source ctx (.permissions askers next) s (calls ++ deeds) result last
  | pause {microseconds : Nat} {next : Script σ} {deeds : List Deed}
      {result : Except Failure Value} {s last : σ}
      (rest : Shares source ctx next s deeds result last) :
    Shares source ctx (.pause microseconds next) s deeds result last
  | act {change : σ → σ} {next : σ → Script σ} {deeds : List Deed}
      {result : Except Failure Value} {s last : σ}
      (rest : Shares source ctx (next s) (change s) deeds result last) :
    Shares source ctx (.act change next) s deeds result last

theorem Script.shares_run (source : Source σ) (ctx : Context) (script : Script σ)
    (known : Option Grants) (s : σ) :
    let ended := script.run source ctx (rest known).cache s
    ∃ deeds known', (rest known).Run ctx deeds (rest known') ∧ ended.2.1 = (rest known').cache ∧
      script.Shares source ctx s deeds ended.1 ended.2.2 := by
  induction script generalizing known s with
  | done result => exact ⟨[], known, .nil _, rfl, .done result s⟩
  | permissions askers next ih =>
    have hids : ((List.range askers).map (Asker.mk · .permissions)).map (·.id) =
        List.range askers := by simp [Function.comp_def]
    obtain ⟨calls, mid, hcalls, htold, hcache, hanswers⟩ :=
      Cache.replies_answers source hids (List.forall_mem_map.mpr fun _ _ => rfl) known s
    -- Nobody asks any more when the script goes on, so its next calls begin at rest.
    obtain ⟨deeds, known', hrun, hlast, hshares⟩ := ih _ mid _
    simp only [run]
    rw [hcache]
    refine ⟨_, known', hcalls.append hrun, hlast, .permissions hanswers ?_⟩
    rwa [htold]
  | pause microseconds next ih =>
    obtain ⟨deeds, known', hrun, hlast, hshares⟩ := ih known s
    exact ⟨deeds, known', hrun, hlast, .pause hshares⟩
  | act change next ih =>
    obtain ⟨deeds, known', hrun, hlast, hshares⟩ := ih s known (change s)
    exact ⟨deeds, known', hrun, hlast, .act hshares⟩

/-- What the gate and the scripts do with a query that is settled: they answer it, whatever the
store is and whatever is known. -/
def Query.Answered (ctx : Context) : Query → Prop
  | .gate required => ∃ missing, ∀ (ε σ : Type) (d : Dispatcher ε σ) (s : σ),
      d.firstMissing ctx required s = (.ok missing, .empty, s)
  | .permissions => False
  | .holds required => ∃ held, ∀ (σ : Type) (next : Bool → Script σ),
      Script.hasPermission ctx required next = next held

theorem Query.answered_of_settled {ctx : Context} {q : Query} (h : q.settled ctx = true) :
    q.Answered ctx := by
  cases q with
  | gate required =>
    cases required with
    | nil => exact ⟨none, fun _ _ _ _ => rfl⟩
    | cons first rest =>
      simp only [settled, List.isEmpty_cons, Bool.false_or, Bool.or_eq_true] at h
      cases hsuper : ctx.superuser with
      | true => exact ⟨none, fun _ _ d s => Dispatcher.firstMissing_superuser _ hsuper⟩
      | false =>
        have houtside : ctx.caller.guild = none := by simpa [hsuper] using h
        exact ⟨some first, fun _ _ d s => Dispatcher.firstMissing_outside hsuper houtside⟩
  | permissions => cases h
  | holds required =>
    simp only [settled, Bool.or_eq_true] at h
    cases hsuper : ctx.superuser with
    | true => exact ⟨true, fun _ next => by simp [Script.hasPermission, hsuper]⟩
    | false =>
      have houtside : ctx.caller.guild = none := by simpa [hsuper] using h
      exact ⟨false, fun _ next => by simp [Script.hasPermission, hsuper, houtside]⟩

def verdict (first : String) (others : List String) (reply : Except DispatchError Grants) :
    Except DispatchError (Option String) :=
  reply.map fun g =>
    match g.firstMissing (first :: others) with
    | .ok missing => missing
    | .error _ => some first

theorem Dispatcher.firstMissing_of_reply (d : Dispatcher ε σ) (first : String)
    (others : List String) (hsuper : ctx.superuser = false)
    (hguild : ctx.caller.guild.isNone = false) {reply : Except DispatchError Grants} {s : σ} :
    let replied := Cache.empty.replies d.source ctx.caller.guild ctx.caller.author 1 s
    replied.1 = [reply] →
      d.firstMissing ctx (first :: others) s = (verdict first others reply, replied.2) := by
  intro replied hreply
  simp only [firstMissing, hsuper, hguild, hreply, verdict, replied, Bool.false_eq_true, if_false]
  cases reply with
  | error e => rfl
  | ok g => cases hmissing : g.firstMissing (first :: others) <;> simp [Except.map, hmissing]

inductive Dispatcher.Checks (d : Dispatcher ε σ) (ctx : Context) (s : σ) :
    List String → List Deed → Except DispatchError (Option String) → σ → Prop
  | settled {required : List String} {missing : Option String}
      (settled : (Query.gate required).settled ctx = true) :
    Checks d ctx s required [] (.ok missing) s
  | asks {first : String} {others : List String} {deeds : List Deed}
      {reply : Except DispatchError Grants} {last : σ}
      (unsettled : (Query.gate (first :: others)).settled ctx = false)
      (answers : Answers d.source ctx [0] deeds s last) (told : told deeds = [reply]) :
    Checks d ctx s (first :: others) deeds (verdict first others reply) last

/-- The call of the gate is a run, after which as much is known as the gate leaves. -/
theorem Dispatcher.checks_firstMissing (d : Dispatcher ε σ) (ctx : Context)
    (required : List String) (s : σ) :
    let gate := d.firstMissing ctx required s
    ∃ deeds known, Sharing.idle.Run ctx deeds (rest known) ∧ gate.2.1 = (rest known).cache ∧
      d.Checks ctx s required deeds gate.1 gate.2.2 := by
  cases hsettled : (Query.gate required).settled ctx with
  | true =>
    obtain ⟨missing, hmissing⟩ := Query.answered_of_settled hsettled
    rw [hmissing]
    exact ⟨[], none, .nil _, rfl, .settled hsettled⟩
  | false =>
    cases required with
    | nil => cases hsettled
    | cons first others =>
      have hids : [Asker.mk 0 (.gate (first :: others))].map (·.id) = List.range 1 := rfl
      have hasks : ∀ a ∈ [Asker.mk 0 (.gate (first :: others))], a.query.settled ctx = false := by
        simpa using hsettled
      obtain ⟨deeds, known, hrun, htold, hcache, hanswers⟩ :=
        Cache.replies_answers d.source hids hasks none s
      obtain ⟨reply, hreply⟩ : ∃ reply, told deeds = [reply] :=
        List.length_eq_one_iff.mp (by simpa [told] using congrArg List.length hanswers.askers)
      have hopen := hsettled
      simp only [Query.settled, List.isEmpty_cons, Bool.false_or, Bool.or_eq_false_iff] at hopen
      rw [d.firstMissing_of_reply first others hopen.1 hopen.2 (htold.symm.trans hreply)]
      exact ⟨deeds, known, hrun, hcache, .asks hsettled hanswers hreply⟩

/-- However the calls of an invocation overlap, and whatever resolutions end with: at most one
resolution is under way, and none begins once one has succeeded. All calls that see permissions, the
gate among them, see the same. After a resolution that has failed, as long as none has succeeded,
nothing is known, and whoever is next resolves again. Superusers, and authors outside guilds, make
nobody resolve by the gate or by asking for one permission; these are answered without a look at the
store or at what is known. The cache goes through the same as the calls do, and gives the same
replies. The gate of every dispatcher, and then any executor, asks and is told as in such a run. -/
theorem resolved_at_most_once (ctx : Context) {deeds : List Deed} {st : Sharing}
    (h : Sharing.idle.Run ctx deeds st) :
    st.resolving.length ≤ 1 ∧
      (∀ before a g after, deeds = before ++ .succeeds a g :: after →
        ∀ deed ∈ after, deed.resolver? = none) ∧
      (∀ first ∈ deeds, ∀ second ∈ deeds, ∀ g g', first.seen? = some g →
        second.seen? = some g' → g = g') ∧
      (∀ before a e after, deeds = before ++ .fails a e :: after →
        (∀ b g, Deed.succeeds b g ∉ after) →
          st.known = none ∧ (st.resolving = [] → st.NextResolves ctx)) ∧
      (∀ deed ∈ deeds, ∀ a, deed.resolver? = some a → a.query = .permissions ∨
        ctx.superuser = false ∧ ctx.caller.guild ≠ none) ∧
      (∀ q : Query, q.settled ctx = true → q.Answered ctx) ∧
      ((∀ a, Deed.leaves a ∉ deeds) → (onCache deeds .empty).1 = st.cache ∧
        (onCache deeds .empty).2 ~ deeds.flatMap Deed.replies ++ st.owed) ∧
      ∀ (ε σ : Type) (d : Dispatcher ε σ) (required : List String) (script : Script σ) (s : σ),
        let gate := d.firstMissing ctx required s
        let ended := script.run d.source ctx gate.2.1 gate.2.2
        ∃ before after known, Sharing.idle.Run ctx (before ++ after) (rest known) ∧
          ended.2.1 = (rest known).cache ∧ d.Checks ctx s required before gate.1 gate.2.2 ∧
          script.Shares d.source ctx gate.2.2 after ended.1 ended.2.2 := by
  have hidle := Sharing.sound_idle ctx
  have hsound := h.sound hidle
  refine ⟨?_, ?_, ?_, ?_, ?_, fun q => Query.answered_of_settled, ?_, ?_⟩
  · rw [hsound.resolving]
    split <;> omega
  · rintro before a g after rfl
    obtain ⟨mid, hbefore, hafter⟩ := h.split
    have hmid := hbefore.sound hidle
    cases hafter with
    | cons step rest =>
      cases step with
      | succeed resolving g =>
        obtain ⟨-, hnobody⟩ := rest.of_known (hmid.step (.succeed resolving g)) rfl
        exact fun deed hdeed => (hnobody deed hdeed).1
  · intro first hfirst second hsecond g g' hg hg'
    exact Option.some.inj ((h.seen hidle first hfirst g hg).symm.trans
      (h.seen hidle second hsecond g' hg'))
  · rintro before a e after rfl hfailed
    obtain ⟨mid, hbefore, hafter⟩ := h.split
    have hmid := hbefore.sound hidle
    cases hafter with
    | cons step rest =>
      cases step with
      | fail resolving e =>
        obtain ⟨-, -, hunknown⟩ := hmid.of_resolving resolving
        have hknown := rest.known_eq_none hunknown hfailed
        exact ⟨hknown, hsound.nextResolves hknown⟩
  · intro deed hdeed a ha
    have hunsettled := h.resolver_unsettled hidle deed hdeed a ha
    cases hquery : a.query with
    | permissions => exact .inl rfl
    | gate required =>
      simp only [hquery, Query.settled, Bool.or_eq_false_iff] at hunsettled
      exact .inr ⟨hunsettled.1.2,
        Option.isSome_iff_ne_none.mp (Option.isNone_eq_false_iff.mp hunsettled.2)⟩
    | holds required =>
      simp only [hquery, Query.settled, Bool.or_eq_false_iff] at hunsettled
      exact .inr ⟨hunsettled.1,
        Option.isSome_iff_ne_none.mp (Option.isNone_eq_false_iff.mp hunsettled.2)⟩
  · intro hstay
    obtain ⟨hcache, hreplies⟩ := h.onCache hidle hstay
    refine ⟨hcache, ?_⟩
    have howed : Sharing.idle.owed = [] := rfl
    rwa [howed, List.append_nil] at hreplies
  · intro ε σ d required script s gate ended
    obtain ⟨before, mid, hbefore, hcache, hchecks⟩ := d.checks_firstMissing ctx required s
    obtain ⟨after, known, hafter, hlast, hshares⟩ :=
      Script.shares_run d.source ctx script mid gate.2.2
    rw [← hcache] at hlast hshares
    exact ⟨before, after, known, hbefore.append hafter, hlast, hchecks, hshares⟩

/-- A call resolves while another waits. The resolution fails, so the one that has waited resolves
again, and all who ask from then on, or wait, see what it sees. -/
theorem resolved_again_after_a_failure :
    let ctx := Context.start "look" ⟨"42", some "1", "c"⟩ false
    let failed : DispatchError := .lookupFailed (some "1") "42" "gone" (.runtime "gone")
    let g : Grants := ⟨[⟨"admin.kick", by decide⟩], []⟩
    let first : Asker := ⟨0, .permissions⟩
    let second : Asker := ⟨1, .holds "admin.kick"⟩
    let third : Asker := ⟨2, .holds "admin.ban"⟩
    let before : List Deed := [.asks first .resolves, .asks second .waits, .fails first failed]
    let after : List Deed := [.asks third .waits, .wakes second .resolves, .succeeds second g,
      .asks first (.told g), .wakes third (.told g)]
    (∃ st, Sharing.idle.Run ctx before st ∧ st.known = none ∧ st.NextResolves ctx) ∧
      Sharing.idle.Run ctx (before ++ after) ⟨some g, false, [], []⟩ ∧
      (∀ deed ∈ before ++ after, ∀ seen, deed.seen? = some seen → seen = g) ∧
      (onCache (before ++ after) .empty).1 = ⟨some g, none, []⟩ := by
  intro ctx failed g first second third before after
  have hbefore : Sharing.idle.Run ctx before ⟨none, false, [second], []⟩ :=
    .cons (.ask rfl) (.cons (.ask rfl) (.cons (.fail (List.mem_singleton.mpr rfl) failed) (.nil _)))
  have hafter : Sharing.Run ctx ⟨none, false, [second], []⟩ after ⟨some g, false, [], []⟩ :=
    .cons (.ask rfl) (.cons (.wake rfl rfl) (.cons (.succeed (List.mem_singleton.mpr rfl) g)
      (.cons (.ask rfl) (.cons (.wake rfl rfl) (.nil _)))))
  obtain ⟨-, -, -, hfailed, -⟩ := resolved_at_most_once ctx hbefore
  obtain ⟨hknown, hnext⟩ := hfailed [.asks first .resolves, .asks second .waits] first failed [] rfl
    nofun
  obtain ⟨-, -, hsame, -, -, -, hcache, -⟩ := resolved_at_most_once ctx (hbefore.append hafter)
  refine ⟨⟨_, hbefore, hknown, hnext rfl⟩, hbefore.append hafter, fun deed hdeed seen hseen => ?_,
    (hcache ?_).1⟩
  · exact hsame deed hdeed (.succeeds second g) (by decide) seen g hseen rfl
  · intro a
    simp [before, after]

end Guildhall.Dispatch
