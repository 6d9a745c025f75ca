import Guildhall.Proofs.Hook.Run

/-!
# What becomes of published payloads

A subscription is handed what was published to it in the order of publication, except for what the
backlog had no room for. The account of a subscription is kept from its own actions alone.
-/

namespace Guildhall.Hook

variable {π κ : Type}

namespace Subscription

/-- How often the callback was given something: it succeeded, failed or is still at it. -/
def attempts (s : Subscription π κ) : Nat :=
  s.delivered + s.failures + if s.busy then 1 else 0

/-- Whether a subscription has just the worker it is to have on a bus that has never been closed:
none before the start, and one that is not cancelled after it. -/
def Manned (running : Bool) (s : Subscription π κ) : Prop :=
  ∃ id work, s.workers = if running then [⟨id, work, false⟩] else []

variable {s : Subscription π κ} {running : Bool}

theorem Manned.spawn (h : s.Manned false) :
    s.spawn.Manned true ∧ s.spawn.attempts = s.attempts := by
  obtain ⟨worker, work, hworkers⟩ := h
  have hnone : s.workers = [] := hworkers
  have hserved : s.isServed = false := by
    cases hattached : s.attached <;> simp [isServed, worker?, hattached, hnone]
  simp [Subscription.spawn, hserved, Manned, attempts, busy, hnone]

theorem Manned.worker? (h : s.Manned running) (id : Nat) :
    s.worker? id = none ∨ running = true ∧ ∃ work, s.workers = [⟨id, work, false⟩] ∧
      s.worker? id = some ⟨id, work, false⟩ := by
  obtain ⟨worker, work, hworkers⟩ := h
  cases running with
  | false => exact .inl (by simp [Subscription.worker?, hworkers])
  | true =>
    by_cases hid : worker = id
    · subst hid
      exact .inr ⟨rfl, work, hworkers, by simp [Subscription.worker?, hworkers]⟩
    · exact .inl (by simp [Subscription.worker?, hworkers, hid])

theorem Manned.take (h : s.Manned running) (id now : Nat) :
    (s.take id now).Manned running ∧
      (s.take id now).attempts = s.attempts + (s.taken id).length := by
  rcases h.worker? id with hnone | ⟨rfl, work, hone, hworker⟩
  · simpa [Subscription.take, taken, hnone] using h
  · cases work with
    | delivering payload since => simpa [Subscription.take, taken, hworker] using h
    | waiting =>
      cases hqueue : s.queue with
      | nil => simpa [Subscription.take, taken, hworker, hqueue] using h
      | cons payload rest =>
        simp [Subscription.take, taken, hworker, hqueue, Manned, setWork, attempts, busy, hone]

theorem Manned.finish (h : s.Manned running) (id : Nat) (succeeded : Bool) :
    (s.finish id succeeded).Manned running ∧ (s.finish id succeeded).attempts = s.attempts := by
  rcases h.worker? id with hnone | ⟨rfl, work, hone, hworker⟩
  · simpa [Subscription.finish, hnone] using h
  · cases work with
    | waiting => simpa [Subscription.finish, hworker] using h
    | delivering payload since =>
      cases succeeded <;>
        simp [Subscription.finish, hworker, Manned, setWork, attempts, busy, hone]
      all_goals omega

theorem Manned.resume (h : s.Manned running) (id : Nat) : s.resume id = s := by
  obtain ⟨worker, work, hworkers⟩ := h
  have hsame : (s.resume id).workers = s.workers := by
    cases running <;> cases work <;> simp [Subscription.resume, hworkers]
  rw [show s.resume id = { s with workers := (s.resume id).workers } from rfl, hsame]

theorem Manned.endWorker (h : s.Manned running) (id : Nat) : s.endWorker id = s := by
  obtain ⟨worker, work, hworkers⟩ := h
  have hsame : (s.endWorker id).workers = s.workers := by
    cases running <;> simp [Subscription.endWorker, hworkers]
  rw [show s.endWorker id = { s with workers := (s.endWorker id).workers } from rfl, hsame]

/-- As long as the bus is not closed, a subscription keeps the worker it is to have, and of what is
handed over nothing is lost. -/
theorem Manned.feel (h : s.Manned running) {a : Action π κ} (ha : a.closes = false)
    (backlog : Int) :
    (s.feel running backlog a).Manned (a.leaves running) ∧
      (s.feel running backlog a).attempts = s.attempts + (s.handed a).length := by
  cases a with
  | subscribe => exact ⟨h, rfl⟩
  | publish kind payload =>
    simp only [Subscription.feel]
    split
    · rw [offer_eq]
      exact ⟨h, rfl⟩
    · exact ⟨h, rfl⟩
  | start =>
    cases running with
    | true => exact ⟨h, rfl⟩
    | false => exact h.spawn
  | take order id now =>
    simp only [Subscription.feel, handed]
    split
    · exact h.take id now
    · exact ⟨h, rfl⟩
  | finish order id succeeded =>
    simp only [Subscription.feel]
    split
    · exact h.finish id succeeded
    · exact ⟨h, rfl⟩
  | resume order id =>
    simp only [Subscription.feel, h.resume, ite_self]
    exact ⟨h, rfl⟩
  | endWorker order id =>
    simp only [Subscription.feel, h.endWorker, ite_self]
    exact ⟨h, rfl⟩
  | cancelAttached | detach => cases ha

end Subscription

structure Account (π κ : Type) where
  running : Bool
  subscription : Subscription π κ
  published : List π
  accepted : List π
  handed : List π

namespace Account

def begin (running : Bool) (kind : Kind) (order : Nat) (name : String) (callback : κ) :
    Account π κ :=
  let s := Subscription.new kind order name callback
  ⟨running, if running then s.spawn else s, [], [], []⟩

def after (backlog : Int) (c : Account π κ) (a : Action π κ) : Account π κ where
  running := a.leaves c.running
  subscription := c.subscription.feel c.running backlog a
  published := c.published ++ c.subscription.told a
  accepted := c.accepted ++ c.subscription.kept c.running backlog a
  handed := c.handed ++ c.subscription.handed a

structure Balanced (c : Account π κ) : Prop where
  sublist : c.accepted.Sublist c.published
  conserved : c.accepted = c.handed ++ c.subscription.queue
  dropped : c.subscription.dropped + c.accepted.length = c.published.length

structure Tended (c : Account π κ) : Prop where
  manned : c.subscription.Manned c.running
  attempts : c.subscription.attempts = c.handed.length

structure Bounded (backlog : Int) (c : Account π κ) : Prop where
  idle : c.running = false
  waiting : (c.subscription.queue.length : Int) ≤ max backlog 0

variable {backlog : Int} {c : Account π κ}

theorem Balanced.after (h : c.Balanced) (backlog : Int) (a : Action π κ) :
    (c.after backlog a).Balanced where
  sublist := h.sublist.append (Subscription.kept_sublist c.running backlog c.subscription a)
  conserved := by
    have hflow := Subscription.handed_append_queue c.running backlog c.subscription a
    simp only [Account.after]
    rw [h.conserved, List.append_assoc, ← hflow, List.append_assoc]
  dropped := by
    have hdropped := Subscription.dropped_add_kept c.running backlog c.subscription a
    have hbefore := h.dropped
    simp only [Account.after, List.length_append]
    omega

theorem Tended.after (h : c.Tended) (backlog : Int) {a : Action π κ} (ha : a.closes = false) :
    (c.after backlog a).Tended := by
  obtain ⟨hmanned, hattempts⟩ := h.manned.feel ha backlog
  refine ⟨hmanned, ?_⟩
  simp only [Account.after, List.length_append]
  rw [hattempts, h.attempts]

theorem Bounded.after (h : c.Bounded backlog) {a : Action π κ} (ha : a ≠ .start) :
    (c.after backlog a).Bounded backlog := by
  have hidle : a.leaves c.running = false := by
    cases a with
    | start => exact absurd rfl ha
    | cancelAttached => rfl
    | _ => exact h.idle
  have hflow := congrArg List.length
    (Subscription.handed_append_queue c.running backlog c.subscription a)
  have htold : (c.subscription.told a).length ≤ 1 := c.subscription.told_length a
  have hwaiting := h.waiting
  refine ⟨hidle, ?_⟩
  simp only [Account.after]
  -- Where one more payload is kept, fewer than the backlog waited.
  by_cases hfull : backlog ≤ c.subscription.queue.length
  · have hkept : c.subscription.kept c.running backlog a = [] := by
      simp [Subscription.kept, h.idle, hfull]
    rw [hkept, List.append_nil, List.length_append] at hflow
    omega
  · have hkept : c.subscription.kept c.running backlog a = c.subscription.told a := by
      simp [Subscription.kept, hfull]
    rw [hkept, List.length_append, List.length_append] at hflow
    omega

theorem after_of_not_concerns {a : Action π κ}
    (h : a.concerns c.subscription.order c.subscription.kind = false) : c.after backlog a = c := by
  obtain ⟨hfeel, htold, hhanded, hleaves⟩ :=
    Subscription.feel_of_not_concerns h c.running backlog
  simp [Account.after, hfeel, htold, hhanded, hleaves, Subscription.kept]

theorem foldl_after_filter (acts : List (Action π κ)) :
    acts.foldl (Account.after backlog) c =
      (acts.filter (·.concerns c.subscription.order c.subscription.kind)).foldl
        (Account.after backlog) c := by
  induction acts generalizing c with
  | nil => rfl
  | cons a rest ih =>
    -- Number and kind stay, so the rest is filtered by the same test.
    obtain ⟨horder, hkind⟩ := Subscription.feel_identity c.running backlog c.subscription a
    have hrest := @ih (c.after backlog a)
    simp only [Account.after, horder, hkind] at hrest
    by_cases hconcerns : a.concerns c.subscription.order c.subscription.kind
    · rw [List.filter_cons_of_pos hconcerns, List.foldl_cons, List.foldl_cons]
      exact hrest
    · rw [List.filter_cons_of_neg hconcerns, List.foldl_cons,
        after_of_not_concerns (by simpa using hconcerns)]
      exact ih

theorem balanced_begin (running : Bool) (kind : Kind) (order : Nat) (name : String) (callback : κ) :
    (begin running kind order name callback : Account π κ).Balanced := by
  cases running <;> exact ⟨List.Sublist.refl _, rfl, rfl⟩

theorem tended_begin (running : Bool) (kind : Kind) (order : Nat) (name : String) (callback : κ) :
    (begin running kind order name callback : Account π κ).Tended := by
  have hnew : (Subscription.new kind order name callback : Subscription π κ).Manned false :=
    ⟨0, .waiting, rfl⟩
  cases running with
  | false => exact ⟨hnew, rfl⟩
  | true => exact ⟨hnew.spawn.1, hnew.spawn.2⟩

theorem bounded_begin (backlog : Int) (kind : Kind) (order : Nat) (name : String) (callback : κ) :
    (begin false kind order name callback : Account π κ).Bounded backlog :=
  ⟨rfl, Int.le_max_right backlog 0⟩

theorem begin_identity (running : Bool) (kind : Kind) (order : Nat) (name : String) (callback : κ) :
    (begin running kind order name callback : Account π κ).subscription.order = order ∧
      (begin running kind order name callback : Account π κ).subscription.kind = kind := by
  cases running <;> exact ⟨rfl, rfl⟩

end Account

namespace Bus

def account (b : Bus π κ) (n : Nat) (acts : List (Action π κ)) : Option (Account π κ) :=
  (b.run acts).subscriptions[n]?.map fun s =>
    ⟨(b.run acts).running, s, b.published n acts, b.accepted n acts, b.handed n acts⟩

variable {b : Bus π κ} {n : Nat} {c : Account π κ}

theorem account_concat {acts : List (Action π κ)} (h : b.account n acts = some c) (a : Action π κ) :
    b.account n (acts ++ [a]) = some (c.after b.backlog a) := by
  obtain ⟨s, hs, rfl⟩ := Option.map_eq_some_iff.mp h
  have hact := act_subscription hs a
  have hcollect (what : Bus π κ → Subscription π κ → Action π κ → List π) :
      collect what n b (acts ++ [a]) = collect what n b acts ++ what (b.run acts) s a := by
    simp [collect_append, collect, hs]
  rw [account, run_concat, hact, Option.map_some]
  simp only [published, accepted, handed, hcollect, Account.after, run_backlog]
  rw [act_eq]

theorem account_append {acts : List (Action π κ)} (h : b.account n acts = some c)
    (more : List (Action π κ)) :
    b.account n (acts ++ more) = some (more.foldl (Account.after b.backlog) c) := by
  induction more generalizing acts c with
  | nil => rwa [List.append_nil]
  | cons a rest ih =>
    rw [List.append_cons]
    exact ih (account_concat h a)

theorem account_subscribe {before : List (Action π κ)}
    (h : (b.run before).subscriptions.length = n) (kind : Kind) (name : String) (callback : κ) :
    b.account n (before ++ [.subscribe kind name callback]) =
      some (.begin (b.run before).running kind n name callback) := by
  have hnone : (b.run before).subscriptions[n]? = none := List.getElem?_eq_none (by omega)
  have hcollect (what : Bus π κ → Subscription π κ → Action π κ → List π) :
      collect what n b (before ++ [.subscribe kind name callback]) = [] := by
    rw [collect_append, collect_before (Nat.le_of_eq h)]
    simp [collect, hnone]
  rw [account, run_concat]
  simp only [published, accepted, handed, hcollect]
  simp [act_eq, joining, h, Action.leaves, Account.begin]

theorem account_eq {before : List (Action π κ)}
    (h : (b.run before).subscriptions.length = n) (kind : Kind) (name : String) (callback : κ)
    (after : List (Action π κ)) :
    b.account n (before ++ .subscribe kind name callback :: after) =
      some ((after.filter (·.concerns n kind)).foldl (Account.after b.backlog)
        (.begin (b.run before).running kind n name callback)) := by
  rw [List.append_cons, account_append (account_subscribe h kind name callback),
    Account.foldl_after_filter, (Account.begin_identity _ kind n name callback).1,
    (Account.begin_identity _ kind n name callback).2]

theorem account_holds {backlog : Int} {acts : List (Action π κ)} {P : Account π κ → Prop}
    (hbegin : ∀ before, before ⊆ acts → ∀ kind order name callback,
      P (.begin ((new backlog : Bus π κ).run before).running kind order name callback))
    (hafter : ∀ c, P c → ∀ a ∈ acts, P (c.after backlog a))
    (h : (new backlog).account n acts = some c) : P c := by
  obtain ⟨s, hs, rfl⟩ := Option.map_eq_some_iff.mp h
  obtain ⟨before, kind, name, callback, after, rfl, hn⟩ := exists_subscribe hs
  have hc := h.symm.trans (account_eq hn kind name callback after)
  rw [Option.some.inj hc]
  refine List.foldlRecOn _ _ (hbegin before (by simp) kind n name callback) fun c hc a ha => ?_
  have hmem : a ∈ after := (List.mem_filter.mp ha).1
  exact hafter c hc a (by simp [hmem])

variable {backlog : Int} {acts : List (Action π κ)}

theorem balanced_of_account (h : (new backlog).account n acts = some c) : c.Balanced :=
  account_holds (fun _ _ => Account.balanced_begin _) (fun _ hc a _ => hc.after backlog a) h

theorem tended_of_account (hopen : ∀ a ∈ acts, a.closes = false)
    (h : (new backlog).account n acts = some c) : c.Tended :=
  account_holds (fun _ _ => Account.tended_begin _)
    (fun _ hc a ha => hc.after backlog (hopen a ha)) h

theorem bounded_of_account (hidle : Action.start ∉ acts)
    (h : (new backlog).account n acts = some c) : c.Bounded backlog := by
  refine account_holds (fun before hbefore => ?_) (fun c hc a ha => ?_) h
  · rw [running_of_no_start rfl fun hstart => hidle (hbefore hstart)]
    exact Account.bounded_begin backlog
  · exact hc.after fun heq => hidle (heq ▸ ha)

/-- Of the payloads published to a subscription, those that are not dropped are handed to its
callback in the order of publication, as far as they do not wait; the others are counted. Unless the
bus is closed, every payload handed over is counted as delivered or failed, or is being delivered;
until it is started, no more payloads wait than the backlog. What the account of a subscription
says depends on what is published to it and done to it, on the starts and the closings, and on
nothing else. -/
theorem delivered_in_order (backlog : Int) :
    (∀ (acts : List (Action π κ)) (n : Nat) (s : Subscription π κ),
      ((new backlog).run acts).subscriptions[n]? = some s →
        ((new backlog).accepted n acts).Sublist ((new backlog).published n acts) ∧
        (new backlog).accepted n acts = (new backlog).handed n acts ++ s.queue ∧
        s.dropped =
          ((new backlog).published n acts).length - ((new backlog).accepted n acts).length ∧
        ((∀ a ∈ acts, a.closes = false) →
          s.delivered + s.failures + (if s.busy then 1 else 0) =
            ((new backlog).handed n acts).length) ∧
        (Action.start ∉ acts → (s.queue.length : Int) ≤ max backlog 0)) ∧
      ∀ (before before' after after' : List (Action π κ)) (n : Nat) (kind : Kind) (name : String)
        (callback : κ),
        ((new backlog).run before).subscriptions.length = n →
        ((new backlog).run before').subscriptions.length = n →
        ((new backlog).run before).running = ((new backlog).run before').running →
        after.filter (·.concerns n kind) = after'.filter (·.concerns n kind) →
        (new backlog).account n (before ++ .subscribe kind name callback :: after) =
          (new backlog).account n (before' ++ .subscribe kind name callback :: after') := by
  refine ⟨fun acts n s hs => ?_,
    fun before before' after after' n kind name callback hn hn' hrunning hsame => ?_⟩
  · have haccount : (new backlog).account n acts = some
        ⟨((new backlog).run acts).running, s, (new backlog).published n acts,
          (new backlog).accepted n acts, (new backlog).handed n acts⟩ := by
      rw [account, hs, Option.map_some]
    have hbalanced := balanced_of_account haccount
    have hcount : s.dropped + ((new backlog).accepted n acts).length =
      ((new backlog).published n acts).length := hbalanced.dropped
    refine ⟨hbalanced.sublist, hbalanced.conserved, by omega, fun hopen => ?_, fun hidle => ?_⟩
    · exact (tended_of_account hopen haccount).attempts
    · exact (bounded_of_account hidle haccount).waiting
  · rw [account_eq hn, account_eq hn', hrunning, hsame]

/-- An audit is given what the backlog had room for and what came later, although its callback fails
once, and it makes no difference to it that the log before it fails too. -/
theorem audited_beside_a_failing_log :
    let before : List (Action Nat Unit) := [.subscribe .commandExecuted "log" ()]
    let after : List (Action Nat Unit) :=
      [.publish .commandExecuted 1, .publish .commandExecuted 2, .start, .take 1 0 5,
        .finish 1 0 false, .publish .commandExecuted 3, .take 1 0 6]
    let failing : List (Action Nat Unit) :=
      [.publish .commandExecuted 1, .publish .commandExecuted 2, .start, .take 0 0 4, .take 1 0 5,
        .finish 0 0 false, .finish 1 0 false, .publish .commandExecuted 3, .take 1 0 6]
    let acts := before ++ .subscribe .commandExecuted "audit" () :: after
    (∃ s, ((new 1).run (acts.take 4)).subscriptions[1]? = some s ∧ s.queue = [1] ∧
        (s.queue.length : Int) ≤ 1) ∧
      (∃ s, ((new 1).run acts).subscriptions[1]? = some s ∧ s.dropped = 1 ∧
        [1, 3] = (new 1).handed 1 acts ++ s.queue ∧ s.delivered + s.failures + 1 = 2) ∧
      (new 1).account 1 acts =
        (new 1).account 1 (before ++ .subscribe .commandExecuted "audit" () :: failing) := by
  intro before after failing acts
  have hidle : ((new 1).run (acts.take 4)).subscriptions[1]? = some _ := rfl
  have hs : ((new 1).run acts).subscriptions[1]? = some _ := rfl
  obtain ⟨-, -, -, -, hwaiting⟩ := (delivered_in_order 1).1 (acts.take 4) 1 _ hidle
  obtain ⟨-, hconserved, hdropped, hattempts, -⟩ := (delivered_in_order 1).1 acts 1 _ hs
  have halone := (delivered_in_order 1).2 before before after failing 1 .commandExecuted "audit" ()
    rfl rfl rfl rfl
  exact ⟨⟨_, hidle, rfl, hwaiting (by simp [acts, before, after])⟩,
    ⟨_, hs, hdropped, hconserved, hattempts (by decide)⟩, halone⟩

end Bus

end Guildhall.Hook
