import Guildhall.Hook.Bus
import Mathlib.Data.List.Induction
import Mathlib.Tactic.Common

/-!
# Runs of a hook bus

A bus goes through one action after another: subscribers come, payloads are published, workers take
them and callbacks end, delivery starts, stops and starts again. Of all this a subscription feels
only what is done to it, whether the bus is running, and the backlog.
-/

namespace Guildhall.Hook

variable {π κ : Type}

/-- What can happen to a bus. Where it is not possible, as when a worker is to take something from
an empty queue, it changes nothing. Closing comes in parts, between which other things may happen;
a callback may also swallow the cancellation of its worker, which then goes on. -/
inductive Action (π κ : Type)
  | subscribe (kind : Kind) (name : String) (callback : κ)
  | publish (kind : Kind) (payload : π)
  | start
  | take (order id now : Nat)
  | finish (order id : Nat) (succeeded : Bool)
  | cancelAttached
  | resume (order id : Nat)
  | endWorker (order id : Nat)
  | detach

namespace Action

def closes : Action π κ → Bool
  | .cancelAttached => true
  | .detach => true
  | _ => false

/-- Whether an action may put something in a queue or take something from it. -/
def moves : Action π κ → Bool
  | .publish _ _ => true
  | .take _ _ _ => true
  | _ => false

def leaves (running : Bool) : Action π κ → Bool
  | .start => true
  | .cancelAttached => false
  | _ => running

def concerns (order : Nat) (kind : Kind) : Action π κ → Bool
  | .subscribe _ _ _ => false
  | .publish other _ => other = kind
  | .start => true
  | .take other _ _ => other = order
  | .finish other _ _ => other = order
  | .cancelAttached => true
  | .resume other _ => other = order
  | .endWorker other _ => other = order
  | .detach => true

end Action

namespace Subscription

/-- The callback of a cancelled worker goes on as if nothing had happened. -/
def resume (s : Subscription π κ) (id : Nat) : Subscription π κ :=
  { s with workers := s.workers.map fun w =>
      match w.work with
      | .waiting => w
      | .delivering _ _ => if w.id = id then { w with cancelled := false } else w }

def busy (s : Subscription π κ) : Bool :=
  s.workers.any fun w =>
    match w.work with
    | .waiting => false
    | .delivering _ _ => true

def feel (running : Bool) (backlog : Int) (s : Subscription π κ) : Action π κ → Subscription π κ
  | .subscribe _ _ _ => s
  | .publish kind payload => if s.kind = kind then s.offer running backlog payload else s
  | .start => if running then s else s.spawn
  | .take order id now => if s.order = order then s.take id now else s
  | .finish order id succeeded => if s.order = order then s.finish id succeeded else s
  | .cancelAttached => s.cancelAttached
  | .resume order id => if s.order = order then s.resume id else s
  | .endWorker order id => if s.order = order then s.endWorker id else s
  | .detach => s.detach

def told (s : Subscription π κ) : Action π κ → List π
  | .publish kind payload => if s.kind = kind then [payload] else []
  | _ => []

/-- What of this is not dropped. A bus that is not running drops what it publishes to a subscription
for which at least as many payloads as the backlog wait already. -/
def kept (running : Bool) (backlog : Int) (s : Subscription π κ) (a : Action π κ) : List π :=
  if !running && backlog ≤ s.queue.length then [] else s.told a

/-- What a worker takes that is to take something: the oldest payload of the queue, if the worker is
waiting for one. -/
def taken (s : Subscription π κ) (id : Nat) : List π :=
  match s.worker? id, s.queue with
  | some ⟨_, .waiting, false⟩, payload :: _ => [payload]
  | _, _ => []

def handed (s : Subscription π κ) : Action π κ → List π
  | .take order id _ => if s.order = order then s.taken id else []
  | _ => []

variable {s : Subscription π κ}

theorem spawn_eq (s : Subscription π κ) : s.spawn = { s with
    attached := s.spawn.attached, workers := s.spawn.workers, spawned := s.spawn.spawned } := by
  unfold spawn
  split <;> rfl

theorem offer_eq (running : Bool) (backlog : Int) (payload : π) :
    s.offer running backlog payload = { s with
      queue := (s.offer running backlog payload).queue
      dropped := (s.offer running backlog payload).dropped } := by
  unfold offer
  split <;> rfl

theorem take_eq (id now : Nat) : s.take id now = { s with
    queue := (s.take id now).queue, workers := (s.take id now).workers } := by
  unfold take
  split <;> rfl

theorem finish_eq (id : Nat) (succeeded : Bool) : s.finish id succeeded = { s with
    delivered := (s.finish id succeeded).delivered
    failures := (s.finish id succeeded).failures
    workers := (s.finish id succeeded).workers } := by
  unfold finish
  split
  · cases succeeded <;> rfl
  · rfl

structure Aside (s s' : Subscription π κ) : Prop where
  order : s'.order = s.order
  kind : s'.kind = s.kind
  queue : s'.queue = s.queue
  dropped : s'.dropped = s.dropped

theorem aside_spawn (s : Subscription π κ) : s.Aside s.spawn := by
  rw [spawn_eq]
  exact ⟨rfl, rfl, rfl, rfl⟩

theorem aside_finish (s : Subscription π κ) (id : Nat) (succeeded : Bool) :
    s.Aside (s.finish id succeeded) := by
  rw [finish_eq]
  exact ⟨rfl, rfl, rfl, rfl⟩

/-- Actions that neither publish nor take concern the workers only. -/
theorem aside_feel {a : Action π κ} (h : a.moves = false) (running : Bool) (backlog : Int)
    (s : Subscription π κ) : s.Aside (s.feel running backlog a) := by
  have hsame : s.Aside s := ⟨rfl, rfl, rfl, rfl⟩
  cases a with
  | publish | take => cases h
  | subscribe => exact hsame
  | cancelAttached | detach => exact ⟨rfl, rfl, rfl, rfl⟩
  | start =>
    simp only [feel]
    split
    · exact hsame
    · exact s.aside_spawn
  | finish order id succeeded =>
    simp only [feel]
    split
    · exact s.aside_finish id succeeded
    · exact hsame
  | resume | endWorker =>
    simp only [feel]
    split
    · exact ⟨rfl, rfl, rfl, rfl⟩
    · exact hsame

theorem told_handed_of_not_moves {a : Action π κ} (h : a.moves = false) (s : Subscription π κ) :
    s.told a = [] ∧ s.handed a = [] := by
  cases a with
  | publish | take => cases h
  | _ => exact ⟨rfl, rfl⟩

theorem feel_identity (running : Bool) (backlog : Int) (s : Subscription π κ) (a : Action π κ) :
    (s.feel running backlog a).order = s.order ∧ (s.feel running backlog a).kind = s.kind := by
  cases hmoves : a.moves with
  | false =>
    have haside := aside_feel hmoves running backlog s
    exact ⟨haside.order, haside.kind⟩
  | true =>
    cases a with
    | publish =>
      simp only [feel]
      split
      · rw [offer_eq]
        exact ⟨rfl, rfl⟩
      · exact ⟨rfl, rfl⟩
    | take =>
      simp only [feel]
      split
      · rw [take_eq]
        exact ⟨rfl, rfl⟩
      · exact ⟨rfl, rfl⟩
    | _ => cases hmoves

theorem taken_append_queue (s : Subscription π κ) (id now : Nat) :
    s.taken id ++ (s.take id now).queue = s.queue := by
  unfold taken take
  rcases s.worker? id with _ | ⟨_, _ | _, _ | _⟩
  case some.waiting.false =>
    cases hqueue : s.queue with
    | nil => exact hqueue
    | cons payload rest => rfl
  all_goals rfl

/-- What an action hands over comes from the front of the queue, and what it publishes goes to the
end, unless it is dropped. -/
theorem handed_append_queue (running : Bool) (backlog : Int) (s : Subscription π κ)
    (a : Action π κ) :
    s.handed a ++ (s.feel running backlog a).queue = s.queue ++ s.kept running backlog a := by
  cases hmoves : a.moves with
  | false =>
    obtain ⟨htold, hhanded⟩ := told_handed_of_not_moves hmoves s
    rw [(aside_feel hmoves running backlog s).queue, kept, htold, hhanded, ite_self,
      List.nil_append, List.append_nil]
  | true =>
    cases a with
    | publish kind payload =>
      simp only [handed, feel, kept, told, List.nil_append]
      split
      · simp only [offer]
        split <;> simp
      · split <;> simp
    | take order id now =>
      simp only [handed, feel, kept, told, ite_self, List.append_nil]
      split
      · exact s.taken_append_queue id now
      · rfl
    | _ => cases hmoves

theorem dropped_add_kept (running : Bool) (backlog : Int) (s : Subscription π κ)
    (a : Action π κ) :
    (s.feel running backlog a).dropped + (s.kept running backlog a).length =
      s.dropped + (s.told a).length := by
  cases hmoves : a.moves with
  | false =>
    obtain ⟨htold, -⟩ := told_handed_of_not_moves hmoves s
    rw [(aside_feel hmoves running backlog s).dropped, kept, htold, ite_self]
  | true =>
    cases a with
    | publish kind payload =>
      simp only [feel, kept, told]
      split
      · simp only [offer]
        split <;> rfl
      · simp
    | take order id now =>
      simp only [feel, kept, told, ite_self]
      split
      · rw [take_eq]
      · rfl
    | _ => cases hmoves

theorem told_length (s : Subscription π κ) (a : Action π κ) : (s.told a).length ≤ 1 := by
  unfold told
  split
  · split <;> simp
  · simp

theorem kept_sublist (running : Bool) (backlog : Int) (s : Subscription π κ) (a : Action π κ) :
    (s.kept running backlog a).Sublist (s.told a) := by
  unfold kept
  split
  · exact List.nil_sublist _
  · exact List.Sublist.refl _

theorem feel_of_not_concerns {a : Action π κ} (h : a.concerns s.order s.kind = false)
    (running : Bool) (backlog : Int) :
    s.feel running backlog a = s ∧ s.told a = [] ∧ s.handed a = [] ∧
      a.leaves running = running := by
  cases a with
  | subscribe => exact ⟨rfl, rfl, rfl, rfl⟩
  | publish other payload =>
    have hne : s.kind ≠ other := by simpa [Action.concerns, eq_comm] using h
    simp [feel, told, handed, Action.leaves, hne]
  | take other id now =>
    have hne : s.order ≠ other := by simpa [Action.concerns, eq_comm] using h
    simp [feel, told, handed, Action.leaves, hne]
  | finish other | resume other | endWorker other =>
    have hne : s.order ≠ other := by simpa [Action.concerns, eq_comm] using h
    simp [feel, told, handed, Action.leaves, hne]
  | start | cancelAttached | detach => cases h

end Subscription

namespace Bus

def act (b : Bus π κ) : Action π κ → Bus π κ
  | .subscribe kind name callback => b.subscribe kind name callback
  | .publish kind payload => b.publish kind payload
  | .start => b.start
  | .take order id now => b.modify order fun s => s.take id now
  | .finish order id succeeded => b.modify order fun s => s.finish id succeeded
  | .cancelAttached => b.cancelAttached
  | .resume order id => b.modify order fun s => s.resume id
  | .endWorker order id => b.endWorker order id
  | .detach => b.detach

def run (b : Bus π κ) (acts : List (Action π κ)) : Bus π κ := acts.foldl act b

def joining (b : Bus π κ) : Action π κ → List (Subscription π κ)
  | .subscribe kind name callback =>
    let s := Subscription.new kind b.subscriptions.length name callback
    [if b.running then s.spawn else s]
  | _ => []

theorem act_eq (b : Bus π κ) (a : Action π κ) :
    b.act a = ⟨b.backlog, a.leaves b.running,
      b.subscriptions.map (fun s => s.feel b.running b.backlog a) ++ b.joining a⟩ := by
  cases a with
  | start =>
    by_cases hrunning : b.running
    · simp [act, start, Action.leaves, Subscription.feel, joining, hrunning]
      cases b
      simp_all
    · simp [act, start, mapAll, Action.leaves, Subscription.feel, joining, hrunning]
  | _ => simp [act, subscribe, publish, modify, mapAll, cancelAttached, endWorker, detach,
      Action.leaves, Subscription.feel, joining]

variable {b : Bus π κ} {n : Nat} {s : Subscription π κ}

theorem run_cons (b : Bus π κ) (a : Action π κ) (acts : List (Action π κ)) :
    b.run (a :: acts) = (b.act a).run acts := rfl

theorem run_append (b : Bus π κ) (acts more : List (Action π κ)) :
    b.run (acts ++ more) = (b.run acts).run more := List.foldl_append

theorem run_concat (b : Bus π κ) (acts : List (Action π κ)) (a : Action π κ) :
    b.run (acts ++ [a]) = (b.run acts).act a := by
  rw [run_append, run_cons]
  rfl

theorem run_backlog (b : Bus π κ) (acts : List (Action π κ)) :
    (b.run acts).backlog = b.backlog := by
  induction acts generalizing b with
  | nil => rfl
  | cons a rest ih => rw [run_cons, ih, act_eq]

theorem act_subscription (h : b.subscriptions[n]? = some s) (a : Action π κ) :
    (b.act a).subscriptions[n]? = some (s.feel b.running b.backlog a) := by
  have hlt : n < b.subscriptions.length := (List.getElem?_eq_some_iff.mp h).1
  rw [act_eq, List.getElem?_append_left (by simpa using hlt), List.getElem?_map, h, Option.map_some]

theorem length_le_act (b : Bus π κ) (a : Action π κ) :
    b.subscriptions.length ≤ (b.act a).subscriptions.length := by
  simp [act_eq]

theorem length_le_run (b : Bus π κ) (acts : List (Action π κ)) :
    b.subscriptions.length ≤ (b.run acts).subscriptions.length := by
  induction acts generalizing b with
  | nil => exact Nat.le_refl _
  | cons a rest ih => exact Nat.le_trans (length_le_act b a) (ih (b.act a))

theorem running_of_no_start {acts : List (Action π κ)} (hrunning : b.running = false)
    (hacts : Action.start ∉ acts) : (b.run acts).running = false := by
  induction acts generalizing b with
  | nil => exact hrunning
  | cons a rest ih =>
    rw [List.mem_cons, not_or] at hacts
    refine ih ?_ hacts.2
    rw [act_eq]
    cases a with
    | start => exact absurd rfl hacts.1
    | cancelAttached => rfl
    | _ => exact hrunning

/-- What there is, in the course of a run, about the subscription at a place. -/
def collect (what : Bus π κ → Subscription π κ → Action π κ → List π) (n : Nat) :
    Bus π κ → List (Action π κ) → List π
  | _, [] => []
  | b, a :: rest =>
    (b.subscriptions[n]?.elim [] fun s => what b s a) ++ collect what n (b.act a) rest

def published (b : Bus π κ) (n : Nat) (acts : List (Action π κ)) : List π :=
  collect (fun _ s a => s.told a) n b acts

def accepted (b : Bus π κ) (n : Nat) (acts : List (Action π κ)) : List π :=
  collect (fun b s a => s.kept b.running b.backlog a) n b acts

/-- The payloads that a run hands to the callback of the subscription at a place. -/
def handed (b : Bus π κ) (n : Nat) (acts : List (Action π κ)) : List π :=
  collect (fun _ s a => s.handed a) n b acts

variable {what : Bus π κ → Subscription π κ → Action π κ → List π}

theorem collect_append (b : Bus π κ) (acts more : List (Action π κ)) :
    collect what n b (acts ++ more) =
      collect what n b acts ++ collect what n (b.run acts) more := by
  induction acts generalizing b with
  | nil => rfl
  | cons a rest ih =>
    simp only [List.cons_append, collect, ih, run_cons, List.append_assoc]

theorem collect_before {acts : List (Action π κ)} (h : (b.run acts).subscriptions.length ≤ n) :
    collect what n b acts = [] := by
  induction acts generalizing b with
  | nil => rfl
  | cons a rest ih =>
    have hnone : b.subscriptions[n]? = none :=
      List.getElem?_eq_none (Nat.le_trans (length_le_run b (a :: rest)) h)
    rw [collect, hnone, ih h]
    rfl

theorem exists_subscribe {backlog : Int} {acts : List (Action π κ)}
    (h : ((new backlog).run acts).subscriptions[n]? = some s) :
    ∃ before kind name callback after, acts = before ++ .subscribe kind name callback :: after ∧
      ((new backlog).run before).subscriptions.length = n := by
  have hlt : n < ((new backlog).run acts).subscriptions.length :=
    (List.getElem?_eq_some_iff.mp h).1
  clear h
  -- From the end: the last action makes the last subscription or none.
  induction acts using List.reverseRecOn with
  | nil => simp [run, new] at hlt
  | append_singleton before a ih =>
    by_cases hbefore : n < ((new backlog).run before).subscriptions.length
    · obtain ⟨first, kind, name, callback, rest, rfl, hn⟩ := ih hbefore
      exact ⟨first, kind, name, callback, rest ++ [a], by simp, hn⟩
    · have hjoining : n < ((new backlog).run before).subscriptions.length +
          (((new backlog).run before).joining a).length := by
        rw [run_concat, act_eq] at hlt
        simpa using hlt
      cases a with
      | subscribe kind name callback =>
        have hn : ((new backlog).run before).subscriptions.length = n := by
          simp only [joining, List.length_singleton] at hjoining
          omega
        exact ⟨before, kind, name, callback, [], rfl, hn⟩
      | _ => exact absurd hjoining hbefore

end Bus

end Guildhall.Hook
