import Guildhall.Hook.Delivery
import Guildhall.Proofs.Hook.Account

/-!
# Timelines are runs

A bus on a timeline lets its workers go on until an instant, one subscription after another. What
comes about in this way comes about by a run, so that what holds of runs holds of timelines.
-/

namespace Guildhall.Hook

variable {π κ : Type}

def Action.works (order : Nat) : Action π κ → Bool
  | .take other _ _ => other = order
  | .finish other _ _ => other = order
  | .endWorker other _ => other = order
  | _ => false

theorem Action.works_leaves {a : Action π κ} {order : Nat} (ha : a.works order = true)
    (running : Bool) : a.leaves running = running := by
  cases a with
  | start | cancelAttached => cases ha
  | _ => rfl

theorem Action.not_concerns {a : Action π κ} {order other : Nat} (ha : a.works order = true)
    (hne : other ≠ order) (kind : Kind) : a.concerns other kind = false := by
  cases a with
  | take | finish | endWorker =>
    simp only [Action.works, decide_eq_true_eq] at ha
    simp [Action.concerns, ha, Ne.symm hne]
  | _ => cases ha

namespace Subscription

def Works (s s' : Subscription π κ) : Prop :=
  ∃ acts : List (Action π κ), (∀ a ∈ acts, a.works s.order = true) ∧
    ∀ running backlog, s' = acts.foldl (feel running backlog) s

variable {s s' : Subscription π κ}

theorem Works.refl (s : Subscription π κ) : s.Works s := ⟨[], by simp, fun _ _ => rfl⟩

theorem Works.take (id now : Nat) (h : (s.take id now).Works s') : s.Works s' := by
  obtain ⟨acts, hacts, hrun⟩ := h
  rw [take_eq] at hacts
  refine ⟨.take s.order id now :: acts, ?_, fun running backlog => ?_⟩
  · simpa [Action.works] using hacts
  · rw [hrun running backlog, List.foldl_cons, feel, if_pos rfl]

theorem Works.finish (id : Nat) (succeeded : Bool) (h : (s.finish id succeeded).Works s') :
    s.Works s' := by
  obtain ⟨acts, hacts, hrun⟩ := h
  rw [finish_eq] at hacts
  refine ⟨.finish s.order id succeeded :: acts, ?_, fun running backlog => ?_⟩
  · simpa [Action.works] using hacts
  · rw [hrun running backlog, List.foldl_cons, feel, if_pos rfl]

/-- Letting a worker go on is a matter of its taking payloads and its callback ending. -/
theorem works_serve (limit fuel clock : Nat) (s : Subscription π (Callback π)) (done : List π) :
    s.Works (s.serve limit fuel clock done).1 := by
  induction fuel generalizing clock s done with
  | zero => exact .refl s
  | succ fuel ih =>
    unfold serve
    split
    case h_1 id cancelled hserver =>
      split
      · exact .refl s
      · exact .take id clock (ih clock _ done)
    case h_2 id payload since cancelled hserver =>
      split
      · exact .refl s
      · split
        · exact .refl s
        · exact .finish id _ (ih _ _ _)
    case h_3 => exact .refl s

theorem works_advance (now limit : Nat) (s : Subscription π (Callback π)) :
    s.Works (s.advance now limit).1 := works_serve limit (2 * s.queue.length + 2) now s []

theorem foldl_endWorker (running : Bool) (backlog : Int) (ids : List Nat) (s : Subscription π κ) :
    (ids.map (Action.endWorker s.order)).foldl (feel running backlog) s =
      { s with workers := s.workers.filter fun w => !(ids.contains w.id && w.cancelled) } := by
  induction ids generalizing s with
  | nil =>
    have hall : (s.workers.filter fun w => !(([] : List Nat).contains w.id && w.cancelled)) =
        s.workers := List.filter_eq_self.mpr fun w _ => by simp
    rw [hall]
    rfl
  | cons id rest ih =>
    rw [List.map_cons, List.foldl_cons, feel, if_pos rfl]
    have hrest := ih (s.endWorker id)
    rw [show (s.endWorker id).order = s.order from rfl] at hrest
    rw [hrest]
    simp only [endWorker, List.filter_filter]
    congr 1
    apply List.filter_congr
    intro w _
    by_cases hid : w.id = id <;> cases w.cancelled <;> simp [hid]

theorem works_endCancelled (s : Subscription π κ) : s.Works s.endCancelled := by
  let ids := s.workers.map (·.id)
  refine ⟨ids.map (Action.endWorker s.order), ?_, fun running backlog => ?_⟩
  · simp [Action.works]
  · rw [foldl_endWorker, endCancelled]
    congr 1
    apply List.filter_congr
    intro w hw
    have hmem : ids.contains w.id = true := by
      rw [List.contains_iff_mem]
      exact List.mem_map_of_mem hw
    rw [hmem, Bool.true_and]

end Subscription

namespace Bus

def Numbered (b : Bus π κ) : Prop :=
  ∀ (n : Nat) (s : Subscription π κ), b.subscriptions[n]? = some s → s.order = n

variable {b : Bus π κ}

theorem Numbered.act (h : b.Numbered) (a : Action π κ) : (b.act a).Numbered := by
  intro n s hs
  rw [act_eq] at hs
  rcases Nat.lt_or_ge n b.subscriptions.length with hlt | hge
  · rw [List.getElem?_append_left (by simpa using hlt), List.getElem?_map] at hs
    obtain ⟨old, hold, rfl⟩ := Option.map_eq_some_iff.mp hs
    rw [(Subscription.feel_identity b.running b.backlog old a).1]
    exact h n old hold
  · rw [List.getElem?_append_right (by simpa using hge)] at hs
    cases a with
    | subscribe kind name callback =>
      simp only [joining, List.length_map, List.getElem?_singleton] at hs
      split at hs
      case isFalse => cases hs
      case isTrue hzero =>
        cases hs
        have hn : b.subscriptions.length = n := by omega
        split
        · rw [Subscription.spawn_eq]
          exact hn
        · exact hn
    | _ => cases hs

theorem Numbered.run (h : b.Numbered) (acts : List (Action π κ)) : (b.run acts).Numbered := by
  induction acts generalizing b with
  | nil => exact h
  | cons a rest ih => exact ih (h.act a)

theorem run_works (running : Bool) (backlog : Int) {before after : List (Subscription π κ)}
    {s : Subscription π κ} (hb : (⟨backlog, running, before ++ s :: after⟩ : Bus π κ).Numbered)
    {acts : List (Action π κ)} (hacts : ∀ a ∈ acts, a.works s.order = true) :
    (⟨backlog, running, before ++ s :: after⟩ : Bus π κ).run acts =
      ⟨backlog, running, before ++ acts.foldl (Subscription.feel running backlog) s :: after⟩ := by
  induction acts generalizing s with
  | nil => rfl
  | cons a rest ih =>
    have ha := hacts a List.mem_cons_self
    have hplace : s.order = before.length := hb before.length s (by simp)
    have hothers (ts : List (Subscription π κ)) (hts : ∀ t ∈ ts, t.order ≠ s.order) :
        ts.map (fun t => t.feel running backlog a) = ts := by
      have hsame (t : Subscription π κ) (ht : t ∈ ts) : t.feel running backlog a = t :=
        (Subscription.feel_of_not_concerns (Action.not_concerns ha (hts t ht) t.kind)
          running backlog).1
      calc ts.map (fun t => t.feel running backlog a) = ts.map id := List.map_congr_left hsame
        _ = ts := List.map_id ts
    have hbefore : ∀ t ∈ before, t.order ≠ s.order := by
      intro t ht
      obtain ⟨i, hi, rfl⟩ := List.mem_iff_getElem.mp ht
      have horder := hb i before[i] (by
        rw [List.getElem?_append_left hi, List.getElem?_eq_getElem hi])
      omega
    have hafter : ∀ t ∈ after, t.order ≠ s.order := by
      intro t ht
      obtain ⟨i, hi, rfl⟩ := List.mem_iff_getElem.mp ht
      have horder := hb (before.length + (i + 1)) after[i] (by simp [hi])
      omega
    have hact : (⟨backlog, running, before ++ s :: after⟩ : Bus π κ).act a =
        ⟨backlog, running, before ++ s.feel running backlog a :: after⟩ := by
      have hleaves : a.leaves running = running := Action.works_leaves ha running
      have hjoining : (⟨backlog, running, before ++ s :: after⟩ : Bus π κ).joining a = [] := by
        cases a with
        | subscribe => cases ha
        | _ => rfl
      rw [act_eq, hjoining, hleaves, List.append_nil, List.map_append, List.map_cons,
        hothers before hbefore, hothers after hafter]
    rw [run_cons, hact]
    refine ih (hact ▸ hb.act a) fun other hother => ?_
    rw [(Subscription.feel_identity running backlog s a).1]
    exact hacts other (List.mem_cons_of_mem a hother)

theorem exists_run_mapAll (hb : b.Numbered) {f : Subscription π κ → Subscription π κ}
    (hf : ∀ s : Subscription π κ, s.Works (f s)) : ∃ acts, b.run acts = b.mapAll f := by
  -- The subscriptions in `before` have moved already, those in `rest` are to move.
  have hrest (before rest : List (Subscription π κ))
      (hb : (⟨b.backlog, b.running, before ++ rest⟩ : Bus π κ).Numbered) :
      ∃ acts, (⟨b.backlog, b.running, before ++ rest⟩ : Bus π κ).run acts =
        ⟨b.backlog, b.running, before ++ rest.map f⟩ := by
    induction rest generalizing before with
    | nil => exact ⟨[], rfl⟩
    | cons s rest ih =>
      obtain ⟨acts, hacts, hs⟩ := hf s
      have hfirst : (⟨b.backlog, b.running, before ++ s :: rest⟩ : Bus π κ).run acts =
          ⟨b.backlog, b.running, before ++ [f s] ++ rest⟩ := by
        rw [run_works b.running b.backlog hb hacts, ← hs, ← List.append_cons]
      obtain ⟨more, hmore⟩ := ih (before ++ [f s]) (hfirst ▸ hb.run acts)
      refine ⟨acts ++ more, ?_⟩
      rw [run_append, hfirst, hmore, List.map_cons, ← List.append_cons]
  exact hrest [] b.subscriptions hb

theorem exists_run_advance {b : Bus π (Callback π)} (hb : b.Numbered) (now limit : Nat) :
    ∃ acts, b.run acts = (b.advance now limit).1 := by
  obtain ⟨acts, hacts⟩ := exists_run_mapAll hb fun s => s.works_advance now limit
  refine ⟨acts, hacts.trans ?_⟩
  simp [advance, mapAll]

theorem exists_run_shut (hb : b.Numbered) : ∃ acts, b.run acts = b.shut := by
  obtain ⟨acts, hacts⟩ := exists_run_mapAll (hb.act .cancelAttached)
    fun s => s.works_endCancelled
  refine ⟨.cancelAttached :: acts ++ [.detach], ?_⟩
  rw [run_concat, run_cons, hacts]
  rfl

end Bus

namespace Timeline

/-- A timeline that comes about from a new bus: time passes, subscribers come, payloads are
published, and the bus is started and closed. -/
inductive Reachable (backlog : Int) : Timeline π → Prop
  | new : Reachable backlog (new backlog)
  | advance {t : Timeline π} (before : Reachable backlog t) (limit : Nat) :
      Reachable backlog (t.advance limit)
  | subscribe {t : Timeline π} (before : Reachable backlog t) (kind : Kind) (name : String)
      (callback : Callback π) :
      Reachable backlog { t with bus := t.bus.subscribe kind name callback }
  | publish {t : Timeline π} (before : Reachable backlog t) (kind : Kind) (payload : π) :
      Reachable backlog { t with bus := t.bus.publish kind payload }
  | start {t : Timeline π} (before : Reachable backlog t) :
      Reachable backlog { t with bus := t.bus.start }
  | drain {t : Timeline π} (before : Reachable backlog t) : Reachable backlog t.drain
  | close {t : Timeline π} (before : Reachable backlog t) (patience : Option Nat) :
      Reachable backlog (t.close patience)

variable {backlog : Int} {t : Timeline π}

theorem Reachable.exists_run (h : Reachable backlog t) :
    ∃ acts, (Bus.new backlog).run acts = t.bus := by
  have hnumbered (acts : List (Action π (Callback π))) : ((Bus.new backlog).run acts).Numbered :=
    Bus.Numbered.run (fun n s hs => by simp [Bus.new] at hs) acts
  have hadvance (t : Timeline π) (limit : Nat) (ht : ∃ acts, (Bus.new backlog).run acts = t.bus) :
      ∃ acts, (Bus.new backlog).run acts = (t.advance limit).bus := by
    obtain ⟨acts, hacts⟩ := ht
    obtain ⟨more, hmore⟩ := Bus.exists_run_advance (hacts ▸ hnumbered acts) t.now limit
    exact ⟨acts ++ more, by rw [Bus.run_append, hacts, hmore]; rfl⟩
  have hact (b : Bus π (Callback π)) (a : Action π (Callback π))
      (hb : ∃ acts, (Bus.new backlog).run acts = b) :
      ∃ acts, (Bus.new backlog).run acts = b.act a := by
    obtain ⟨acts, hacts⟩ := hb
    exact ⟨acts ++ [a], by rw [Bus.run_concat, hacts]⟩
  induction h with
  | new => exact ⟨[], rfl⟩
  | advance before limit ih => exact hadvance _ limit ih
  | subscribe before kind name callback ih => exact hact _ (.subscribe kind name callback) ih
  | publish before kind payload ih => exact hact _ (.publish kind payload) ih
  | start before ih => exact hact _ .start ih
  | @drain t before ih =>
    unfold Timeline.drain
    split
    · exact hadvance t _ ih
    · exact ih
  | @close t before patience ih =>
    unfold Timeline.close
    split
    · obtain ⟨acts, hacts⟩ := hadvance t (t.bus.closesAt t.now (patience.map (t.now + ·))) ih
      obtain ⟨more, hmore⟩ := Bus.exists_run_shut (hacts ▸ hnumbered acts)
      exact ⟨acts ++ more, by rw [Bus.run_append, hacts, hmore]⟩
    · exact ih

end Timeline

end Guildhall.Hook
