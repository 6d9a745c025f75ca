import Guildhall.Proofs.Hook.Account

/-!
# A bus that is used while it is closed

A close cancels the workers, waits until they have ended, and then makes the subscriptions forget
them. Other calls may come while it waits. As long as none of them starts the bus, when no close
waits a subscription has just one worker on a bus that is running, and none on one that is not. A
start that comes while a close waits may leave a subscription without a worker, which then stays so
until the bus is closed again, or with a worker that it does not know of, and it is given another
later.
-/

namespace Guildhall.Hook

variable {π κ : Type}

/-- Only a start and a close make a difference to whether the bus is running. -/
theorem Action.leaves_eq {a : Action π κ} {running : Bool} (hcloses : a.closes = false)
    (hstart : a = .start → running = true) : a.leaves running = running := by
  cases a with
  | start => exact (hstart rfl).symm
  | cancelAttached => cases hcloses
  | _ => rfl

namespace Subscription

def workerIds (s : Subscription π κ) : List Nat := s.workers.map (·.id)

structure Served (running : Bool) (s : Subscription π κ) : Prop where
  manned : s.Manned running
  attached : s.attached = s.workerIds.head?

structure Awaited (waits : List (List (Nat × Nat))) (s : Subscription π κ) : Prop where
  single : s.workerIds.length ≤ 1
  known : ∀ id ∈ s.workerIds, s.attached = some id
  awaited : ∀ wait ∈ waits, ∀ id ∈ s.workerIds, (s.order, id) ∈ wait

structure Orderly (running : Bool) (waits : List (List (Nat × Nat))) (s : Subscription π κ) :
    Prop where
  settled : waits = [] → s.Served running
  awaited : waits ≠ [] → s.Awaited waits

variable {s s' : Subscription π κ} {running : Bool} {waits : List (List (Nat × Nat))}

theorem map_id_map {f : Worker π → Worker π} (h : ∀ w, (f w).id = w.id)
    (s : Subscription π κ) : (s.workers.map f).map (·.id) = s.workerIds := by
  rw [List.map_map]
  exact List.map_congr_left fun w _ => h w

theorem workerIds_setWork (s : Subscription π κ) (id : Nat) (work : Work π) :
    (s.setWork id work).workerIds = s.workerIds := by
  refine map_id_map (fun w => ?_) s
  split <;> rfl

theorem workerIds_resume (s : Subscription π κ) (id : Nat) :
    (s.resume id).workerIds = s.workerIds := by
  refine map_id_map (fun w => ?_) s
  cases w.work with
  | waiting => rfl
  | delivering => simp only; split <;> rfl

theorem workerIds_cancelAttached (s : Subscription π κ) :
    s.cancelAttached.workerIds = s.workerIds := by
  refine map_id_map (fun w => ?_) s
  split <;> rfl

/-- Workers come with a start only, and only a start and a close change what a subscription knows
of. -/
theorem feel_workerIds {a : Action π κ} (hcloses : a.closes = false)
    (hstart : a = .start → running = true) (backlog : Int) :
    (s.feel running backlog a).attached = s.attached ∧
      (s.feel running backlog a).workerIds.Sublist s.workerIds := by
  have hsame : s.attached = s.attached ∧ s.workerIds.Sublist s.workerIds :=
    ⟨rfl, List.Sublist.refl _⟩
  cases a with
  | cancelAttached | detach => cases hcloses
  | subscribe => exact hsame
  | start =>
    rw [feel, if_pos (hstart rfl)]
    exact hsame
  | publish kind payload =>
    simp only [feel]
    split
    · rw [offer_eq]
      exact hsame
    · exact hsame
  | take order id now =>
    simp only [feel]
    split
    · unfold take
      split
      · exact ⟨rfl, s.workerIds_setWork id _ ▸ List.Sublist.refl _⟩
      · exact hsame
    · exact hsame
  | finish order id succeeded =>
    simp only [feel]
    split
    · unfold finish
      split
      · cases succeeded <;> exact ⟨rfl, s.workerIds_setWork id _ ▸ List.Sublist.refl _⟩
      · exact hsame
    · exact hsame
  | resume order id =>
    simp only [feel]
    split
    · exact ⟨rfl, s.workerIds_resume id ▸ List.Sublist.refl _⟩
    · exact hsame
  | endWorker order id =>
    simp only [feel]
    split
    · exact ⟨rfl, List.filter_sublist.map _⟩
    · exact hsame

theorem Served.spawn (h : s.Served false) : s.spawn.Served true := by
  obtain ⟨worker, work, hworkers⟩ := h.manned
  have hnone : s.workers = [] := hworkers
  have hserved : s.isServed = false := by
    cases hattached : s.attached <;> simp [isServed, worker?, hattached, hnone]
  refine ⟨h.manned.spawn.1, ?_⟩
  simp [Subscription.spawn, hserved, workerIds, hnone]

theorem Served.of_attached (h : s.Served running) (hmanned : s'.Manned running)
    (hattached : s'.attached = s.attached) (hids : s'.workerIds.Sublist s.workerIds) :
    s'.Served running := by
  refine ⟨hmanned, ?_⟩
  obtain ⟨worker, work, hworkers⟩ := h.manned
  obtain ⟨worker', work', hworkers'⟩ := hmanned
  have hknown := h.attached
  rw [hattached, hknown]
  cases running with
  | false => simp [workerIds, hworkers, hworkers']
  | true =>
    have hid : worker' = worker := by simpa [workerIds, hworkers, hworkers'] using hids
    simp [workerIds, hworkers, hworkers', hid]

theorem Awaited.of_attached (h : s.Awaited waits) (horder : s'.order = s.order)
    (hattached : s'.attached = s.attached) (hids : s'.workerIds.Sublist s.workerIds) :
    s'.Awaited waits where
  single := Nat.le_trans hids.length_le h.single
  known id hid := hattached.trans (h.known id (hids.subset hid))
  awaited wait hwait id hid := horder ▸ h.awaited wait hwait id (hids.subset hid)

/-- Whether it is to be served or a close waits for it, a subscription has at most the worker that
it knows of. -/
theorem Orderly.known (h : s.Orderly running waits) :
    s.workerIds.length ≤ 1 ∧ ∀ id ∈ s.workerIds, s.attached = some id := by
  by_cases hwaits : waits = []
  · obtain ⟨⟨worker, work, hworkers⟩, hattached⟩ := h.settled hwaits
    rw [hattached]
    cases running <;> simp [workerIds, hworkers]
  · exact ⟨(h.awaited hwaits).single, (h.awaited hwaits).known⟩

theorem Orderly.of_not_workers (hworkers : s.workers = []) (hattached : s.attached = none) :
    s.Orderly false waits where
  settled _ := ⟨⟨0, .waiting, hworkers⟩, by simp [hattached, workerIds, hworkers]⟩
  awaited _ := by constructor <;> simp [workerIds, hworkers]

theorem Orderly.feel (h : s.Orderly running waits) {a : Action π κ} (hcloses : a.closes = false)
    (hstart : a = .start → waits = []) (backlog : Int) :
    (s.feel running backlog a).Orderly (a.leaves running) waits where
  settled hwaits := by
    have hserved := h.settled hwaits
    have hmanned := (hserved.manned.feel hcloses backlog).1
    by_cases hspawns : a = .start ∧ running = false
    · obtain ⟨rfl, rfl⟩ := hspawns
      exact hserved.spawn
    · have hruns : a = .start → running = true := by
        simpa using hspawns
      obtain ⟨hattached, hids⟩ := s.feel_workerIds hcloses hruns backlog
      rw [Action.leaves_eq hcloses hruns] at hmanned ⊢
      exact hserved.of_attached hmanned hattached hids
  awaited hwaits := by
    obtain ⟨hattached, hids⟩ :=
      s.feel_workerIds hcloses (fun heq => absurd (hstart heq) hwaits) backlog
    exact (h.awaited hwaits).of_attached (feel_identity running backlog s a).1 hattached hids

/-- A close cancels the worker that the subscription knows of, and waits for it. -/
theorem Orderly.cancelAttached (h : s.Orderly running waits) {wait : List (Nat × Nat)}
    (hwait : ∀ id, s.attached = some id → (s.order, id) ∈ wait) :
    s.cancelAttached.Orderly false (waits ++ [wait]) where
  settled hnone := absurd hnone (by simp)
  awaited _ := by
    obtain ⟨hsingle, hknown⟩ := h.known
    rw [← s.workerIds_cancelAttached] at hsingle hknown
    refine ⟨hsingle, hknown, fun other hother id hid => ?_⟩
    rcases List.mem_append.mp hother with hbefore | hnew
    · have hids := s.workerIds_cancelAttached ▸ hid
      exact (h.awaited (List.ne_nil_of_mem hbefore)).awaited other hbefore id hids
    · rw [List.mem_singleton.mp hnew]
      exact hwait id (hknown id hid)

/-- Once a close has waited for its workers, the subscription has none to forget. -/
theorem Orderly.detach (h : s.Orderly running waits) {wait : List (Nat × Nat)}
    (hwait : wait ∈ waits) (hended : ∀ id ∈ s.workerIds, (s.order, id) ∉ wait)
    (rest : List (List (Nat × Nat))) :
    s.detach.Orderly false rest := by
  have hawaited := (h.awaited (List.ne_nil_of_mem hwait)).awaited wait hwait
  have hnone : s.workerIds = [] :=
    List.eq_nil_iff_forall_not_mem.mpr fun id hid => hended id hid (hawaited id hid)
  exact .of_not_workers (List.map_eq_nil_iff.mp hnone) rfl

end Subscription

namespace Bus

def attachedWorkers (b : Bus π κ) : List (Nat × Nat) :=
  b.subscriptions.filterMap fun s => s.attached.map fun id => (s.order, id)

def Ended (b : Bus π κ) (wait : List (Nat × Nat)) : Prop :=
  ∀ s ∈ b.subscriptions, ∀ id ∈ s.workerIds, (s.order, id) ∉ wait

instance (b : Bus π κ) (wait : List (Nat × Nat)) : Decidable (b.Ended wait) :=
  inferInstanceAs (Decidable (∀ s ∈ b.subscriptions, ∀ id ∈ s.workerIds, (s.order, id) ∉ wait))

end Bus

structure Shutdown (π κ : Type) where
  bus : Bus π κ
  waits : List (List (Nat × Nat))

/-- What can come next: something that is not part of a close, a close that cancels the workers, or
the close at a place, which goes on if its workers have ended. What a close waits for before it
cancels anything makes no difference: it has done nothing yet. -/
inductive Turn (π κ : Type)
  | act (a : Action π κ)
  | cancel
  | forget (n : Nat)

namespace Shutdown

def begin (backlog : Int) : Shutdown π κ := ⟨.new backlog, []⟩

/-- What comes of a turn. Where it is not possible, it changes nothing. -/
def next (d : Shutdown π κ) : Turn π κ → Shutdown π κ
  | .act a => if a.closes then d else ⟨d.bus.act a, d.waits⟩
  | .cancel => ⟨d.bus.act .cancelAttached, d.waits ++ [d.bus.attachedWorkers]⟩
  | .forget n =>
    match d.waits[n]? with
    | some wait => if d.bus.Ended wait then ⟨d.bus.act .detach, d.waits.eraseIdx n⟩ else d
    | none => d

def run (d : Shutdown π κ) (turns : List (Turn π κ)) : Shutdown π κ := turns.foldl next d

/-- Whether no start comes while a close waits. -/
def Calm (d : Shutdown π κ) : List (Turn π κ) → Prop
  | [] => True
  | turn :: rest => (turn = .act .start → d.waits = []) ∧ (d.next turn).Calm rest

structure Orderly (d : Shutdown π κ) : Prop where
  idle : d.waits ≠ [] → d.bus.running = false
  subscriptions : ∀ s ∈ d.bus.subscriptions, s.Orderly d.bus.running d.waits

variable {d : Shutdown π κ}

theorem Orderly.joining (h : d.Orderly) (a : Action π κ) :
    ∀ s ∈ d.bus.joining a, s.Orderly d.bus.running d.waits := by
  intro s hs
  cases a with
  | subscribe kind name callback =>
    rw [List.mem_singleton.mp hs]
    have hnew : (Subscription.new kind d.bus.subscriptions.length name callback :
        Subscription π κ).Orderly false d.waits := .of_not_workers rfl rfl
    cases hrunning : d.bus.running with
    | false => exact hnew
    | true =>
      have hwaits : d.waits = [] := by
        by_contra hwaits
        simp [h.idle hwaits] at hrunning
      exact ⟨fun _ => (hnew.settled hwaits).spawn, absurd hwaits⟩
  | _ => cases hs

theorem Orderly.act (h : d.Orderly) {a : Action π κ} (hcloses : a.closes = false)
    (hstart : a = .start → d.waits = []) : (Shutdown.mk (d.bus.act a) d.waits).Orderly := by
  have hleaves (hne : a ≠ .start) : a.leaves d.bus.running = d.bus.running :=
    Action.leaves_eq hcloses fun heq => absurd heq hne
  rw [Bus.act_eq]
  refine ⟨fun hwaits => ?_, fun s hs => ?_⟩
  · rw [← h.idle hwaits]
    exact hleaves fun heq => hwaits (hstart heq)
  · rcases List.mem_append.mp hs with hold | hnew
    · obtain ⟨s, hmem, rfl⟩ := List.mem_map.mp hold
      exact (h.subscriptions s hmem).feel hcloses hstart d.bus.backlog
    · have hne : a ≠ .start := by
        rintro rfl
        cases hnew
      rw [hleaves hne]
      exact h.joining a s hnew

theorem Orderly.cancel (h : d.Orderly) : (d.next .cancel).Orderly := by
  simp only [next, Bus.act_eq]
  refine ⟨fun _ => rfl, fun s hs => ?_⟩
  simp only [Bus.joining, List.append_nil, List.mem_map] at hs
  obtain ⟨s, hs, rfl⟩ := hs
  refine (h.subscriptions s hs).cancelAttached fun id hid => ?_
  exact List.mem_filterMap.mpr ⟨s, hs, by simp [hid]⟩

theorem Orderly.forget (h : d.Orderly) (n : Nat) : (d.next (.forget n)).Orderly := by
  simp only [next]
  split
  case h_2 => exact h
  case h_1 wait hwait =>
    split
    case isFalse => exact h
    case isTrue hended =>
      have hmem : wait ∈ d.waits := List.mem_of_getElem? hwait
      have hidle := h.idle (List.ne_nil_of_mem hmem)
      rw [Bus.act_eq]
      refine ⟨fun _ => hidle, fun s hs => ?_⟩
      simp only [Bus.joining, List.append_nil, List.mem_map] at hs
      obtain ⟨s, hs, rfl⟩ := hs
      simp only [Action.leaves, hidle]
      exact (h.subscriptions s hs).detach hmem (hended s hs) (d.waits.eraseIdx n)

theorem Orderly.next (h : d.Orderly) {turn : Turn π κ}
    (hcalm : turn = .act .start → d.waits = []) : (d.next turn).Orderly := by
  cases turn with
  | cancel => exact h.cancel
  | forget n => exact h.forget n
  | act a =>
    simp only [Shutdown.next]
    cases hcloses : a.closes with
    | true => exact h
    | false => exact h.act hcloses fun heq => hcalm (congrArg _ heq)

theorem Orderly.run (h : d.Orderly) {turns : List (Turn π κ)} (hcalm : d.Calm turns) :
    (d.run turns).Orderly := by
  induction turns generalizing d with
  | nil => exact h
  | cons turn rest ih => exact ih (h.next hcalm.1) hcalm.2

/-- However calls, deliveries and closes are interleaved, as long as no start comes while a close
waits: when no close waits, every subscription has one worker if the bus is running, which is not
cancelled and of which it knows, and none otherwise. -/
theorem one_worker_each {backlog : Int} {turns : List (Turn π κ)}
    (hcalm : (begin backlog).Calm turns) (hwaits : ((begin backlog).run turns).waits = []) :
    ∀ s ∈ ((begin backlog).run turns).bus.subscriptions,
      if ((begin backlog).run turns).bus.running then
        ∃ id work, s.workers = [⟨id, work, false⟩] ∧ s.attached = some id
      else s.workers = [] ∧ s.attached = none := by
  have hbegin : (begin backlog : Shutdown π κ).Orderly := ⟨fun _ => rfl, fun s hs => nomatch hs⟩
  intro s hs
  obtain ⟨⟨id, work, hworkers⟩, hattached⟩ :=
    ((hbegin.run hcalm).subscriptions s hs).settled hwaits
  rw [hattached]
  split
  case isTrue hrunning =>
    have hone : s.workers = [⟨id, work, false⟩] := by simpa [hrunning] using hworkers
    exact ⟨id, work, hone, by simp [Subscription.workerIds, hone]⟩
  case isFalse hrunning =>
    have hnone : s.workers = [] := by simpa [hrunning] using hworkers
    exact ⟨hnone, by simp [Subscription.workerIds, hnone]⟩

/-- A log that is subscribed while a close waits for the worker of an audit has a worker after the
next start, as the audit has. -/
theorem served_after_a_close :
    ∀ s ∈ ((begin 10).run [.act (.subscribe .commandExecuted "audit" ()), .act .start, .cancel,
        .act (.subscribe .commandExecuted "log" ()), .act (.publish .commandExecuted 1),
        .act (.endWorker 0 0), .forget 0, .act .start] : Shutdown Nat Unit).bus.subscriptions,
      ∃ id work, s.workers = [⟨id, work, false⟩] ∧ s.attached = some id :=
  one_worker_each
    ⟨nofun, fun _ => rfl, nofun, nofun, nofun, nofun, nofun, fun _ => rfl, trivial⟩ rfl

end Shutdown

/-- A start while the cancelled worker has not ended gives the subscription no other, and the close
then makes it forget this one: the bus is running, and nobody delivers. -/
theorem worker_lost_by_a_start :
    let d : Shutdown Nat Unit := (Shutdown.begin 10).run
      [.act (.subscribe .commandExecuted "audit" ()), .act .start, .cancel, .act .start,
        .act (.endWorker 0 0), .forget 0]
    d.waits = [] ∧ d.bus.running = true ∧ d.bus.subscriptions.map (·.workerIds) = [[]] := by
  decide

/-- A start after the cancelled worker has ended gives the subscription another, and the close makes
it forget that one: after the next close and start there are two. -/
theorem worker_doubled_by_a_start :
    let d : Shutdown Nat Unit := (Shutdown.begin 10).run
      [.act (.subscribe .commandExecuted "audit" ()), .act .start, .cancel,
        .act (.endWorker 0 0), .act .start, .forget 0, .cancel, .forget 0, .act .start]
    d.waits = [] ∧ d.bus.running = true ∧ d.bus.subscriptions.map (·.workerIds) = [[1, 2]] := by
  decide

namespace Bus

variable {b : Bus π κ} {n : Nat} {s : Subscription π κ}

/-- On a bus that is running, a subscription without a worker stays without one until the bus is
closed, and nothing is handed to its callback. -/
theorem handed_of_workers_nil {acts : List (Action π κ)} (hacts : ∀ a ∈ acts, a.closes = false)
    (hrunning : b.running = true) (hs : b.subscriptions[n]? = some s) (hnone : s.workers = []) :
    (∃ s', (b.run acts).subscriptions[n]? = some s' ∧ s'.workers = []) ∧
      b.handed n acts = [] := by
  induction acts generalizing b s with
  | nil => exact ⟨⟨s, hs, hnone⟩, rfl⟩
  | cons a rest ih =>
    have hcloses := hacts a List.mem_cons_self
    have hruns : (b.act a).running = true := by
      rw [act_eq]
      exact (Action.leaves_eq hcloses fun _ => hrunning).trans hrunning
    obtain ⟨-, hids⟩ := s.feel_workerIds hcloses (fun _ => hrunning) b.backlog
    have hstill : (s.feel b.running b.backlog a).workers = [] := by
      simpa [Subscription.workerIds, hnone] using hids
    have hidle : s.handed a = [] := by
      cases a with
      | take order id now =>
        simp [Subscription.handed, Subscription.taken, Subscription.worker?, hnone]
      | _ => rfl
    obtain ⟨hlost, hrest⟩ := ih (fun a ha => hacts a (List.mem_cons_of_mem _ ha)) hruns
      (act_subscription hs a) hstill
    refine ⟨hlost, ?_⟩
    simp only [handed] at hrest ⊢
    simp [collect, hs, hidle, hrest]

end Bus

end Guildhall.Hook
