import Guildhall.Dispatch.Script
import Mathlib.Data.List.Basic

/-!
# One resolution for an invocation

The calls of an invocation that need the author's permissions share what is known. A call looks at
it, and else takes a lock, looks again and only then resolves the permissions. Calls overlap in any
way at all, and a resolution may end with anything. Whatever happens, permissions are resolved by
one call at a time and never again once this has succeeded, and all calls see the same.
-/

namespace Guildhall.Dispatch

open Permission (Grants)
open scoped List

/-- What a call asks for: what a command requires, all permissions, or one of them. -/
inductive Query
  | gate (required : List String)
  | permissions
  | holds (required : String)
  deriving DecidableEq, Repr

def Query.settled (ctx : Context) : Query → Bool
  | .gate required => required.isEmpty || ctx.superuser || ctx.caller.guild.isNone
  | .permissions => false
  | .holds _ => ctx.superuser || ctx.caller.guild.isNone

structure Asker where
  id : Nat
  query : Query
  deriving DecidableEq, Repr

structure Sharing where
  known : Option Grants
  locked : Bool
  queue : List Asker
  resolving : List Asker
  deriving DecidableEq, Repr

inductive Turn
  | told (g : Grants)
  | waits
  | resolves
  deriving DecidableEq, Repr

namespace Sharing

def idle : Sharing := ⟨none, false, [], []⟩

/-- A call that gets the lock looks at what is known by then. If nothing is, it resolves the
permissions and keeps the lock until this has ended; otherwise it gives the lock back. -/
def enter (st : Sharing) (a : Asker) : Sharing × Turn :=
  match st.known with
  | some g => (st, .told g)
  | none => ({ st with locked := true, resolving := a :: st.resolving }, .resolves)

/-- A call looks at what is known. If nothing is, it takes the lock, unless the lock is taken or
others wait for it. -/
def ask (st : Sharing) (a : Asker) : Sharing × Turn :=
  match st.known with
  | some g => (st, .told g)
  | none =>
    if st.locked || !st.queue.isEmpty then ({ st with queue := st.queue ++ [a] }, .waits)
    else st.enter a

end Sharing

inductive Deed
  | answers (a : Asker)
  | asks (a : Asker) (turn : Turn)
  | wakes (a : Asker) (turn : Turn)
  | succeeds (a : Asker) (g : Grants)
  | fails (a : Asker) (e : DispatchError)
  | leaves (a : Asker)
  deriving DecidableEq, Repr

def Deed.resolver? : Deed → Option Asker
  | .asks a .resolves => some a
  | .wakes a .resolves => some a
  | _ => none

def Deed.seen? : Deed → Option Grants
  | .asks _ (.told g) => some g
  | .wakes _ (.told g) => some g
  | .succeeds _ g => some g
  | _ => none

/-- A query that is settled is answered; any other call asks. The first who waits may go on when the
lock is free. A resolution may end with anything, and a call may be given up while it waits or
resolves. -/
inductive Sharing.Step (ctx : Context) (st : Sharing) : Deed → Sharing → Prop
  | answer {a : Asker} (settled : a.query.settled ctx = true) : Step ctx st (.answers a) st
  | ask {a : Asker} (unsettled : a.query.settled ctx = false) :
    Step ctx st (.asks a (st.ask a).2) (st.ask a).1
  | wake {a : Asker} {rest : List Asker} (free : st.locked = false) (first : st.queue = a :: rest) :
    Step ctx st (.wakes a (enter { st with queue := rest } a).2)
      (enter { st with queue := rest } a).1
  | succeed {a : Asker} (resolving : a ∈ st.resolving) (g : Grants) :
    Step ctx st (.succeeds a g) ⟨some g, false, st.queue, st.resolving.erase a⟩
  | fail {a : Asker} (resolving : a ∈ st.resolving) (e : DispatchError) :
    Step ctx st (.fails a e) { st with locked := false, resolving := st.resolving.erase a }
  | leave {a : Asker} (waiting : a ∈ st.queue) :
    Step ctx st (.leaves a) { st with queue := st.queue.erase a }
  | stop {a : Asker} (resolving : a ∈ st.resolving) :
    Step ctx st (.leaves a) { st with locked := false, resolving := st.resolving.erase a }

inductive Sharing.Run (ctx : Context) : Sharing → List Deed → Sharing → Prop
  | nil (st : Sharing) : Run ctx st [] st
  | cons {st mid last : Sharing} {deed : Deed} {deeds : List Deed} (step : st.Step ctx deed mid)
      (rest : Run ctx mid deeds last) : Run ctx st (deed :: deeds) last

/-- Whoever is next resolves: the first who waits, or whoever asks if nobody waits. -/
def Sharing.NextResolves (ctx : Context) (st : Sharing) : Prop :=
  (∀ a rest, st.queue = a :: rest → ∃ next, st.Step ctx (.wakes a .resolves) next) ∧
    (st.queue = [] → ∀ a : Asker, a.query.settled ctx = false →
      ∃ next, st.Step ctx (.asks a .resolves) next)

namespace Sharing

variable {ctx : Context} {st st' : Sharing} {deed : Deed} {deeds : List Deed} {g : Grants}

/-- The lock is taken exactly while a resolution is under way, of which there is one at most, and
none when the permissions are known. Only calls that need the permissions wait or resolve. -/
structure Sound (ctx : Context) (st : Sharing) : Prop where
  resolving : st.resolving.length = if st.locked then 1 else 0
  known : st.known ≠ none → st.locked = false
  unsettled : ∀ a ∈ st.queue ++ st.resolving, a.query.settled ctx = false

theorem sound_idle (ctx : Context) : Sound ctx idle := ⟨rfl, fun h => absurd rfl h, by simp [idle]⟩

theorem enter_of_known (h : st.known = some g) (a : Asker) : st.enter a = (st, .told g) := by
  rw [enter, h]

theorem enter_of_unknown (h : st.known = none) (a : Asker) :
    st.enter a = ({ st with locked := true, resolving := a :: st.resolving }, .resolves) := by
  rw [enter, h]

theorem ask_of_known (h : st.known = some g) (a : Asker) : st.ask a = (st, .told g) := by
  rw [ask, h]

/-- Where nothing is known, a call waits if the lock is taken or others wait, and else gets the
lock. -/
theorem ask_of_unknown (h : st.known = none) (a : Asker) :
    ((st.locked = true ∨ st.queue ≠ []) ∧
        st.ask a = ({ st with queue := st.queue ++ [a] }, .waits)) ∨
      (st.locked = false ∧ st.queue = [] ∧ st.ask a = st.enter a) := by
  simp only [ask, h]
  split
  case isTrue hbusy => exact .inl ⟨by simpa using hbusy, rfl⟩
  case isFalse hfree =>
    simp only [Bool.or_eq_true, not_or, Bool.not_eq_true, Bool.not_eq_false',
      List.isEmpty_iff] at hfree
    exact .inr ⟨hfree.1, hfree.2, rfl⟩

namespace Sound

theorem resolving_eq_nil (h : st.Sound ctx) (hfree : st.locked = false) : st.resolving = [] := by
  have hlength := h.resolving
  simp only [hfree, Bool.false_eq_true, if_false] at hlength
  exact List.length_eq_zero_iff.mp hlength

/-- A call that resolves is the only one, holds the lock, and nothing is known. -/
theorem of_resolving (h : st.Sound ctx) {a : Asker} (ha : a ∈ st.resolving) :
    st.resolving = [a] ∧ st.locked = true ∧ st.known = none := by
  have hlocked : st.locked = true := by
    by_contra hfree
    rw [h.resolving_eq_nil (Bool.eq_false_iff.mpr hfree)] at ha
    cases ha
  have hlength := h.resolving
  rw [hlocked, if_pos rfl] at hlength
  obtain ⟨only, honly⟩ := List.length_eq_one_iff.mp hlength
  obtain rfl : a = only := by simpa [honly] using ha
  refine ⟨honly, hlocked, ?_⟩
  by_contra hknown
  exact Bool.false_ne_true ((h.known hknown).symm.trans hlocked)

theorem enter (h : st.Sound ctx) (hfree : st.locked = false) {a : Asker}
    (ha : a.query.settled ctx = false) : (st.enter a).1.Sound ctx := by
  cases hknown : st.known with
  | some g => rwa [enter_of_known hknown]
  | none =>
    rw [enter_of_unknown hknown]
    refine ⟨by simp [h.resolving_eq_nil hfree], fun hne => absurd hknown hne, fun b hb => ?_⟩
    rcases List.mem_append.mp hb with hwaiting | hresolving
    · exact h.unsettled b (List.mem_append_left _ hwaiting)
    · rcases List.mem_cons.mp hresolving with rfl | hother
      · exact ha
      · exact h.unsettled b (List.mem_append_right _ hother)

theorem withQueue (h : st.Sound ctx) {queue : List Asker}
    (hqueue : ∀ a ∈ queue, a.query.settled ctx = false) :
    Sound ctx { st with queue := queue } where
  resolving := h.resolving
  known := h.known
  unsettled b hb := by
    rcases List.mem_append.mp hb with hwaiting | hresolving
    · exact hqueue b hwaiting
    · exact h.unsettled b (List.mem_append_right _ hresolving)

theorem release (h : st.Sound ctx) {a : Asker} (ha : a ∈ st.resolving) (known : Option Grants) :
    Sound ctx ⟨known, false, st.queue, st.resolving.erase a⟩ := by
  obtain ⟨honly, -, -⟩ := h.of_resolving ha
  refine ⟨by simp [honly], fun _ => rfl, fun b hb => h.unsettled b ?_⟩
  rcases List.mem_append.mp hb with hwaiting | hresolving
  · exact List.mem_append_left _ hwaiting
  · exact List.mem_append_right _ (List.mem_of_mem_erase hresolving)

theorem step (h : st.Sound ctx) (hstep : st.Step ctx deed st') : st'.Sound ctx := by
  have hqueue (b : Asker) (hb : b ∈ st.queue) : b.query.settled ctx = false :=
    h.unsettled b (List.mem_append_left _ hb)
  cases hstep with
  | answer settled => exact h
  | @ask a unsettled =>
    cases hknown : st.known with
    | some g => rwa [ask_of_known hknown]
    | none =>
      rcases ask_of_unknown hknown a with ⟨-, hwaits⟩ | ⟨hfree, -, henters⟩
      · rw [hwaits]
        refine h.withQueue fun b hb => ?_
        rcases List.mem_append.mp hb with hwaiting | hnew
        · exact hqueue b hwaiting
        · exact List.mem_singleton.mp hnew ▸ unsettled
      · rw [henters]
        exact h.enter hfree unsettled
  | @wake a rest free first =>
    have hrest : Sound ctx { st with queue := rest } :=
      h.withQueue fun b hb => hqueue b (first ▸ List.mem_cons_of_mem a hb)
    exact hrest.enter free (hqueue a (first ▸ List.mem_cons_self))
  | succeed resolving g => exact h.release resolving (some g)
  | fail resolving e => exact h.release resolving st.known
  | leave waiting => exact h.withQueue fun b hb => hqueue b (List.mem_of_mem_erase hb)
  | stop resolving => exact h.release resolving st.known

end Sound

namespace Step

/-- What is known stays known. Nobody resolves any more, and whoever asks or has waited is told. -/
theorem of_known (hsound : st.Sound ctx) (hknown : st.known = some g)
    (h : st.Step ctx deed st') : st'.known = some g ∧ deed.resolver? = none ∧
      ∀ seen, deed.seen? = some seen → seen = g := by
  have hnobody {a : Asker} (ha : a ∈ st.resolving) : False := by
    obtain ⟨-, -, hnone⟩ := hsound.of_resolving ha
    rw [hnone] at hknown
    cases hknown
  cases h with
  | answer settled => exact ⟨hknown, rfl, nofun⟩
  | @ask a unsettled =>
    rw [ask_of_known hknown]
    exact ⟨hknown, rfl, fun seen hseen => (Option.some.inj hseen).symm⟩
  | @wake a rest free first =>
    have hstill : ({ st with queue := rest } : Sharing).known = some g := hknown
    rw [enter_of_known hstill]
    exact ⟨hknown, rfl, fun seen hseen => (Option.some.inj hseen).symm⟩
  | succeed resolving g => exact (hnobody resolving).elim
  | fail resolving e => exact (hnobody resolving).elim
  | leave waiting => exact ⟨hknown, rfl, nofun⟩
  | stop resolving => exact (hnobody resolving).elim

/-- As long as nothing is known, only a resolution that succeeds changes this. -/
theorem of_unknown (hknown : st.known = none) (h : st.Step ctx deed st') :
    (∃ a g, deed = .succeeds a g ∧ st'.known = some g) ∨
      (deed.seen? = none ∧ st'.known = none) := by
  cases h with
  | answer settled => exact .inr ⟨rfl, hknown⟩
  | @ask a unsettled =>
    rcases ask_of_unknown hknown a with ⟨-, hwaits⟩ | ⟨-, -, henters⟩
    · rw [hwaits]
      exact .inr ⟨rfl, hknown⟩
    · rw [henters, enter_of_unknown hknown]
      exact .inr ⟨rfl, hknown⟩
  | @wake a rest free first =>
    have hstill : ({ st with queue := rest } : Sharing).known = none := hknown
    rw [enter_of_unknown hstill]
    exact .inr ⟨rfl, hknown⟩
  | @succeed a resolving g => exact .inl ⟨a, g, rfl, rfl⟩
  | fail resolving e => exact .inr ⟨rfl, hknown⟩
  | leave waiting => exact .inr ⟨rfl, hknown⟩
  | stop resolving => exact .inr ⟨rfl, hknown⟩

theorem resolver_unsettled (hsound : st.Sound ctx) (h : st.Step ctx deed st') {a : Asker}
    (hresolver : deed.resolver? = some a) : a.query.settled ctx = false := by
  cases h with
  | @ask b unsettled =>
    generalize (st.ask b).2 = turn at hresolver
    cases turn <;> cases hresolver
    exact unsettled
  | @wake b rest free first =>
    generalize (enter { st with queue := rest } b).2 = turn at hresolver
    cases turn <;> cases hresolver
    exact hsound.unsettled a (List.mem_append_left _ (first ▸ List.mem_cons_self))
  | answer | succeed | fail | leave | stop => cases hresolver

end Step

theorem Sound.nextResolves (h : st.Sound ctx) (hknown : st.known = none)
    (hnobody : st.resolving = []) : st.NextResolves ctx := by
  have hfree : st.locked = false := by
    by_contra hlocked
    have hlength := h.resolving
    simp [hnobody, Bool.not_eq_false _ ▸ hlocked] at hlength
  constructor
  · intro a rest hfirst
    have hwake : st.Step ctx _ _ := .wake hfree hfirst
    have hstill : ({ st with queue := rest } : Sharing).known = none := hknown
    rw [enter_of_unknown hstill] at hwake
    exact ⟨_, hwake⟩
  · intro hempty a ha
    have hask : st.Step ctx _ _ := .ask ha
    rcases ask_of_unknown hknown a with ⟨hbusy, -⟩ | ⟨-, -, henters⟩
    · simp [hfree, hempty] at hbusy
    · rw [henters, enter_of_unknown hknown] at hask
      exact ⟨_, hask⟩

namespace Run

variable {last : Sharing}

theorem sound (h : st.Run ctx deeds last) (hsound : st.Sound ctx) : last.Sound ctx := by
  induction h with
  | nil => exact hsound
  | cons step rest ih => exact ih (hsound.step step)

theorem split {before after : List Deed} (h : st.Run ctx (before ++ after) last) :
    ∃ mid, st.Run ctx before mid ∧ mid.Run ctx after last := by
  induction before generalizing st with
  | nil => exact ⟨st, .nil st, h⟩
  | cons deed before ih =>
    cases h with
    | cons step rest =>
      obtain ⟨mid, hbefore, hafter⟩ := ih rest
      exact ⟨mid, .cons step hbefore, hafter⟩

theorem append {mid : Sharing} {before after : List Deed} (hbefore : st.Run ctx before mid)
    (hafter : mid.Run ctx after last) : st.Run ctx (before ++ after) last := by
  induction hbefore with
  | nil => exact hafter
  | cons step rest ih => exact .cons step (ih hafter)

theorem of_known (h : st.Run ctx deeds last) (hsound : st.Sound ctx) (hknown : st.known = some g) :
    last.known = some g ∧ ∀ deed ∈ deeds, deed.resolver? = none ∧
      ∀ seen, deed.seen? = some seen → seen = g := by
  induction h with
  | nil => exact ⟨hknown, nofun⟩
  | cons step rest ih =>
    obtain ⟨hkept, hstep⟩ := step.of_known hsound hknown
    obtain ⟨hlast, hrest⟩ := ih (hsound.step step) hkept
    exact ⟨hlast, List.forall_mem_cons.mpr ⟨hstep, hrest⟩⟩

theorem seen (h : st.Run ctx deeds last) (hsound : st.Sound ctx) :
    ∀ deed ∈ deeds, ∀ g, deed.seen? = some g → last.known = some g := by
  induction h with
  | nil => nofun
  | @cons st mid last deed deeds step rest ih =>
    refine List.forall_mem_cons.mpr ⟨fun g hseen => ?_, ih (hsound.step step)⟩
    -- What a call sees is known right after, and what is known stays known.
    have hmid : mid.known = some g := by
      cases hknown : st.known with
      | some g' =>
        obtain ⟨hkept, -, hsame⟩ := step.of_known hsound hknown
        rw [hkept, hsame g hseen]
      | none =>
        rcases step.of_unknown hknown with ⟨a, g', rfl, hmid⟩ | ⟨hnone, -⟩
        · rwa [← Option.some.inj hseen]
        · rw [hnone] at hseen
          cases hseen
    exact (rest.of_known (hsound.step step) hmid).1

theorem known_eq_none (h : st.Run ctx deeds last) (hknown : st.known = none)
    (hfailed : ∀ a g, Deed.succeeds a g ∉ deeds) : last.known = none := by
  induction h with
  | nil => exact hknown
  | cons step rest ih =>
    rcases step.of_unknown hknown with ⟨a, g, rfl, -⟩ | ⟨-, hmid⟩
    · exact absurd List.mem_cons_self (hfailed a g)
    · exact ih hmid fun a g hmem => hfailed a g (List.mem_cons_of_mem _ hmem)

theorem resolver_unsettled (h : st.Run ctx deeds last) (hsound : st.Sound ctx) :
    ∀ deed ∈ deeds, ∀ a, deed.resolver? = some a → a.query.settled ctx = false := by
  induction h with
  | nil => nofun
  | cons step rest ih =>
    exact List.forall_mem_cons.mpr
      ⟨fun a ha => step.resolver_unsettled hsound ha, ih (hsound.step step)⟩

end Run

end Sharing

def Deed.replies : Deed → List Reply
  | .asks a (.told g) => [(a.id, .ok g)]
  | .wakes a (.told g) => [(a.id, .ok g)]
  | .succeeds a g => [(a.id, .ok g)]
  | .fails a e => [(a.id, .error e)]
  | _ => []

def Deed.onCache (c : Cache) : Deed → Cache × List Reply
  | .asks a _ => c.ask a.id
  | .succeeds _ g => c.finish (.ok g)
  | .fails _ e => c.finish (.error e)
  | _ => (c, [])

def onCache : List Deed → Cache → Cache × List Reply
  | [], c => (c, [])
  | deed :: rest, c =>
    let (c, told) := deed.onCache c
    let (c, more) := onCache rest c
    (c, told ++ more)

namespace Sharing

variable {ctx : Context} {st st' last : Sharing} {deed : Deed} {deeds : List Deed}

def line (st : Sharing) : List Nat := (st.resolving ++ st.queue).map (·.id)

def cache (st : Sharing) : Cache :=
  match st.known with
  | some g => ⟨some g, none, []⟩
  | none => ⟨none, st.line.head?, st.line.tail⟩

/-- The replies to those who still wait once the permissions are known. -/
def owed (st : Sharing) : List Reply :=
  match st.known with
  | some g => st.queue.map fun a => (a.id, .ok g)
  | none => []

theorem cache_of_known {g : Grants} (h : st.known = some g) : st.cache = ⟨some g, none, []⟩ := by
  rw [cache, h]

theorem cache_of_unknown (h : st.known = none) :
    st.cache = ⟨none, st.line.head?, st.line.tail⟩ := by
  rw [cache, h]

theorem owed_of_unknown (h : st.known = none) : st.owed = [] := by
  rw [owed, h]

theorem ask_line (line : List Nat) (id : Nat) :
    (⟨none, line.head?, line.tail⟩ : Cache).ask id =
      (⟨none, (line ++ [id]).head?, (line ++ [id]).tail⟩, []) := by
  cases line <;> rfl

theorem line_ask (hsound : st.Sound ctx) (hknown : st.known = none) (a : Asker) :
    (st.ask a).1.known = none ∧ (st.ask a).1.line = st.line ++ [a.id] ∧
      Deed.replies (.asks a (st.ask a).2) = [] := by
  rcases ask_of_unknown hknown a with ⟨-, hwaits⟩ | ⟨hfree, hnobody, henters⟩
  · rw [hwaits]
    exact ⟨hknown, by simp [line], rfl⟩
  · rw [henters, enter_of_unknown hknown]
    exact ⟨hknown, by simp [line, hnobody, hsound.resolving_eq_nil hfree], rfl⟩

/-- A cache does what the calls do that stay, and gives the replies that they get, those who still
wait at once. -/
theorem Step.onCache (h : st.Step ctx deed st') (hsound : st.Sound ctx)
    (hstays : ∀ a, deed ≠ .leaves a) :
    (deed.onCache st.cache).1 = st'.cache ∧
      (deed.onCache st.cache).2 ++ st.owed = deed.replies ++ st'.owed := by
  cases h with
  | answer settled => exact ⟨rfl, rfl⟩
  | @ask a unsettled =>
    cases hknown : st.known with
    | some g =>
      rw [ask_of_known hknown, Deed.onCache, cache_of_known hknown]
      exact ⟨rfl, rfl⟩
    | none =>
      obtain ⟨hstill, hline, hreplies⟩ := line_ask hsound hknown a
      rw [Deed.onCache, cache_of_unknown hknown, ask_line, cache_of_unknown hstill, hline, hreplies,
        owed_of_unknown hknown, owed_of_unknown hstill]
      exact ⟨rfl, rfl⟩
  | @wake a rest free first =>
    -- The line stays as it is, and the first who waits gets the reply that is owed.
    obtain ⟨known, locked, queue, resolving⟩ := st
    obtain rfl : queue = a :: rest := first
    obtain rfl : resolving = [] := hsound.resolving_eq_nil free
    cases known <;> exact ⟨rfl, rfl⟩
  | @succeed a resolving g =>
    obtain ⟨honly, -, hknown⟩ := hsound.of_resolving resolving
    have hline : st.line = a.id :: st.queue.map (·.id) := by rw [line, honly]; rfl
    rw [Deed.onCache, cache_of_unknown hknown, hline, owed_of_unknown hknown]
    refine ⟨rfl, ?_⟩
    simp [Cache.finish, Deed.replies, owed]
  | @fail a resolving e =>
    obtain ⟨honly, -, hknown⟩ := hsound.of_resolving resolving
    have hline : st.line = a.id :: st.queue.map (·.id) := by rw [line, honly]; rfl
    rw [Deed.onCache, cache_of_unknown hknown, hline, owed_of_unknown hknown]
    simp [Cache.finish, Deed.replies, owed, cache, hknown, line, honly]
  | leave waiting => exact absurd rfl (hstays _)
  | stop resolving => exact absurd rfl (hstays _)

theorem Run.onCache (h : st.Run ctx deeds last) (hsound : st.Sound ctx)
    (hstay : ∀ a, Deed.leaves a ∉ deeds) :
    (onCache deeds st.cache).1 = last.cache ∧
      ((onCache deeds st.cache).2 ++ st.owed).Perm (deeds.flatMap Deed.replies ++ last.owed) := by
  induction h with
  | nil => exact ⟨rfl, .rfl⟩
  | @cons st mid last deed deeds step rest ih =>
    obtain ⟨hcache, hreplies⟩ := step.onCache hsound fun a ha => hstay a (ha ▸ List.mem_cons_self)
    obtain ⟨hlast, hperm⟩ := ih (hsound.step step) fun a ha => hstay a (List.mem_cons_of_mem _ ha)
    simp only [Dispatch.onCache, hcache, List.flatMap_cons]
    refine ⟨hlast, ?_⟩
    generalize (deed.onCache st.cache).2 = told at hreplies ⊢
    generalize (Dispatch.onCache deeds mid.cache).2 = more at hperm ⊢
    calc told ++ more ++ st.owed
        ~ told ++ st.owed ++ more := by
          simpa only [List.append_assoc] using List.perm_append_comm.append_left told
      _ = deed.replies ++ mid.owed ++ more := by rw [hreplies]
      _ ~ deed.replies ++ (more ++ mid.owed) := by
          simpa only [List.append_assoc] using List.perm_append_comm.append_left deed.replies
      _ ~ deed.replies ++ (deeds.flatMap Deed.replies ++ last.owed) :=
          hperm.append_left deed.replies
      _ = deed.replies ++ deeds.flatMap Deed.replies ++ last.owed := by rw [List.append_assoc]

end Sharing

end Guildhall.Dispatch
