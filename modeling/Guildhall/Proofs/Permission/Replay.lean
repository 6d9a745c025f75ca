import Guildhall.Proofs.Permission.Store
import Mathlib.Data.List.Induction

/-!
# Stores and their histories

A store that has gone through a sequence of changes answers by the last word of the changes on each
role, grant and override.
-/

namespace Guildhall.Permission

def Store.replay (writes : List Write) : Store := writes.foldl Store.after .empty

def lastWord {α : Type} (word : Write → Option α) (writes : List Write) : Option α :=
  writes.reverse.findSome? word

theorem lastWord_concat {α : Type} (word : Write → Option α) (writes : List Write) (w : Write) :
    lastWord word (writes ++ [w]) = (word w).or (lastWord word writes) := by
  simp [lastWord, List.findSome?_cons]
  cases word w <;> rfl

theorem lastWord_skip {α : Type} {word : Write → Option α} {w : Write} (h : word w = none)
    (before later : List Write) :
    lastWord word (before ++ w :: later) = lastWord word (before ++ later) := by
  simp [lastWord, List.findSome?_append, h]

theorem lastWord_map {α : Type} {word : Write → Option α} {write : Node → Write} {said : Option α}
    {n : Node} {nodes : List Node}
    (h : ∀ m ∈ nodes, word (write m) = if m = n then said else none) :
    lastWord word (nodes.map write) = if n ∈ nodes then said else none := by
  induction nodes using List.reverseRecOn with
  | nil => simp [lastWord]
  | append_singleton nodes m ih =>
    rw [List.map_append, List.map_singleton, lastWord_concat, h m (by simp),
      ih fun other hother => h other (by simp [hother])]
    by_cases heq : m = n
    · cases said <;> simp [heq]
    · simp [heq, Ne.symm heq]

namespace Write

def rolesFor (guild user : String) : Write → Option (List String)
  | setMemberRoles g u roles => if g = guild ∧ u = user then some roles else none
  | _ => none

def grantFor (guild role : String) (n : Node) : Write → Option Bool
  | grantRole g r text =>
    if g = guild ∧ r = role ∧ Node.parse text = .ok n then some true else none
  | revokeRole g r text =>
    if g = guild ∧ r = role ∧ Node.parse text = .ok n then some false else none
  | _ => none

def overrideFor (guild user : String) (n : Node) : Write → Option (Option Bool)
  | setOverride g u text allow =>
    if g = guild ∧ u = user ∧ Node.parse text = .ok n then some (some allow) else none
  | clearOverride g u text =>
    if g = guild ∧ u = user ∧ Node.parse text = .ok n then some none else none
  | _ => none

/-- Whether a change is about another guild, or about another member of the guild. -/
def Elsewhere (guild user : String) : Write → Prop
  | setMemberRoles g u _ => g ≠ guild ∨ u ≠ user
  | grantRole g _ _ => g ≠ guild
  | revokeRole g _ _ => g ≠ guild
  | setOverride g u _ _ => g ≠ guild ∨ u ≠ user
  | clearOverride g u _ => g ≠ guild ∨ u ≠ user

/-- Whether a change says nothing that matters for a member of a guild. -/
def Silent (w : Write) (guild user : String) : Prop :=
  w.rolesFor guild user = none ∧ (∀ role n, w.grantFor guild role n = none) ∧
    ∀ n, w.overrideFor guild user n = none

theorem silent_of_malformed {w : Write} {fault : Malformed} (h : w.canonical = .error fault)
    (guild user : String) : w.Silent guild user := by
  have hparse {text : String} {f : Node → Write} {n : Node}
      (h : (Node.parse text >>= fun m => .ok (f m)) = .error fault) : Node.parse text ≠ .ok n := by
    intro hn
    rw [hn] at h
    cases h
  cases w with
  | setMemberRoles g u roles => cases h
  | grantRole g r text => simp [Silent, rolesFor, grantFor, overrideFor, hparse h]
  | revokeRole g r text => simp [Silent, rolesFor, grantFor, overrideFor, hparse h]
  | setOverride g u text allow => simp [Silent, rolesFor, grantFor, overrideFor, hparse h]
  | clearOverride g u text => simp [Silent, rolesFor, grantFor, overrideFor, hparse h]

theorem silent_of_elsewhere {w : Write} {guild user : String} (h : w.Elsewhere guild user) :
    w.Silent guild user := by
  cases w with
  | setMemberRoles g u roles =>
    have hplace : ¬ (g = guild ∧ u = user) := fun hp => h.elim (· hp.1) (· hp.2)
    simp [Silent, rolesFor, grantFor, overrideFor, hplace]
  | grantRole g r text =>
    have hg : g ≠ guild := h
    simp [Silent, rolesFor, grantFor, overrideFor, hg]
  | revokeRole g r text =>
    have hg : g ≠ guild := h
    simp [Silent, rolesFor, grantFor, overrideFor, hg]
  | setOverride g u text allow =>
    have hplace : ¬ (g = guild ∧ u = user) := fun hp => h.elim (· hp.1) (· hp.2)
    simp [Silent, rolesFor, grantFor, overrideFor, ← and_assoc, hplace]
  | clearOverride g u text =>
    have hplace : ¬ (g = guild ∧ u = user) := fun hp => h.elim (· hp.1) (· hp.2)
    simp [Silent, rolesFor, grantFor, overrideFor, ← and_assoc, hplace]

end Write

/-- Some role that the member was last given has an identifier that covers `n` and was last
granted, not revoked. -/
def GrantedAfter (writes : List Write) (guild user : String) (n : Node) : Prop :=
  ∃ roles, lastWord (Write.rolesFor guild user) writes = some roles ∧
    ∃ role ∈ roles, ∃ held, lastWord (Write.grantFor guild role held) writes = some true ∧
      held.covers n = true

/-- Some identifier that covers `n` was last given the decision for the member, and not cleared
since. -/
def OverriddenAfter (writes : List Write) (guild user : String) (allow : Bool) (n : Node) : Prop :=
  ∃ held, lastWord (Write.overrideFor guild user held) writes = some (some allow) ∧
    held.covers n = true

/-- The member holds `n` by what was last said. -/
def HeldAfter (writes : List Write) (guild user : String) (n : Node) : Prop :=
  (GrantedAfter writes guild user n ∨ OverriddenAfter writes guild user true n) ∧
    ¬ OverriddenAfter writes guild user false n

namespace Store

theorem mem_memberRoles_after (s : Store) (w : Write) (guild user role : String) :
    role ∈ (s.after w).memberRoles guild user ↔
      role ∈ (w.rolesFor guild user).getD (s.memberRoles guild user) := by
  cases h : w.canonical with
  | error fault =>
    rw [after_of_malformed h, (Write.silent_of_malformed h guild user).1, Option.getD_none]
  | ok changed =>
    rw [after_of_canonical h, memberRoles_apply]
    cases Write.named_of_canonical h with
    | setMemberRoles g u roles =>
      simp only [Write.rolesFor]
      split <;> simp
    | _ => rfl

theorem mem_rolePermissions_after (s : Store) (w : Write) (guild role : String) (n : Node) :
    n.value ∈ (s.after w).rolePermissions guild role ↔
      match w.grantFor guild role n with
      | some granted => granted = true
      | none => n.value ∈ s.rolePermissions guild role := by
  have hvalue {m : Node} : n.value = m.value ↔ m = n :=
    ⟨fun h => (Node.eq_of_value h).symm, fun h => h ▸ rfl⟩
  cases h : w.canonical with
  | error fault =>
    rw [after_of_malformed h, (Write.silent_of_malformed h guild role).2.1]
  | ok changed =>
    rw [after_of_canonical h, rolePermissions_apply]
    cases Write.named_of_canonical h with
    | @grantRole g r text m hm =>
      simp only [Write.grantFor, hm, Except.ok.injEq]
      by_cases hplace : g = guild ∧ r = role <;> by_cases hmn : m = n <;>
        simp [hplace, hvalue, hmn]
    | @revokeRole g r text m hm =>
      simp only [Write.grantFor, hm, Except.ok.injEq]
      by_cases hplace : g = guild ∧ r = role <;> by_cases hmn : m = n <;>
        simp [hplace, hvalue, hmn]
    | _ => rfl

theorem lookup_overrideEntries_after (s : Store) (w : Write) (guild user : String) (n : Node) :
    ((s.after w).overrideEntries guild user).lookup n.value =
      (w.overrideFor guild user n).getD ((s.overrideEntries guild user).lookup n.value) := by
  have hvalue {m : Node} : n.value = m.value ↔ m = n :=
    ⟨fun h => (Node.eq_of_value h).symm, fun h => h ▸ rfl⟩
  cases h : w.canonical with
  | error fault =>
    rw [after_of_malformed h, (Write.silent_of_malformed h guild user).2.2, Option.getD_none]
  | ok changed =>
    rw [after_of_canonical h, overrideEntries_apply]
    cases Write.named_of_canonical h with
    | @setOverride g u allow text m hm =>
      simp only [Write.overrideFor, hm, Except.ok.injEq]
      by_cases hplace : g = guild ∧ u = user <;> by_cases hmn : m = n <;>
        simp [hplace, hvalue, hmn, Assoc.lookup_put]
    | @clearOverride g u text m hm =>
      simp only [Write.overrideFor, hm, Except.ok.injEq]
      by_cases hplace : g = guild ∧ u = user <;> by_cases hmn : m = n <;>
        simp [hplace, hvalue, hmn, Assoc.lookup_remove]
    | _ => rfl

/-! What a sequence of changes leaves behind is its last word, and what was there where it has
none. -/

theorem mem_memberRoles_foldl (s : Store) (writes : List Write) (guild user role : String) :
    role ∈ (writes.foldl after s).memberRoles guild user ↔
      role ∈ (lastWord (Write.rolesFor guild user) writes).getD (s.memberRoles guild user) := by
  induction writes using List.reverseRecOn with
  | nil => simp [lastWord]
  | append_singleton writes w ih =>
    rw [List.foldl_concat, mem_memberRoles_after, lastWord_concat]
    cases w.rolesFor guild user with
    | none => simpa using ih
    | some roles => simp

theorem mem_rolePermissions_foldl (s : Store) (writes : List Write) (guild role : String)
    (n : Node) :
    n.value ∈ (writes.foldl after s).rolePermissions guild role ↔
      match lastWord (Write.grantFor guild role n) writes with
      | some granted => granted = true
      | none => n.value ∈ s.rolePermissions guild role := by
  induction writes using List.reverseRecOn with
  | nil => simp [lastWord]
  | append_singleton writes w ih =>
    rw [List.foldl_concat, mem_rolePermissions_after, lastWord_concat]
    cases w.grantFor guild role n with
    | none => simpa using ih
    | some granted => simp

theorem lookup_overrideEntries_foldl (s : Store) (writes : List Write) (guild user : String)
    (n : Node) :
    ((writes.foldl after s).overrideEntries guild user).lookup n.value =
      (lastWord (Write.overrideFor guild user n) writes).getD
        ((s.overrideEntries guild user).lookup n.value) := by
  induction writes using List.reverseRecOn with
  | nil => simp [lastWord]
  | append_singleton writes w ih =>
    rw [List.foldl_concat, lookup_overrideEntries_after, lastWord_concat]
    cases w.overrideFor guild user n with
    | none => simpa using ih
    | some decision => simp

theorem replay_concat (writes : List Write) (w : Write) :
    replay (writes ++ [w]) = (replay writes).after w := by
  simp [replay]

theorem canonical_replay (writes : List Write) : (replay writes).Canonical := by
  induction writes using List.reverseRecOn with
  | nil => exact canonical_empty
  | append_singleton writes w ih =>
    rw [replay_concat]
    exact ih.after w

theorem mem_memberRoles_replay (writes : List Write) (guild user role : String) :
    role ∈ (replay writes).memberRoles guild user ↔
      ∃ roles, lastWord (Write.rolesFor guild user) writes = some roles ∧ role ∈ roles := by
  rw [replay, mem_memberRoles_foldl]
  cases lastWord (Write.rolesFor guild user) writes with
  | none => simp [memberRoles, Store.guild, empty, GuildRecord.empty]
  | some roles => simp

theorem mem_rolePermissions_replay (writes : List Write) (guild role : String) (n : Node) :
    n.value ∈ (replay writes).rolePermissions guild role ↔
      lastWord (Write.grantFor guild role n) writes = some true := by
  rw [replay, mem_rolePermissions_foldl]
  cases lastWord (Write.grantFor guild role n) writes with
  | none => simp [rolePermissions, Store.guild, empty, GuildRecord.empty]
  | some granted => simp

theorem lookup_overrideEntries_replay (writes : List Write) (guild user : String) (n : Node) :
    ((replay writes).overrideEntries guild user).lookup n.value =
      (lastWord (Write.overrideFor guild user n) writes).join := by
  rw [replay, lookup_overrideEntries_foldl]
  cases lastWord (Write.overrideFor guild user n) writes with
  | none => simp [overrideEntries, Store.guild, empty, GuildRecord.empty]
  | some decision => simp

theorem holds_replay_iff (writes : List Write) (guild user : String) (n : Node) :
    (replay writes).Holds guild user n ↔ HeldAfter writes guild user n := by
  have hover (allow : Bool) : (replay writes).Overridden guild user allow n ↔
      OverriddenAfter writes guild user allow n := by
    simp only [Overridden, OverriddenAfter, lookup_overrideEntries_replay, Option.join_eq_some_iff]
  have hgrant : (replay writes).GrantedByRole guild user n ↔ GrantedAfter writes guild user n := by
    simp only [GrantedByRole, GrantedAfter, mem_memberRoles_replay, mem_rolePermissions_replay]
    constructor
    · rintro ⟨role, ⟨roles, hroles, hmem⟩, hheld⟩
      exact ⟨roles, hroles, role, hmem, hheld⟩
    · rintro ⟨roles, hroles, role, hmem, hheld⟩
      exact ⟨role, ⟨roles, hroles, hmem⟩, hheld⟩
  rw [Holds, HeldAfter, hgrant, hover, hover]

theorem replay_skip (before later : List Write) {w : Write}
    (h : (replay before).after w = replay before) :
    replay (before ++ w :: later) = replay (before ++ later) := by
  unfold replay at h ⊢
  rw [List.foldl_append, List.foldl_cons, h, List.foldl_append]

/-- A change that says nothing for a member leaves open what they hold. -/
theorem heldAfter_skip {w : Write} {guild user : String} (h : w.Silent guild user)
    (before later : List Write) (n : Node) :
    HeldAfter (before ++ w :: later) guild user n ↔ HeldAfter (before ++ later) guild user n := by
  obtain ⟨hroles, hgrant, hover⟩ := h
  simp only [HeldAfter, GrantedAfter, OverriddenAfter, lastWord_skip hroles,
    lastWord_skip (hgrant _ _), lastWord_skip (hover _)]

/-- After any history a store answers by the last word on each role, grant and override: whether a
member holds an identifier, and whether there is an override to clear. Changes elsewhere do not
change the answer, and changes with a malformed identifier fail and change nothing. -/
theorem answers_by_last_word (writes : List Write) (guild user text : String) {n : Node}
    (hn : Node.parse text = .ok n) :
    (∃ held, Access.memory.ask (.holds (some guild) user text) (replay writes) =
        (.ok (.held held), replay writes) ∧ (held = true ↔ HeldAfter writes guild user n)) ∧
      (Access.memory.ask (.change (.clearOverride guild user text)) (replay writes)).1 =
        .ok (.cleared (lastWord (Write.overrideFor guild user n) writes).join.isSome) ∧
      (∀ before w later, writes = before ++ w :: later → w.Elsewhere guild user →
        (Access.memory.ask (.holds (some guild) user text) (replay writes)).1 =
          (Access.memory.ask (.holds (some guild) user text) (replay (before ++ later))).1) ∧
      ∀ before w later fault, writes = before ++ w :: later → w.canonical = .error fault →
        Access.memory.ask (.change w) (replay before) = (.error fault.failure, replay before) ∧
          replay writes = replay (before ++ later) := by
  have hanswer (history : List Write) : ∃ held,
      Access.memory.ask (.holds (some guild) user text) (replay history) =
        (.ok (.held held), replay history) ∧ (held = true ↔ HeldAfter history guild user n) := by
    obtain ⟨held, hask, hiff⟩ := (canonical_replay history).ask_holds guild user hn
    exact ⟨held, hask, hiff.trans (holds_replay_iff history guild user n)⟩
  refine ⟨hanswer writes, ?_, ?_, ?_⟩
  · simp [Access.ask, answered, Access.memory, write, Write.canonical, hn, bind, Except.bind, pure,
      Except.pure, Write.answer, apply_clearOverride, lookup_overrideEntries_replay]
  · rintro before w later rfl helse
    obtain ⟨held, hask, hiff⟩ := hanswer (before ++ w :: later)
    obtain ⟨other, hother, hiff'⟩ := hanswer (before ++ later)
    have hsame : held = other := by
      rw [Bool.eq_iff_iff, hiff, hiff', heldAfter_skip (Write.silent_of_elsewhere helse)]
    rw [hask, hother, hsame]
  · rintro before w later fault rfl hfault
    refine ⟨?_, replay_skip before later (after_of_malformed hfault)⟩
    simp [Access.ask, answered, Access.memory, write, hfault, bind, Except.bind]

/-- What a role grants by a wildcard is held again once the deny against it is cleared. -/
theorem held_after_clearing :
    let kick : Node := ⟨"admin.kick", by decide⟩
    let writes : List Write := [.setMemberRoles "1" "42" ["mod", "mod"],
      .grantRole "1" "mod" "Admin.*", .setOverride "1" "42" "admin.kick" false,
      .clearOverride "1" "42" " ADMIN.KICK "]
    Node.parse "Admin.Kick" = .ok kick ∧ HeldAfter writes "1" "42" kick := by
  intro kick writes
  have hn : Node.parse "Admin.Kick" = .ok kick := by decide +kernel
  obtain ⟨⟨held, hask, hiff⟩, -⟩ := answers_by_last_word writes "1" "42" "Admin.Kick" hn
  have htold : ((Source.memory.resolve (some "1") "42" (replay writes)).1.toOption.bind
      fun g => (g.hasText "Admin.Kick").toOption) = some true := by decide +kernel
  have hheld : held = true := by
    unfold Access.ask at hask
    dsimp only at hask
    split at hask
    case h_1 g s hresolve =>
      rw [show Source.memory.resolve (some "1") "42" (replay writes) = (.ok g, s) from hresolve]
        at htold
      cases htext : g.hasText "Admin.Kick" with
      | error fault => simp [htext, Except.toOption] at htold
      | ok answer => simp_all [orFailure, Except.map, Except.toOption]
    case h_2 e s hresolve => simp at hask
  exact ⟨hn, hiff.mp hheld⟩

end Store

end Guildhall.Permission
