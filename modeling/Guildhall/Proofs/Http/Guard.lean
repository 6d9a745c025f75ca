import Guildhall.Http.Api
import Mathlib.Tactic.Common

/-!
# Who may pass

Unless its path is public, a request has to bring the administration secret. What it brings is
compared with the secret as a text of seven-bit characters. Where one of the two has another
character the comparison fails, and so does the request, whether it brings the secret or not.
-/

namespace Guildhall.Http

def bearer (secret : String) : String := "Bearer " ++ secret

theorem isAscii_bearer (secret : String) : isAscii (bearer secret) = isAscii secret := by
  have hscheme : ("Bearer ".toList.all fun c => c.toNat < 128) = true := by decide
  rw [isAscii, bearer, String.toList_append, List.all_append, hscheme, Bool.true_and, isAscii]

theorem bearer_ne_empty (secret : String) : bearer secret ≠ "" := by
  simp [bearer, ← String.toList_inj]

/-- A request may pass if it brings just what it has to bring; one that brings nothing may not. -/
theorem authorised_eq {secret path : String} (hsecret : secret ≠ "") (hpath : path ∉ publicPaths)
    (given : Option String) : authorised secret path given =
      if given.all isAscii && isAscii secret then .ok (decide (given = some (bearer secret)))
      else .error .wrongType := by
  have hclosed : (secret.isEmpty || publicPaths.contains path) = false := by
    simp [hsecret, hpath]
  have hbearer : isAscii ("Bearer " ++ secret) = isAscii secret := isAscii_bearer secret
  rw [authorised, hclosed, if_neg Bool.false_ne_true]
  dsimp only
  rw [hbearer]
  cases given with
  | none =>
    have hempty : isAscii "" = true := rfl
    have hne : ("" == "Bearer " ++ secret) = false :=
      beq_eq_false_iff_ne.mpr (bearer_ne_empty secret).symm
    rw [Option.getD_none, hempty, hne]
    simp
  | some text =>
    simp only [Option.getD_some, Option.all_some, Option.some.injEq]
    rfl

section Guarded

variable {σ : Type} (handler : Request → σ → Except Failure Response × σ) (s : σ)
  {secret : String} {r : Request}

theorem guarded_of_public (h : r.path ∈ publicPaths) :
    guarded secret handler r s = handler r s := by
  have hopen : authorised secret r.path r.authorization = .ok true := by simp [authorised, h]
  rw [guarded, hopen]

theorem guarded_of_ascii (hsecret : secret ≠ "") (hpath : r.path ∉ publicPaths)
    (ascii : isAscii secret = true) (plain : r.authorization.all isAscii = true) :
    guarded secret handler r s =
      if r.authorization = some (bearer secret) then handler r s else (.ok unauthorised, s) := by
  rw [guarded, authorised_eq hsecret hpath, plain, ascii, Bool.true_and, if_pos rfl]
  by_cases hbearer : r.authorization = some (bearer secret)
  · simp [hbearer]
  · simp [hbearer]

theorem guarded_of_not_ascii (hsecret : secret ≠ "") (hpath : r.path ∉ publicPaths)
    (h : isAscii secret = false ∨ r.authorization.all isAscii = false) :
    guarded secret handler r s = (.error .wrongType, s) := by
  have hfails : (r.authorization.all isAscii && isAscii secret) = false := by
    rw [Bool.and_eq_false_iff]
    exact h.symm
  rw [guarded, authorised_eq hsecret hpath, hfails, if_neg Bool.false_ne_true]

end Guarded

/-- A request for a public path passes. Any other passes exactly if it brings the secret, and is
refused without being handled if it does not, where both the secret and what it brings have
seven-bit characters only. Where one of them has another character, it fails and is not handled,
even if it brings the secret. -/
theorem open_to_holders_in_ascii {σ : Type} {secret : String} (hsecret : secret ≠ "")
    (handler : Request → σ → Except Failure Response × σ) (r : Request) (s : σ) :
    (r.path ∈ publicPaths → guarded secret handler r s = handler r s) ∧
      (r.path ∉ publicPaths → isAscii secret = true → r.authorization.all isAscii = true →
        guarded secret handler r s =
          if r.authorization = some (bearer secret) then handler r s
          else (.ok unauthorised, s)) ∧
      (r.path ∉ publicPaths → isAscii secret = false ∨ r.authorization.all isAscii = false →
        guarded secret handler r s = (.error .wrongType, s)) :=
  ⟨guarded_of_public handler s, guarded_of_ascii handler s hsecret,
    guarded_of_not_ascii handler s hsecret⟩

def commandsRequest (given : Option String) : Request := ⟨"GET", "/api/commands", given, []⟩

def counting (_ : Request) (handled : Nat) : Except Failure Response × Nat :=
  (.ok (.refusal 404 "404: Not Found" none), handled + 1)

/-- A holder of the secret passes, who brings nothing is refused, and a letter beyond seven bits
makes the request fail. -/
theorem commands_for_holders :
    (guarded "s3cret" counting (commandsRequest (some "Bearer s3cret")) 0).2 = 1 ∧
      guarded "s3cret" counting (commandsRequest none) 0 = (.ok unauthorised, 0) ∧
      guarded "s3cret" counting (commandsRequest (some "Bearer é")) 0 = (.error .wrongType, 0) := by
  have hsecret : "s3cret" ≠ "" := by decide
  have hpath : "/api/commands" ∉ publicPaths := by decide
  refine ⟨?_, ?_, ?_⟩
  · rw [(open_to_holders_in_ascii hsecret counting _ 0).2.1 hpath (by decide) (by decide),
      if_pos (by decide)]
    rfl
  · rw [(open_to_holders_in_ascii hsecret counting _ 0).2.1 hpath (by decide) (by decide),
      if_neg (by decide)]
  · exact (open_to_holders_in_ascii hsecret counting _ 0).2.2 hpath (.inr (by decide))

/-- A secret with a letter beyond seven bits keeps its holders out. -/
theorem holder_of_an_umlaut_locked_out :
    ¬ ∀ (secret : String) (handler : Request → Nat → Except Failure Response × Nat) (r : Request)
      (s : Nat), secret ≠ "" → guarded secret handler r s =
        if r.path ∈ publicPaths ∨ r.authorization = some (bearer secret) then handler r s
        else (.ok unauthorised, s) := by
  intro hopen
  have hsecret : "schlüssel" ≠ "" := by decide
  have hpasses := hopen "schlüssel" counting (commandsRequest (some "Bearer schlüssel")) 0 hsecret
  rw [guarded_of_not_ascii counting 0 hsecret (by decide) (.inl (by decide)),
    if_pos (.inr (by decide))] at hpasses
  cases hpasses

end Guildhall.Http
