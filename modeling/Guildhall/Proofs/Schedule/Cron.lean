import Guildhall.Proofs.Base
import Guildhall.Proofs.Time.Zone
import Guildhall.Schedule.Cron
import Mathlib.Data.List.Chain
import Mathlib.Order.MinMax

/-!
# Matches of a cron expression come later

The search for a match goes forward on the clock of the wall, and the clocks of a zone can go back.
Whatever they do, the match that is settled on comes after the instant from which it is searched.
-/

namespace Guildhall.Schedule

open Time

namespace Cron

variable {f : Fields} {z : Zone} {after x : Int} {time t : Nat}

theorem le_of_searchFrom {limit : Nat} (h : searchFrom f limit time = .ok (some t)) :
    time ≤ t := by
  fun_induction searchFrom f limit time with
  | case1 time hstay =>
    cases h
    exact Nat.le_refl t
  | case2 time hstop => cases h
  | case3 time later hto hout => cases h
  | case4 time later hto hin hforward ih => exact Nat.le_trans (Nat.le_of_lt hforward.1) (ih h)
  | case5 time later hto hin hnot => cases h

theorem le_of_firstMatch (h : firstMatch f time = .ok (some t)) : time ≤ t := by
  unfold firstMatch at h
  dsimp only at h
  split at h
  · cases h
  · exact le_of_searchFrom h

theorem lt_afterWall (f : Fields) (seconds : Nat) : seconds < afterWall f seconds := by
  unfold afterWall
  split <;> omega

theorem wall_lt_of_le {wall : Int} (h : afterWall f (wall / second).toNat ≤ t) :
    wall < (t : Int) * second := by
  have hlt : (wall / second).toNat < t := Nat.lt_of_lt_of_le (lt_afterWall f _) h
  have hdiv : wall / second < t := by omega
  exact (Int.ediv_lt_iff_lt_mul (by decide)).mp hdiv

theorem le_of_existingMatch {fuel : Nat} (h : existingMatch f z fuel time = .ok (some t)) :
    time ≤ t := by
  induction fuel generalizing time with
  | zero => cases h
  | succ fuel ih =>
    obtain ⟨found, hfound, h⟩ := bind_eq_ok.mp h
    cases found with
    | none => cases h
    | some skipped =>
      have hle := le_of_firstMatch hfound
      dsimp only at h
      split at h
      · have hlater := ih h
        have hnext := lt_afterWall f skipped
        omega
      · cases h
        exact hle

/-- Of several instants the first that comes later is taken, and the last if there is none. -/
theorem laterOf_eq_some {instants : List Int} (h : laterOf after instants = some x) :
    after < x ∨ instants.getLast? = some x := by
  induction instants with
  | nil => cases h
  | cons i rest ih =>
    cases rest with
    | nil => exact .inr h
    | cons other rest =>
      simp only [laterOf] at h
      split at h
      case isTrue hlater =>
        cases h
        exact .inl hlater
      case isFalse =>
        rw [List.getLast?_cons_cons]
        exact ih h

/-- On the way to a match that was found on the old clocks, only later ones are taken. -/
theorem lt_of_between {wall before : Int} (h : between f z wall after before = .ok (some x)) :
    after < x := by
  obtain ⟨found, hfound, h⟩ := bind_eq_ok.mp h
  cases found with
  | none => cases h
  | some t =>
    dsimp only at h
    split at h
    case h_1 => cases h
    case h_2 i hi =>
      split_ifs at h with hwithin
      · cases h
        rw [Bool.and_eq_true, decide_eq_true_eq, decide_eq_true_eq] at hwithin
        exact hwithin.1
      · cases h

variable (known : z ∈ Zone.known)

include known

theorem lt_of_wall_lt (hlt : z.wallAt after < (t : Int) * second)
    (h : laterOf after (instantsAt z t) = some x) : after < x := by
  rcases laterOf_eq_some h with hlater | hlast
  · exact hlater
  · exact Zone.lt_last_of_known known hlt hlast

/-- Whatever becomes of a match that is later on the wall, it comes later. -/
theorem lt_of_settle (hlt : z.wallAt after < (t : Int) * second)
    (h : settle f z after t = .ok (some x)) : after < x := by
  unfold settle at h
  dsimp only at h
  split at h
  · exact lt_of_wall_lt known hlt (Except.ok.inj h)
  · split at h
    case h_1 moved hmoved =>
      split at h
      case isTrue =>
        obtain ⟨found, hfound, h⟩ := bind_eq_ok.mp h
        cases found with
        | none => cases h
        | some next =>
          have hnext : t < next :=
            Nat.lt_of_lt_of_le (lt_afterWall f t) (le_of_existingMatch hfound)
          have hwall : (t : Int) * second < next * second :=
            Int.mul_lt_mul_of_pos_right (by omega) (by decide)
          exact lt_of_wall_lt known (hlt.trans hwall) (Except.ok.inj h)
      case isFalse hahead =>
        cases h
        rw [Bool.or_eq_true, decide_eq_true_eq, not_or] at hahead
        exact Int.not_le.mp hahead.2
    case h_2 => cases h

theorem lt_of_nextOf (h : nextOf f z after = .ok (some x)) : after < x := by
  obtain ⟨found, hfound, h⟩ := bind_eq_ok.mp h
  cases found with
  | none => cases h
  | some t =>
    have hlt := wall_lt_of_le (le_of_firstMatch hfound)
    obtain ⟨settled, hsettled, h⟩ := bind_eq_ok.mp h
    cases settled with
    | none => cases h
    | some i =>
      have hlater := lt_of_settle known hlt hsettled
      dsimp only at h
      split at h
      · cases h
        exact hlater
      · obtain ⟨early, hearly, h⟩ := bind_eq_ok.mp h
        cases early with
        | none =>
          cases h
          exact hlater
        | some i' =>
          cases h
          exact lt_of_between hearly

theorem lt_of_next (h : next f z after = .ok (some x)) : after < x := by
  unfold next at h
  split at h
  · obtain ⟨byDay, hday, h⟩ := bind_eq_ok.mp h
    obtain ⟨byWeekday, hweekday, h⟩ := bind_eq_ok.mp h
    have hearlier : earlier byDay byWeekday = some x := Except.ok.inj h
    cases byDay with
    | none =>
      rw [earlier] at hearlier
      exact lt_of_nextOf known (hearlier ▸ hweekday)
    | some i =>
      cases byWeekday with
      | none =>
        cases hearlier
        exact lt_of_nextOf known hday
      | some j =>
        cases hearlier
        exact lt_min (lt_of_nextOf known hday) (lt_of_nextOf known hweekday)
  · exact lt_of_nextOf known h

end Cron

theorem mem_known_of_readZone {v : Value} {z : Zone} {explicit : Bool}
    (h : readZone v = .ok (z, explicit)) : z ∈ Zone.known := by
  unfold readZone at h
  split at h
  case h_1 =>
    cases h
    decide
  case h_2 key =>
    unfold zoneOfKey at h
    split at h
    case h_1 found hkey =>
      cases h
      exact Zone.mem_known_of_ofKey hkey
    all_goals cases h
  case h_3 => cases h

namespace CronSchedule

variable {c : CronSchedule} {previous now r : Moment}

inductive Built : CronSchedule → Prop
  | make {expression zone : Value} {c : CronSchedule} (made : make expression zone = .ok c) :
      Built c
  | inZone {c c' : CronSchedule} {zone : Value} (built : Built c)
      (moved : c.useDefaultZone zone = .ok c') : Built c'

theorem Built.known (built : c.Built) : c.zone ∈ Zone.known := by
  induction built with
  | @make expression zone c made =>
    unfold CronSchedule.make at made
    split at made
    case h_1 text =>
      split at made
      case h_1 => cases made
      case h_2 fields hparse =>
        obtain ⟨⟨zone, explicit⟩, hzone, made⟩ := bind_eq_ok.mp made
        cases made
        exact mem_known_of_readZone hzone
    case h_2 => cases made
  | @inZone c c' zone built moved ih =>
    unfold useDefaultZone at moved
    split at moved
    · cases moved
      exact ih
    · obtain ⟨⟨zone, explicit⟩, hzone, moved⟩ := bind_eq_ok.mp moved
      cases moved
      exact mem_known_of_readZone hzone

theorem lt_of_nextMatch (known : c.zone ∈ Zone.known) {after : Int}
    (h : c.nextMatch after = .ok r) : after < r.instant := by
  unfold nextMatch at h
  dsimp only at h
  split at h
  · cases h
  obtain ⟨found, hfound, h⟩ := bind_eq_ok.mp h
  cases found with
  | none => cases h
  | some x =>
    dsimp only at h
    split at h
    · cases h
      rw [Moment.instant_utc]
      exact Cron.lt_of_next known hfound
    · cases h

theorem Built.lt_of_nextAfter (built : c.Built) (h : c.nextAfter previous now = .ok r) :
    previous.instant < r.instant ∧ now.instant < r.instant :=
  max_lt_iff.mp (lt_of_nextMatch built.known h)

/-- Runs of which each is the next one after the one before it never come back to an instant. -/
theorem Built.increasing (built : c.Built) {runs : List Moment}
    (h : runs.IsChain fun r r' => c.nextAfter r r = .ok r') :
    runs.Pairwise fun r r' => r.instant < r'.instant := by
  have hsteps : runs.IsChain fun r r' => r.instant < r'.instant :=
    h.imp fun r r' hnext => (built.lt_of_nextAfter hnext).1
  have htrans : IsTrans Moment fun r r' => r.instant < r'.instant :=
    ⟨fun _ _ _ => Int.lt_trans⟩
  exact List.isChain_iff_pairwise.mp hsteps

end CronSchedule

end Guildhall.Schedule
