import Guildhall.Proofs.Job.Stop
import Guildhall.Simulation.Clockwork

/-!
# The clockwork as a history

Whatever the workers and the loop do in virtual time, the scheduler takes steps that a scheduler may
take, and when the clockwork stops, the scheduler goes through a stop.
-/

namespace Guildhall.Job

variable {ε : Type}

namespace Scheduler

theorem Awaits.trans {s s' s'' : Scheduler ε} {first second : List Completion}
    (h : s.Awaits first s') (h' : s'.Awaits second s'') : s.Awaits (first ++ second) s'' := by
  induction h' with
  | here => simpa using h
  | add before added ih => exact ih.add added
  | take before free took ih => exact ih.take free took
  | finish before active duration result ih =>
    rw [← List.append_assoc]
    exact ih.finish active duration result

theorem Look.active {s s' : Scheduler ε} {now : Time.Moment} {e : Entry} {rest : List Entry}
    {result : Except Failure (Option Claim)} (look : s.Look now e rest result s') :
    s'.active = s.active := by
  cases look with
  | dropped stale => rfl
  | failed => rfl
  | skipped next job state => exact reschedule_active
  | claimed next job state => exact reschedule_active

end Scheduler

namespace History

open Relation (ReflTransGen)

theorem steps_drained (h : History ε) : ReflTransGen Step h h.drained := by
  cases hinbox : h.scheduler.inbox with
  | nil => rw [drained_nil hinbox]
  | cons m rest =>
    have hrest : (h.handled m rest).scheduler.inbox = rest := (Scheduler.handle_apart m).1
    rw [drained_cons hinbox]
    exact (steps_drained (h.handled m rest)).head (.handle hinbox)
termination_by h.scheduler.inbox.length
decreasing_by simp [hrest, hinbox]

theorem moves_of_steps {h h' : History ε} (steps : ReflTransGen Step h h') :
    ReflTransGen Move h h' :=
  steps.lift id fun _ _ => .step

theorem Lived.moves {h h' : History ε} (hl : h.Lived) (moves : ReflTransGen Move h h') :
    h'.Lived := by
  induction moves with
  | refl => exact hl
  | tail before move ih => exact ih.move move

end History

end Guildhall.Job

namespace Guildhall.Simulation.Clockwork

open Job (Claim Completion History Run Scheduler)
open Relation (ReflTransGen)

variable {c c' c'' : Clockwork} {s : Scheduler (List Plan)}

def Timed (c : Clockwork) : Prop := c.timers.map (·.run) = c.scheduler.active

theorem Timed.filter (hc : c.Timed) (p : Run → Bool) :
    (c.timers.filter fun t => p t.run).map (·.run) = c.scheduler.active.filter p := by
  rw [← hc, List.filter_map]
  rfl

theorem wakeLoop_eq (c : Clockwork) :
    c.wakeLoop.scheduler = c.scheduler ∧ c.wakeLoop.timers = c.timers ∧
      c.wakeLoop.events = c.events ∧ (c.loop = .absent → c.wakeLoop.loop = .absent) := by
  unfold wakeLoop
  split <;> simp_all

theorem wakeWorkers_eq (claims : List Claim) (c : Clockwork) :
    (c.wakeWorkers claims).scheduler = c.scheduler ∧ (c.wakeWorkers claims).timers = c.timers ∧
      (c.wakeWorkers claims).events = c.events := by
  have hone (c : Clockwork) : c.wakeWorker.scheduler = c.scheduler ∧
      c.wakeWorker.timers = c.timers ∧ c.wakeWorker.events = c.events := by
    unfold wakeWorker
    split <;> exact ⟨rfl, rfl, rfl⟩
  induction claims generalizing c with
  | nil => exact ⟨rfl, rfl, rfl⟩
  | cons claim rest ih =>
    obtain ⟨hscheduler, htimers, hevents⟩ := hone c
    obtain ⟨hscheduler', htimers', hevents'⟩ := ih c.wakeWorker
    exact ⟨hscheduler'.trans hscheduler, htimers'.trans htimers, hevents'.trans hevents⟩

structure Works (c c' : Clockwork) : Prop where
  awaits : ∃ finished, c.scheduler.Awaits finished c'.scheduler
  timed : c'.Timed
  events : c'.events = c.events
  absent : c.loop = .absent → c'.loop = .absent

namespace Works

theorem of_same (hscheduler : c'.scheduler = c.scheduler) (htimers : c'.timers = c.timers)
    (hevents : c'.events = c.events) (hloop : c.loop = .absent → c'.loop = .absent)
    (hc : c.Timed) : Works c c' where
  awaits := ⟨[], hscheduler ▸ .here⟩
  timed := by rw [Timed, htimers, hscheduler, hc]
  events := hevents
  absent := hloop

theorem refl (hc : c.Timed) : Works c c := .of_same rfl rfl rfl id hc

theorem trans (h : Works c c') (h' : Works c' c'') : Works c c'' where
  awaits := by
    obtain ⟨first, hfirst⟩ := h.awaits
    obtain ⟨second, hsecond⟩ := h'.awaits
    exact ⟨first ++ second, hfirst.trans hsecond⟩
  timed := h'.timed
  events := h'.events.trans h.events
  absent hloop := h'.absent (h.absent hloop)

end Works

theorem endRun_eq (t : Timer) (c : Clockwork) :
    (c.endRun t).scheduler = c.scheduler.finish t.run
        (Time.secondsOf (Int.ofNat c.now - Int.ofNat t.begun)) t.result ∧
      (c.endRun t).timers = c.timers.filter (fun other => other.run.worker ≠ t.run.worker) ∧
      (c.endRun t).events = c.events ∧ (c.loop = .absent → (c.endRun t).loop = .absent) :=
  wakeLoop_eq _

theorem endRun_works {t : Timer} (hc : c.Timed) (ht : t ∈ c.timers) : Works c (c.endRun t) := by
  obtain ⟨hscheduler, htimers, hevents, hloop⟩ := endRun_eq t c
  have hactive : t.run ∈ c.scheduler.active := hc ▸ List.mem_map_of_mem ht
  refine ⟨⟨_, hscheduler ▸ Scheduler.Awaits.finish .here hactive _ _⟩, ?_, hevents, hloop⟩
  rw [Timed, htimers, hscheduler]
  exact hc.filter fun run => decide (run.worker ≠ t.run.worker)

theorem beginRun_eq (run : Run) (c : Clockwork) :
    ((beginRun run c).1.scheduler = c.scheduler ∧ (beginRun run c).1.timers = c.timers ∧
      (beginRun run c).1.events = c.events ∧ (beginRun run c).1.loop = c.loop) ∧
      (beginRun run c).2.run = run := ⟨⟨rfl, rfl, rfl, rfl⟩, rfl⟩

theorem take_active {worker : Nat} {now : Time.Moment} {run : Run}
    (took : c.scheduler.take worker now = some (run, s)) :
    run.worker = worker ∧ s.active = c.scheduler.active ++ [run] := by
  obtain ⟨claim, rest, -, rfl, rfl⟩ := Scheduler.take_eq_some took
  exact ⟨rfl, rfl⟩

/-- A worker without a run takes one claim after another until a run takes time. -/
theorem seek_works {index : Nat} (fuel : Nat) {c : Clockwork} (hc : c.Timed)
    (hfree : ∀ t ∈ c.timers, t.run.worker ≠ index) : Works c (c.seek index fuel) := by
  induction fuel generalizing c with
  | zero => exact .refl hc
  | succ fuel ih =>
    unfold seek
    split
    case h_1 => exact .of_same rfl rfl rfl id hc
    case h_2 run s took =>
      obtain ⟨hworker, hactive⟩ := take_active took
      have hother : ∀ other ∈ c.scheduler.active, other.worker ≠ index := by
        rw [← hc]
        simpa using hfree
      have htaken := Scheduler.Awaits.take .here hother took
      obtain ⟨⟨hscheduler, htimers, hevents, hloop⟩, hrun⟩ :=
        beginRun_eq run { c with scheduler := s }
      cases hbegun : beginRun run { c with scheduler := s } with
      | mk begun timer =>
        rw [hbegun] at hscheduler htimers hevents hloop hrun
        dsimp only at hscheduler htimers hevents hloop hrun ⊢
        split
        case isTrue =>
          -- A run that takes no time ends before it is timed.
          obtain ⟨hscheduler', htimers', hevents', hloop'⟩ := endRun_eq timer begun
          rw [hscheduler, hrun] at hscheduler'
          rw [htimers, hrun, hworker] at htimers'
          have hmem : run ∈ s.active :=
            hactive ▸ List.mem_append_right _ (List.mem_singleton_self run)
          have hended : Works c (begun.endRun timer) := by
            refine ⟨⟨_, hscheduler' ▸ htaken.finish hmem _ _⟩, ?_, hevents'.trans hevents,
              fun habsent => hloop' (hloop.trans habsent)⟩
            rw [Timed, htimers', hscheduler', Scheduler.finish, hactive, hworker]
            simpa [hworker] using hc.filter fun run => decide (run.worker ≠ index)
          refine hended.trans (ih hended.timed fun t ht => ?_)
          rw [htimers'] at ht
          simpa using (List.mem_filter.mp ht).2
        case isFalse =>
          refine ⟨⟨_, hscheduler ▸ htaken⟩, ?_, hevents, fun habsent => hloop.trans habsent⟩
          rw [Timed, List.map_append, htimers, hc, hscheduler, hactive, ← hrun]
          rfl

theorem workerTurn_works (index : Nat) (hc : c.Timed) : Works c (c.workerTurn index) := by
  unfold workerTurn
  cases hfind : c.timers.find? fun t => t.run.worker == index with
  | none =>
    exact seek_works _ hc fun t ht => by simpa using List.find?_eq_none.mp hfind t ht
  | some t =>
    have hended := endRun_works hc (List.mem_of_find?_eq_some hfind)
    have hworker : t.run.worker = index := by simpa using List.find?_some hfind
    refine hended.trans (seek_works _ hended.timed fun other hother => ?_)
    rw [(endRun_eq t c).2.1, hworker] at hother
    simpa using (List.mem_filter.mp hother).2

theorem turn_works (hc : c.Timed) (habsent : c.loop = .absent) (actor : Actor) :
    Works c (c.turn actor) := by
  cases actor with
  | worker index => exact workerTurn_works index hc
  | loop =>
    rw [turn, loopTurn, habsent]
    exact .refl hc

theorem round_works (hc : c.Timed) (habsent : c.loop = .absent) : Works c c.round := by
  have hturns (actors : List Actor) {c' : Clockwork} (hworks : Works c c') :
      Works c (actors.foldl turn c') := by
    induction actors generalizing c' with
    | nil => exact hworks
    | cons actor rest ih =>
      exact ih (hworks.trans (turn_works hworks.timed (hworks.absent habsent) actor))
  exact hturns c.turns (.of_same rfl rfl rfl id hc)

theorem rounds_works (fuel : Nat) (hc : c.Timed) (habsent : c.loop = .absent) :
    Works c (c.rounds fuel) := by
  induction fuel generalizing c with
  | zero => exact .refl hc
  | succ fuel ih =>
    unfold rounds
    split
    case isTrue => exact .refl hc
    case isFalse =>
      have hround := round_works hc habsent
      exact hround.trans (ih hround.timed (hround.absent habsent))

theorem settle_works (hc : c.Timed) (habsent : c.loop = .absent) : Works c c.settle :=
  rounds_works _ hc habsent

theorem moveTo_eq (instant : Nat) (c : Clockwork) :
    (c.moveTo instant).scheduler = c.scheduler ∧ (c.moveTo instant).timers = c.timers ∧
      (c.moveTo instant).events = c.events ∧
      (c.loop = .absent → (c.moveTo instant).loop = .absent) := by
  unfold moveTo
  dsimp only
  split
  case h_1 wake hloop =>
    have hwaits : c.loop ≠ .absent := by simp [hloop]
    split
    case isTrue =>
      obtain ⟨hscheduler, htimers, hevents, -⟩ := wakeLoop_eq { c with
        now := instant
        turns := c.turns ++
          (c.timers.filter fun t => t.due ≤ instant).map fun t => Actor.worker t.run.worker }
      exact ⟨hscheduler, htimers, hevents, fun habsent => absurd habsent hwaits⟩
    case isFalse => exact ⟨rfl, rfl, rfl, id⟩
  case h_2 => exact ⟨rfl, rfl, rfl, id⟩

theorem runUntil_works (limit fuel : Nat) (hc : c.Timed) (habsent : c.loop = .absent) :
    Works c (c.runUntil limit fuel) := by
  induction fuel generalizing c with
  | zero => exact .refl hc
  | succ fuel ih =>
    have hsettled := settle_works hc habsent
    have hwait : Works c { c.settle with now := limit } :=
      hsettled.trans (.of_same rfl rfl rfl id hsettled.timed)
    unfold runUntil
    dsimp only
    split
    case h_1 => exact hwait
    case h_2 instant hnext =>
      split
      case isTrue => exact hwait
      case isFalse =>
        obtain ⟨hscheduler, htimers, hevents, hloop⟩ :=
          moveTo_eq (max c.settle.now instant) c.settle
        have hmoved := hsettled.trans (.of_same hscheduler htimers hevents hloop hsettled.timed)
        exact hmoved.trans (ih hmoved.timed (hmoved.absent habsent))

theorem cancelWorkers_eq (c : Clockwork) :
    c.cancelWorkers.scheduler = c.scheduler.cancelActive ∧ c.cancelWorkers.timers = [] ∧
      c.cancelWorkers.events = c.events := by
  have hnotes (timers : List Timer) (c : Clockwork) :
      (timers.foldl (fun c t => c.note (.cancelled t.run.claim.job c.now)) c).scheduler =
        c.scheduler ∧
      (timers.foldl (fun c t => c.note (.cancelled t.run.claim.job c.now)) c).events =
        c.events := by
    induction timers generalizing c with
    | nil => exact ⟨rfl, rfl⟩
    | cons t rest ih => exact ih _
  obtain ⟨hscheduler, hevents⟩ := hnotes
    (c.timers.mergeSort fun a b => decide (a.run.worker ≤ b.run.worker)) c
  exact ⟨congrArg Scheduler.cancelActive hscheduler, rfl, hevents⟩

structure Follows (h : History (List Plan)) (c : Clockwork) : Prop where
  scheduler : h.scheduler = c.scheduler
  events : h.events = c.events
  timed : c.Timed

theorem exists_stops {h : History (List Plan)} (hc : Follows h c) (grace : Option Nat) :
    ∃ finished dropped broken h', h.Stops finished dropped broken h' ∧
      Follows h' (c.stop grace) := by
  have hleft := settle_works (c := { c with loop := .absent }) hc.timed rfl
  set left := settle { c with loop := .absent }
  -- How long it waits for runs to end makes no difference to what may happen meanwhile.
  obtain ⟨limit, fuel, hstop⟩ : ∃ limit fuel, c.stop grace =
      let ended := (runUntil limit fuel
        { left with scheduler := left.scheduler.dropReady }).cancelWorkers
      announce ended.scheduler.retire.1 { ended with scheduler := ended.scheduler.retire.2 } :=
    ⟨_, _, rfl⟩
  have hworked := runUntil_works (c := { left with scheduler := left.scheduler.dropReady })
    limit fuel hleft.timed (hleft.absent rfl)
  set worked := runUntil limit fuel { left with scheduler := left.scheduler.dropReady }
  obtain ⟨hscheduler, htimers, hevents⟩ := cancelWorkers_eq worked
  obtain ⟨first, leaving⟩ := hleft.awaits
  obtain ⟨second, working⟩ := hworked.awaits
  rw [hstop]
  refine ⟨_, _, _, _, .intro (hc.scheduler ▸ leaving) working .here, ?_, ?_, ?_⟩
  · show _ = worked.cancelWorkers.scheduler.retire.2
    rw [hscheduler]
    rfl
  · show h.events ++ _ = worked.cancelWorkers.events ++ _
    rw [hscheduler, hevents, hworked.events, hc.events]
    exact congrArg (· ++ _) hleft.events.symm
  · show worked.cancelWorkers.timers.map (·.run) = worked.cancelWorkers.scheduler.retire.2.active
    obtain ⟨-, hactive, -⟩ :=
      History.drained_apart { h with scheduler := worked.scheduler.cancelActive }
    rw [htimers, hscheduler]
    exact hactive.symm

def drained (c : Clockwork) : Clockwork :=
  announce c.scheduler.drainInbox.1 { c with scheduler := c.scheduler.drainInbox.2 }

theorem loopTurn_eq (present : c.loop ≠ .absent) :
    c.loopTurn =
      match c.drained.claim.1 with
      | .error _ => { c.drained.claim.2.2 with loop := .absent }
      | .ok () =>
        let c' := c.drained.claim.2.2
        { c' with loop := .waiting ((c'.scheduler.delay? c'.clock).map (c'.now + ·)) } := by
  unfold loopTurn
  split
  case h_1 absent => exact absurd absent present
  case h_2 => rfl

theorem active_claim {h : History (List Plan)} (now : Time.Moment) (fuel : Nat) :
    (h.claim now fuel).scheduler.active = h.scheduler.active :=
  History.claim_induction (P := fun h' => h'.scheduler.active = h.scheduler.active) fuel rfl
    fun {h' e rest} hactive _ _ => (h'.scheduler.claimFirst_look now e rest).active.trans hactive

/-- A history that goes on from another one and is the clockwork's. -/
def Leads (h : History (List Plan)) (c : Clockwork) : Prop :=
  ∃ h', ReflTransGen History.Move h h' ∧ Follows h' c

theorem Works.leads {h : History (List Plan)} (hworks : Works c c') (hc : Follows h c) :
    Leads h c' := by
  obtain ⟨finished, hawaits⟩ := hworks.awaits
  exact ⟨_, History.moves_of_steps (History.steps_of_awaits (hc.scheduler ▸ hawaits)), rfl,
    hc.events.trans hworks.events.symm, hworks.timed⟩

section Follows

variable {h : History (List Plan)}

theorem Follows.congr (hc : Follows h c) (hscheduler : c'.scheduler = c.scheduler)
    (htimers : c'.timers = c.timers) (hevents : c'.events = c.events) : Follows h c' :=
  ⟨hc.scheduler.trans hscheduler.symm, hc.events.trans hevents.symm,
    by rw [Timed, htimers, hscheduler, hc.timed]⟩

theorem Follows.drained (hc : Follows h c) : Follows h.drained c.drained := by
  refine ⟨congrArg (·.drainInbox.2) hc.scheduler, ?_, ?_⟩
  · rw [Clockwork.drained, announce, ← hc.scheduler, ← hc.events]
    rfl
  · rw [Timed, Clockwork.drained, announce, ← hc.scheduler]
    exact (hc.timed.trans (congrArg (·.active) hc.scheduler.symm)).trans
      (History.drained_apart h).2.1.symm

theorem Follows.claim (hc : Follows h c) :
    Follows (h.claim c.clock c.scheduler.pending.length) c.claim.2.2 := by
  obtain ⟨hscheduler, htimers, hevents⟩ := wakeWorkers_eq (c.scheduler.claimDue c.clock).2.1
    { c with scheduler := (c.scheduler.claimDue c.clock).2.2 }
  have hsame : (h.claim c.clock c.scheduler.pending.length).scheduler =
      (c.scheduler.claimDue c.clock).2.2 := by
    rw [History.claim, hc.scheduler]
    rfl
  refine ⟨hsame.trans hscheduler.symm, hc.events.trans hevents.symm, ?_⟩
  have hactive : (h.claim c.clock c.scheduler.pending.length).scheduler.active =
      (c.scheduler.claimDue c.clock).2.2.active := by rw [hsame]
  rw [active_claim, hc.scheduler, ← hc.timed] at hactive
  exact (congrArg (·.map (·.run)) htimers).trans (hactive.trans
    (congrArg (·.active) hscheduler.symm))

theorem loopTurn_leads (hc : Follows h c) : Leads h c.loopTurn := by
  have hclaimed := hc.drained.claim
  have hmoves := History.moves_of_steps ((History.steps_drained h).tail
    (.claim c.clock c.scheduler.drainInbox.2.pending.length))
  by_cases present : c.loop = .absent
  · rw [loopTurn, present]
    exact ⟨h, .refl, hc⟩
  · rw [loopTurn_eq present]
    split
    · exact ⟨_, hmoves, hclaimed.congr rfl rfl rfl⟩
    · exact ⟨_, hmoves, hclaimed.congr rfl rfl rfl⟩

theorem Leads.trans (hc : Leads h c) (hstep : ∀ h', Follows h' c → Leads h' c') : Leads h c' := by
  obtain ⟨h', hmoves, hfollows⟩ := hc
  obtain ⟨h'', hmoves', hfollows'⟩ := hstep h' hfollows
  exact ⟨h'', hmoves.trans hmoves', hfollows'⟩

theorem turn_leads (hc : Follows h c) (actor : Actor) : Leads h (c.turn actor) := by
  cases actor with
  | worker index => exact (workerTurn_works index hc.timed).leads hc
  | loop => exact loopTurn_leads hc

theorem round_leads (hc : Follows h c) : Leads h c.round := by
  have hturns (actors : List Actor) {c : Clockwork} (hleads : Leads h c) :
      Leads h (actors.foldl turn c) := by
    induction actors generalizing c with
    | nil => exact hleads
    | cons actor rest ih => exact ih (hleads.trans fun h' hc => turn_leads hc actor)
  exact hturns c.turns ⟨h, .refl, hc.congr rfl rfl rfl⟩

theorem settle_leads (hc : Follows h c) : Leads h c.settle := by
  have hrounds (fuel : Nat) {h : History (List Plan)} {c : Clockwork} (hc : Follows h c) :
      Leads h (c.rounds fuel) := by
    induction fuel generalizing h c with
    | zero => exact ⟨h, .refl, hc⟩
    | succ fuel ih =>
      unfold rounds
      split
      case isTrue => exact ⟨h, .refl, hc⟩
      case isFalse => exact (round_leads hc).trans fun h' hc' => ih hc'
  exact hrounds _ hc

theorem runUntil_leads (limit fuel : Nat) (hc : Follows h c) : Leads h (c.runUntil limit fuel) := by
  induction fuel generalizing h c with
  | zero => exact ⟨h, .refl, hc⟩
  | succ fuel ih =>
    refine (settle_leads hc).trans fun h' hsettled => ?_
    have hwait : Leads h' { c.settle with now := limit } :=
      ⟨h', .refl, hsettled.congr rfl rfl rfl⟩
    unfold runUntil
    dsimp only
    split
    case h_1 => exact hwait
    case h_2 instant hnext =>
      split
      case isTrue => exact hwait
      case isFalse =>
        obtain ⟨hscheduler, htimers, hevents, -⟩ := moveTo_eq (max c.settle.now instant) c.settle
        exact ih (hsettled.congr hscheduler htimers hevents)

/-- What may be done with a clockwork: a job is added, it starts, time passes, it stops. -/
inductive Use : Clockwork → Clockwork → Prop
  | add {c c' : Clockwork} {name : String} {schedule : Schedule} {plans : List Plan}
      {runOnLoad : Bool} {feature : String}
      (added : c.add name schedule plans runOnLoad feature = .ok c') : Use c c'
  | start {c : Clockwork} : Use c c.start
  | sleep {c : Clockwork} (length : Nat) : Use c (c.sleep length)
  | stop {c : Clockwork} (grace : Option Nat) : Use c (c.stop grace)

theorem Use.leads (use : Use c c') (hc : Follows h c) : Leads h c' := by
  cases use with
  | add added =>
    obtain ⟨s, hadd, hc'⟩ := bind_eq_ok.mp added
    cases hc'
    have hgrown : Follows { h with scheduler := s } { c with scheduler := s } := by
      obtain ⟨schedule', first, grows⟩ := Scheduler.add_grows hadd
      exact ⟨rfl, hc.events, hc.timed.trans grows.active.symm⟩
    refine ⟨_, .single (.step (.add (hc.scheduler ▸ hadd))), ?_⟩
    split
    case isTrue =>
      obtain ⟨hscheduler, htimers, hevents, -⟩ := wakeLoop_eq { c with scheduler := s }
      exact hgrown.congr hscheduler htimers hevents
    case isFalse => exact hgrown
  | start =>
    unfold Clockwork.start
    split
    case isTrue => exact ⟨h, .refl, hc⟩
    case isFalse =>
      exact ⟨_, .single (.step .start), congrArg ({ · with running := true }) hc.scheduler,
        hc.events, hc.timed⟩
  | sleep length =>
    unfold Clockwork.sleep
    split
    case isTrue => exact round_leads hc
    case isFalse => exact runUntil_leads _ _ hc
  | stop grace =>
    obtain ⟨finished, dropped, broken, h', stops, hc'⟩ := exists_stops hc grace
    exact ⟨h', .single (.stop stops), hc'⟩

theorem leads_of_uses (uses : ReflTransGen Use c c') (hc : Follows h c) : Leads h c' := by
  induction uses with
  | refl => exact ⟨h, .refl, hc⟩
  | tail before use ih => exact ih.trans fun h' hc' => use.leads hc'

end Follows

inductive Used (c : Clockwork) : Prop
  | intro {workers : Int} {zone : String} {s : Scheduler (List Plan)} {origin : Time.Moment}
      (made : Scheduler.new workers zone = .ok s) (uses : ReflTransGen Use (.new s origin) c)

theorem Used.exists_lived (hused : Used c) : ∃ h : History (List Plan), h.Lived ∧ Follows h c := by
  obtain @⟨workers, zone, s, origin, made, uses⟩ := hused
  have hnew : Follows (.begin s) (.new s origin) := by
    refine ⟨rfl, rfl, ?_⟩
    unfold Scheduler.new at made
    split at made
    · cases made
    · cases made
      rfl
  obtain ⟨h, hmoves, hc⟩ := leads_of_uses uses hnew
  exact ⟨h, (History.Lived.new made).moves hmoves, hc⟩

/-- A clockwork that stops has nothing left to do, and the jobs it has then stay at rest, whatever
is done with it later. -/
theorem Used.rests_after_stop (hused : Used c) (grace : Option Nat)
    (later : ReflTransGen Use (c.stop grace) c') :
    (c.stop grace).scheduler.Stopped ∧
      ∀ t ∈ (c.stop grace).scheduler.jobs, c'.scheduler.Rests t := by
  obtain ⟨h, hl, hc⟩ := hused.exists_lived
  obtain ⟨finished, dropped, broken, h', stops, hc'⟩ := exists_stops hc grace
  obtain ⟨h'', hmoves, hc''⟩ := leads_of_uses later hc'
  have hstopped := stops.stopped
  have hnames := (History.enduring_distinct.holds (hl.lifetime.stops stops)).1
  rw [← hc'.scheduler, ← hc''.scheduler]
  refine ⟨hstopped, fun t ht => ?_⟩
  have hstays : h'.Stays t h' := ⟨hstopped.rests hnames ht, rfl, rfl, .refl _⟩
  exact ((History.lasting_stays h' t).moves hstays hmoves).rests

end Guildhall.Simulation.Clockwork
