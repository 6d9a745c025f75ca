import Guildhall.Config.Settings
import Guildhall.Proofs.Config.EnvFile

/-!
# Settings after a refused change

A change of the environment file is written before the settings are read again, and reading ends at
the first number that cannot be read. So a refused change stays in the file, and the settings that
are read before that number follow it; nobody can read all settings until the file is set right.
-/

namespace Guildhall.Config

namespace Surroundings

variable (w : Surroundings) (path text : String)

@[simp] theorem envPath_write : (w.write path text).envPath = w.envPath := rfl

@[simp] theorem named?_write (name : String) :
    (w.write path text).named? name = w.named? name := rfl

theorem file?_write (other : String) :
    (w.write path text).file? other =
      if below w.directory other = below w.directory path then some text else w.file? other := by
  simp only [file?, write, Assoc.lookup_put]

@[simp] theorem file?_write_self : (w.write path text).file? path = some text := by
  simp [file?_write]

theorem setting_write {before changes : List (String × String)}
    (hbefore : ((w.file? path).map readAssignments).getD [] = before)
    (hkeys : ∀ entry ∈ before, IsKey entry.1)
    (hchanges : ∀ entry ∈ changes, IsKey entry.1 ∧ Text.OneLine entry.2.toList) (key : String) :
    (w.write path (withAssignments changes (w.file? path))).setting path key =
      orElse (valueOf key (assign changes before)) ((w.named? key).getD "") := by
  subst hbefore
  simp only [setting, file?_write_self, named?_write, valueOf_withAssignments hkeys hchanges]

end Surroundings

namespace Settings

def workersIn (w : Surroundings) (path : String) : Except String Int :=
  Number.readInt (orElse (w.setting path "SCHEDULER_WORKERS") "4")

def graceIn (w : Surroundings) (path : String) : Except String Double :=
  Number.readDouble (orElse (w.setting path "SHUTDOWN_GRACE_SECONDS") "10")

def listenPortIn (w : Surroundings) (path : String) : Except String Int :=
  Number.readInt (orElse (w.setting path "BOT_PORT") "3978")

def beforeNumbers (s : Settings) (w : Surroundings) : Settings :=
  { s with
    sigil := orElse (w.setting s.envPath "COMMAND_PREFIX") "!"
    superusers := splitIds (w.setting s.envPath "SUPERUSERS")
    ignoreBots := (w.setting s.envPath "IGNORE_BOTS").isEmpty ||
      saysYes (w.setting s.envPath "IGNORE_BOTS") }

theorem sigil_beforeNumbers (s : Settings) (w : Surroundings) :
    (s.beforeNumbers w).sigil = orElse (w.setting s.envPath "COMMAND_PREFIX") "!" := rfl

/-- The complaint that reading all settings again ends with, and the settings that hold then: the
first number that cannot be read ends it. -/
inductive Refused (s : Settings) (w : Surroundings) : String → Settings → Prop
  | workers {message : String} (hrefused : workersIn w s.envPath = .error message) :
    Refused s w message (s.beforeNumbers w)
  | grace {message : String} {workers : Int} (hworkers : workersIn w s.envPath = .ok workers)
      (hrefused : graceIn w s.envPath = .error message) :
    Refused s w message { s.beforeNumbers w with workers := max 1 workers }
  | listenPort {message : String} {workers : Int} {grace : Double}
      (hworkers : workersIn w s.envPath = .ok workers) (hgrace : graceIn w s.envPath = .ok grace)
      (hrefused : listenPortIn w s.envPath = .error message) :
    Refused s w message { s.beforeNumbers w with
      workers := max 1 workers
      grace := grace
      zone := orElse (w.setting s.envPath "BOT_TIMEZONE") "UTC" }

variable {s s' : Settings} {w : Surroundings} {e : Failure}

theorem reload_eq_error :
    s.reload w = (.error e, s') ↔
      ∃ message, e = .invalidValue message ∧ Refused s w message s' := by
  constructor
  · intro h
    simp only [reload] at h
    split at h
    case h_1 message hworkers =>
      cases h
      exact ⟨message, rfl, .workers hworkers⟩
    case h_2 workers hworkers =>
      split at h
      case h_1 message hgrace =>
        cases h
        exact ⟨message, rfl, .grace hworkers hgrace⟩
      case h_2 grace hgrace =>
        split at h
        case h_1 message hport =>
          cases h
          exact ⟨message, rfl, .listenPort hworkers hgrace hport⟩
        case h_2 => cases h
  · rintro ⟨message, rfl, hrefused⟩
    cases hrefused with
    | workers h =>
      rw [workersIn] at h
      simp only [reload, h]
      rfl
    | grace hworkers h =>
      rw [workersIn] at hworkers
      rw [graceIn] at h
      simp only [reload, hworkers, h]
      rfl
    | listenPort hworkers hgrace h =>
      rw [workersIn] at hworkers
      rw [graceIn] at hgrace
      rw [listenPortIn] at h
      simp only [reload, hworkers, hgrace, h]
      rfl

theorem Refused.of_envPath {t : Settings} {message : String} (h : Refused s w message s')
    (hpath : t.envPath = s.envPath) : ∃ t', Refused t w message t' := by
  cases h with
  | workers hrefused => exact ⟨_, .workers (hpath ▸ hrefused)⟩
  | grace hworkers hrefused => exact ⟨_, .grace (hpath ▸ hworkers) (hpath ▸ hrefused)⟩
  | listenPort hworkers hgrace hrefused =>
    exact ⟨_, .listenPort (hpath ▸ hworkers) (hpath ▸ hgrace) (hpath ▸ hrefused)⟩

theorem Refused.load_eq {message : String} (h : Refused s w message s')
    (hpath : w.envPath = s.envPath) : load w = .error (.invalidValue message) := by
  obtain ⟨t', ht⟩ := h.of_envPath (t := initial w.envPath) hpath
  have hreload := reload_eq_error.mpr ⟨message, rfl, ht⟩
  simp only [load, hreload]

theorem writeEnv_eq (s : Settings) (w : Surroundings) (changes : List (String × String)) :
    s.writeEnv w changes =
      ((s.reload (w.write s.envPath (withAssignments changes (w.file? s.envPath)))).1,
        (s.reload (w.write s.envPath (withAssignments changes (w.file? s.envPath)))).2,
        w.write s.envPath (withAssignments changes (w.file? s.envPath))) := by
  simp only [writeEnv]

theorem writeEnv_eq_error {changes : List (String × String)} {message : String}
    (h : Refused s (w.write s.envPath (withAssignments changes (w.file? s.envPath))) message s') :
    s.writeEnv w changes = (.error (.invalidValue message), s',
      w.write s.envPath (withAssignments changes (w.file? s.envPath))) := by
  rw [writeEnv_eq, reload_eq_error.mpr ⟨message, rfl, h⟩]

/-- A change that is refused stays in the environment file, and nothing else around the program
changes. It is refused with the complaint about the first number that cannot be read; the settings
that are read before that number follow the file, all others are what they were. With this file,
settings cannot be loaded anew: that fails in the same way. -/
theorem refused_change_stays (s : Settings) (w : Surroundings) (changes : List (String × String))
    {e : Failure} (h : (s.writeEnv w changes).1 = .error e) :
    let text := withAssignments changes (w.file? s.envPath)
    let s' := (s.writeEnv w changes).2.1
    let w' := (s.writeEnv w changes).2.2
    (w'.file? s.envPath = some text ∧ w' = w.write s.envPath text) ∧
      (∃ message, e = .invalidValue message ∧ Refused s w' message s') ∧
      (w.envPath = s.envPath → load w' = .error e) := by
  intro text s' w'
  have hw : w' = w.write s.envPath text := by simp only [w', writeEnv_eq, text]
  have hreload : s.reload w' = (.error e, s') := by
    simp only [writeEnv_eq] at h
    simp only [w', s', writeEnv_eq, ← h]
  obtain ⟨message, rfl, hrefused⟩ := reload_eq_error.mp hreload
  refine ⟨⟨?_, hw⟩, ⟨message, rfl, hrefused⟩, fun hpath => hrefused.load_eq ?_⟩
  · rw [hw, Surroundings.file?_write_self]
  · rw [hw, Surroundings.envPath_write, hpath]

/-- More workers are refused because of the port that the environment names. They are in force and
in the file, the port is what it was, and settings cannot be loaded. -/
theorem workers_beside_a_bad_port :
    let w : Surroundings := ⟨[("BOT_PORT", "http")], "/home/bot", "/bot", []⟩
    let left := ((initial ".env").writeEnv w [("SCHEDULER_WORKERS", "8")]).2
    (left.2.file? ".env").map readAssignments = some [("SCHEDULER_WORKERS", "8")] ∧
      left.1.workers = 8 ∧ left.1.listenPort = 3978 ∧ ∃ e, load left.2 = .error e := by
  intro w left
  let changes := [("SCHEDULER_WORKERS", "8")]
  let w' := w.write ".env" (withAssignments changes (w.file? ".env"))
  have hbefore : ((w.file? ".env").map readAssignments).getD [] = [] := by decide
  have hchanges : ∀ entry ∈ changes, IsKey entry.1 ∧ Text.OneLine entry.2.toList := by
    simp only [changes, List.forall_mem_cons]
    exact ⟨by decide, by simp⟩
  have hset := Surroundings.setting_write w ".env" hbefore (by simp) hchanges
  have hworkers : workersIn w' ".env" = .ok 8 := by
    have hread : orElse (w'.setting ".env" "SCHEDULER_WORKERS") "4" = "8" := by
      rw [hset]
      decide
    rw [workersIn, hread]
    rfl
  have hgrace : graceIn w' ".env" = .ok (.ofInt 10) := by
    have hread : orElse (w'.setting ".env" "SHUTDOWN_GRACE_SECONDS") "10" = "10" := by
      rw [hset]
      decide
    rw [graceIn, hread]
    rfl
  have hport : listenPortIn w' ".env" = .error (Number.readInt.notInteger "http") := by
    have hread : orElse (w'.setting ".env" "BOT_PORT") "3978" = "http" := by
      rw [hset]
      decide
    rw [listenPortIn, hread]
    rfl
  obtain ⟨s', hs', hport', hrefused⟩ : ∃ s' : Settings, s'.workers = 8 ∧ s'.listenPort = 3978 ∧
      Refused (initial ".env") w' (Number.readInt.notInteger "http") s' :=
    ⟨_, rfl, rfl, .listenPort hworkers hgrace hport⟩
  have hwrite : (initial ".env").writeEnv w changes = (_, s', w') := writeEnv_eq_error hrefused
  obtain ⟨⟨hfile, -⟩, -, hload⟩ := refused_change_stays (initial ".env") w changes
    (congrArg Prod.fst hwrite)
  rw [hwrite] at hfile hload
  have hleft : left = (s', w') := congrArg Prod.snd hwrite
  have hread : readAssignments (withAssignments changes (w.file? ".env")) =
      written (assign changes []) := by
    rw [readAssignments_withAssignments (by rw [hbefore]; simp) hchanges, hbefore]
  rw [hleft]
  refine ⟨?_, hs', hport', _, hload (by decide)⟩
  show (w'.file? ".env").map readAssignments = _
  rw [show w'.file? ".env" = some (withAssignments changes (w.file? ".env")) from hfile,
    Option.map_some, hread]
  simp [changes, written, Assoc.sorted, assign, Assoc.put]

/-- A new sigil is refused together with a number of workers that is none. It is in force and in
the file all the same, and settings, which could be loaded before, no longer can. -/
theorem refused_sigil_is_in_force :
    let w : Surroundings := ⟨[], "/home/bot", "/bot", [("/bot/.env", "COMMAND_PREFIX=\"!\"\n")]⟩
    let s := initial ".env"
    let changes := [("COMMAND_PREFIX", "?"), ("SCHEDULER_WORKERS", "many")]
    let after := s.writeEnv w changes
    (∃ e, after.1 = .error e) ∧ after.2.1.sigil ≠ s.sigil ∧
      (after.2.2.file? ".env").map readAssignments ≠ (w.file? ".env").map readAssignments ∧
      load w = .ok s ∧ ¬ ∃ t, load after.2.2 = .ok t := by
  intro w s changes after
  let left := w.write ".env" (withAssignments changes (w.file? ".env"))
  have hbefore : ((w.file? ".env").map readAssignments).getD [] = [("COMMAND_PREFIX", "!")] := by
    decide
  have hkeys : ∀ entry ∈ [("COMMAND_PREFIX", "!")], IsKey entry.1 := by
    simp only [List.forall_mem_cons]
    exact ⟨by decide, by simp⟩
  have hchanges : ∀ entry ∈ changes, IsKey entry.1 ∧ Text.OneLine entry.2.toList := by
    simp only [changes, List.forall_mem_cons]
    exact ⟨by decide, by decide, by simp⟩
  have hset : ∀ key, left.setting s.envPath key =
      orElse (valueOf key (assign changes [("COMMAND_PREFIX", "!")])) "" :=
    Surroundings.setting_write w ".env" hbefore hkeys hchanges
  have hworkers : workersIn left s.envPath = .error (Number.readInt.notInteger "many") := by
    have hread : orElse (left.setting s.envPath "SCHEDULER_WORKERS") "4" = "many" := by
      rw [hset]
      decide
    rw [workersIn, hread]
    rfl
  have hsigil : (s.beforeNumbers left).sigil = "?" := by
    rw [sigil_beforeNumbers, hset]
    decide
  have hrefused : Refused s left (Number.readInt.notInteger "many") (s.beforeNumbers left) :=
    .workers hworkers
  have hwrite : s.writeEnv w changes = (_, s.beforeNumbers left, left) := writeEnv_eq_error hrefused
  have hafter : after = (_, s.beforeNumbers left, left) := hwrite
  rw [hafter]
  refine ⟨⟨_, rfl⟩, ?_, ?_, ?_, ?_⟩
  · show (s.beforeNumbers left).sigil ≠ "!"
    rw [hsigil]
    decide
  · intro hsame
    have hnew : valueOf "COMMAND_PREFIX" (readAssignments
        (withAssignments changes (w.file? ".env"))) = "?" := by
      rw [valueOf_withAssignments (fun entry hentry => hkeys entry (hbefore ▸ hentry)) hchanges,
        hbefore]
      decide
    have hvalue := congrArg (fun found => valueOf "COMMAND_PREFIX" (found.getD [])) hsame
    simp only [left, Surroundings.file?_write_self, Option.map_some, Option.getD_some, hnew,
      hbefore] at hvalue
    exact absurd hvalue (by decide)
  · have hsign : w.setting ".env" "COMMAND_PREFIX" = "!" := by decide
    have hnone : ∀ key, key ≠ "COMMAND_PREFIX" → w.setting ".env" key = "" := by
      intro key hkey
      have hread : w.file? ".env" = some "COMMAND_PREFIX=\"!\"\n" := by decide
      simp only [Surroundings.setting, hread]
      rw [show readAssignments "COMMAND_PREFIX=\"!\"\n" = [("COMMAND_PREFIX", "!")] by decide]
      simp [valueOf, hkey, orElse, Surroundings.named?, w]
    have hpath : w.envPath = ".env" := by decide
    simp (disch := decide) only [load, hpath, reload, initial, hsign, hnone]
    rfl
  · rintro ⟨t, ht⟩
    rw [hrefused.load_eq (by decide)] at ht
    cases ht

end Settings

end Guildhall.Config
