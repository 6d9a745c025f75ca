import Guildhall.Proofs.Permission.Rejected

/-!
# Changes that are not saved

A change may fail before anything is done: its identifier is malformed, or the file is not loaded.
Then nothing has changed. It may also fail in the end, when the store cannot be saved. The file is
still what it was, but the store goes on with the change in memory, until it reads a file again.
-/

namespace Guildhall.Permission.FileStore

variable {f g : FileStore} {d later : Disk} {w : Write} {failure : Failure} {store : Store}

/-- Only what is there and its time stamp matter to a store that looks at the file. -/
theorem refresh_congr (hcontent : later.content = d.content) (hstamp : later.stamp = d.stamp) :
    f.refresh later = f.refresh d := by
  simp only [refresh, hcontent, hstamp]

/-- What a store has in memory does not matter when it reads the file again. -/
theorem refresh_reread {text : String} (hfile : later.content = .file text)
    (hnew : g.seen ≠ some later.stamp) (store : Store) :
    { g with store := store }.refresh later = g.refresh later := by
  simp only [refresh, hfile, if_neg hnew]

theorem save_eq_error (h : f.save d = .error failure) : ¬ d.Writable := by
  intro hplace
  rw [save_eq f hplace] at h
  cases h

/-- A change fails before anything is done, or when the store is saved. -/
theorem write_eq_error (h : (f.write d w).1 = .error failure) :
    (f.write d w).2 = (f, d) ∨
      ∃ changed g, w.canonical = .ok changed ∧ f.refresh d = .ok g ∧ ¬ d.Writable ∧
        (f.write d w).2 = ({ g with store := (g.store.apply changed).1 }, d) := by
  unfold write at h ⊢
  cases hw : w.canonical with
  | error fault => exact .inl rfl
  | ok changed =>
    simp only [hw] at h ⊢
    cases hrefresh : f.refresh d with
    | error unloaded => exact .inl rfl
    | ok g =>
      simp only [hrefresh] at h ⊢
      cases hmade : (g.store.apply changed).2 with
      | false => simp [hmade] at h
      | true =>
        simp only [hmade, Bool.not_true, Bool.false_eq_true, if_false] at h ⊢
        cases hsave : save { g with store := (g.store.apply changed).1 } d with
        | ok saved => simp [hsave] at h
        | error refusal => exact .inr ⟨changed, g, rfl, rfl, save_eq_error hsave, rfl⟩

/-- A store has `store` in memory, and that is not in the file. While the file stays as it is, the
reads are answered from there, and the next change that can be saved brings all of it into the
file. Only a file with another time stamp makes an end to it. -/
structure Unsaved (f : FileStore) (d : Disk) (store : Store) : Prop where
  served : ∀ later : Disk, later.content = d.content → later.stamp = d.stamp →
    f.Serves later store
  saved : ∀ (later : Disk) (next change : Write), later.content = d.content →
    later.stamp = d.stamp → later.Writable → next.canonical = .ok change →
    (store.apply change).2 = true →
    (f.write later next).2.2.content = .file (store.apply change).1.toText
  ended : ∀ (later : Disk) (text : String) (other : Store), later.content = .file text →
    f.seen ≠ some later.stamp →
    f.refresh later = { f with store := other }.refresh later

theorem unsaved_of_refresh (hrefresh : f.refresh d = .ok g) (store : Store) :
    Unsaved { g with store := store } d store where
  served later hcontent hstamp := by
    rw [← refresh_congr hcontent hstamp] at hrefresh
    have hserves := serves_of_refresh (refresh_settled hrefresh store)
    exact hserves
  saved later next change hcontent hstamp hplace hnext hmade := by
    rw [← refresh_congr hcontent hstamp] at hrefresh
    rw [write_eq hnext (refresh_settled hrefresh store) hplace, if_pos hmade]
    rfl
  ended later text other hfile hnew := (refresh_reread hfile hnew other).symm

/-- A change that fails leaves the file as it was, and the store, too, unless it could not be saved.
In that case the reads are answered as if the change had been made, where they would have been
answered from what the file holds. -/
theorem failed_change_stays_in_memory (h : (f.write d w).1 = .error failure) :
    (f.write d w).2 = (f, d) ∨
      ∃ changed g, w.canonical = .ok changed ∧ f.refresh d = .ok g ∧ ¬ d.Writable ∧
        f.Serves d g.store ∧
        (f.write d w).2 = ({ g with store := (g.store.apply changed).1 }, d) ∧
        Unsaved { g with store := (g.store.apply changed).1 } d (g.store.apply changed).1 := by
  rcases write_eq_error h with hsame | ⟨changed, g, hw, hrefresh, hplace, hleft⟩
  · exact .inl hsame
  · exact .inr ⟨changed, g, hw, hrefresh, hplace, serves_of_refresh hrefresh, hleft,
      unsaved_of_refresh hrefresh (g.store.apply changed).1⟩

/-- An identifier is granted while nothing can be written over the file. It is read afterwards, and
when writing is possible again, the next change brings it into the file. -/
theorem granted_over_a_locked_file :
    let text := "guilds:\n  '1':\n    members:\n      '42': [mod]\n"
    let f : FileStore := ⟨"p.yaml", .empty, none⟩
    let d : Disk := ⟨.file text, 1, 2, some .unknown⟩
    let w : Write := .grantRole "1" "mod" "Kick"
    let next : Write := .setMemberRoles "1" "7" []
    (f.write d w).1 = .error .unknown ∧
      (Access.file.ask (.rolePermissions "1" "mod") (f.write d w).2).1 = .ok (.texts ["kick"]) ∧
      ((f.write d w).2.1.write { d with refusal := none } next).2.2.content =
        .file (Store.toText
          ⟨[("1", ⟨[("mod", ["kick"])], [("42", ["mod"]), ("7", [])], []⟩)]⟩) := by
  intro text f d w next
  let held : Store := ⟨[("1", ⟨[("mod", ["kick"])], [("42", ["mod"])], []⟩)]⟩
  have hfailed : (f.write d w).1 = .error .unknown := by decide +kernel
  have hloaded : f.refresh d =
      .ok ⟨"p.yaml", ⟨[("1", ⟨[], [("42", ["mod"])], []⟩)]⟩, some 1⟩ := by decide +kernel
  have hw : w.canonical = .ok (.grantRole "1" "mod" "kick") := by decide +kernel
  have hchanged : (f.write d w).2 ≠ (f, d) := by decide +kernel
  have hunsaved : (f.write d w).2 = (⟨"p.yaml", held, some 1⟩, d) ∧
      Unsaved ⟨"p.yaml", held, some 1⟩ d held := by
    rcases failed_change_stays_in_memory hfailed with hsame |
      ⟨changed, g, hcanonical, hrefresh, -, -, hleft, hunsaved⟩
    · exact absurd hsame hchanged
    · rw [hw] at hcanonical
      rw [hloaded] at hrefresh
      cases hcanonical
      cases hrefresh
      exact ⟨hleft, hunsaved⟩
  obtain ⟨hleft, hserved, hsaved, -⟩ := hunsaved
  rw [hleft]
  refine ⟨hfailed, ?_, hsaved _ next next rfl rfl ⟨nofun, rfl⟩ rfl (by decide)⟩
  have hread := hserved d rfl rfl [.rolePermissions "1" "mod"]
    (List.forall_mem_singleton.mpr (.rolePermissions "1" "mod"))
  simpa [Shared.answersOf, Access.ask, Access.memory, Source.memory, answered, held,
    Store.rolePermissions, Store.guild, sortTexts] using hread

/-- A path with a NUL character is no place for a file. The store there is empty, and a change
fails, but it is read afterwards. -/
theorem unsaved_change_is_read :
    let path := "perms\x00.yaml"
    let f : FileStore := ⟨path, .empty, none⟩
    let d := Disk.atPath path
    let w : Write := .grantRole "1" "mod" "kick"
    let read : Request := .rolePermissions "1" "mod"
    openAt path d = .ok f ∧ (f.write d w).1 = .error (.invalidValue "embedded null byte") ∧
      (Access.file.ask read (f, d)).1 = .ok (.texts []) ∧
      (Access.file.ask read (f.write d w).2).1 = .ok (.texts ["kick"]) := by
  intro path f d w read
  have hleft : f.write d w = (.error (.invalidValue "embedded null byte"),
      ⟨path, ⟨[("1", ⟨[("mod", ["kick"])], [], []⟩)]⟩, none⟩, d) := by decide +kernel
  have hrefresh (store : Store) : refresh ⟨path, store, none⟩ d = .ok ⟨path, store, none⟩ := by
    have habsent : d.content = .absent := by decide
    simp only [refresh, habsent]
  have hempty : Store.empty.rolePermissions "1" "mod" = [] := by decide
  have hreads : Request.Reads (.rolePermissions "1" "mod") := .rolePermissions "1" "mod"
  rw [hleft, ask_read hreads.elementary hreads.ne_change (hrefresh _),
    ask_read hreads.elementary hreads.ne_change (hrefresh _)]
  refine ⟨hrefresh _, rfl, ?_, ?_⟩
  · simp [Access.ask, Access.memory, Source.memory, answered, hempty, sortTexts]
  · simp [Access.ask, Access.memory, Source.memory, answered, Store.rolePermissions, Store.guild,
      sortTexts]

end Guildhall.Permission.FileStore
