import Guildhall.Proofs.Permission.Shared

/-!
# A file that is removed

A store keeps a file that an operator may replace and remove. While the file is there the store
answers and changes what the file holds. Once the file has been removed, it goes by what it read
last, until there is a file again.
-/

namespace Guildhall.Permission

theorem Store.Alike.after {s t : Store} (h : s.Alike t) (hs : s.Canonical) (w : Write) :
    (s.after w).Alike (t.after w) := by
  cases hw : w.canonical with
  | error fault => rwa [Store.after_of_malformed hw, Store.after_of_malformed hw]
  | ok changed =>
    rw [Store.after_of_canonical hw, Store.after_of_canonical hw]
    exact (h.apply hs changed).1

namespace FileStore

variable {f : FileStore} {d : Disk} {r : Store}

theorem shows_absent (hpast : ∀ stamp, f.seen = some stamp → stamp < d.nextStamp)
    (hgone : d.content = .absent) (htidy : f.store.Tidy) (hcanonical : f.store.Canonical) :
    f.Shows d f.store where
  past := hpast
  shown := ⟨f, by rw [refresh, hgone], .refl _, htidy, hcanonical⟩

end FileStore

/-- A store in use that keeps a file, what is at its path, and the documents that it has saved
there. The documents are only there to be reasoned about. -/
structure Keeper where
  live : FileStore
  disk : Disk
  saved : List Value

/-- What happens around a store in use: it is opened anew, it is asked something, or the operator
replaces the file by another text or removes it. -/
inductive Deed
  | opened
  | asked (request : Request)
  | replaced (text : String)
  | removed

inductive Deed.Orderly : Deed → Prop
  | opened : Orderly .opened
  | asked {request : Request} (elementary : request.Elementary) : Orderly (.asked request)
  | replaced {text : String} {document : Value} {s : Store}
      (readable : documentOf? text = some document) (loadable : Store.ofValue document = .ok s) :
      Orderly (.replaced text)
  | removed : Orderly .removed

namespace Keeper

def begin (path : String) : Keeper := ⟨⟨path, .empty, none⟩, .empty, []⟩

def after (path : String) (k : Keeper) : Deed → Keeper
  | .opened =>
    match FileStore.openAt path k.disk with
    | .ok f => { k with live := f }
    | .error _ => k
  | .asked request =>
    let (_, f, disk) := Access.file.ask request (k.live, k.disk)
    ⟨f, disk, if disk = k.disk then k.saved else k.saved ++ [f.store.toValue]⟩
  | .replaced text => { k with disk := k.disk.put (.file text) }
  | .removed => { k with disk := k.disk.put .absent }

/-- What a store that is opened now, or the store in use, answers to a request. -/
def answer (checks : Grants → Value) (k : Keeper) (f : FileStore) (request : Request) :
    Except Failure Value :=
  (Access.file.ask request (f, k.disk)).1.map (Answer.toValue checks)

inductive Reached (path : String) : Keeper → Prop
  | begin : Reached path (begin path)
  | deed {k : Keeper} {deed : Deed} (before : Reached path k) (orderly : deed.Orderly) :
      Reached path (k.after path deed)

/-- A newly opened store shows what `file` records, and the store in use what `live` does. These
are the same while there is a file. When there is none, a new store is empty, and the store in use
goes by its memory. -/
structure Sound (path : String) (k : Keeper) (file live : Store) : Prop where
  place : k.disk.Writable
  stamp : k.disk.stamp < k.disk.nextStamp
  newcomer : FileStore.Shows ⟨path, .empty, none⟩ k.disk file
  shows : k.live.Shows k.disk live
  there : k.disk.content ≠ .absent → file = live
  gone : k.disk.content = .absent → file = .empty ∧ live = k.live.store
  tidy : k.live.store.Tidy
  canonical : k.live.store.Canonical

namespace Sound

variable {path : String} {k : Keeper} {file live : Store}

theorem begin (path : String) : Sound path (begin path) .empty .empty := by
  have hshows : FileStore.Shows ⟨path, .empty, none⟩ Disk.empty .empty :=
    FileStore.shows_absent (by simp) rfl Store.tidy_empty Store.canonical_empty
  exact ⟨Disk.writable_empty, Nat.zero_lt_one, hshows, hshows, fun _ => rfl,
    fun _ => ⟨rfl, rfl⟩, Store.tidy_empty, Store.canonical_empty⟩

theorem removed (h : k.Sound path file live) :
    (k.after path .removed).Sound path .empty k.live.store := by
  have hlater (f : FileStore) (hpast : ∀ stamp, f.seen = some stamp → stamp < k.disk.nextStamp) :
      ∀ stamp, f.seen = some stamp → stamp < (k.disk.put .absent).nextStamp :=
    fun stamp hseen => Nat.lt_succ_of_lt (hpast stamp hseen)
  exact ⟨h.place.put (by simp), Nat.lt_succ_self _,
    FileStore.shows_absent (by simp) rfl Store.tidy_empty Store.canonical_empty,
    FileStore.shows_absent (hlater _ h.shows.past) rfl h.tidy h.canonical,
    fun hthere => absurd rfl hthere, fun _ => ⟨rfl, rfl⟩, h.tidy, h.canonical⟩

theorem put {text : String} {t r : Store} {f : FileStore} {saved : List Value}
    (hplace : k.disk.Writable) (hload : ∀ path, Store.ofText path text = .ok t) (halike : t.Alike r)
    (htidy : t.Tidy) (hcanonical : t.Canonical) (hf : f.Shows (k.disk.put (.file text)) r)
    (hmemory : f.store.Tidy) (hmemory' : f.store.Canonical) :
    Sound path ⟨f, k.disk.put (.file text), saved⟩ r r :=
  ⟨hplace.put (by simp), Nat.lt_succ_self _,
    FileStore.shows_put (by simp) hload halike htidy hcanonical, hf, fun _ => rfl,
    fun hgone => by simp [Disk.put] at hgone, hmemory, hmemory'⟩

theorem opened (h : k.Sound path file live) : (k.after path .opened).Sound path file file := by
  obtain ⟨f', hrefresh, halike, htidy, hcanonical⟩ := h.newcomer.shown
  have hopened : FileStore.openAt path k.disk = .ok f' := hrefresh
  have hshows : f'.Shows k.disk file :=
    h.newcomer.settled h.stamp hrefresh halike htidy hcanonical
  simp only [after, hopened]
  refine ⟨h.place, h.stamp, h.newcomer, hshows, fun _ => rfl, fun hgone => ?_, htidy, hcanonical⟩
  obtain ⟨hfile, -⟩ := h.gone hgone
  rw [FileStore.refresh, hgone] at hrefresh
  cases hrefresh
  exact ⟨hfile, hfile⟩

theorem read {request : Request} (h : k.Sound path file live) (elementary : request.Elementary)
    (hread : ∀ w, request ≠ .change w) : (k.after path (.asked request)).Sound path file live := by
  obtain ⟨f', hrefresh, halike, htidy, hcanonical⟩ := h.shows.shown
  simp only [after, FileStore.ask_read elementary hread hrefresh, if_true]
  refine ⟨h.place, h.stamp, h.newcomer, h.shows.settled h.stamp hrefresh halike htidy hcanonical,
    h.there, fun hgone => ?_, htidy, hcanonical⟩
  rw [FileStore.refresh, hgone] at hrefresh
  cases hrefresh
  exact h.gone hgone

/-- A change is made to what the store in use goes by, and a new store shows it if it has been
saved or was made to the file. -/
theorem change (h : k.Sound path file live) (w : Write)
    (hsurvives : ∀ v ∈ (k.after path (.asked (.change w))).saved, Yaml.Survives v) :
    ∃ file' live', (k.after path (.asked (.change w))).Sound path file' live' ∧
      live'.Alike (live.after w) ∧ (k.disk.content ≠ .absent → file' = live') := by
  cases hw : w.canonical with
  | error fault =>
    have hafter : k.after path (.asked (.change w)) = k := by
      simp [after, Access.ask, Access.file, FileStore.write, hw, answered]
    rw [hafter, Store.after_of_malformed hw]
    exact ⟨file, live, h, .refl live, h.there⟩
  | ok changed =>
    obtain ⟨f', hrefresh, happlied, hsame, htidy, hcanonical⟩ := h.shows.exists_apply hw
    have hwrite := FileStore.write_eq hw hrefresh h.place
    rw [Store.after_of_canonical hw]
    cases hdifference : (f'.store.apply changed).2 with
    | false =>
      rw [hdifference] at hwrite
      simp only [after, Access.ask, Access.file, hwrite, answered, Bool.false_eq_true, if_false,
        if_true]
      have hshows : FileStore.Shows { f' with store := (f'.store.apply changed).1 } k.disk
          (f'.store.apply changed).1 :=
        h.shows.settled h.stamp hrefresh (.refl _) htidy hcanonical
      -- Nothing is saved. A new store shows the change only if the file held it already.
      by_cases hgone : k.disk.content = .absent
      · obtain ⟨hfile, -⟩ := h.gone hgone
        exact ⟨file, _, ⟨h.place, h.stamp, h.newcomer, hshows, fun hthere => absurd hgone hthere,
          fun _ => ⟨hfile, rfl⟩, htidy, hcanonical⟩, happlied, fun hthere => absurd hgone hthere⟩
      · have hunchanged : live.Alike (live.apply changed).1 :=
          Store.alike_apply (hsame.symm.trans hdifference)
        have hnewcomer := h.newcomer.congr (h.there hgone ▸ hunchanged.trans happlied.symm)
        exact ⟨_, _, ⟨h.place, h.stamp, hnewcomer, hshows, fun _ => rfl,
          fun hgone' => absurd hgone' hgone, htidy, hcanonical⟩, happlied, fun _ => rfl⟩
    | true =>
      have hmoved (c : Content) : k.disk.put c ≠ k.disk := fun heq =>
        Nat.succ_ne_self _ (congrArg Disk.nextStamp heq)
      rw [hdifference, if_pos rfl] at hwrite
      simp only [after, Access.ask, Access.file, hwrite, answered, if_neg (hmoved _)]
        at hsurvives ⊢
      obtain ⟨t, hload, halike, htidy', hcanonical'⟩ := ofText_toText htidy hcanonical
        (hsurvives _ (List.mem_append_right _ (List.mem_singleton_self _)))
      have hshows := FileStore.shows_saved f' (d := k.disk) (f'.store.apply changed).1.toText
        happlied htidy hcanonical
      exact ⟨_, _, put h.place hload (halike.symm.trans happlied) htidy' hcanonical' hshows htidy
        hcanonical, .refl _, fun _ => rfl⟩

theorem replaced {text : String} {document : Value} {t : Store} (h : k.Sound path file live)
    (readable : documentOf? text = some document) (loadable : Store.ofValue document = .ok t) :
    (k.after path (.replaced text)).Sound path t t := by
  obtain ⟨htidy, hcanonical⟩ := Store.sound_of_ofValue loadable
  have hload := ofText_of_document readable loadable
  exact put h.place hload (.refl t) htidy hcanonical
    (FileStore.shows_put h.shows.past hload (.refl t) htidy hcanonical) h.tidy h.canonical

end Sound

theorem saved_after (path : String) (k : Keeper) (deed : Deed) :
    k.saved ⊆ (k.after path deed).saved := by
  cases deed with
  | opened =>
    unfold after
    dsimp only
    split <;> exact fun _ h => h
  | asked request =>
    simp only [after]
    split
    · exact fun _ h => h
    · exact List.subset_append_left _ _
  | replaced text => exact fun _ h => h
  | removed => exact fun _ h => h

theorem Reached.sound {path : String} {k : Keeper} (hr : k.Reached path)
    (hsurvives : ∀ v ∈ k.saved, Yaml.Survives v) : ∃ file live, k.Sound path file live := by
  induction hr with
  | begin => exact ⟨_, _, .begin path⟩
  | @deed k deed before orderly ih =>
    obtain ⟨file, live, h⟩ := ih fun v hv => hsurvives v (saved_after path k deed hv)
    cases orderly with
    | opened => exact ⟨_, _, h.opened⟩
    | @asked request elementary =>
      by_cases hchange : ∃ w, request = .change w
      · obtain ⟨w, rfl⟩ := hchange
        obtain ⟨file', live', hnext, -, -⟩ := h.change w hsurvives
        exact ⟨file', live', hnext⟩
      · exact ⟨_, _, h.read elementary fun w heq => hchange ⟨w, heq⟩⟩
    | replaced readable loadable => exact ⟨_, _, h.replaced readable loadable⟩
    | removed => exact ⟨_, _, h.removed⟩

section Answers

variable {path : String} {k : Keeper} {f : FileStore} {r : Store} {request : Request}

theorem answer_eq (checks : Grants → Value) (h : f.Shows k.disk r)
    (elementary : request.Elementary) (hread : ∀ w, request ≠ .change w) :
    k.answer checks f request = r.told checks request := by
  obtain ⟨f', hrefresh, halike, -, hcanonical⟩ := h.shown
  rw [answer, FileStore.ask_read elementary hread hrefresh]
  exact halike.told hcanonical checks elementary

/-- While there is a file, the store in use answers every read as a store does that is opened now,
and a change leaves in the file what it held, so changed. When there is none, the store in use
answers from its memory, whereas a new store is empty; and a change that brings a file about puts
this memory into it. -/
theorem live_store_follows_the_file (hr : k.Reached path)
    (hsurvives : ∀ v ∈ k.saved, Yaml.Survives v) (checks : Grants → Value) :
    ∃ newcomer, FileStore.openAt path k.disk = .ok newcomer ∧
      (∀ request : Request, request.Elementary → (∀ w, request ≠ .change w) →
        (k.disk.content ≠ .absent →
          k.answer checks k.live request = k.answer checks newcomer request) ∧
        (k.disk.content = .absent →
          k.answer checks k.live request = k.live.store.told checks request ∧
            k.answer checks newcomer request = Store.empty.told checks request)) ∧
      ∀ w, (∀ v ∈ (k.after path (.asked (.change w))).saved, Yaml.Survives v) →
        ∃ later, FileStore.openAt path (k.after path (.asked (.change w))).disk = .ok later ∧
          (k.disk.content ≠ .absent → later.store.Alike (newcomer.store.after w)) ∧
          (k.disk.content = .absent →
            (k.after path (.asked (.change w))).disk.content ≠ .absent →
              later.store.Alike (k.live.store.after w)) := by
  obtain ⟨file, live, h⟩ := hr.sound hsurvives
  obtain ⟨newcomer, hopened, halike, htidy, hcanonical⟩ := h.newcomer.shown
  have hnew : newcomer.Shows k.disk file :=
    h.newcomer.settled h.stamp hopened halike htidy hcanonical
  refine ⟨newcomer, hopened, fun request elementary hread => ⟨fun hthere => ?_, fun hgone => ?_⟩,
    fun w hlater => ?_⟩
  · rw [answer_eq checks h.shows elementary hread, answer_eq checks hnew elementary hread,
      h.there hthere]
  · obtain ⟨rfl, rfl⟩ := h.gone hgone
    exact ⟨answer_eq checks h.shows elementary hread, answer_eq checks hnew elementary hread⟩
  · obtain ⟨file', live', hnext, hlive, hsame⟩ := h.change w hlater
    obtain ⟨later, hreopened, hshown, -, -⟩ := hnext.newcomer.shown
    refine ⟨later, hreopened, fun hthere => ?_, fun hgone hwritten => ?_⟩
    · have hchanged := halike.after hcanonical w
      rw [h.there hthere] at hchanged
      exact (hsame hthere ▸ hshown).trans (hlive.trans hchanged.symm)
    · obtain ⟨-, rfl⟩ := h.gone hgone
      exact (hnext.there hwritten ▸ hshown).trans hlive

end Answers

theorem told_memberRoles (checks : Grants → Value) (s : Store) (guild user : String) :
    s.told checks (.memberRoles guild user) =
      .ok (.texts (sortTexts (s.memberRoles guild user))) := rfl

theorem exists_served :
    ∃ k : Keeper, k.Reached "p.yaml" ∧ k.saved = [] ∧ k.disk.content ≠ .absent ∧
      k.live.store.memberRoles "1" "42" = ["mod"] := by
  let text := "guilds:\n  '1':\n    members:\n      '42': [mod]\n"
  let edited : Store := ⟨[("1", ⟨[], [("42", ["mod"])], []⟩)]⟩
  have hdocument : (documentOf? text).map Store.ofValue = some (.ok edited) := by decide +kernel
  obtain ⟨document, hreadable, hloadable⟩ := Option.map_eq_some_iff.mp hdocument
  have hload := ofText_of_document hreadable hloadable "p.yaml"
  have hopened : ((begin "p.yaml").after "p.yaml" (.replaced text)).after "p.yaml" .opened =
      ⟨⟨"p.yaml", edited, some 1⟩, ⟨.file text, 1, 2, none⟩, []⟩ := by
    simp [after, begin, FileStore.openAt, FileStore.refresh, Disk.put, Disk.empty, hload, bind,
      Except.bind, pure, Except.pure]
  have hbegin : (begin "p.yaml").Reached "p.yaml" := .begin
  have hreached := (hbegin.deed (.replaced hreadable hloadable)).deed .opened
  rw [hopened] at hreached
  exact ⟨_, hreached, rfl, by simp, by decide⟩

/-- The role is served while the file is there, by the store in use and by a new one. When the
file has been removed, only the store in use serves it. -/
theorem roles_before_and_after_removal :
    ∃ k : Keeper, k.Reached "p.yaml" ∧
      (∃ newcomer, FileStore.openAt "p.yaml" k.disk = .ok newcomer ∧
        k.answer (fun _ => .null) k.live (.memberRoles "1" "42") =
          k.answer (fun _ => .null) newcomer (.memberRoles "1" "42")) ∧
      (k.after "p.yaml" .removed).answer (fun _ => .null) k.live (.memberRoles "1" "42") =
        .ok (.texts ["mod"]) ∧
      ∃ newcomer, FileStore.openAt "p.yaml" (k.after "p.yaml" .removed).disk = .ok newcomer ∧
        (k.after "p.yaml" .removed).answer (fun _ => .null) newcomer (.memberRoles "1" "42") =
          .ok (.texts []) := by
  obtain ⟨k, hr, hsaved, hthere, hroles⟩ := exists_served
  have hnone : ∀ v ∈ k.saved, Yaml.Survives v := by simp [hsaved]
  have hread : ∀ w, Request.memberRoles "1" "42" ≠ .change w := by simp
  obtain ⟨newcomer, hopened, hreads, -⟩ := live_store_follows_the_file hr hnone fun _ => .null
  obtain ⟨later, hreopened, hreads', -⟩ :=
    live_store_follows_the_file (hr.deed .removed) hnone fun _ => .null
  have hfile := (hreads _ (.memberRoles "1" "42") hread).1 hthere
  obtain ⟨hlive, hnew⟩ := (hreads' _ (.memberRoles "1" "42") hread).2 rfl
  have hmemory : (k.after "p.yaml" .removed).live.store.memberRoles "1" "42" = ["mod"] := hroles
  rw [told_memberRoles, hmemory] at hlive
  rw [told_memberRoles, show Store.empty.memberRoles "1" "42" = [] by decide] at hnew
  exact ⟨k, hr, ⟨newcomer, hopened, hfile⟩, hlive.trans (by simp [sortTexts]), later, hreopened,
    hnew.trans (by simp [sortTexts])⟩

/-- It is not so that the store in use always answers as a new one does. -/
theorem removal_goes_unnoticed :
    ¬ ∀ k : Keeper, k.Reached "p.yaml" → (∀ v ∈ k.saved, Yaml.Survives v) →
      ∀ newcomer, FileStore.openAt "p.yaml" k.disk = .ok newcomer →
        ∀ request : Request, request.Elementary → (∀ w, request ≠ .change w) →
          k.answer (fun _ => .null) k.live request =
            k.answer (fun _ => .null) newcomer request := by
  intro hsame
  obtain ⟨k, hr, hsaved, -, hroles⟩ := exists_served
  have hnone : ∀ v ∈ k.saved, Yaml.Survives v := by simp [hsaved]
  have hread : ∀ w, Request.memberRoles "1" "42" ≠ .change w := by simp
  obtain ⟨file, live, h⟩ := (hr.deed .removed).sound hnone
  obtain ⟨rfl, rfl⟩ := h.gone rfl
  have hanswers := hsame _ (hr.deed .removed) hnone ⟨"p.yaml", .empty, none⟩ rfl _
    (.memberRoles "1" "42") hread
  have hmemory : (k.after "p.yaml" .removed).live.store.memberRoles "1" "42" = ["mod"] := hroles
  rw [answer_eq _ h.shows (.memberRoles "1" "42") hread,
    answer_eq _ h.newcomer (.memberRoles "1" "42") hread, told_memberRoles, told_memberRoles,
    hmemory, show Store.empty.memberRoles "1" "42" = [] by decide] at hanswers
  simp [sortTexts, Value.texts] at hanswers

end Keeper

end Guildhall.Permission
