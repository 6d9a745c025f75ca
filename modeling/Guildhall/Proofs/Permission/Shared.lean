import Guildhall.Permission.Request
import Guildhall.Proofs.Permission.Alike
import Guildhall.Proofs.Yaml.Writer
import Mathlib.Logic.Function.Basic

/-!
# Stores that share a file

Several stores may keep one file, beside an operator who replaces it now and then. As every save and
every replacement leaves a time stamp of its own, each store looks at what the others have left
before it answers or changes anything. Together they behave as one store in memory.
-/

namespace Guildhall

/-- Whether a document that is written is read again as an equal one. -/
def Yaml.Survives (v : Value) : Prop :=
  ∃ w, parse (render v).toList = .ok w ∧ v.same w = true

theorem Yaml.survives_iff {v : Value} :
    Survives v ↔ (parse (render v).toList).toOption.any v.same = true := by
  unfold Survives
  cases parse (render v).toList <;> simp [Except.toOption]

namespace Permission

section Answers

variable {s t : Store}

/-- The order by keys does not depend on how the items stand before, if keys tell them apart. -/
theorem mergeSort_congr {α : Type} (key : α → String) {items others : List α}
    (h : items.Perm others) (hkey : ∀ a ∈ items, ∀ b ∈ items, key a = key b → a = b) :
    (items.mergeSort fun a b => decide (key a ≤ key b)) =
      others.mergeSort fun a b => decide (key a ≤ key b) := by
  have hitems := List.mergeSort_perm items fun a b => decide (key a ≤ key b)
  have hothers := List.mergeSort_perm others fun a b => decide (key a ≤ key b)
  refine List.Perm.eq_of_pairwise (fun a b ha hb hab hba => ?_) (pairwise_mergeSort_key key items)
    (pairwise_mergeSort_key key others) ((hitems.trans h).trans hothers.symm)
  have hb' : b ∈ items := h.mem_iff.mpr (hothers.mem_iff.mp hb)
  exact hkey a (hitems.mem_iff.mp ha) b hb' (String.le_antisymm hab hba)

theorem sortTexts_congr {texts others : List String} (h : texts.Perm others) :
    sortTexts texts = sortTexts others :=
  mergeSort_congr id h fun _ _ _ _ heq => heq

theorem exists_readOverrides_map {entries : List (String × Bool)}
    (h : ∀ entry ∈ entries, ∃ n : Node, n.Canonical ∧ n.value = entry.1) :
    ∃ os, Store.readOverrides entries = .ok os ∧
      os.map (fun o => (o.node.value, o.allow)) = entries := by
  induction entries with
  | nil => exact ⟨[], rfl, rfl⟩
  | cons entry rest ih =>
    obtain ⟨n, hn, hvalue⟩ := h entry List.mem_cons_self
    obtain ⟨os, hos, hmap⟩ := ih fun other ho => h other (List.mem_cons_of_mem _ ho)
    obtain ⟨value, allow⟩ := entry
    cases hvalue
    refine ⟨⟨n, allow⟩ :: os, ?_, by rw [List.map_cons, hmap]⟩
    rw [Store.readOverrides, hn, hos]
    rfl

/-- The operations of a store: its changes, and the reads of roles, of permissions and of
overrides. -/
inductive Request.Elementary : Request → Prop
  | change (w : Write) : Elementary (.change w)
  | memberRoles (guild user : String) : Elementary (.memberRoles guild user)
  | rolePermissions (guild role : String) : Elementary (.rolePermissions guild role)
  | overrides (guild user : String) : Elementary (.overrides guild user)

def Store.told (checks : Grants → Value) (s : Store) (request : Request) : Except Failure Value :=
  (Access.memory.ask request s).1.map (Answer.toValue checks)

theorem Store.Alike.told (h : s.Alike t) (hs : s.Canonical) (checks : Grants → Value)
    {request : Request} (helementary : request.Elementary) :
    s.told checks request = t.told checks request := by
  unfold Store.told
  cases helementary with
  | change w =>
    simp only [Access.ask, Access.memory, Store.write]
    cases hw : w.canonical with
    | error fault => rfl
    | ok changed =>
      have hsame := (h.apply hs changed).2
      simp only [bind, Except.bind, pure, Except.pure, answered, hsame]
  | memberRoles guild user =>
    simp only [Access.ask, Access.memory, Source.memory, answered, Function.comp_apply,
      sortTexts_congr (h.memberRoles guild user)]
  | rolePermissions guild role =>
    simp only [Access.ask, Access.memory, Source.memory, answered, Function.comp_apply,
      sortTexts_congr (h.rolePermissions guild role)]
  | overrides guild user =>
    have hentries := h.overrideEntries guild user
    have hcanonical := hs.overrides guild user
    obtain ⟨os, hos, hmap⟩ := exists_readOverrides_map hcanonical
    obtain ⟨ps, hps, hmap'⟩ := exists_readOverrides_map fun entry hentry =>
      hcanonical entry (hentries.mem_iff.mpr hentry)
    have hsorted := mergeSort_congr (·.1) hentries fun a ha b hb hkey =>
      List.inj_on_of_nodup_map (hs.distinct guild user) ha hb hkey
    rw [← hmap, ← hmap'] at hsorted
    simp only [Access.ask, Access.memory, Source.memory, Store.overrides, hos, hps, orFailure,
      answered, Except.map, Answer.toValue, hsorted]

theorem Store.alike_apply {w : Write} (h : (s.apply w).2 = false) : s.Alike (s.apply w).1 := by
  have hsame (guild : String) : s.Alike (s.setGuild guild (s.guild guild)) := fun other => by
    rw [guild_setGuild_self]
    exact .refl _
  cases w with
  | clearOverride guild user node =>
    unfold Store.apply at h ⊢
    dsimp only at h ⊢
    split
    case h_1 => exact hsame guild
    case h_2 entries hentries =>
      rw [hentries] at h
      dsimp only at h
      split
      case isTrue hthere => simp [hthere] at h
      case isFalse => exact hsame guild
  | revokeRole guild role node =>
    unfold Store.apply at h
    dsimp only at h
    split at h <;> cases h
  | _ => cases h

end Answers

/-- The document of a text that can be read; a text with nothing in it is an empty mapping. -/
def documentOf? (text : String) : Option Value :=
  match Yaml.parse (Text.plainLines text.toList) with
  | .ok v => some (if v.isTrue then v else .map [])
  | .error _ => none

theorem ofText_of_document {text : String} {document : Value} {s : Store}
    (hdocument : documentOf? text = some document) (hs : Store.ofValue document = .ok s)
    (path : String) : Store.ofText path text = .ok s := by
  unfold documentOf? at hdocument
  cases hparse : Yaml.parse (Text.plainLines text.toList) with
  | error fault => simp [hparse] at hdocument
  | ok v =>
    rw [hparse, Option.some.injEq] at hdocument
    unfold Store.ofText
    simp only [hparse, hdocument]
    cases document with
    | map entries => simp only [hs]
    | _ => cases hs

/-- A store that is saved is loaded again, if its document survives. -/
theorem ofText_toText {s : Store} (ht : s.Tidy) (hc : s.Canonical)
    (hsurvives : Yaml.Survives s.toValue) :
    ∃ t : Store, (∀ path, Store.ofText path s.toText = .ok t) ∧ s.Alike t ∧ t.Tidy ∧
      t.Canonical := by
  obtain ⟨document, hparse, hsame⟩ := hsurvives
  obtain ⟨t, hload, halike⟩ := Store.exists_ofValue ht hc hsame
  obtain ⟨htidy, hcanonical⟩ := Store.sound_of_ofValue hload
  obtain ⟨entries, rfl, hlength, -⟩ := Value.map_same.mp hsame
  have htrue : (Value.map entries).isTrue = true := by
    cases entries with
    | nil => cases hlength
    | cons => rfl
  have hdocument : documentOf? s.toText = some (.map entries) := by
    rw [documentOf?, Store.toText, Yaml.plainLines_render, hparse]
    simp only [htrue, if_true]
  exact ⟨t, ofText_of_document hdocument hload, halike, htidy, hcanonical⟩

namespace FileStore

variable {f f' : FileStore} {d : Disk} {r r' : Store}

/-- After a look at the file, another look finds nothing new, whatever has been changed in memory
meanwhile. -/
theorem refresh_settled (h : f.refresh d = .ok f') (store : Store) :
    { f' with store := store }.refresh d = .ok { f' with store := store } := by
  unfold refresh at h ⊢
  cases hcontent : d.content with
  | absent => rfl
  | directory =>
    simp only [hcontent] at h ⊢
    split at h
    case isTrue hseen =>
      cases h
      simp [hseen]
    case isFalse => cases h
  | file text =>
    simp only [hcontent] at h ⊢
    split at h
    case isTrue hseen =>
      cases h
      simp [hseen]
    case isFalse =>
      obtain ⟨s, -, h⟩ := bind_eq_ok.mp h
      cases h
      simp

theorem seen_refresh (h : f.refresh d = .ok f') : f'.seen = f.seen ∨ f'.seen = some d.stamp := by
  unfold refresh at h
  split at h
  case h_1 => cases h; exact .inl rfl
  case h_2 =>
    split at h
    · cases h; exact .inl rfl
    · cases h
  case h_3 =>
    split at h
    · cases h; exact .inl rfl
    · obtain ⟨s, -, h⟩ := bind_eq_ok.mp h
      cases h
      exact .inr rfl

/-- Whether a store that looks at the disk records what `r` does. The time stamps that it has seen
are past ones. -/
structure Shows (f : FileStore) (d : Disk) (r : Store) : Prop where
  past : ∀ stamp, f.seen = some stamp → stamp < d.nextStamp
  shown : ∃ f', f.refresh d = .ok f' ∧ f'.store.Alike r ∧ f'.store.Tidy ∧ f'.store.Canonical

theorem shows_put {text : String} {t : Store}
    (hpast : ∀ stamp, f.seen = some stamp → stamp < d.nextStamp)
    (hload : ∀ path, Store.ofText path text = .ok t) (halike : t.Alike r) (htidy : t.Tidy)
    (hcanonical : t.Canonical) : f.Shows (d.put (.file text)) r where
  past stamp hseen := Nat.lt_succ_of_lt (hpast stamp hseen)
  shown := by
    have hnew : f.seen ≠ some d.nextStamp := fun hseen => Nat.lt_irrefl _ (hpast _ hseen)
    refine ⟨{ f with store := t, seen := some d.nextStamp }, ?_, halike, htidy, hcanonical⟩
    simp only [refresh, Disk.put, if_neg hnew, hload, bind, Except.bind, pure, Except.pure]

theorem shows_saved (f : FileStore) (text : String) {s : Store} (halike : s.Alike r)
    (htidy : s.Tidy) (hcanonical : s.Canonical) :
    FileStore.Shows { f with store := s, seen := some d.nextStamp } (d.put (.file text)) r where
  past _ hseen := Option.some.inj hseen ▸ Nat.lt_succ_self _
  shown := by
    refine ⟨{ f with store := s, seen := some d.nextStamp }, ?_, halike, htidy, hcanonical⟩
    simp only [refresh, Disk.put, if_true]

namespace Shows

theorem congr (h : f.Shows d r) (halike : r.Alike r') : f.Shows d r' := by
  obtain ⟨f', hrefresh, hr, htidy, hcanonical⟩ := h.shown
  exact ⟨h.past, f', hrefresh, hr.trans halike, htidy, hcanonical⟩

theorem settled (h : f.Shows d r) (hstamp : d.stamp < d.nextStamp) (hrefresh : f.refresh d = .ok f')
    {store : Store} (halike : store.Alike r') (htidy : store.Tidy) (hcanonical : store.Canonical) :
    FileStore.Shows { f' with store := store } d r' where
  past stamp hseen := by
    rcases seen_refresh hrefresh with heq | heq
    · exact h.past stamp (heq ▸ hseen)
    · rw [heq] at hseen
      exact Option.some.inj hseen ▸ hstamp
  shown := ⟨_, refresh_settled hrefresh store, halike, htidy, hcanonical⟩

theorem exists_apply {w changed : Write} (h : f.Shows d r) (hw : w.canonical = .ok changed) :
    ∃ f', f.refresh d = .ok f' ∧ (f'.store.apply changed).1.Alike (r.apply changed).1 ∧
      (f'.store.apply changed).2 = (r.apply changed).2 ∧ (f'.store.apply changed).1.Tidy ∧
      (f'.store.apply changed).1.Canonical := by
  obtain ⟨f', hrefresh, halike, htidy, hcanonical⟩ := h.shown
  obtain ⟨happlied, hsame⟩ := halike.apply hcanonical changed
  exact ⟨f', hrefresh, happlied, hsame, htidy.apply (Write.named_of_canonical hw),
    Store.after_of_canonical hw ▸ hcanonical.after w⟩

end Shows

theorem save_eq (f : FileStore) (hplace : d.Writable) :
    f.save d = .ok ({ f with seen := some d.nextStamp }, d.put (.file f.store.toText)) := by
  unfold save
  split
  case h_1 hdirectory => exact absurd hdirectory hplace.1
  case h_2 hrefusal _ => simp [hplace.2] at hrefusal
  case h_3 => rfl

/-- A change is made to what the file holds, and saved if it makes a difference. -/
theorem write_eq {w changed : Write} (hw : w.canonical = .ok changed)
    (hrefresh : f.refresh d = .ok f') (hplace : d.Writable) :
    f.write d w =
      if (f'.store.apply changed).2 then
        (.ok true, { f' with store := (f'.store.apply changed).1, seen := some d.nextStamp },
          d.put (.file (f'.store.apply changed).1.toText))
      else (.ok false, { f' with store := (f'.store.apply changed).1 }, d) := by
  unfold write
  simp only [hw, hrefresh]
  cases (f'.store.apply changed).2 with
  | false => rfl
  | true =>
    simp only [Bool.not_true, Bool.false_eq_true, if_false, save_eq _ hplace, if_true]

theorem ask_read {request : Request} (helementary : request.Elementary)
    (hread : ∀ w, request ≠ .change w) (hrefresh : f.refresh d = .ok f') :
    Access.file.ask request (f, d) = ((Access.memory.ask request f'.store).1, (f', d)) := by
  cases helementary with
  | change w => exact absurd rfl (hread w)
  | memberRoles guild user =>
    simp only [Access.ask, Access.file, source, read, hrefresh, Access.memory, Source.memory,
      answered]
  | rolePermissions guild role =>
    simp only [Access.ask, Access.file, source, read, hrefresh, Access.memory, Source.memory,
      answered]
  | overrides guild user =>
    simp only [Access.ask, Access.file, source, read, hrefresh, Access.memory, Source.memory]
    cases orFailure (f'.store.overrides guild user) <;> rfl

end FileStore

/-- Stores that keep one file, what is at its path, and the documents that have been saved there.
The documents are only there to be reasoned about. -/
structure Shared (n : Nat) where
  stores : Fin n → FileStore
  disk : Disk
  saved : List Value

/-- What happens to stores that share a file: one is opened anew, one is asked something, or the
operator replaces the file by another text. -/
inductive Shared.Act (n : Nat)
  | opened (i : Fin n)
  | asked (i : Fin n) (request : Request)
  | edited (text : String)

namespace Shared

variable {n : Nat}

def begin (n : Nat) (path : String) : Shared n :=
  ⟨fun _ => ⟨path, .empty, none⟩, .empty, []⟩

/-- An act. Each store works on its own memory and on the file. -/
def perform (path : String) (s : Shared n) : Act n → Except Failure Answer × Shared n
  | .opened i =>
    match FileStore.openAt path s.disk with
    | .ok f => (.ok .done, { s with stores := Function.update s.stores i f })
    | .error e => (.error e, s)
  | .asked i request =>
    let (answer, f, disk) := Access.file.ask request (s.stores i, s.disk)
    let saved := if disk = s.disk then s.saved else s.saved ++ [f.store.toValue]
    (answer, ⟨Function.update s.stores i f, disk, saved⟩)
  | .edited text => (.ok .done, { s with disk := s.disk.put (.file text) })

namespace Act

/-- What a single store is asked in place of an act, if anything. -/
def request? : Act n → Option Request
  | opened _ => none
  | asked _ request => some request
  | edited text => (documentOf? text).map .load

def single (s : Store) (act : Act n) : Except Failure Answer × Store :=
  match act.request? with
  | none => (.ok .done, s)
  | some request => Access.memory.ask request s

inductive Orderly : Act n → Prop
  | opened (i : Fin n) : Orderly (.opened i)
  | asked (i : Fin n) {request : Request} (elementary : request.Elementary) :
      Orderly (.asked i request)
  | edited {text : String} {document : Value} {s : Store}
      (readable : documentOf? text = some document) (loadable : Store.ofValue document = .ok s) :
      Orderly (.edited text)

end Act

section Perform

variable {path : String} {s : Shared n} {i : Fin n} {f : FileStore} {w changed : Write}

theorem perform_change (hw : w.canonical = .ok changed)
    (hrefresh : (s.stores i).refresh s.disk = .ok f) (hplace : s.disk.Writable)
    (hdifference : (f.store.apply changed).2 = true) :
    s.perform path (.asked i (.change w)) =
      (.ok (w.answer true),
        ⟨Function.update s.stores i
            { f with store := (f.store.apply changed).1, seen := some s.disk.nextStamp },
          s.disk.put (.file (f.store.apply changed).1.toText),
          s.saved ++ [(f.store.apply changed).1.toValue]⟩) := by
  have hmoved (c : Content) : s.disk.put c ≠ s.disk := fun heq =>
    Nat.succ_ne_self _ (congrArg Disk.nextStamp heq)
  have hwrite := FileStore.write_eq hw hrefresh hplace
  rw [hdifference, if_pos rfl] at hwrite
  simp only [perform, Access.ask, Access.file, hwrite, answered, if_neg (hmoved _)]

theorem perform_unchanged (hw : w.canonical = .ok changed)
    (hrefresh : (s.stores i).refresh s.disk = .ok f) (hplace : s.disk.Writable)
    (hdifference : (f.store.apply changed).2 = false) :
    s.perform path (.asked i (.change w)) =
      (.ok (w.answer false),
        ⟨Function.update s.stores i { f with store := (f.store.apply changed).1 }, s.disk,
          s.saved⟩) := by
  have hwrite := FileStore.write_eq hw hrefresh hplace
  rw [hdifference] at hwrite
  simp only [perform, Access.ask, Access.file, hwrite, answered, Bool.false_eq_true, if_false,
    if_true]

theorem perform_malformed {fault : Malformed} (hw : w.canonical = .error fault) :
    s.perform path (.asked i (.change w)) = (.error fault.failure, s) := by
  simp [perform, Access.ask, Access.file, FileStore.write, hw, answered]

theorem perform_read {request : Request} (helementary : request.Elementary)
    (hread : ∀ w, request ≠ .change w) (hrefresh : (s.stores i).refresh s.disk = .ok f) :
    s.perform path (.asked i request) =
      ((Access.memory.ask request f.store).1,
        ⟨Function.update s.stores i f, s.disk, s.saved⟩) := by
  simp only [perform, FileStore.ask_read helementary hread hrefresh, if_true]

end Perform

structure Coherent (path : String) (s : Shared n) (r : Store) : Prop where
  place : s.disk.Writable
  stamp : s.disk.stamp < s.disk.nextStamp
  newcomer : FileStore.Shows ⟨path, .empty, none⟩ s.disk r
  shows : ∀ i, (s.stores i).Shows s.disk r

namespace Coherent

variable {path : String} {s : Shared n} {r r' : Store} {f f' : FileStore} {i : Fin n}

theorem begin (n : Nat) (path : String) : Coherent path (begin n path) .empty := by
  have hnew : FileStore.Shows ⟨path, .empty, none⟩ .empty .empty :=
    ⟨by simp, _, rfl, .refl _, Store.tidy_empty, Store.canonical_empty⟩
  exact ⟨Disk.writable_empty, Nat.zero_lt_one, hnew, fun _ => hnew⟩

theorem update {saved : List Value} (h : s.Coherent path r) (halike : r.Alike r')
    (hf : f.Shows s.disk r') (i : Fin n) :
    Coherent path ⟨Function.update s.stores i f, s.disk, saved⟩ r' := by
  refine ⟨h.place, h.stamp, h.newcomer.congr halike, fun j => ?_⟩
  by_cases hj : j = i
  · simpa [hj] using hf
  · simpa [hj] using (h.shows j).congr halike

theorem replaced {text : String} {t : Store} {stores : Fin n → FileStore} {saved : List Value}
    (h : s.Coherent path r) (hload : ∀ path, Store.ofText path text = .ok t) (halike : t.Alike r')
    (htidy : t.Tidy) (hcanonical : t.Canonical)
    (hstores : ∀ j, stores j = s.stores j ∨ (stores j).Shows (s.disk.put (.file text)) r') :
    Coherent path ⟨stores, s.disk.put (.file text), saved⟩ r' := by
  refine ⟨h.place.put (by simp), Nat.lt_succ_self _, ?_, fun j => ?_⟩
  · exact FileStore.shows_put h.newcomer.past hload halike htidy hcanonical
  · rcases hstores j with heq | hshows
    · have hreplaced := FileStore.shows_put (h.shows j).past hload halike htidy hcanonical
      rwa [← heq] at hreplaced
    · exact hshows

theorem change (h : s.Coherent path r) (i : Fin n) (w : Write)
    (hsurvives : ∀ v ∈ (s.perform path (.asked i (.change w))).2.saved, Yaml.Survives v)
    (checks : Grants → Value) :
    (s.perform path (.asked i (.change w))).1.map (Answer.toValue checks) =
        r.told checks (.change w) ∧
      (s.perform path (.asked i (.change w))).2.Coherent path
        (Access.memory.ask (.change w) r).2 := by
  cases hw : w.canonical with
  | error fault =>
    have hmemory : Access.memory.ask (.change w) r = (.error fault.failure, r) := by
      simp [Access.ask, Access.memory, Store.write, hw, bind, Except.bind, answered]
    rw [perform_malformed hw, Store.told, hmemory]
    exact ⟨rfl, h⟩
  | ok changed =>
    obtain ⟨f', hrefresh, happlied, hsame, htidy, hcanonical⟩ := (h.shows i).exists_apply hw
    have hmemory : Access.memory.ask (.change w) r =
        (.ok (w.answer (r.apply changed).2), (r.apply changed).1) := by
      simp [Access.ask, Access.memory, Store.write, hw, bind, Except.bind, pure, Except.pure,
        answered]
    rw [Store.told, hmemory]
    cases hdifference : (r.apply changed).2 with
    | false =>
      rw [perform_unchanged hw hrefresh h.place (hsame.trans hdifference)]
      exact ⟨rfl, h.update (Store.alike_apply hdifference)
        ((h.shows i).settled h.stamp hrefresh happlied htidy hcanonical) i⟩
    | true =>
      rw [perform_change hw hrefresh h.place (hsame.trans hdifference)] at hsurvives ⊢
      obtain ⟨t, hload, halike, htidy', hcanonical'⟩ := ofText_toText htidy hcanonical
        (hsurvives _ (List.mem_append_right _ (List.mem_singleton_self _)))
      refine ⟨rfl, h.replaced hload (halike.symm.trans happlied) htidy' hcanonical' fun j => ?_⟩
      by_cases hj : j = i
      · subst hj
        refine .inr ?_
        rw [Function.update_self]
        -- The store that has saved is the only one that need not load the file again.
        exact FileStore.shows_saved f' _ happlied htidy hcanonical
      · exact .inl (Function.update_of_ne hj _ _)

/-- An act is answered as by a single store, and all stores agree afterwards. -/
theorem perform (h : s.Coherent path r) {act : Act n} (horderly : act.Orderly)
    (hsurvives : ∀ v ∈ (s.perform path act).2.saved, Yaml.Survives v) (checks : Grants → Value) :
    (s.perform path act).1.map (Answer.toValue checks) =
        (act.single r).1.map (Answer.toValue checks) ∧
      (s.perform path act).2.Coherent path (act.single r).2 := by
  cases horderly with
  | opened i =>
    obtain ⟨f', hrefresh, halike, htidy, hcanonical⟩ := h.newcomer.shown
    have hopened : FileStore.openAt path s.disk = .ok f' := hrefresh
    simp only [Shared.perform, hopened]
    exact ⟨rfl, h.update (.refl r)
      (h.newcomer.settled h.stamp hrefresh halike htidy hcanonical) i⟩
  | @asked i request elementary =>
    by_cases hchange : ∃ w, request = .change w
    · obtain ⟨w, rfl⟩ := hchange
      exact h.change i w hsurvives checks
    · obtain ⟨f', hrefresh, halike, htidy, hcanonical⟩ := (h.shows i).shown
      have hread : ∀ w, request ≠ .change w := fun w heq => hchange ⟨w, heq⟩
      have hmemory : (Access.memory.ask request r).2 = r := by
        cases elementary with
        | change w => exact absurd rfl (hread w)
        | memberRoles guild user => rfl
        | rolePermissions guild role => rfl
        | overrides guild user =>
          simp only [Access.ask, Access.memory, Source.memory]
          cases orFailure (r.overrides guild user) <;> rfl
      rw [perform_read elementary hread hrefresh]
      refine ⟨halike.told hcanonical checks elementary, ?_⟩
      rw [Act.single, Act.request?, hmemory]
      exact h.update (.refl r) ((h.shows i).settled h.stamp hrefresh halike htidy hcanonical) i
  | @edited text document t readable loadable =>
    have hmemory : Act.single r (.edited text : Act n) = (.ok .done, t) := by
      simp [Act.single, Act.request?, readable, Access.ask, Access.memory, loadable, answered]
    obtain ⟨htidy, hcanonical⟩ := Store.sound_of_ofValue loadable
    rw [hmemory]
    exact ⟨rfl, h.replaced (ofText_of_document readable loadable) (.refl t) htidy hcanonical
      fun _ => .inl rfl⟩

end Coherent

def answersOf {σ α β : Type} (step : σ → α → β × σ) : σ → List α → List β × σ
  | s, [] => ([], s)
  | s, act :: rest =>
    let (answer, next) := step s act
    let (answers, last) := answersOf step next rest
    (answer :: answers, last)

theorem saved_perform (path : String) (s : Shared n) (act : Act n) :
    s.saved ⊆ (s.perform path act).2.saved := by
  cases act with
  | opened i =>
    unfold perform
    dsimp only
    split <;> exact fun _ h => h
  | asked i request =>
    simp only [perform]
    split
    · exact fun _ h => h
    · exact List.subset_append_left _ _
  | edited text => exact fun _ h => h

theorem saved_answersOf (path : String) (s : Shared n) (acts : List (Act n)) :
    s.saved ⊆ (answersOf (perform path) s acts).2.saved := by
  induction acts generalizing s with
  | nil => exact fun _ h => h
  | cons act rest ih =>
    exact List.Subset.trans (saved_perform path s act) (ih (s.perform path act).2)

theorem Coherent.answers {path : String} {s : Shared n} {r : Store} (h : s.Coherent path r)
    {acts : List (Act n)} (horderly : ∀ act ∈ acts, act.Orderly)
    (hsurvives : ∀ v ∈ (answersOf (Shared.perform path) s acts).2.saved, Yaml.Survives v)
    (checks : Grants → Value) :
    (answersOf (Shared.perform path) s acts).1.map (·.map (Answer.toValue checks)) =
        (answersOf Act.single r acts).1.map (·.map (Answer.toValue checks)) ∧
      (answersOf (Shared.perform path) s acts).2.Coherent path (answersOf Act.single r acts).2 := by
  induction acts generalizing s r with
  | nil => exact ⟨rfl, h⟩
  | cons act rest ih =>
    have hrest := saved_answersOf path (s.perform path act).2 rest
    obtain ⟨hanswer, hnext⟩ := h.perform (horderly act List.mem_cons_self)
      (fun v hv => hsurvives v (hrest hv)) checks
    obtain ⟨hanswers, hlast⟩ :=
      ih hnext (fun other hother => horderly other (List.mem_cons_of_mem _ hother)) hsurvives
    simp only [answersOf, List.map_cons, hanswer, hanswers]
    exact ⟨trivial, hlast⟩

/-- Stores that keep one file behave as one store in memory, provided that the documents which are
saved on the way are read as they were written. However their operations are interleaved, with each
other, with edits of the operator and with further stores opened on the same file, every answer is
the one that a single store gives which carries out the same operations and loads what the operator
writes. No change of one store and no edit is lost: in the end each store shows what the single one
records. -/
theorem behaves_as_one (n : Nat) (path : String) {acts : List (Act n)}
    (horderly : ∀ act ∈ acts, act.Orderly)
    (hsurvives : ∀ v ∈ (answersOf (perform path) (begin n path) acts).2.saved, Yaml.Survives v)
    (checks : Grants → Value) :
    (answersOf (perform path) (begin n path) acts).1.map (·.map (Answer.toValue checks)) =
        (answersOf Act.single .empty acts).1.map (·.map (Answer.toValue checks)) ∧
      ∀ i, FileStore.Shows ((answersOf (perform path) (begin n path) acts).2.stores i)
        (answersOf (perform path) (begin n path) acts).2.disk
        (answersOf Act.single .empty acts).2 := by
  obtain ⟨hanswers, hlast⟩ := (Coherent.begin n path).answers horderly hsurvives checks
  exact ⟨hanswers, hlast.shows⟩

/-- What one store grants, the other one finds and revokes. An override that is not there is cleared
in vain, and then the operator replaces the file. -/
theorem revoked_through_the_other_store :
    let acts : List (Act 2) :=
      [.asked 0 (.change (.grantRole "1" "mod" "Kick")), .asked 1 (.rolePermissions "1" "mod"),
        .asked 1 (.change (.revokeRole "1" "mod" "kick")), .asked 0 (.rolePermissions "1" "mod"),
        .asked 0 (.change (.clearOverride "1" "42" "kick")),
        .edited "guilds:\n  '1':\n    members:\n      '42': [mod]\n",
        .asked 1 (.memberRoles "1" "42")]
    (answersOf (perform "p.yaml") (begin 2 "p.yaml") acts).1.map
        (·.map (Answer.toValue fun _ => .null)) =
      [.ok .null, .ok (.texts ["kick"]), .ok .null, .ok (.texts []), .ok (.bool false), .ok .null,
        .ok (.texts ["mod"])] := by
  intro acts
  let granted : Store := ⟨[("1", ⟨[("mod", ["kick"])], [], []⟩)]⟩
  let revoked : Store := ⟨[("1", ⟨[("mod", [])], [], []⟩)]⟩
  let edited : Store := ⟨[("1", ⟨[], [("42", ["mod"])], []⟩)]⟩
  have hgrant : Write.canonical (.grantRole "1" "mod" "Kick") =
      .ok (.grantRole "1" "mod" "kick") := by decide +kernel
  have hrevoke : Write.canonical (.revokeRole "1" "mod" "kick") =
      .ok (.revokeRole "1" "mod" "kick") := by decide +kernel
  have hclear : Write.canonical (.clearOverride "1" "42" "kick") =
      .ok (.clearOverride "1" "42" "kick") := by decide +kernel
  have hgranted : Store.empty.apply (.grantRole "1" "mod" "kick") = (granted, true) := by
    decide +kernel
  have hrevoked : granted.apply (.revokeRole "1" "mod" "kick") = (revoked, true) := by
    decide +kernel
  have hcleared : revoked.apply (.clearOverride "1" "42" "kick") = (revoked, false) := by
    decide +kernel
  have hgrantedText : granted.toText = "guilds:\n  '1':\n    members: \x7b\x7d\n" ++
      "    overrides: \x7b\x7d\n    roles:\n      mod:\n      - kick\n" := by
    have hsorted : Yaml.sortKeys granted.toValue = .map [(.str "guilds", .map [(.str "1",
        .map [(.str "members", .map []), (.str "overrides", .map []),
          (.str "roles", .map [(.str "mod", .list [.str "kick"])])])])] := by
      simp [granted, Store.toValue, GuildRecord.toValue, setsValue, overridesValue, sortTexts,
        textList, Assoc.sorted, Yaml.sortKeys, Yaml.sortEntries, Yaml.sortItems,
        Yaml.Output.textOf, List.mergeSort]
    rw [Store.toText, Yaml.render, hsorted]
    decide +kernel
  have hrevokedText : revoked.toText = "guilds:\n  '1':\n    members: \x7b\x7d\n" ++
      "    overrides: \x7b\x7d\n    roles:\n      mod: []\n" := by
    have hsorted : Yaml.sortKeys revoked.toValue = .map [(.str "guilds", .map [(.str "1",
        .map [(.str "members", .map []), (.str "overrides", .map []),
          (.str "roles", .map [(.str "mod", .list [])])])])] := by
      simp [revoked, Store.toValue, GuildRecord.toValue, setsValue, overridesValue, sortTexts,
        textList, Assoc.sorted, Yaml.sortKeys, Yaml.sortEntries, Yaml.sortItems,
        Yaml.Output.textOf, List.mergeSort]
    rw [Store.toText, Yaml.render, hsorted]
    decide +kernel
  have hloadGranted : Store.ofText "p.yaml" granted.toText = .ok granted := by
    rw [hgrantedText]
    decide +kernel
  have hloadRevoked : Store.ofText "p.yaml" revoked.toText = .ok revoked := by
    rw [hrevokedText]
    decide +kernel
  have hloadEdited : Store.ofText "p.yaml" "guilds:\n  '1':\n    members:\n      '42': [mod]\n" =
      .ok edited := by decide +kernel
  have hdocument : (documentOf? "guilds:\n  '1':\n    members:\n      '42': [mod]\n").map
      Store.ofValue = some (.ok edited) := by decide +kernel
  obtain ⟨document, hreadable, hloadable⟩ := Option.map_eq_some_iff.mp hdocument
  have horderly : ∀ act ∈ acts, act.Orderly := by
    simp only [acts, List.forall_mem_cons]
    exact ⟨.asked 0 (.change _), .asked 1 (.rolePermissions _ _), .asked 1 (.change _),
      .asked 0 (.rolePermissions _ _), .asked 0 (.change _), .edited hreadable hloadable,
      .asked 1 (.memberRoles _ _), by simp⟩
  have hsaved : (answersOf (perform "p.yaml") (begin 2 "p.yaml") acts).2.saved =
      [granted.toValue, revoked.toValue] := by
    simp [acts, answersOf, perform, begin, Access.ask, Access.file, FileStore.write,
      FileStore.read, FileStore.source, FileStore.refresh, FileStore.save, Disk.put, Disk.empty,
      Function.update, answered, bind, Except.bind, pure, Except.pure, hgrant, hrevoke, hclear,
      hgranted, hrevoked, hcleared, hloadGranted, hloadRevoked, hloadEdited]
  have hsurvives : ∀ v ∈ (answersOf (perform "p.yaml") (begin 2 "p.yaml") acts).2.saved,
      Yaml.Survives v := by
    rw [hsaved]
    simp only [List.forall_mem_cons, Yaml.survives_iff]
    refine ⟨?_, ?_, by simp⟩
    · rw [← Store.toText, hgrantedText]
      decide +kernel
    · rw [← Store.toText, hrevokedText]
      decide +kernel
  have hfound : granted.rolePermissions "1" "mod" = ["kick"] := by decide
  have hpermissions : revoked.rolePermissions "1" "mod" = [] := by decide
  have hroles : edited.memberRoles "1" "42" = ["mod"] := by decide
  rw [(behaves_as_one 2 "p.yaml" horderly hsurvives fun _ => .null).1]
  simp [acts, answersOf, Act.single, Act.request?, Access.ask, Access.memory, Source.memory,
    Store.write, answered, bind, Except.bind, pure, Except.pure, hgrant, hrevoke, hclear,
    hgranted, hrevoked, hcleared, hreadable, hloadable, hfound, hpermissions, hroles,
    Except.map, Write.answer, Answer.toValue, sortTexts]

end Shared

end Permission

end Guildhall
