import Guildhall.Assoc
import Mathlib.Tactic.Common

/-! Facts about association lists, sets kept as lists, and results of steps that may fail. -/

namespace Guildhall

theorem bind_eq_ok {ε α β : Type} {x : Except ε α} {f : α → Except ε β} {b : β} :
    (x >>= f) = .ok b ↔ ∃ a, x = .ok a ∧ f a = .ok b := by
  cases x with
  | error e => simp [bind, Except.bind]
  | ok a => simp [bind, Except.bind]

theorem exists_of_isOk {ε α : Type} {x : Except ε α} (h : x.isOk = true) : ∃ a, x = .ok a := by
  cases x with
  | error e => cases h
  | ok a => exact ⟨a, rfl⟩

/-- An item whose key is new keeps the keys of a list apart. -/
theorem nodup_map_concat {α β : Type} {f : α → β} {items : List α} {item : α}
    (h : (items.map f).Nodup) (hnew : ∀ other ∈ items, f other ≠ f item) :
    ((items ++ [item]).map f).Nodup := by
  rw [List.map_append, List.nodup_append]
  refine ⟨h, by simp, fun old hold fresh hfresh heq => ?_⟩
  obtain ⟨other, hother, rfl⟩ := List.mem_map.mp hold
  exact hnew other hother (heq.trans (List.mem_singleton.mp hfresh))

/-- Changes of a state, one for each item of a list, amount to a fold. -/
theorem run_forM_modify {ε σ α : Type} (items : List α) (change : α → σ → σ) (s : σ) :
    (items.forM fun item => modify (change item) : EStateM ε σ Unit).run s =
      .ok () (items.foldl (fun s item => change item s) s) := by
  induction items generalizing s with
  | nil => rfl
  | cons item rest ih =>
    rw [List.foldl_cons, ← ih]
    rfl

theorem mem_of_mapM_eq_ok {ε α β : Type} {f : α → Except ε β} {items : List α} {out : List β}
    (h : items.mapM f = .ok out) {b : β} (hb : b ∈ out) : ∃ a ∈ items, f a = .ok b := by
  induction items generalizing out with
  | nil =>
    cases h
    cases hb
  | cons a rest ih =>
    rw [List.mapM_cons] at h
    obtain ⟨first, hfirst, hrest⟩ := bind_eq_ok.mp h
    obtain ⟨more, hmore, hout⟩ := bind_eq_ok.mp hrest
    cases hout
    rcases List.mem_cons.mp hb with rfl | hb
    · exact ⟨a, List.mem_cons_self, hfirst⟩
    · obtain ⟨other, hother, heq⟩ := ih hmore hb
      exact ⟨other, List.mem_cons_of_mem _ hother, heq⟩

/-- Every step of a sequence of one kind yields its part. -/
theorem mem_mapM_iff {ε α β : Type} {f : α → Except ε β} {items : List α} {out : List β}
    (h : items.mapM f = .ok out) {b : β} : b ∈ out ↔ ∃ a ∈ items, f a = .ok b := by
  constructor
  · exact mem_of_mapM_eq_ok h
  · rintro ⟨a, ha, hb⟩
    induction items generalizing out with
    | nil => cases ha
    | cons first rest ih =>
      rw [List.mapM_cons] at h
      obtain ⟨c, hc, hrest⟩ := bind_eq_ok.mp h
      obtain ⟨more, hmore, hout⟩ := bind_eq_ok.mp hrest
      cases hout
      rcases List.mem_cons.mp ha with rfl | ha
      · rw [hb] at hc
        cases hc
        exact List.mem_cons_self
      · exact List.mem_cons_of_mem _ (ih hmore ha)

theorem mapM_eq_ok_of_forall {ε α β : Type} {f : α → Except ε β} {g : α → β} {items : List α}
    (h : ∀ a ∈ items, f a = .ok (g a)) : items.mapM f = .ok (items.map g) := by
  induction items with
  | nil => rfl
  | cons a rest ih =>
    rw [List.mapM_cons, h a List.mem_cons_self,
      ih fun other hother => h other (List.mem_cons_of_mem _ hother)]
    rfl

theorem exists_mapM_iff {ε α β : Type} {f : α → Except ε β} {items : List α} :
    (∃ out, items.mapM f = .ok out) ↔ ∀ a ∈ items, ∃ b, f a = .ok b := by
  induction items with
  | nil => simp [pure, Except.pure]
  | cons a rest ih =>
    rw [List.forall_mem_cons, ← ih]
    simp only [List.mapM_cons, bind_eq_ok]
    constructor
    · rintro ⟨out, b, hb, more, hmore, -⟩
      exact ⟨⟨b, hb⟩, more, hmore⟩
    · rintro ⟨⟨b, hb⟩, more, hmore⟩
      exact ⟨_, b, hb, more, hmore, rfl⟩

namespace Assoc

variable {α : Type}

theorem lookup_cons (key k : String) (v : α) (rest : List (String × α)) :
    ((k, v) :: rest).lookup key = if key = k then some v else rest.lookup key := by
  by_cases h : key = k <;> simp [List.lookup_cons, beq_eq_false_iff_ne.mpr, h]

theorem put_of_notMem {key : String} {value : α} {entries : List (String × α)}
    (h : key ∉ entries.map (·.1)) : put key value entries = entries ++ [(key, value)] := by
  induction entries with
  | nil => rfl
  | cons entry rest ih =>
    rw [List.map_cons, List.mem_cons, not_or] at h
    rw [put, if_neg (Ne.symm h.1), ih h.2, List.cons_append]

/-- New keys come last, in their order. -/
theorem foldl_put {keys : List String} {value : α} {entries : List (String × α)}
    (hfree : ∀ key ∈ keys, key ∉ entries.map (·.1)) (hnodup : keys.Nodup) :
    keys.foldl (fun entries key => put key value entries) entries =
      entries ++ keys.map (·, value) := by
  induction keys generalizing entries with
  | nil => simp
  | cons key rest ih =>
    rw [List.nodup_cons] at hnodup
    have hnew := hfree key List.mem_cons_self
    rw [List.foldl_cons, put_of_notMem hnew, ih _ hnodup.2]
    · simp
    · intro other hother
      have hne : other ≠ key := by
        rintro rfl
        exact hnodup.1 hother
      simpa [hne] using hfree other (List.mem_cons_of_mem key hother)

theorem lookup_put (key other : String) (value : α) (entries : List (String × α)) :
    (put key value entries).lookup other =
      if other = key then some value else entries.lookup other := by
  induction entries with
  | nil => simp [put, lookup_cons]
  | cons entry rest ih =>
    obtain ⟨k, v⟩ := entry
    by_cases hk : k = key
    · rw [put, if_pos hk, lookup_cons, lookup_cons, hk]
      split <;> rfl
    · rw [put, if_neg hk, lookup_cons, lookup_cons, ih]
      by_cases h : other = k
      · simp [h, hk]
      · simp [h]

theorem lookup_foldl_put (keys : List String) (value : α) (entries : List (String × α))
    (other : String) :
    (keys.foldl (fun entries key => put key value entries) entries).lookup other =
      if other ∈ keys then some value else entries.lookup other := by
  induction keys generalizing entries with
  | nil => rfl
  | cons key rest ih =>
    rw [List.foldl_cons, ih, lookup_put]
    by_cases hrest : other ∈ rest
    · simp [hrest]
    · simp [hrest]

theorem lookup_remove (key other : String) (entries : List (String × α)) :
    (remove key entries).lookup other =
      if other = key then none else entries.lookup other := by
  induction entries with
  | nil => simp [remove]
  | cons entry rest ih =>
    obtain ⟨k, v⟩ := entry
    by_cases hk : k = key
    · have hhead : remove key ((k, v) :: rest) = remove key rest := by simp [remove, hk]
      rw [hhead, ih, lookup_cons, hk]
      split <;> rfl
    · have hhead : remove key ((k, v) :: rest) = (k, v) :: remove key rest := by
        simp [remove, hk]
      rw [hhead, lookup_cons, lookup_cons, ih]
      by_cases h : other = k
      · simp [h, hk]
      · simp [h]

theorem remove_eq_self {key : String} {entries : List (String × α)}
    (h : entries.lookup key = none) : remove key entries = entries := by
  induction entries with
  | nil => rfl
  | cons entry rest ih =>
    obtain ⟨k, v⟩ := entry
    rw [lookup_cons] at h
    split at h
    case isTrue => cases h
    case isFalse hk =>
      have hhead : remove key ((k, v) :: rest) = (k, v) :: remove key rest := by
        simp [remove, Ne.symm hk]
      rw [hhead, ih h]

theorem map_fst_remove (key : String) (entries : List (String × α)) :
    (remove key entries).map (·.1) = (entries.map (·.1)).filter (· ≠ key) := by
  rw [remove, List.filter_map]
  rfl

theorem mem_of_mem_put {key : String} {value : α} {entries : List (String × α)}
    {entry : String × α} (h : entry ∈ put key value entries) :
    entry = (key, value) ∨ entry ∈ entries := by
  induction entries with
  | nil => simpa [put] using h
  | cons first rest ih =>
    unfold put at h
    split at h
    case isTrue hk =>
      rcases List.mem_cons.mp h with rfl | h
      · exact .inl (by rw [← hk])
      · exact .inr (List.mem_cons_of_mem _ h)
    case isFalse =>
      rcases List.mem_cons.mp h with rfl | h
      · exact .inr List.mem_cons_self
      · exact (ih h).imp_right (List.mem_cons_of_mem _)

theorem nodup_put {key : String} {value : α} {entries : List (String × α)}
    (h : (entries.map (·.1)).Nodup) : ((put key value entries).map (·.1)).Nodup := by
  induction entries with
  | nil => simp [put]
  | cons first rest ih =>
    rw [List.map_cons, List.nodup_cons] at h
    unfold put
    split
    case isTrue => exact List.nodup_cons.mpr h
    case isFalse hk =>
      refine List.nodup_cons.mpr ⟨fun hmem => ?_, ih h.2⟩
      obtain ⟨entry, hentry, heq⟩ := List.mem_map.mp hmem
      rcases mem_of_mem_put hentry with rfl | hentry
      · exact hk heq.symm
      · exact h.1 (List.mem_map.mpr ⟨entry, hentry, heq⟩)

theorem mem_of_lookup {key : String} {value : α} {entries : List (String × α)}
    (h : entries.lookup key = some value) : (key, value) ∈ entries := by
  induction entries with
  | nil => cases h
  | cons first rest ih =>
    obtain ⟨k, v⟩ := first
    rw [lookup_cons] at h
    split at h
    case isTrue hk =>
      cases h
      exact hk ▸ List.mem_cons_self
    case isFalse => exact List.mem_cons_of_mem _ (ih h)

theorem mem_iff_lookup {entries : List (String × α)} (h : (entries.map (·.1)).Nodup)
    {key : String} {value : α} : (key, value) ∈ entries ↔ entries.lookup key = some value := by
  induction entries with
  | nil => simp
  | cons first rest ih =>
    obtain ⟨k, v⟩ := first
    rw [List.map_cons, List.nodup_cons] at h
    rw [List.mem_cons, lookup_cons, ih h.2]
    by_cases hk : key = k
    · have hnone : rest.lookup key ≠ some value := by
        intro hsome
        exact h.1 (List.mem_map.mpr ⟨(key, value), (ih h.2).mpr hsome, hk⟩)
      simp [hk, hk ▸ hnone, eq_comm]
    · simp [hk]

theorem lookup_perm {entries others : List (String × α)} (h : entries.Perm others)
    (hnodup : (entries.map (·.1)).Nodup) (key : String) :
    entries.lookup key = others.lookup key := by
  have hothers : (others.map (·.1)).Nodup := (h.map _).nodup_iff.mp hnodup
  ext value
  rw [← mem_iff_lookup hnodup, ← mem_iff_lookup hothers, h.mem_iff]

/-- Up to order, putting an entry replaces the one under its key. -/
theorem put_perm {key : String} {value : α} {entries : List (String × α)}
    (h : (entries.map (·.1)).Nodup) :
    (put key value entries).Perm ((key, value) :: remove key entries) := by
  induction entries with
  | nil => rfl
  | cons first rest ih =>
    obtain ⟨k, v⟩ := first
    rw [List.map_cons, List.nodup_cons] at h
    by_cases hk : k = key
    · subst hk
      have hrest : remove k rest = rest := by
        rw [remove, List.filter_eq_self]
        intro entry hentry
        have hne : entry.1 ≠ k := fun heq => h.1 (List.mem_map.mpr ⟨entry, hentry, heq⟩)
        simpa using hne
      rw [put, if_pos rfl, remove, List.filter_cons_of_neg (by simp), ← remove, hrest]
    · have hhead : remove key ((k, v) :: rest) = (k, v) :: remove key rest := by
        simp [remove, hk]
      rw [put, if_neg hk, hhead]
      exact ((ih h.2).cons (k, v)).trans (.swap _ _ _)

@[simp] theorem mem_withItem {item other : String} {items : List String} :
    other ∈ withItem item items ↔ other = item ∨ other ∈ items := by
  unfold withItem
  split
  case isTrue hmem =>
    exact ⟨.inr, fun h => h.elim (fun heq => heq ▸ hmem) id⟩
  case isFalse => simp [or_comm]

theorem perm_sorted (entries : List (String × α)) : (sorted entries).Perm entries :=
  List.mergeSort_perm entries _

theorem nodup_sorted {entries : List (String × α)} (h : (entries.map (·.1)).Nodup) :
    ((sorted entries).map (·.1)).Nodup :=
  ((perm_sorted entries).map _).nodup_iff.mpr h

theorem lookup_sorted {entries : List (String × α)} (h : (entries.map (·.1)).Nodup)
    (key : String) : (sorted entries).lookup key = entries.lookup key :=
  lookup_perm (perm_sorted entries) (nodup_sorted h) key

theorem lookup_map {β : Type} (f : α → β) (entries : List (String × α)) (key : String) :
    (entries.map fun entry => (entry.1, f entry.2)).lookup key = (entries.lookup key).map f := by
  induction entries with
  | nil => rfl
  | cons entry rest ih =>
    rw [List.map_cons, lookup_cons, lookup_cons, ih]
    split <;> rfl

end Assoc

end Guildhall
