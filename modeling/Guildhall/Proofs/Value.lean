import Guildhall.Value
import Mathlib.Data.List.Forall2

/-!
# Equal values

What the equality of a document with a known one says about its parts: texts are the same texts,
and the entries of a mapping are found again in another order.
-/

namespace Guildhall

namespace Scalar

theorem same_str {s : Scalar} {text : String} : s.same (.str text) = true ↔ s = .str text := by
  cases s <;> simp [same, asInt?]

theorem str_same {s : Scalar} {text : String} :
    (Scalar.str text).same s = true ↔ s = .str text := by
  cases s with
  | str other => simp [same, asInt?, eq_comm (a := text)]
  | _ => simp [same, asInt?]

end Scalar

namespace Value

theorem str_same {text : String} {v : Value} : (Value.str text).same v = true ↔ v = .str text := by
  cases v <;> simp [same, Scalar.str_same]

theorem list_same {items : List Value} {v : Value} :
    (Value.list items).same v = true ↔
      ∃ others, v = .list others ∧ sameItems items others = true := by
  cases v <;> simp [same]

theorem map_same {entries : List (Scalar × Value)} {v : Value} :
    (Value.map entries).same v = true ↔ ∃ others, v = .map others ∧
      entries.length = others.length ∧ sameEntries entries others = true := by
  cases v <;> simp [same]

theorem texts_same {texts : List String} {v : Value} :
    (Value.list (texts.map .str)).same v = true ↔ v = .list (texts.map .str) := by
  have hitems (items : List Value) :
      sameItems (texts.map .str) items = true ↔ items = texts.map .str := by
    induction texts generalizing items with
    | nil => cases items <;> simp [sameItems]
    | cons text rest ih =>
      cases items with
      | nil => simp [sameItems]
      | cons item items => simp [sameItems, str_same, ih]
  rw [list_same]
  constructor
  · rintro ⟨others, rfl, hsame⟩
    rw [(hitems others).mp hsame]
  · rintro rfl
    exact ⟨_, rfl, (hitems _).mpr rfl⟩

theorem find_entry (key : String) (entries : List (Scalar × Value)) :
    entry? key entries = (entries.find? fun entry => entry.1.same (.str key)).map (·.2) := by
  induction entries with
  | nil => rfl
  | cons entry rest ih =>
    obtain ⟨k, v⟩ := entry
    unfold entry?
    rw [List.find?_cons]
    cases k.same (.str key) with
    | true => rfl
    | false => exact ih

theorem exists_entry_of_sameEntries (key : String) {entries others : List (Scalar × Value)}
    (h : sameEntries entries others = true) {v : Value}
    (hmem : (.str key, v) ∈ entries) : ∃ w, entry? key others = some w ∧ v.same w = true := by
  induction entries with
  | nil => cases hmem
  | cons entry rest ih =>
    obtain ⟨k, u⟩ := entry
    rw [sameEntries, Bool.and_eq_true] at h
    rcases List.mem_cons.mp hmem with heq | hrest
    · cases heq
      rw [find_entry]
      cases hfind : others.find? fun other => other.1.same (.str key) with
      | none => simp [hfind] at h
      | some other =>
        rw [hfind] at h
        exact ⟨other.2, rfl, h.1⟩
    · exact ih h.2 hrest

theorem sameEntries_of_ne {entries before after : List (Scalar × Value)} {y : Scalar × Value}
    (h : sameEntries entries (before ++ y :: after) = true)
    (hne : ∀ entry ∈ entries, y.1.same entry.1 = false) :
    sameEntries entries (before ++ after) = true := by
  induction entries with
  | nil => rfl
  | cons entry rest ih =>
    rw [sameEntries, Bool.and_eq_true] at h ⊢
    refine ⟨?_, ih h.2 fun other hother => hne other (List.mem_cons_of_mem _ hother)⟩
    have hfind : (before ++ y :: after).find? (fun other => other.1.same entry.1) =
        (before ++ after).find? fun other => other.1.same entry.1 := by
      rw [List.find?_append, List.find?_append,
        List.find?_cons_of_neg (by simp [hne entry List.mem_cons_self])]
    rw [← hfind]
    exact h.1

theorem exists_matching {α : Type} {f : α → Value} {xs : List (String × α)}
    {ys : List (Scalar × Value)} (hnodup : (xs.map (·.1)).Nodup) (hlength : xs.length = ys.length)
    (h : sameEntries (xs.map fun x => (.str x.1, f x.2)) ys = true) :
    ∃ zs, zs.Perm xs ∧
      List.Forall₂ (fun x y => y.1 = .str x.1 ∧ (f x.2).same y.2 = true) zs ys := by
  induction xs generalizing ys with
  | nil =>
    obtain rfl : ys = [] := List.length_eq_zero_iff.mp hlength.symm
    exact ⟨[], .nil, .nil⟩
  | cons x xs ih =>
    rw [List.map_cons, List.nodup_cons] at hnodup
    rw [List.map_cons, sameEntries, Bool.and_eq_true] at h
    cases hfind : ys.find? fun other => other.1.same (.str x.1) with
    | none => simp [hfind] at h
    | some y =>
      rw [hfind] at h
      obtain ⟨hy, before, after, rfl, -⟩ := List.find?_eq_some_iff_append.mp hfind
      -- The other keys are found beside the entry of the first one.
      have hothers : sameEntries (xs.map fun x => (.str x.1, f x.2)) (before ++ after) = true := by
        refine sameEntries_of_ne h.2 fun entry hentry => ?_
        obtain ⟨other, hother, rfl⟩ := List.mem_map.mp hentry
        have hne : x.1 ≠ other.1 := fun heq =>
          hnodup.1 (heq ▸ List.mem_map_of_mem hother)
        rw [Scalar.same_str.mp hy, Bool.eq_false_iff, Ne, Scalar.same_str]
        simpa using hne
      have hrest : xs.length = (before ++ after).length := by
        simp only [List.length_cons, List.length_append] at hlength ⊢
        omega
      obtain ⟨zs, hperm, hzs⟩ := ih hnodup.2 hrest hothers
      refine ⟨zs.take before.length ++ x :: zs.drop before.length, ?_, ?_⟩
      · refine List.perm_middle.trans (.cons x ?_)
        rwa [List.take_append_drop]
      · exact List.rel_append (List.forall₂_take_append zs before after hzs)
          (.cons ⟨Scalar.same_str.mp hy, h.1⟩ (List.forall₂_drop_append zs before after hzs))

end Value

end Guildhall
