import Mathlib.Data.List.Nodup
import Mathlib.Data.List.Perm.Basic

/-!
# Dictionaries as lists of items

A dictionary is the list of its items, each with a key and a value; no key occurs twice.  Two
dictionaries with the same keys can be joined from either side.
-/

namespace Items

variable {κ α β : Type*} {items : List (κ × α)} {k : κ} {a : α}

/-- The key of an item is a key. -/
theorem mem_keys_of_mem (h : (k, a) ∈ items) : k ∈ items.map Prod.fst :=
  List.mem_map.mpr ⟨(k, a), h, rfl⟩

/-- A new item. -/
theorem nodup_map_concat {γ δ : Type*} {f : γ → δ} {l : List γ} {c : γ} (h : (l.map f).Nodup)
    (hc : f c ∉ l.map f) : ((l ++ [c]).map f).Nodup := by
  rw [List.map_append, List.map_singleton, ← List.concat_eq_append]
  exact h.concat hc

variable [DecidableEq κ]

/-- Looking up a key finds its item. -/
theorem lookup_eq_some_iff (hkeys : (items.map Prod.fst).Nodup) :
    items.lookup k = some a ↔ (k, a) ∈ items := by
  induction items with
  | nil => simp
  | cons item items ih =>
    obtain ⟨k', a'⟩ := item
    rw [List.map_cons, List.nodup_cons] at hkeys
    rw [List.lookup_cons, List.mem_cons]
    by_cases hk : k = k'
    · subst hk
      have hnot : (k, a) ∉ items := fun hmem => hkeys.1 (mem_keys_of_mem hmem)
      simp [hnot, eq_comm]
    · rw [beq_eq_false_iff_ne.mpr hk]
      simp [hk, ih hkeys.2]

/-- The item of a key is the only one with that key. -/
theorem filter_eq_singleton (hkeys : (items.map Prod.fst).Nodup) (h : (k, a) ∈ items) :
    items.filter (fun item => item.1 = k) = [(k, a)] := by
  induction items with
  | nil => cases h
  | cons item items ih =>
    rw [List.map_cons, List.nodup_cons] at hkeys
    rcases List.mem_cons.mp h with rfl | h
    · have hnone : items.filter (fun item => item.1 = k) = [] := by
        refine List.filter_eq_nil_iff.mpr fun item hitem hkey => hkeys.1 ?_
        exact List.mem_map.mpr ⟨item, hitem, of_decide_eq_true hkey⟩
      simp [hnone]
    · have hne : item.1 ≠ k := fun heq => hkeys.1 (heq ▸ mem_keys_of_mem h)
      rw [List.filter_cons_of_neg (by simpa using hne)]
      exact ih hkeys.2 h

/-- The join of two dictionaries with the same keys. -/
theorem join_perm {items' : List (κ × β)} (hkeys : (items.map Prod.fst).Nodup)
    (hkeys' : (items'.map Prod.fst).Nodup)
    (hsame : ∀ k, k ∈ items.map Prod.fst ↔ k ∈ items'.map Prod.fst) :
    (items'.map fun item => (items.lookup item.1, some item.2)).Perm
      (items.map fun item => (some item.2, items'.lookup item.1)) := by
  have hleft : (items'.map fun item => (items.lookup item.1, some item.2)) =
      (items'.map Prod.fst).map fun k => (items.lookup k, items'.lookup k) := by
    rw [List.map_map]
    refine List.map_congr_left fun item hitem => ?_
    rw [Function.comp_apply, (lookup_eq_some_iff hkeys').mpr hitem]
  have hright : (items.map fun item => (some item.2, items'.lookup item.1)) =
      (items.map Prod.fst).map fun k => (items.lookup k, items'.lookup k) := by
    rw [List.map_map]
    refine List.map_congr_left fun item hitem => ?_
    rw [Function.comp_apply, (lookup_eq_some_iff hkeys).mpr hitem]
  rw [hleft, hright]
  exact ((List.perm_ext_iff_of_nodup hkeys' hkeys).mpr fun k => (hsame k).symm).map _

end Items
