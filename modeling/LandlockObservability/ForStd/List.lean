import Mathlib.Data.List.Chain
import Mathlib.Data.List.Destutter
import Mathlib.Data.List.Nodup
import Mathlib.Order.Lattice

/-!
# List lemmas for the standard library

Removing consecutive repetitions from a list, reading back a concatenation, and loops that
raise a flag or collect records.
-/

namespace List

variable {α β : Type*}

/-- Removing consecutive repetitions after an element loses no element. -/
private theorem mem_destutter'_ne [DecidableEq α] {l : List α} {a b : α} :
    a ∈ l.destutter' (· ≠ ·) b ↔ a = b ∨ a ∈ l := by
  induction l generalizing b with
  | nil => simp
  | cons c l ih =>
    rw [destutter'_cons]
    split
    · rw [mem_cons, ih, mem_cons]
    · rename_i hsame
      have heq : b = c := not_not.mp hsame
      rw [ih, mem_cons, heq]
      tauto

/-- Removing consecutive repetitions loses no element. -/
theorem mem_destutter_ne [DecidableEq α] {l : List α} {a : α} :
    a ∈ l.destutter (· ≠ ·) ↔ a ∈ l := by
  cases l with
  | nil => rfl
  | cons b l => rw [destutter_cons', mem_destutter'_ne, mem_cons]

/-- In a list that is sorted by an injective key the repetitions are consecutive, so that
    without them the keys ascend strictly. -/
theorem pairwise_lt_destutter_ne [DecidableEq α] [LinearOrder β] {key : α → β}
    (hkey : Function.Injective key) {l : List α} (hl : l.Pairwise fun a b => key a ≤ key b) :
    (l.destutter (· ≠ ·)).Pairwise fun a b => key a < key b := by
  have hle : (l.destutter (· ≠ ·)).IsChain fun a b => key a ≤ key b :=
    (hl.sublist (destutter_sublist _ l)).isChain
  have hne : (l.destutter (· ≠ ·)).IsChain (· ≠ ·) := isChain_destutter _ l
  have hlt : (l.destutter (· ≠ ·)).IsChain fun a b => key a < key b := by
    rw [isChain_iff_getElem] at hle hne ⊢
    intro i hi
    exact lt_of_le_of_ne (hle i hi) fun heq => hne i hi (hkey heq)
  have htrans : Trans (fun a b : α => key a < key b) (fun a b => key a < key b)
      fun a b => key a < key b := ⟨lt_trans⟩
  exact hlt.pairwise

/-- In a list without repetitions two elements have one order. -/
theorem Nodup.not_pair_sublist {l : List α} (hl : l.Nodup) {a b : α} (hab : [a, b].Sublist l) :
    ¬ [b, a].Sublist l := by
  induction l with
  | nil => cases hab
  | cons c l ih =>
    rw [nodup_cons] at hl
    intro hba
    -- The head is one of the two at most, and then the other cannot come before it
    cases hab with
    | cons _ hab =>
      cases hba with
      | cons _ hba => exact ih hl.2 hab hba
      | cons_cons _ hba => exact hl.1 (hab.subset (by simp))
    | cons_cons _ hab =>
      cases hba with
      | cons _ hba => exact hl.1 (hba.subset (by simp))
      | cons_cons _ hba => exact hl.1 (hba.subset (by simp))

/-- The results for one element are a part of all results. -/
theorem sublist_flatMap_of_mem (f : α → List β) {l : List α} {a : α} (ha : a ∈ l) :
    (f a).Sublist (l.flatMap f) := by
  obtain ⟨before, after, rfl⟩ := append_of_mem ha
  rw [flatMap_append, flatMap_cons]
  exact (sublist_append_left _ _).trans (sublist_append_right _ _)

/-- One more element. -/
theorem filterMap_concat (f : α → Option β) (l : List α) (a : α) :
    (l ++ [a]).filterMap f = l.filterMap f ++ (f a).toList := by
  rw [filterMap_append]
  cases h : f a with
  | none => rw [filterMap_cons_none h]; rfl
  | some b => rw [filterMap_cons_some h]; rfl

/-- A concatenation of code words can be read back if none starts another, and neither starts
    what follows. -/
theorem flatMap_append_inj {f : α → List β}
    (hf : ∀ a a' r r', f a ++ r = f a' ++ r' → a = a' ∧ r = r') {l l' : List α} {t t' : List β}
    (ht : ∀ a r, f a ++ r ≠ t) (ht' : ∀ a r, f a ++ r ≠ t')
    (h : l.flatMap f ++ t = l'.flatMap f ++ t') : l = l' ∧ t = t' := by
  induction l generalizing l' with
  | nil =>
    cases l' with
    | nil => exact ⟨rfl, h⟩
    -- A first part on one side only contradicts what follows
    | cons a' l' =>
      rw [flatMap_cons, append_assoc] at h
      exact absurd h.symm (ht a' _)
  | cons a l ih =>
    cases l' with
    | nil =>
      rw [flatMap_cons, append_assoc] at h
      exact absurd h (ht' a _)
    | cons a' l' =>
      rw [flatMap_cons, flatMap_cons, append_assoc, append_assoc] at h
      obtain ⟨rfl, hrest⟩ := hf _ _ _ _ h
      obtain ⟨rfl, hend⟩ := ih hrest
      exact ⟨rfl, hend⟩

/-- A loop that raises a flag raises it if some element does. -/
theorem foldl_or (p : α → Bool) (l : List α) (b : Bool) :
    l.foldl (fun b a => b || p a) b = (b || l.any p) := by
  induction l generalizing b with
  | nil => rw [foldl_nil, any_nil, Bool.or_false]
  | cons a l ih => rw [foldl_cons, ih, any_cons, Bool.or_assoc]

/-- A loop that collects optional records and counts beside it. -/
theorem foldl_collect {γ : Type*} (count : γ → α → γ) (record : α → Option β) (l : List α)
    (n : γ) (records : List β) :
    l.foldl (fun (n, records) a => (count n a, records ++ (record a).toList)) (n, records) =
      (l.foldl count n, records ++ l.filterMap record) := by
  induction l generalizing n records with
  | nil => rw [foldl_nil, foldl_nil, filterMap_nil, append_nil]
  | cons a l ih =>
    rw [foldl_cons, ih, foldl_cons, append_assoc]
    cases hrecord : record a with
    | none => rw [filterMap_cons_none hrecord]; rfl
    | some r => rw [filterMap_cons_some hrecord]; rfl

end List
