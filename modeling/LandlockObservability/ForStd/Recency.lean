import Mathlib.Algebra.GroupWithZero.Nat
import Mathlib.Data.Finmap
import Mathlib.Data.List.MinMax
import Mathlib.Data.List.Perm.Basic

/-!
# Recency kept in stamps

A table that forgets its least recently used entry can be kept as a list, most
recent entry first (`Lru.touch`).  It can also be kept as an unordered finite map
whose values carry a stamp, larger for more recent ones.  `Recency stamp m l` says
that the list `l` is the map `m` in the order of its stamps, and the lemmas say what
the operations on the map do to the list.

The order in which an unordered map is traversed is not specified, so it is a
parameter (`IterOrder`) of everything that traverses one.
-/

/-- An order in which the entries of finite maps are traversed. -/
structure IterOrder (κ ν : Type*) where
  toList : (Finmap fun _ : κ => ν) → List (κ × ν)
  entries_eq : ∀ m, ((toList m).map fun p => (⟨p.1, p.2⟩ : Σ _ : κ, ν)) = m.entries

namespace IterOrder

variable {κ ν : Type*}

/-- Some traversal order exists. -/
noncomputable instance : Inhabited (IterOrder κ ν) where
  default := ⟨fun m => m.entries.toList.map fun s => (s.1, s.2), by simp [Function.comp_def]⟩

variable (order : IterOrder κ ν)

/-- A traversal visits the entries of the map, -/
theorem mem_toList [DecidableEq κ] {m : Finmap fun _ : κ => ν} {p : κ × ν} :
    p ∈ order.toList m ↔ m.lookup p.1 = some p.2 := by
  rw [Finmap.lookup_eq_some_iff, ← order.entries_eq m, Multiset.mem_coe, List.mem_map]
  constructor
  · exact fun h => ⟨p, h, rfl⟩
  · rintro ⟨q, hq, heq⟩
    obtain rfl : q = p := Prod.ext (congrArg Sigma.fst heq) (eq_of_heq (Sigma.mk.inj heq).2)
    exact hq

/-- each of them once, -/
private theorem nodup_toList (m : Finmap fun _ : κ => ν) : (order.toList m).Nodup := by
  have hnodup : ((order.toList m).map fun p => (⟨p.1, p.2⟩ : Σ _ : κ, ν)).Nodup := by
    have := m.nodup_entries
    rw [← order.entries_eq m] at this
    exact this
  exact hnodup.of_map

/-- and no key twice. -/
theorem nodup_keys_toList [DecidableEq κ] (m : Finmap fun _ : κ => ν) :
    ((order.toList m).map Prod.fst).Nodup := by
  refine (order.nodup_toList m).map_on fun p hp q hq hkey => ?_
  have hvalue := order.mem_toList.mp hp
  rw [hkey, order.mem_toList.mp hq, Option.some_inj] at hvalue
  exact Prod.ext hkey hvalue.symm

/-- All orders visit the same entries. -/
theorem toList_perm (order' : IterOrder κ ν) [DecidableEq κ] (m : Finmap fun _ : κ => ν) :
    (order.toList m).Perm (order'.toList m) := by
  refine (List.perm_ext_iff_of_nodup (order.nodup_toList m) (order'.nodup_toList m)).mpr fun p => ?_
  rw [order.mem_toList, order'.mem_toList]

/-- It visits as many entries as there are keys. -/
theorem length_toList (m : Finmap fun _ : κ => ν) : (order.toList m).length = m.keys.card := by
  have hcard := congrArg Multiset.card (order.entries_eq m)
  rw [Multiset.coe_card, List.length_map] at hcard
  rw [hcard]
  exact (Multiset.card_map _ _).symm

/-- There is one way to visit one entry. -/
theorem toList_singleton (k : κ) (v : ν) : order.toList (Finmap.singleton k v) = [(k, v)] := by
  have hentries := order.entries_eq (Finmap.singleton k v)
  have hlist : ((order.toList (Finmap.singleton k v)).map fun p => (⟨p.1, p.2⟩ : Σ _ : κ, ν)) =
      [⟨k, v⟩] :=
    List.perm_singleton.mp (Multiset.coe_eq_coe.mp hentries)
  obtain ⟨p, hp, heq⟩ := List.map_eq_singleton_iff.mp hlist
  cases heq
  exact hp

/-- The order that visits one entry before all others. -/
def withFirst [DecidableEq κ] [DecidableEq ν] (p : κ × ν) : IterOrder κ ν where
  toList m := (order.toList m).filter (· = p) ++ (order.toList m).filter fun q => ¬ q = p
  entries_eq m := by
    rw [← order.entries_eq m, Multiset.coe_eq_coe]
    simpa using (List.filter_append_perm (fun q => decide (q = p)) (order.toList m)).map _

/-- The chosen entry is visited before any other one. -/
theorem pair_sublist_withFirst [DecidableEq κ] [DecidableEq ν] {m : Finmap fun _ : κ => ν}
    {p q : κ × ν} (hp : p ∈ order.toList m) (hq : q ∈ order.toList m) (hne : q ≠ p) :
    [p, q].Sublist ((order.withFirst p).toList m) := by
  show ([p] ++ [q]).Sublist _
  refine List.Sublist.append ?_ ?_
  · exact List.singleton_sublist.mpr (List.mem_filter.mpr ⟨hp, decide_eq_true rfl⟩)
  · exact List.singleton_sublist.mpr (List.mem_filter.mpr ⟨hq, decide_eq_true hne⟩)

end IterOrder

/-! ## The reference table -/

namespace Lru

variable {κ μ : Type*} [DecidableEq κ]

/-- Use the key `k` in a table of at most `c` keys, most recent first.  A key that is
    there moves to the front; a new one takes the place of the last if the table is
    full.  `f` makes the new value of the key. -/
def touch (c : Nat) (k : κ) (f : Option μ → μ) (l : List (κ × μ)) : List (κ × μ) :=
  match l.lookup k with
  | some x => (k, f (some x)) :: l.filter fun p => p.1 ≠ k
  | none => (k, f none) :: if c ≤ l.length then l.dropLast else l

/-- In a list without repeated keys an entry is found by its key. -/
theorem lookup_eq_some_of_mem {l : List (κ × μ)} (hl : (l.map Prod.fst).Nodup) {k : κ} {x : μ}
    (h : (k, x) ∈ l) : l.lookup k = some x := by
  induction l with
  | nil => exact absurd h List.not_mem_nil
  | cons p l ih =>
    rw [List.map_cons, List.nodup_cons] at hl
    rcases List.mem_cons.mp h with rfl | h
    · exact List.lookup_cons_self
    · have hne : (k == p.1) = false := by
        rw [beq_eq_false_iff_ne]
        rintro rfl
        exact hl.1 (List.mem_map.mpr ⟨_, h, rfl⟩)
      rw [List.lookup_cons, hne]
      exact ih hl.2 h

/-- A key that is not there is not found. -/
theorem lookup_eq_none_of_notMem {l : List (κ × μ)} {k : κ} (h : k ∉ l.map Prod.fst) :
    l.lookup k = none := by
  rw [List.lookup_eq_none_iff]
  intro p hp
  rw [bne_iff_ne]
  rintro rfl
  exact h (List.mem_map_of_mem hp)

/-! ### Keys and sums over a table -/

section Sum

variable {c n : Nat} {k : κ} {f : Option μ → μ} {l : List (κ × μ)} {w : κ × μ → Nat}

/-- What is found is an entry. -/
theorem mem_of_lookup_eq_some {x : μ} (h : l.lookup k = some x) : (k, x) ∈ l := by
  obtain ⟨before, after, rfl, _⟩ := List.lookup_eq_some_iff.mp h
  simp

/-- A key that is not found is not there. -/
private theorem notMem_of_lookup_eq_none (h : l.lookup k = none) : k ∉ l.map Prod.fst := by
  intro hmem
  obtain ⟨p, hp, rfl⟩ := List.mem_map.mp hmem
  simpa using List.lookup_eq_none_iff.mp h p hp

/-- Using a key does not repeat one. -/
theorem nodup_touch (hl : (l.map Prod.fst).Nodup) :
    ((touch c k f l).map Prod.fst).Nodup := by
  unfold touch
  cases hlookup : l.lookup k with
  | some x =>
    rw [List.map_cons, List.nodup_cons]
    refine ⟨by simp, hl.sublist (List.filter_sublist.map _)⟩
  | none =>
    have hk := notMem_of_lookup_eq_none hlookup
    -- Making room only drops an entry
    have hsub : List.Sublist (if c ≤ l.length then l.dropLast else l) l := by
      split
      · exact l.dropLast_sublist
      · exact List.Sublist.refl l
    rw [List.map_cons, List.nodup_cons]
    exact ⟨fun h => hk ((hsub.map Prod.fst).subset h), hl.sublist (hsub.map Prod.fst)⟩

/-- A property of entries that using a key keeps. -/
theorem forall_mem_touch {P : κ × μ → Prop} (hl : ∀ p ∈ l, P p)
    (hk : ∀ o, (∀ x, o = some x → P (k, x)) → P (k, f o)) : ∀ p ∈ touch c k f l, P p := by
  intro p hp
  unfold touch at hp
  cases hlookup : l.lookup k with
  | some x =>
    simp only [hlookup] at hp
    rcases List.mem_cons.mp hp with rfl | hp
    · apply hk
      rintro y hy
      cases hy
      exact hl _ (mem_of_lookup_eq_some hlookup)
    · exact hl p (List.mem_of_mem_filter hp)
  | none =>
    simp only [hlookup] at hp
    rcases List.mem_cons.mp hp with rfl | hp
    · exact hk none (by simp)
    · split at hp
      · exact hl p (l.dropLast_sublist.subset hp)
      · exact hl p hp

/-- The keys of a table that loses none. -/
theorem mem_keys_touch (hroom : k ∈ l.map Prod.fst ∨ l.length < c) (j : κ) :
    j ∈ (touch c k f l).map Prod.fst ↔ j = k ∨ j ∈ l.map Prod.fst := by
  unfold touch
  cases hlookup : l.lookup k with
  | some x =>
    have hk : k ∈ l.map Prod.fst := List.mem_map.mpr ⟨_, mem_of_lookup_eq_some hlookup, rfl⟩
    by_cases hjk : j = k
    · simp [hjk]
    · simp [hjk, List.mem_filter]
  | none =>
    have hk := notMem_of_lookup_eq_none hlookup
    have hlt : ¬ c ≤ l.length := not_le.mpr (hroom.resolve_left hk)
    simp [hlt]

/-- Taking a key out of a table. -/
private theorem sum_filter_ne (hl : (l.map Prod.fst).Nodup) {x : μ} (h : (k, x) ∈ l) :
    (l.map w).sum = w (k, x) + ((l.filter fun p => p.1 ≠ k).map w).sum := by
  induction l with
  | nil => exact absurd h List.not_mem_nil
  | cons p l ih =>
    rw [List.map_cons, List.nodup_cons] at hl
    rcases List.mem_cons.mp h with rfl | h
    -- The key is at the front, and nowhere else
    · have hrest : (l.filter fun q => q.1 ≠ k) = l := by
        rw [List.filter_eq_self]
        intro q hq
        exact decide_eq_true fun heq => hl.1 (List.mem_map.mpr ⟨q, hq, heq⟩)
      rw [List.filter_cons_of_neg (by simp), hrest, List.map_cons, List.sum_cons]
    · have hne : p.1 ≠ k := by
        rintro rfl
        exact hl.1 (List.mem_map.mpr ⟨_, h, rfl⟩)
      rw [List.map_cons, List.sum_cons, ih hl.2 h, List.filter_cons_of_pos (by simpa using hne),
        List.map_cons, List.sum_cons]
      omega

/-- Using a key raises a sum over the table by what it raises the key's own value, if no
    key has to go. -/
theorem sum_touch_eq (hl : (l.map Prod.fst).Nodup)
    (hw : ∀ o, w (k, f o) = o.elim 0 (fun x => w (k, x)) + n)
    (hroom : k ∈ l.map Prod.fst ∨ l.length < c) :
    ((touch c k f l).map w).sum = (l.map w).sum + n := by
  unfold touch
  cases hlookup : l.lookup k with
  | some x =>
    rw [List.map_cons, List.sum_cons, hw, Option.elim_some,
      sum_filter_ne hl (mem_of_lookup_eq_some hlookup)]
    omega
  | none =>
    have hk := notMem_of_lookup_eq_none hlookup
    have hlt : ¬ c ≤ l.length := not_le.mpr (hroom.resolve_left hk)
    rw [if_neg hlt, List.map_cons, List.sum_cons, hw, Option.elim_none]
    omega

/-- In any case it raises the sum by no more. -/
theorem sum_touch_le (hl : (l.map Prod.fst).Nodup)
    (hw : ∀ o, w (k, f o) = o.elim 0 (fun x => w (k, x)) + n) :
    ((touch c k f l).map w).sum ≤ (l.map w).sum + n := by
  by_cases hroom : k ∈ l.map Prod.fst ∨ l.length < c
  · exact (sum_touch_eq hl hw hroom).le
  · -- the last key of a full table goes
    rw [not_or, not_lt] at hroom
    rw [touch, lookup_eq_none_of_notMem hroom.1]
    simp only [if_pos hroom.2, List.map_cons, List.sum_cons, hw, Option.elim_none]
    have hdrop : (l.dropLast.map w).sum ≤ (l.map w).sum := by
      rcases List.eq_nil_or_concat l with rfl | ⟨init, last, rfl⟩
      · rfl
      · simp
    omega

end Sum

section Related

variable {ν : Type*} {R : κ × ν → κ × μ → Prop} (hR : ∀ {p q}, R p q → p.1 = q.1)
  {l : List (κ × ν)} {t : List (κ × μ)}
include hR

omit [DecidableEq κ] in
/-- Tables related entry by entry have the same keys in the same order. -/
theorem map_fst_eq_of_forall₂ (h : List.Forall₂ R l t) : l.map Prod.fst = t.map Prod.fst := by
  induction h with
  | nil => rfl
  | cons hpq _ ih => rw [List.map_cons, List.map_cons, hR hpq, ih]

/-- Removing a key from related tables. -/
theorem forall₂_filter (h : List.Forall₂ R l t) (k : κ) :
    List.Forall₂ R (l.filter fun p => p.1 ≠ k) (t.filter fun p => p.1 ≠ k) := by
  induction h with
  | nil => exact .nil
  | @cons p q l t hpq _ ih =>
    have hkey := hR hpq
    by_cases hk : p.1 = k
    · have hk' : q.1 = k := hkey ▸ hk
      simpa [List.filter_cons, hk, hk'] using ih
    · have hk' : q.1 ≠ k := hkey ▸ hk
      rw [List.filter_cons_of_pos (by simpa using hk), List.filter_cons_of_pos (by simpa using hk')]
      exact .cons hpq ih

end Related

end Lru

/-! ## New stamps -/

namespace Recency

variable {κ ν : Type*} {stamp : ν → Nat}

/-- The values of `ps` stamped with `n + 1`, `n + 2`, and so on. -/
def stampFrom (set : Nat → ν → ν) : Nat → List (κ × ν) → List (κ × ν)
  | _, [] => []
  | n, p :: ps => (p.1, set (n + 1) p.2) :: stampFrom set (n + 1) ps

/-- Stamping keeps the keys and their order. -/
theorem map_fst_stampFrom (set : Nat → ν → ν) (n : Nat) (ps : List (κ × ν)) :
    (stampFrom set n ps).map Prod.fst = ps.map Prod.fst := by
  induction ps generalizing n with
  | nil => rfl
  | cons p ps ih => rw [stampFrom, List.map_cons, List.map_cons, ih]

/-- New stamps are above the start, -/
private theorem lt_stamp_stampFrom {set : Nat → ν → ν} (hset : ∀ n x, stamp (set n x) = n) (n : Nat)
    (ps : List (κ × ν)) : ∀ p ∈ stampFrom set n ps, n < stamp p.2 := by
  induction ps generalizing n with
  | nil => simp [stampFrom]
  | cons q ps ih =>
    intro p hp
    rcases List.mem_cons.mp hp with rfl | hp
    · rw [hset]
      omega
    · have := ih (n + 1) p hp
      omega

/-- and not above the number of entries from there. -/
theorem stamp_stampFrom_le {set : Nat → ν → ν} (hset : ∀ n x, stamp (set n x) = n) (n : Nat)
    (ps : List (κ × ν)) : ∀ p ∈ stampFrom set n ps, stamp p.2 ≤ n + ps.length := by
  induction ps generalizing n with
  | nil => simp [stampFrom]
  | cons q ps ih =>
    intro p hp
    rw [List.length_cons]
    rcases List.mem_cons.mp hp with rfl | hp
    · rw [hset]
      omega
    · have := ih (n + 1) p hp
      omega

/-- They increase along the list. -/
private theorem pairwise_stampFrom {set : Nat → ν → ν} (hset : ∀ n x, stamp (set n x) = n) (n : Nat)
    (ps : List (κ × ν)) : (stampFrom set n ps).Pairwise fun a b => stamp a.2 < stamp b.2 := by
  induction ps generalizing n with
  | nil => exact List.Pairwise.nil
  | cons p ps ih =>
    rw [stampFrom, List.pairwise_cons]
    refine ⟨fun q hq => ?_, ih (n + 1)⟩
    rw [hset]
    exact lt_stamp_stampFrom hset (n + 1) ps q hq

end Recency

/-! ## The list of a stamped map -/

section Recency

variable {κ ν : Type*} [DecidableEq κ]

/-- `l` lists the entries of `m`, the one with the largest stamp first. -/
structure Recency (stamp : ν → Nat) (m : Finmap fun _ : κ => ν) (l : List (κ × ν)) :
    Prop where
  lookup_iff : ∀ k x, m.lookup k = some x ↔ (k, x) ∈ l
  nodup : (l.map Prod.fst).Nodup
  sorted : l.Pairwise fun a b => stamp b.2 < stamp a.2

namespace Recency

variable {stamp : ν → Nat} {m : Finmap fun _ : κ => ν} {l : List (κ × ν)}

/-- An empty map has the empty list. -/
theorem empty : Recency stamp (∅ : Finmap fun _ : κ => ν) [] where
  lookup_iff := by simp
  nodup := List.nodup_nil
  sorted := List.Pairwise.nil

/-- The list has the keys of the map. -/
theorem mem_iff (h : Recency stamp m l) {k : κ} : k ∈ m ↔ k ∈ l.map Prod.fst := by
  rw [← Finmap.lookup_isSome, Option.isSome_iff_exists, List.mem_map]
  constructor
  · rintro ⟨x, hx⟩
    exact ⟨(k, x), (h.lookup_iff k x).mp hx, rfl⟩
  · rintro ⟨⟨k', x⟩, hx, rfl⟩
    exact ⟨x, (h.lookup_iff k' x).mpr hx⟩

/-- The list has as many entries as the map. -/
theorem card_keys (h : Recency stamp m l) : m.keys.card = l.length := by
  have hkeys : m.keys = (l.map Prod.fst).toFinset := by
    ext k
    rw [Finmap.mem_keys, List.mem_toFinset, h.mem_iff]
  rw [hkeys, List.toFinset_card_of_nodup h.nodup, List.length_map]

/-- Every traversal visits the entries of the list. -/
private theorem perm_toList (h : Recency stamp m l) (order : IterOrder κ ν) :
    (order.toList m).Perm l := by
  refine (List.perm_ext_iff_of_nodup (order.nodup_toList m) h.nodup.of_map).mpr fun p => ?_
  rw [order.mem_toList, h.lookup_iff]

/-- The traversal finds the smallest stamp at the end of the list. -/
theorem argmin_toList {p : κ × ν} (h : Recency stamp m (l ++ [p])) (order : IterOrder κ ν) :
    (order.toList m).argmin (fun q => stamp q.2) = some p := by
  have hmem : ∀ q, q ∈ order.toList m ↔ q ∈ l ++ [p] := fun q => (h.perm_toList order).mem_iff
  cases hmin : (order.toList m).argmin (fun q => stamp q.2) with
  | none =>
    rw [List.argmin_eq_none] at hmin
    have := (hmem p).mpr (by simp)
    rw [hmin] at this
    exact absurd this List.not_mem_nil
  | some q =>
    have hq : q ∈ l ++ [p] := (hmem q).mp (List.argmin_mem hmin)
    have hle : stamp q.2 ≤ stamp p.2 :=
      List.le_of_mem_argmin (f := fun q : κ × ν => stamp q.2) ((hmem p).mpr (by simp)) hmin
    -- Everything before `p` has a larger stamp, so the smallest one is that of `p`
    rcases List.mem_append.mp hq with hq | hq
    · have hlt := (List.pairwise_append.mp h.sorted).2.2 q hq p List.mem_cons_self
      omega
    · rw [List.mem_singleton.mp hq]

/-- Sorting a traversal by stamps gives the list, oldest first. -/
theorem mergeSort_toList (h : Recency stamp m l) (order : IterOrder κ ν) :
    (order.toList m).mergeSort (fun a b => stamp a.2 ≤ stamp b.2) = l.reverse := by
  have hsorted : ((order.toList m).mergeSort fun a b => stamp a.2 ≤ stamp b.2).Pairwise
      fun a b => decide (stamp a.2 ≤ stamp b.2) = true := by
    refine List.pairwise_mergeSort (fun a b c hab hbc => ?_) (fun a b => ?_) (order.toList m)
    · rw [decide_eq_true_eq] at hab hbc ⊢
      omega
    · rw [Bool.or_eq_true, decide_eq_true_eq, decide_eq_true_eq]
      omega
  have hreverse : l.reverse.Pairwise fun a b => decide (stamp a.2 ≤ stamp b.2) = true := by
    rw [List.pairwise_reverse]
    exact h.sorted.imp fun hab => decide_eq_true (Nat.le_of_lt hab)
  have hperm := ((List.mergeSort_perm (order.toList m)
    (fun a b => stamp a.2 ≤ stamp b.2)).trans (h.perm_toList order)).trans
      l.reverse_perm.symm
  refine hperm.eq_of_pairwise ?_ hsorted hreverse
  -- Entries with equal stamps are equal, since stamps decrease strictly along the list
  intro a b ha hb hab hba
  rw [decide_eq_true_eq] at hab hba
  have ha' : a ∈ l := List.mem_reverse.mp (hperm.mem_iff.mp ha)
  have hb' : b ∈ l := List.mem_reverse.mp hb
  by_contra hne
  have hpair : l.Pairwise fun a b => stamp a.2 ≠ stamp b.2 :=
    h.sorted.imp fun hlt => Nat.ne_of_gt hlt
  have : Std.Symm fun a b : κ × ν => stamp a.2 ≠ stamp b.2 := ⟨fun _ _ h => h.symm⟩
  exact hpair.forall ha' hb' hne (Nat.le_antisymm hab hba)

/-- Inserting a value with the largest stamp puts its key at the front. -/
theorem insert (h : Recency stamp m l) {k : κ} {x : ν} (hx : ∀ p ∈ l, stamp p.2 < stamp x) :
    Recency stamp (m.insert k x) ((k, x) :: l.filter fun p => p.1 ≠ k) where
  lookup_iff := by
    intro k' y
    rw [List.mem_cons, List.mem_filter, ← h.lookup_iff, decide_eq_true_eq]
    by_cases hk : k' = k
    · subst hk
      simp [eq_comm]
    · rw [Finmap.lookup_insert_of_ne _ hk]
      simp [hk]
  nodup := by
    rw [List.map_cons, List.nodup_cons]
    constructor
    · rw [List.mem_map]
      rintro ⟨p, hp, hk⟩
      simp [hk] at hp
    · exact h.nodup.sublist (List.filter_sublist.map _)
  sorted := by
    rw [List.pairwise_cons]
    exact ⟨fun p hp => hx p (List.mem_of_mem_filter hp), h.sorted.sublist List.filter_sublist⟩

/-- Erasing the key with the smallest stamp drops the end of the list. -/
theorem erase_last {p : κ × ν} (h : Recency stamp m (l ++ [p])) :
    Recency stamp (m.erase p.1) l where
  lookup_iff := by
    intro k x
    have hnodup := h.nodup
    rw [List.map_append, List.nodup_append] at hnodup
    by_cases hk : k = p.1
    · subst hk
      rw [Finmap.lookup_erase]
      refine ⟨nofun, fun hmem => ?_⟩
      exact absurd rfl (hnodup.2.2 _ (List.mem_map_of_mem hmem) _ List.mem_cons_self)
    · rw [Finmap.lookup_erase_ne hk, h.lookup_iff, List.mem_append, List.mem_singleton]
      refine ⟨fun hmem => hmem.resolve_right ?_, .inl⟩
      rintro rfl
      exact hk rfl
  nodup := h.nodup.sublist ((List.sublist_append_left _ _).map _)
  sorted := h.sorted.sublist (List.sublist_append_left _ _)

/-- Inserting entries with different keys, one after the other. -/
theorem lookup_foldl_insert (m : Finmap fun _ : κ => ν) (ps : List (κ × ν))
    (hps : (ps.map Prod.fst).Nodup) (k : κ) (x : ν) :
    (ps.foldl (fun m p => m.insert p.1 p.2) m).lookup k = some x ↔
      (k, x) ∈ ps ∨ (k ∉ ps.map Prod.fst ∧ m.lookup k = some x) := by
  induction ps generalizing m with
  | nil => simp
  | cons p ps ih =>
    rw [List.map_cons, List.nodup_cons] at hps
    rw [List.foldl_cons, ih _ hps.2, List.map_cons, List.mem_cons, List.mem_cons]
    by_cases hk : k = p.1
    · -- the entry of `p` is not overwritten by a later one
      subst hk
      have hlater : (p.1, x) ∉ ps := fun hmem =>
        hps.1 (List.mem_map.mpr ⟨_, hmem, rfl⟩)
      rw [Finmap.lookup_insert]
      simp [hps.1, hlater, Prod.ext_iff, eq_comm]
    · rw [Finmap.lookup_insert_of_ne _ hk]
      have hne : (k, x) ≠ p := fun heq => hk (congrArg Prod.fst heq)
      simp [hk, hne]

/-- Stamping all values again from one on, oldest first, keeps the order. -/
theorem restamp (h : Recency stamp m l) {set : Nat → ν → ν}
    (hset : ∀ n x, stamp (set n x) = n) :
    Recency stamp ((stampFrom set 0 l.reverse).foldl (fun m p => m.insert p.1 p.2) m)
      (stampFrom set 0 l.reverse).reverse where
  lookup_iff := by
    intro k x
    have hnodup : ((stampFrom set 0 l.reverse).map Prod.fst).Nodup := by
      rw [map_fst_stampFrom, List.map_reverse, List.nodup_reverse]
      exact h.nodup
    rw [lookup_foldl_insert m _ hnodup, List.mem_reverse]
    refine ⟨fun hmem => hmem.resolve_right ?_, .inl⟩
    -- A key that is not stamped again is not in the map
    rintro ⟨hnot, hlookup⟩
    rw [map_fst_stampFrom, List.map_reverse, List.mem_reverse] at hnot
    exact hnot (List.mem_map_of_mem ((h.lookup_iff k x).mp hlookup))
  nodup := by
    rw [List.map_reverse, List.nodup_reverse, map_fst_stampFrom, List.map_reverse,
      List.nodup_reverse]
    exact h.nodup
  sorted := by
    rw [List.pairwise_reverse]
    exact pairwise_stampFrom hset 0 l.reverse

end Recency

end Recency
