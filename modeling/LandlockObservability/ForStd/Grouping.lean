import LandlockObservability.ForStd.Finmap
import LandlockObservability.ForStd.Recency

/-!
# Grouping and sorting

Collecting values into the lists of a hash map, and the stable sort by a comparison.  The list
of a key has the values of that key in their order; whatever order the map is traversed in, the
groups are a partition.  A list that is sorted by a comparison that tells its elements apart
does not depend on the order that it had before.
-/

namespace Grouping

/-! ## Sorting -/

section Sorting

variable {α : Type*} (cmp : α → α → Ordering)

/-- The stable sort by a comparison. -/
def sortBy (l : List α) : List α := l.mergeSort fun a b => (cmp a b).isLE

variable {cmp} {l l' : List α}

@[simp] theorem sortBy_singleton (a : α) : sortBy cmp [a] = [a] := List.mergeSort_singleton a

/-- Sorting only rearranges. -/
theorem sortBy_perm (l : List α) : (sortBy cmp l).Perm l := List.mergeSort_perm l _

@[simp] theorem mem_sortBy {a : α} : a ∈ sortBy cmp l ↔ a ∈ l := (sortBy_perm l).mem_iff

variable [Std.TransCmp cmp]

/-- The comparison is transitive, -/
private theorem isLE_trans (a b c : α) (hab : (cmp a b).isLE = true) (hbc : (cmp b c).isLE = true) :
    (cmp a c).isLE = true :=
  Std.TransCmp.isLE_trans hab hbc

/-- and total. -/
private theorem isLE_total (a b : α) : ((cmp a b).isLE || (cmp b a).isLE) = true := by
  rw [@Std.OrientedCmp.eq_swap _ cmp _ b a]
  cases cmp a b <;> rfl

/-- A sorted list is in the order of the comparison. -/
theorem pairwise_sortBy (l : List α) : (sortBy cmp l).Pairwise fun a b => (cmp a b).isLE = true :=
  List.pairwise_mergeSort isLE_trans isLE_total l

/-- Elements that come before each other are not told apart. -/
private theorem eq_of_isLE_isLE {a b : α} (hab : (cmp a b).isLE = true)
    (hba : (cmp b a).isLE = true) :
    cmp a b = .eq := by
  rw [@Std.OrientedCmp.eq_swap _ cmp _ b a] at hba
  revert hab hba
  cases cmp a b <;> decide

/-- Lists with the same elements are the same when they are sorted, if the comparison tells
    the elements apart. -/
theorem sortBy_congr (h : l.Perm l') (hcmp : ∀ a ∈ l, ∀ b ∈ l, cmp a b = .eq → a = b) :
    sortBy cmp l = sortBy cmp l' := by
  refine List.Perm.eq_of_pairwise ?_ (pairwise_sortBy l) (pairwise_sortBy l')
    ((sortBy_perm l).trans (h.trans (sortBy_perm l').symm))
  intro a b ha hb hab hba
  exact hcmp a (mem_sortBy.mp ha) b (h.mem_iff.mpr (mem_sortBy.mp hb)) (eq_of_isLE_isLE hab hba)

/-- Elements that the comparison does not tell apart stay in their order. -/
theorem pair_sublist_sortBy {a b : α} (hcmp : cmp a b = .eq) (h : [a, b].Sublist l) :
    [a, b].Sublist (sortBy cmp l) :=
  List.pair_sublist_mergeSort isLE_trans isLE_total (by rw [hcmp]; rfl) h

end Sorting

/-! ## Grouping -/

section Groups

variable {α κ β : Type*} [DecidableEq κ]

/-- `entry(k).or_default().push(b)`. -/
def push (groups : Finmap fun _ : κ => List β) (k : κ) (b : β) : Finmap fun _ : κ => List β :=
  groups.upsert k fun values => values.getD [] ++ [b]

/-- The values of a list, in the lists of their keys. -/
def collect (key : α → κ) (value : α → β) (l : List α) : Finmap fun _ : κ => List β :=
  l.foldl (fun groups a => push groups (key a) (value a)) ∅

/-- The values of a key. -/
def valuesOf (key : α → κ) (value : α → β) (l : List α) (k : κ) : List β :=
  (l.filter fun a => key a = k).map value

variable {key : α → κ} {value : α → β} {l : List α} {k : κ}

/-- What was collected for a key: its values, none if it did not occur. -/
theorem getD_lookup_collect (key : α → κ) (value : α → β) (l : List α) (k : κ) :
    ((collect key value l).lookup k).getD [] = valuesOf key value l k := by
  induction l using List.reverseRecOn with
  | nil => rfl
  | append_singleton l a ih =>
    rw [collect, List.foldl_append, List.foldl_cons, List.foldl_nil, ← collect, push, valuesOf,
      List.filter_append, List.map_append, ← valuesOf]
    by_cases hk : key a = k
    · subst hk
      simp [ih]
    · rw [Finmap.lookup_upsert_of_ne _ _ (Ne.symm hk), ih]
      simp [hk]

/-- The keys that were collected. -/
private theorem mem_collect : k ∈ collect key value l ↔ ∃ a ∈ l, key a = k := by
  induction l using List.reverseRecOn with
  | nil => simp [collect, Finmap.notMem_empty]
  | append_singleton l a ih =>
    rw [collect, List.foldl_append, List.foldl_cons, List.foldl_nil, ← collect, push,
      Finmap.mem_upsert, ih]
    simp [or_comm, eq_comm]

/-- The list of a key has the values of that key, in their order. -/
theorem lookup_collect :
    (collect key value l).lookup k =
      if ∃ a ∈ l, key a = k then some (valuesOf key value l k) else none := by
  rw [← getD_lookup_collect]
  split
  · rename_i hk
    obtain ⟨values, hvalues⟩ := Finmap.mem_iff.mp (mem_collect.mpr hk)
    rw [hvalues]
    rfl
  · rename_i hk
    exact Finmap.lookup_eq_none.mpr fun hmem => hk (mem_collect.mp hmem)

/-! ## Traversals of what was collected -/

/-- A traversal visits the lists of these keys. -/
private theorem mem_toList_collect {order : IterOrder κ (List β)} {g : κ × List β} :
    g ∈ order.toList (collect key value l) ↔
      (∃ a ∈ l, key a = g.1) ∧ g.2 = valuesOf key value l g.1 := by
  rw [IterOrder.mem_toList, lookup_collect]
  split
  · rename_i hk
    rw [Option.some_inj]
    exact ⟨fun h => ⟨hk, h.symm⟩, fun h => h.2.symm⟩
  · rename_i hk
    exact ⟨fun h => absurd h (by simp), fun h => absurd h.1 hk⟩

/-- It visits these keys. -/
private theorem mem_keys_collect {order : IterOrder κ (List β)} {k : κ} :
    k ∈ (order.toList (collect key value l)).map Prod.fst ↔ ∃ a ∈ l, key a = k := by
  rw [List.mem_map]
  constructor
  · rintro ⟨g, hg, rfl⟩
    exact (mem_toList_collect.mp hg).1
  · exact fun hk => ⟨(k, valuesOf key value l k), mem_toList_collect.mpr ⟨hk, rfl⟩, rfl⟩

/-- The elements by their keys, one key after the other, are the elements. -/
private theorem flatMap_filter_perm {keys : List κ} (hnodup : keys.Nodup)
    (hkeys : ∀ a ∈ l, key a ∈ keys) :
    (keys.flatMap fun k => l.filter fun a => key a = k).Perm l := by
  induction keys generalizing l with
  | nil =>
    have hnil : l = [] := List.eq_nil_iff_forall_not_mem.mpr fun a ha =>
      List.not_mem_nil (hkeys a ha)
    rw [hnil]
    exact List.Perm.refl _
  | cons k keys ih =>
    obtain ⟨hk, hnodup'⟩ := List.nodup_cons.mp hnodup
    -- The elements of another key are not among those of `k`
    have hrest : (keys.flatMap fun k' => l.filter fun a => key a = k') =
        keys.flatMap fun k' => (l.filter fun a => ¬ key a = k).filter fun a => key a = k' := by
      refine List.flatMap_congr fun k' hk' => ?_
      rw [List.filter_filter]
      refine List.filter_congr fun a _ => ?_
      by_cases ha : key a = k'
      · have hne : k' ≠ k := fun heq => hk (heq ▸ hk')
        simp [ha, hne]
      · simp [ha]
    have hperm := ih (l := l.filter fun a => ¬ key a = k) hnodup' fun a ha => by
      obtain ⟨hmem, hne⟩ := List.mem_filter.mp ha
      exact (List.mem_cons.mp (hkeys a hmem)).resolve_left (by simpa using hne)
    rw [List.flatMap_cons, hrest]
    refine (hperm.append_left _).trans ?_
    simpa using List.filter_append_perm (fun a => decide (key a = k)) l

/-- What was collected, one key after the other, is what there was. -/
theorem flatMap_collect_perm (order : IterOrder κ (List β)) (l : List (κ × β)) :
    ((order.toList (collect Prod.fst Prod.snd l)).flatMap fun g =>
      g.2.map (Prod.mk g.1)).Perm l := by
  -- The pairs of a key are the elements with that key
  have hgroups : ((order.toList (collect Prod.fst Prod.snd l)).flatMap fun g =>
      g.2.map (Prod.mk g.1)) =
      ((order.toList (collect Prod.fst Prod.snd l)).map Prod.fst).flatMap fun k =>
        l.filter fun a => a.1 = k := by
    rw [List.flatMap_map]
    refine List.flatMap_congr fun g hg => ?_
    rw [(mem_toList_collect.mp hg).2, valuesOf, List.map_map]
    refine (List.map_congr_left fun a ha => ?_).trans (List.map_id _)
    have hfst : a.1 = g.1 := by simpa using (List.mem_filter.mp ha).2
    rw [Function.comp_apply, ← hfst]
    rfl
  rw [hgroups]
  exact flatMap_filter_perm (order.nodup_keys_toList _) fun a ha =>
    mem_keys_collect.mpr ⟨a, ha, rfl⟩

section SortedKeys

variable [Ord κ] [Std.TransOrd κ] [Std.LawfulEqOrd κ]

omit [DecidableEq κ] in
/-- Sorting by a key sorts the keys. -/
private theorem map_sortBy_compareOn (f : α → κ) (l : List α) :
    (sortBy (compareOn f) l).map f = sortBy compare (l.map f) := by
  refine List.Perm.eq_of_pairwise ?_
    (List.pairwise_map.mpr (@pairwise_sortBy _ (compareOn f) _ l)) (pairwise_sortBy (l.map f))
    (((sortBy_perm l).map f).trans (sortBy_perm _).symm)
  intro k k' _ _ hle hge
  exact Std.LawfulEqCmp.eq_of_compare (eq_of_isLE_isLE hle hge)

/-- Sorted by its keys, what was collected is determined by them. -/
theorem sortBy_collect (order : IterOrder κ (List β)) (key : α → κ) (value : α → β) (l : List α) :
    sortBy (compareOn Prod.fst) (order.toList (collect key value l)) =
      (sortBy compare ((order.toList (collect key value l)).map Prod.fst)).map
        fun k => (k, valuesOf key value l k) := by
  rw [← map_sortBy_compareOn, List.map_map]
  refine (List.map_id _).symm.trans (List.map_congr_left fun g hg => ?_)
  rw [Function.comp_apply, ← (mem_toList_collect.mp (mem_sortBy.mp hg)).2]
  rfl

/-- The sorted keys depend neither on the traversal nor on the order of the elements. -/
theorem sortBy_keys_congr (order order' : IterOrder κ (List β)) (key : α → κ) (value : α → β)
    {l l' : List α} (h : l.Perm l') :
    sortBy compare ((order.toList (collect key value l)).map Prod.fst) =
      sortBy compare ((order'.toList (collect key value l')).map Prod.fst) := by
  refine sortBy_congr ?_ fun _ _ _ _ heq => Std.LawfulEqCmp.eq_of_compare heq
  refine (List.perm_ext_iff_of_nodup (order.nodup_keys_toList _)
    (order'.nodup_keys_toList _)).mpr fun k => ?_
  rw [mem_keys_collect, mem_keys_collect]
  simp only [h.mem_iff]

end SortedKeys

/-! ## Groups -/

variable (order order' : IterOrder κ (List α)) (key : α → κ) {l l' : List α}

/-- The elements of a list in groups of equal keys. -/
def groups (l : List α) : List (κ × List α) := order.toList (collect key id l)

/-- The group of a key. -/
def groupOf (l : List α) (k : κ) : κ × List α := (k, l.filter fun a => key a = k)

variable {order order' key}

/-- One element is one group. -/
theorem groups_singleton (a : α) : groups order key [a] = [(key a, [a])] :=
  order.toList_singleton (key a) [a]

/-- The groups are those of the keys that occur. -/
theorem mem_groups {g : κ × List α} :
    g ∈ groups order key l ↔ (∃ a ∈ l, key a = g.1) ∧ g = groupOf key l g.1 := by
  rw [groups, IterOrder.mem_toList, lookup_collect, valuesOf, List.map_id]
  split
  · rename_i hk
    rw [Option.some_inj, groupOf, Prod.ext_iff]
    exact ⟨fun h => ⟨hk, rfl, h.symm⟩, fun h => h.2.2.symm⟩
  · rename_i hk
    exact ⟨nofun, fun h => absurd h.1 hk⟩

variable (order key l) in
/-- No key has two groups. -/
theorem nodup_keys_groups : ((groups order key l).map Prod.fst).Nodup :=
  order.nodup_keys_toList _

/-- Every key that occurs has a group. -/
theorem mem_keys_groups {k : κ} : k ∈ (groups order key l).map Prod.fst ↔ ∃ a ∈ l, key a = k := by
  rw [List.mem_map]
  constructor
  · rintro ⟨g, hg, rfl⟩
    exact (mem_groups.mp hg).1
  · exact fun hk => ⟨groupOf key l k, mem_groups.mpr ⟨hk, rfl⟩, rfl⟩

/-- The groups are a partition. -/
theorem flatMap_groups_perm (hl : l.Nodup) : ((groups order key l).flatMap Prod.snd).Perm l := by
  -- Groups of different keys have no element in common
  have hnodup : ((groups order key l).flatMap Prod.snd).Nodup := by
    rw [List.nodup_flatMap]
    refine ⟨fun g hg => ?_, ?_⟩
    · rw [(mem_groups.mp hg).2]
      exact hl.filter _
    · refine (List.pairwise_map.mp (nodup_keys_groups order key l)).imp_of_mem ?_
      intro g g' hg hg' hne a ha ha'
      rw [(mem_groups.mp hg).2, groupOf, List.mem_filter, decide_eq_true_eq] at ha
      rw [(mem_groups.mp hg').2, groupOf, List.mem_filter, decide_eq_true_eq] at ha'
      exact hne (ha.2.symm.trans ha'.2)
  refine (List.perm_ext_iff_of_nodup hnodup hl).mpr fun a => ?_
  rw [List.mem_flatMap]
  constructor
  · rintro ⟨g, hg, ha⟩
    rw [(mem_groups.mp hg).2] at ha
    exact List.mem_of_mem_filter ha
  · intro ha
    refine ⟨groupOf key l (key a), mem_groups.mpr ⟨⟨a, ha, rfl⟩, rfl⟩, ?_⟩
    exact List.mem_filter.mpr ⟨ha, decide_eq_true rfl⟩

section SortedGroups

variable {cmp : κ × List α → κ × List α → Ordering} [Std.TransCmp cmp]

omit [Std.TransCmp cmp] in
/-- Sorted groups are determined by the order of their keys. -/
theorem sortBy_groups_eq_map :
    sortBy cmp (groups order key l) =
      ((sortBy cmp (groups order key l)).map Prod.fst).map (groupOf key l) := by
  rw [List.map_map]
  refine (List.map_id _).symm.trans (List.map_congr_left fun g hg => ?_)
  exact (mem_groups.mp (mem_sortBy.mp hg)).2

/-- Sorted groups are in the order of the comparison. -/
private theorem pairwise_keys_sortBy_groups :
    ((sortBy cmp (groups order key l)).map Prod.fst).Pairwise
      fun k k' => (cmp (groupOf key l k) (groupOf key l k')).isLE = true := by
  have hsorted := @pairwise_sortBy _ cmp _ (groups order key l)
  rw [sortBy_groups_eq_map] at hsorted
  exact List.pairwise_map.mp hsorted

/-- The order of the keys depends only on the elements, if the comparison of groups does not
    see the order within them and tells the keys apart. -/
theorem map_fst_sortBy_groups_congr (h : l.Perm l')
    (hperm : ∀ k k' a a' b b', List.Perm a a' → List.Perm b b' →
      cmp (k, a) (k', b) = cmp (k, a') (k', b'))
    (hkey : ∀ g g', cmp g g' = .eq → g.1 = g'.1) :
    (sortBy cmp (groups order key l)).map Prod.fst =
      (sortBy cmp (groups order' key l')).map Prod.fst := by
  -- The groups of a key have the same elements on both sides
  have hgroup : ∀ k k', cmp (groupOf key l k) (groupOf key l k') =
      cmp (groupOf key l' k) (groupOf key l' k') :=
    fun k k' => hperm _ _ _ _ _ _ (h.filter _) (h.filter _)
  have hsorted' : ((sortBy cmp (groups order' key l')).map Prod.fst).Pairwise
      fun k k' => (cmp (groupOf key l k) (groupOf key l k')).isLE = true := by
    simp only [hgroup]
    exact pairwise_keys_sortBy_groups
  have hkeys : ((groups order key l).map Prod.fst).Perm ((groups order' key l').map Prod.fst) := by
    refine (List.perm_ext_iff_of_nodup (nodup_keys_groups ..) (nodup_keys_groups ..)).mpr ?_
    intro k
    simp only [mem_keys_groups, h.mem_iff]
  -- Two sorted lists with the same elements
  refine List.Perm.eq_of_pairwise ?_ pairwise_keys_sortBy_groups hsorted'
    (((sortBy_perm _).map _).trans (hkeys.trans ((sortBy_perm _).map _).symm))
  intro k k' _ _ hle hge
  exact hkey _ _ (eq_of_isLE_isLE hle hge)

end SortedGroups

end Groups

end Grouping
