import LandlockObservability.ForStd.TreeWalk
import LandlockObservability.Model.DomainTree
import LandlockObservability.Spec.ObservationConsistency
import LandlockObservability.Spec.StateIntegrity

/-!
# The domain tree is a tree

`domain_tree` lists every retained domain once and under its parent, whatever the observed
parents are.  The loop of `append` makes the steps of a walk (`TreeWalk.Step`) over the
hierarchy of the retained domains, so that everything follows from the invariant of walks.

A domain is appended at the root level if it has no known parent, or if it is the smallest one
that is left.  The second kind occurs only if the parents form a cycle.
-/

namespace Landlock

open Relation (ReflTransGen TransGen)

/-- IDs in the order of their values. -/
instance {K : LandlockIdKind} : Preorder (LandlockId K) := Preorder.lift fun id => id.value.toNat

/-- IDs are compared by their numbers. -/
private theorem LandlockId.lt_iff {K : LandlockIdKind} {a b : LandlockId K} :
    a < b ↔ a.value < b.value :=
  UInt64.lt_iff_toNat_lt.symm

/-- The parent of a retained domain, if it is retained as well. -/
def State.knownParent (s : State) (id : DomainId) : Option DomainId :=
  (s.domains.lookup id).bind fun domain => ObservationModel.knownParent s.domains domain

namespace ObservationModel

/-! ## The maps -/

/-- A known parent is retained. -/
private theorem mem_of_knownParent {domains : HashMap DomainId DomainState} {d : DomainState}
    {p : DomainId} (h : knownParent domains d = some p) : p ∈ domains := by
  unfold knownParent at h
  split at h
  · cases h
  · cases h
  · split at h
    · rename_i hmem
      exact Option.some.inj h ▸ hmem
    · cases h

section Maps

variable {s : State} (hs : s.Integrity) (stateOrder order : IterOrder DomainId DomainState)
include hs

/-- Collecting the domains by their ID gives the map of the state. -/
private theorem domainsById_eq : domainsById stateOrder s = s.domains := by
  -- A record has the ID that it is stored under
  have hid : ∀ entry ∈ stateOrder.toList s.domains, entry.2.id = entry.1 :=
    fun entry hentry => (hs.domains _ _ (stateOrder.mem_toList.mp hentry)).id_eq
  have hfold : domainsById stateOrder s =
      (stateOrder.toList s.domains).foldl (fun m entry => m.insert entry.1 entry.2) ∅ :=
    List.foldl_ext _ _ _ fun m entry hentry => by rw [hid entry hentry]
  refine Finmap.ext_lookup fun id => Option.ext fun d => ?_
  rw [hfold, Recency.lookup_foldl_insert _ _ (stateOrder.nodup_keys_toList _),
    stateOrder.mem_toList]
  simp

/-- No domain is twice among the children of a parent. -/
private theorem nodup_valuesOf (k : Option DomainId) :
    (Grouping.valuesOf (fun entry => knownParent s.domains entry.2)
      (fun entry => entry.2.id) (order.toList s.domains) k).Nodup := by
  have hvalues : Grouping.valuesOf (fun entry => knownParent s.domains entry.2)
      (fun entry => entry.2.id) (order.toList s.domains) k =
      ((order.toList s.domains).filter fun entry =>
        knownParent s.domains entry.2 = k).map Prod.fst :=
    List.map_congr_left fun entry hentry =>
      (hs.domains _ _ (order.mem_toList.mp (List.mem_of_mem_filter hentry))).id_eq
  rw [hvalues]
  exact (order.nodup_keys_toList _).sublist (List.filter_sublist.map _)

omit hs in
/-- The list of a parent is sorted. -/
private theorem getD_lookup_children (k : Option DomainId) :
    ((children order s.domains).lookup k).getD [] =
      sortIds (Grouping.valuesOf (fun entry => knownParent s.domains entry.2)
        (fun entry => entry.2.id) (order.toList s.domains) k) := by
  rw [← Grouping.getD_lookup_collect, children, Finmap.lookup_mapValues]
  cases Finmap.lookup k _ with
  | none => simp [sortIds, Grouping.sortBy]
  | some ids => rfl

/-- The list of a parent has the domains with that parent. -/
theorem mem_children {k : Option DomainId} {id : DomainId} :
    id ∈ ((children order s.domains).lookup k).getD [] ↔
      id ∈ s.domains ∧ s.knownParent id = k := by
  rw [getD_lookup_children, sortIds, Grouping.mem_sortBy, Grouping.valuesOf, List.mem_map]
  constructor
  -- The source groups the records by their parent, and takes the ID from the record
  · rintro ⟨⟨id', d⟩, hentry, rfl⟩
    rw [List.mem_filter, order.mem_toList, decide_eq_true_eq] at hentry
    have hid := (hs.domains _ _ hentry.1).id_eq
    simp only at hid hentry
    rw [hid, State.knownParent, hentry.1]
    exact ⟨Finmap.mem_of_lookup_eq_some hentry.1, hentry.2⟩
  · rintro ⟨hmem, hparent⟩
    obtain ⟨d, hd⟩ := Finmap.mem_iff.mp hmem
    rw [State.knownParent, hd] at hparent
    refine ⟨(id, d), ?_, (hs.domains _ _ hd).id_eq⟩
    rw [List.mem_filter, order.mem_toList, decide_eq_true_eq]
    exact ⟨hd, hparent⟩

omit hs in
/-- Different IDs are sorted strictly. -/
private theorem sorted_sortIds {ids : List DomainId} (hids : ids.Nodup) :
    (sortIds ids).Pairwise (· < ·) := by
  have hnodup : (sortIds ids).Nodup := (Grouping.sortBy_perm ids).nodup_iff.mpr hids
  refine ((Grouping.pairwise_sortBy ids).and hnodup).imp fun {a b} hab => ?_
  have hle : a.value ≤ b.value := Std.LawfulOrderOrd.isLE_compare a.value b.value |>.mp hab.1
  have hne : a.value ≠ b.value := fun heq => hab.2 (LandlockId.eq_of_value_eq heq)
  rw [LandlockId.lt_iff]
  exact UInt64.lt_of_le_of_ne hle hne

/-- The hierarchy of the retained domains. -/
def hierarchy : Hierarchy DomainId where
  nodes := s.domains.keys
  parent := s.knownParent
  children p := ((children order s.domains).lookup (some p)).getD []
  mem_children p c := by rw [mem_children hs, Finmap.mem_keys]
  sorted p := by
    rw [getD_lookup_children]
    exact sorted_sortIds (nodup_valuesOf hs order (some p))

/-- Parents are domains of the hierarchy. -/
private theorem parent_mem_nodes {c p : DomainId} (h : (hierarchy hs order).parent c = some p) :
    p ∈ (hierarchy hs order).nodes := by
  obtain ⟨d, _, hd⟩ := Option.bind_eq_some_iff.mp h
  exact Finmap.mem_keys.mpr (mem_of_knownParent hd)

end Maps

/-- Sorted IDs do not depend on the order that they had. -/
private theorem sortIds_congr {ids ids' : List DomainId} (h : ids.Perm ids') :
    sortIds ids = sortIds ids' := by
  refine Grouping.sortBy_congr h fun a _ b _ heq => LandlockId.eq_of_value_eq ?_
  exact Std.compare_eq_iff_eq.mp heq

/-- The tree does not depend on the order of the maps. -/
theorem domainTree_congr {model : ObservationModel} (hs : model.state.Integrity)
    (stateOrder order stateOrder' order' : IterOrder DomainId DomainState) :
    model.domainTree stateOrder order = model.domainTree stateOrder' order' := by
  have hperm := order.toList_perm order' model.state.domains
  -- Sorting the children removes the order of the map
  have hchildren : children order model.state.domains = children order' model.state.domains := by
    refine Finmap.ext_lookup fun k => ?_
    rw [children, children, Finmap.lookup_mapValues, Finmap.lookup_mapValues,
      Grouping.lookup_collect, Grouping.lookup_collect]
    simp only [hperm.mem_iff]
    split
    · exact congrArg some (sortIds_congr ((hperm.filter _).map _))
    · rfl
  rw [domainTree, domainTree, domainsById_eq hs, domainsById_eq hs, hchildren,
    sortIds_congr (hperm.map Prod.fst)]

/-! ## The loop of `append` -/

/-- The descendants are on top of the stack, in their order. -/
private theorem pushDescendants_eq (trail : List Bool) {descendants : List DomainId}
    (hnodup : descendants.Nodup) (pending : List TreeEntry) :
    pushDescendants trail descendants pending =
      (descendants.map fun c => (c, trail ++ [decide (descendants.getLast? = some c)])) ++
        pending := by
  -- The source compares an index where the trail of a walk asks for the last child
  have hindex : ∀ entry ∈ descendants.zipIdx,
      (entry.1, trail ++ [entry.2 == descendants.length - 1]) =
        (entry.1, trail ++ [decide (descendants.getLast? = some entry.1)]) := by
    intro entry hentry
    have hget := List.mem_zipIdx_iff_getElem?.mp hentry
    obtain ⟨hlt, _⟩ := List.getElem?_eq_some_iff.mp hget
    have hiff : entry.2 = descendants.length - 1 ↔ descendants.getLast? = some entry.1 := by
      rw [List.getLast?_eq_getElem?]
      refine ⟨fun heq => heq ▸ hget, fun hlast => ?_⟩
      exact (List.getElem?_inj hlt hnodup).mp (hget.trans hlast.symm)
    rw [Bool.beq_eq_decide_eq, decide_eq_decide.mpr hiff]
  have hfst : descendants.zipIdx.map (fun entry =>
      (entry.1, trail ++ [decide (descendants.getLast? = some entry.1)])) =
      (descendants.zipIdx.map Prod.fst).map
        fun c => (c, trail ++ [decide (descendants.getLast? = some c)]) := by
    rw [List.map_map]
    rfl
  rw [pushDescendants, List.foldl_reverse, List.foldr_cons_eq_append, List.map_congr_left hindex,
    hfst, List.zipIdx_map_fst]

section Walks

variable {s : State} (hs : s.Integrity) (order : IterOrder DomainId DomainState)

/-- The visited domains are the listed ones. -/
def DomainWalk.Listed (walk : DomainWalk) : Prop :=
  ∀ id, id ∈ walk.visited ↔ id ∈ walk.output.map Prod.fst

/-- A visited domain is a listed one. -/
theorem DomainWalk.Listed.insert {walk : DomainWalk} (hlisted : walk.Listed) (id : DomainId)
    (trail : List Bool) :
    DomainWalk.Listed ⟨insert id walk.visited, walk.output ++ [(id, trail)]⟩ := by
  intro id'
  rw [TreeWalk.mem_ids_concat, Finset.mem_insert, hlisted id', or_comm]

/-- A round of the loop for a domain that was not visited. -/
private theorem appendLoop_cons_of_notMem (children : HashMap (Option DomainId) (List DomainId))
    {id : DomainId} (trail : List Bool) (pending : List TreeEntry) {walk : DomainWalk}
    (hid : id ∉ walk.visited) :
    appendLoop children ((id, trail) :: pending) walk =
      appendLoop children
        (pushDescendants trail ((children.lookup (some id)).getD []) pending)
        ⟨insert id walk.visited, walk.output ++ [(id, trail)]⟩ := by
  rw [appendLoop, if_neg hid]
  split
  · rename_i descendants hlookup
    rw [hlookup]
    rfl
  · rename_i hlookup
    rw [hlookup]
    rfl

/-- The loop makes the steps of a walk until nothing is pending. -/
private theorem run_appendLoop (pending : List TreeEntry) (walk : DomainWalk)
    (hlisted : walk.Listed) :
    (appendLoop (children order s.domains) pending walk).Listed ∧
      ReflTransGen (TreeWalk.Step (hierarchy hs order)) ⟨pending, walk.output⟩
        ⟨[], (appendLoop (children order s.domains) pending walk).output⟩ := by
  -- A round that visits a domain is a step of a walk
  have hvisit : ∀ id trail pending (walk : DomainWalk), id ∉ walk.visited → walk.Listed →
      TreeWalk.Step (hierarchy hs order) ⟨(id, trail) :: pending, walk.output⟩
        ⟨pushDescendants trail (((children order s.domains).lookup (some id)).getD []) pending,
          walk.output ++ [(id, trail)]⟩ := by
    intro id trail pending walk hid hlisted
    have hnodup : (((children order s.domains).lookup (some id)).getD []).Nodup :=
      (hierarchy hs order).nodup_children id
    rw [pushDescendants_eq trail hnodup]
    exact .visit (e := (id, trail)) fun hmem => hid ((hlisted id).mpr hmem)
  induction pending, walk using appendLoop.induct (children order s.domains) with
  | case1 walk =>
    rw [appendLoop]
    exact ⟨hlisted, .refl⟩
  | case2 id trail pending walk hid ih =>
    rw [appendLoop, if_pos hid]
    obtain ⟨hlisted', hrun⟩ := ih hlisted
    exact ⟨hlisted', .head (.skip ((hlisted id).mp hid)) hrun⟩
  | case3 id trail pending walk hid walk' descendants hlookup ih =>
    rw [appendLoop_cons_of_notMem _ _ _ hid]
    have hstep := hvisit id trail pending walk hid hlisted
    rw [hlookup] at hstep ⊢
    obtain ⟨hlisted', hrun⟩ := ih (hlisted.insert id trail)
    exact ⟨hlisted', .head hstep hrun⟩
  | case4 id trail pending walk hid walk' hlookup ih =>
    rw [appendLoop_cons_of_notMem _ _ _ hid]
    have hstep := hvisit id trail pending walk hid hlisted
    rw [hlookup] at hstep ⊢
    obtain ⟨hlisted', hrun⟩ := ih (hlisted.insert id trail)
    exact ⟨hlisted', .head hstep hrun⟩

/-- A walk between two calls of `append`; the domains at the root level have a property. -/
structure Walked (R : DomainId → Prop) (walk : DomainWalk) : Prop where
  listed : walk.Listed
  inv : TreeWalk.Inv (hierarchy hs order) ⟨[], walk.output⟩
  entries : ∀ e ∈ walk.output, e.1 ∈ s.domains ∧ e.2 ≠ [] ∧ (e.2.length = 1 → R e.1)

/-- Before the first call nothing is listed. -/
theorem Walked.empty (R : DomainId → Prop) : Walked hs order R ⟨∅, []⟩ where
  listed := by simp [DomainWalk.Listed]
  inv := .empty
  entries := nofun

variable {hs order} {R : DomainId → Prop} {walk : DomainWalk}

/-- A call of `append` lists the domain and loses none. -/
theorem Walked.append (hwalk : Walked hs order R walk) {id : DomainId} (b : Bool)
    (hid : id ∈ s.domains) (hR : R id)
    (hstart : TreeWalk.MayStart (hierarchy hs order) walk.output id) :
    Walked hs order R (append id [b] (children order s.domains) walk) ∧
      ∀ a, a = id ∨ a ∈ walk.output.map Prod.fst →
        a ∈ (append id [b] (children order s.domains) walk).output.map Prod.fst := by
  obtain ⟨hlisted, hrun⟩ := run_appendLoop hs order [(id, [b])] walk hwalk.listed
  refine ⟨⟨hlisted, (hwalk.inv.start b hstart).run hrun, ?_⟩, fun a ha => ?_⟩
  -- The root level is left once and not reached again
  · refine TreeWalk.forall_entries_of_run ?_ hrun ?_
    · intro e he c hc
      have hlength := TreeWalk.length_of_mem_childEntries hc
      have hpos := List.length_pos_iff.mpr he.2.1
      refine ⟨?_, List.length_pos_iff.mp (by omega), fun hone => by omega⟩
      have hmem : c.1 ∈ (hierarchy hs order).children e.1 := by
        rw [← TreeWalk.ids_childEntries]
        exact List.mem_map_of_mem hc
      exact Finmap.mem_keys.mp (((hierarchy hs order).mem_children e.1 c.1).mp hmem).1
    · intro e he
      rcases List.mem_cons.mp he with rfl | he
      · exact ⟨hid, List.cons_ne_nil _ _, fun _ => hR⟩
      · exact hwalk.entries e he
  · refine TreeWalk.mem_ids_of_run hrun ?_
    rw [List.singleton_append, TreeWalk.ids_cons, List.mem_cons]
    exact ha

/-! ## The two loops -/

/-- The first loop makes its calls one after the other. -/
private theorem Walked.foldl_roots {last : Nat} (roots : List (DomainId × Nat))
    (hroots : ∀ root ∈ roots, root.1 ∈ s.domains ∧ s.knownParent root.1 = none)
    (hwalk : Walked hs order (fun id => s.knownParent id = none) walk) :
    Walked hs order (fun id => s.knownParent id = none)
        (roots.foldl (fun walk root =>
          ObservationModel.append root.1 [root.2 == last] (children order s.domains) walk) walk) ∧
      ∀ id, id ∈ roots.map Prod.fst ∨ id ∈ walk.output.map Prod.fst →
        id ∈ (roots.foldl (fun walk root =>
          ObservationModel.append root.1 [root.2 == last] (children order s.domains) walk)
          walk).output.map Prod.fst := by
  induction roots generalizing walk with
  | nil => exact ⟨hwalk, fun id hid => hid.resolve_left List.not_mem_nil⟩
  | cons root roots ih =>
    obtain ⟨hroot, hroots⟩ := List.forall_mem_cons.mp hroots
    obtain ⟨hwalk', hmem⟩ := hwalk.append (root.2 == last) hroot.1 hroot.2 (.inl hroot.2)
    obtain ⟨hwalk'', hmem'⟩ := ih hroots hwalk'
    refine ⟨hwalk'', fun id hid => hmem' id ?_⟩
    rw [List.map_cons, List.mem_cons, or_comm, ← or_assoc, or_comm] at hid
    exact hid.imp_right fun h => hmem id h.symm

variable (hs order) in
/-- The first loop lists the domains without a known parent, and only these at the root
    level. -/
private theorem walked_appendRoots :
    Walked hs order (fun id => s.knownParent id = none)
        (appendRoots (children order s.domains) ⟨∅, []⟩) ∧
      ∀ id ∈ s.domains, s.knownParent id = none →
        id ∈ (appendRoots (children order s.domains) ⟨∅, []⟩).output.map Prod.fst := by
  have hfst : ((((children order s.domains).lookup none).getD []).zipIdx).map Prod.fst =
      ((children order s.domains).lookup none).getD [] := List.zipIdx_map_fst ..
  obtain ⟨hwalked, hmem⟩ := (Walked.empty hs order _).foldl_roots
    (((children order s.domains).lookup none).getD []).zipIdx
    fun root hroot => (mem_children hs order).mp (hfst ▸ List.mem_map_of_mem hroot)
  refine ⟨hwalked, fun id hid hnone => hmem id (.inl ?_)⟩
  rw [hfst]
  exact (mem_children hs order).mpr ⟨hid, hnone⟩

/-- The second loop lists the rest. -/
theorem Walked.appendRemaining (remaining : List DomainId)
    (hsorted : remaining.Pairwise (· < ·)) (hremaining : ∀ id ∈ remaining, id ∈ s.domains)
    (hrest : ∀ id ∈ s.domains, id ∉ remaining → id ∈ walk.output.map Prod.fst)
    (hwalk : Walked hs order (fun _ => True) walk) :
    Walked hs order (fun _ => True)
        (appendRemaining (children order s.domains) remaining walk) ∧
      ∀ id ∈ s.domains, id ∈ (ObservationModel.appendRemaining (children order s.domains)
        remaining walk).output.map Prod.fst := by
  induction remaining generalizing walk with
  | nil => exact ⟨hwalk, fun id hid => hrest id hid List.not_mem_nil⟩
  | cons id remaining ih =>
    obtain ⟨hlt, hsorted⟩ := List.pairwise_cons.mp hsorted
    obtain ⟨hid, hremaining⟩ := List.forall_mem_cons.mp hremaining
    by_cases hvisited : id ∈ walk.visited
    · have hlisted := (hwalk.listed id).mp hvisited
      have hstep := ih hsorted hremaining (fun a ha hnot => ?_) hwalk
      · rwa [ObservationModel.appendRemaining, List.foldl_cons, if_pos hvisited]
      · by_cases heq : a = id
        · exact heq ▸ hlisted
        · exact hrest a ha (by simp [heq, hnot])
    · -- everything before the smallest one that is left is listed
      have hlow : TreeWalk.Low (hierarchy hs order) walk.output id := by
        intro a ha hlt'
        refine hrest a (Finmap.mem_keys.mp ha) fun hmem => ?_
        rcases List.mem_cons.mp hmem with rfl | hmem
        · exact lt_irrefl _ hlt'
        · exact lt_asymm hlt' (hlt a hmem)
      obtain ⟨hwalk', hmem⟩ := hwalk.append true hid trivial (.inr hlow)
      have hstep := ih hsorted hremaining (fun a ha hnot => ?_) hwalk'
      · rwa [ObservationModel.appendRemaining, List.foldl_cons, if_neg hvisited]
      · by_cases heq : a = id
        · exact hmem a (.inl heq)
        · exact hmem a (.inr (hrest a ha (by simp [heq, hnot])))

/-- The second loop does nothing for visited domains. -/
private theorem appendRemaining_of_visited (children : HashMap (Option DomainId) (List DomainId))
    {remaining : List DomainId} (hremaining : ∀ id ∈ remaining, id ∈ walk.visited) :
    appendRemaining children remaining walk = walk := by
  induction remaining with
  | nil => rfl
  | cons id remaining ih =>
    obtain ⟨hid, hremaining⟩ := List.forall_mem_cons.mp hremaining
    rw [appendRemaining, List.foldl_cons, if_pos hid]
    exact ih hremaining

/-- A weaker property of the root level. -/
theorem Walked.mono {R' : DomainId → Prop} (hwalk : Walked hs order R walk)
    (hR : ∀ id, R id → R' id) : Walked hs order R' walk where
  listed := hwalk.listed
  inv := hwalk.inv
  entries e he :=
    have ⟨hmem, hne, hroot⟩ := hwalk.entries e he
    ⟨hmem, hne, fun hone => hR _ (hroot hone)⟩

end Walks

/-! ## The tree -/

/-- The records of a model are stored under their own IDs. -/
theorem observeAll_integrity (steps : List (IterOrder DenialKey AggregatedDenial × Event)) :
    (observeAll steps).state.Integrity := by
  rw [observeAll_state]
  exact List.foldlRecOn _ _ State.Integrity.new fun s hs e _ => hs.apply e

/-- The entries that are displayed under a domain. -/
def displayedUnder (s : State) (tree : List TreeEntry) (p : DomainId) : List TreeEntry :=
  tree.filter fun e => 1 < e.2.length ∧ s.knownParent e.1 = some p

/-- The domains above a domain. -/
def knownAncestors (s : State) (id : DomainId) : Set DomainId :=
  {p | TransGen (fun child parent => s.knownParent child = some parent) id p}

/-- A list of the retained domains in tree order. -/
structure InTreeOrder (s : State) (tree : List TreeEntry) : Prop where
  nodup : (tree.map Prod.fst).Nodup
  mem_iff : ∀ id, id ∈ tree.map Prod.fst ↔ id ∈ s.domains
  /-- Above an entry, the nearest one with a trail one shorter is the one of its parent. -/
  placed : ∀ before id trail after, tree = before ++ (id, trail) :: after → 1 < trail.length →
    ∃ p t b, (before.filter fun e => e.2.length = trail.length - 1).getLast? = some (p, t) ∧
      s.knownParent id = some p ∧ trail = t ++ [b]
  sorted : ∀ p, (displayedUnder s tree p).Pairwise fun e e' => e.1.value < e'.1.value
  last_bit : ∀ p, ∀ e ∈ displayedUnder s tree p,
    e.2.getLast? = some true ↔ (displayedUnder s tree p).getLast? = some e
  depth : (∀ id, id ∉ knownAncestors s id) → ∀ e ∈ tree,
    e.2.length = 1 + (knownAncestors s e.1).ncard ∧
      (e.2.length = 1 → s.knownParent e.1 = none)

/-- The second loop looks at every retained domain. -/
private theorem mem_sorted_keys {s : State} (order : IterOrder DomainId DomainState)
    (id : DomainId) :
    id ∈ sortIds ((order.toList s.domains).map Prod.fst) ↔ id ∈ s.domains := by
  rw [sortIds, Grouping.mem_sortBy, List.mem_map, Finmap.mem_iff]
  constructor
  · rintro ⟨entry, hentry, rfl⟩
    exact ⟨entry.2, order.mem_toList.mp hentry⟩
  · rintro ⟨d, hd⟩
    exact ⟨(id, d), order.mem_toList.mpr hd, rfl⟩

/-- The result of the two loops. -/
private theorem inTreeOrder_loops {s : State} (hs : s.Integrity)
    (order : IterOrder DomainId DomainState) :
    InTreeOrder s (appendRemaining (children order s.domains)
      (sortIds ((order.toList s.domains).map Prod.fst))
      (appendRoots (children order s.domains) ⟨∅, []⟩)).output := by
  obtain ⟨hroots, hlisted⟩ := walked_appendRoots hs order
  obtain ⟨hwalk, hall⟩ := (hroots.mono fun _ _ => trivial).appendRemaining
    (sortIds ((order.toList s.domains).map Prod.fst))
    (sorted_sortIds (order.nodup_keys_toList _)) (fun id => (mem_sorted_keys order id).mp)
    (fun id hid hnot => absurd ((mem_sorted_keys order id).mpr hid) hnot)
  -- All but the depth is the invariant of the walk
  refine ⟨hwalk.inv.nodup, fun id => ⟨?_, hall id⟩, ?_, ?_, ?_, ?_⟩
  · intro hid
    obtain ⟨e, he, rfl⟩ := List.mem_map.mp hid
    exact (hwalk.entries e he).1
  · intro before id trail after hsplit hlen
    obtain ⟨p, t, hlast, hp, htrail⟩ := hwalk.inv.placed before (id, trail) after hsplit hlen
    exact ⟨p, t, _, hlast, hp, htrail⟩
  · intro p
    have hsorted := List.pairwise_map.mp (hwalk.inv.sorted_shown p)
    exact hsorted.imp LandlockId.lt_iff.mp
  · exact fun p e he => hwalk.inv.last_bit he
  · -- without a cycle the first loop lists everything
    intro hacyclic
    have hnodes : ∀ c p, (hierarchy hs order).parent c = some p →
        p ∈ (hierarchy hs order).nodes := fun c p => parent_mem_nodes hs order
    have hcomplete := hroots.inv.complete hnodes hacyclic
      fun id hid => hlisted id (Finmap.mem_keys.mp hid)
    rw [appendRemaining_of_visited]
    · intro e he
      have hentries : ∀ e ∈ (appendRoots (children order s.domains) ⟨∅, []⟩).output,
          e.2 ≠ [] ∧ (e.2.length = 1 → s.knownParent e.1 = none) :=
        fun e he => (hroots.entries e he).2
      obtain ⟨before, after, hsplit⟩ := List.append_of_mem he
      exact ⟨hroots.inv.length_trail hnodes hacyclic hentries before e after hsplit,
        (hentries e he).2⟩
    · intro id hid
      have hmem := (mem_sorted_keys order id).mp hid
      exact (hroots.listed id).mpr (hcomplete id (Finmap.mem_keys.mpr hmem))

/-- The tree is in tree order. -/
theorem inTreeOrder_of_integrity {model : ObservationModel} (hs : model.state.Integrity)
    (stateOrder order : IterOrder DomainId DomainState) :
    InTreeOrder model.state (model.domainTree stateOrder order) := by
  rw [domainTree, domainsById_eq hs]
  exact inTreeOrder_loops hs order

/-- The domain tree shows every retained domain once and under its parent, after every
    sequence of events and for every order in which the maps are traversed. -/
theorem domainTree_inTreeOrder (steps : List (IterOrder DenialKey AggregatedDenial × Event))
    (stateOrder order : IterOrder DomainId DomainState) :
    InTreeOrder (observeAll steps).state ((observeAll steps).domainTree stateOrder order) :=
  inTreeOrder_of_integrity (observeAll_integrity steps) stateOrder order

end ObservationModel

end Landlock
