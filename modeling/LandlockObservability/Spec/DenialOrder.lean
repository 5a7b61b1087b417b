import LandlockObservability.ForStd.List
import LandlockObservability.Spec.DenialView

/-!
# What the denial view takes from the order of the hash maps

The entries of a group are sorted by their count, their latest time and their target.  These
do not tell all keys apart: two files can have the same name.  Entries that agree in all three
stay in the order in which `DenialAggregator::entries` enumerates them, and nothing else of the
rows depends on the order of a map.
-/

namespace Landlock.Tui

/-- What is drawn of a row. -/
def DisplayRow.drawn (row : DisplayRow) : RowKind × String × Style :=
  (row.kind, row.text, row.style)

/-- No two denials agree in all that the view sorts by. -/
def NoTies (u : Unicode) (model : ObservationModel) : Prop :=
  ∀ entry ∈ retainedDenials model, ∀ entry' ∈ retainedDenials model,
    entry.key.domainId = entry'.key.domainId → blockers entry = blockers entry' →
    entry.occurrenceCount = entry'.occurrenceCount →
    entry.latestTimestamp = entry'.latestTimestamp → target u entry = target u entry' →
    entry = entry'

/-! ## Comparisons that tell groups apart -/

/-- A lexicographic comparison tells apart what one of its two does. -/
private theorem compareLex_eq_iff {α : Type} {c c' : α → α → Ordering} {a b : α} :
    compareLex c c' a b = .eq ↔ c a b = .eq ∧ c' a b = .eq := by
  rw [compareLex, Ordering.then_eq_eq]

/-- A total does not depend on the order of the denials, -/
private theorem total_congr {entries entries' : List AggregatedDenial} (h : entries.Perm entries') :
    total entries = total entries' := by
  rw [← UInt64.toNat_inj, toNat_total, toNat_total, Multiset.coe_eq_coe.mpr h]

/-- and neither does a maximum. -/
private theorem maximum_congr {entries entries' : List AggregatedDenial}
    (h : entries.Perm entries') :
    maximum entries = maximum entries' := by
  rw [← UInt64.toNat_inj, toNat_maximum, toNat_maximum, Multiset.coe_eq_coe.mpr h]

/-- So the sections are compared without regard to the order of their denials. -/
private theorem compareDomains_congr (id id' : DomainId) (a a' b b' : List AggregatedDenial)
    (ha : a.Perm a') (hb : b.Perm b') :
    compareDomains (id, a) (id', b) = compareDomains (id, a') (id', b') := by
  simp only [compareDomains, compareLex, descending, compareOn, total_congr ha, total_congr hb]

/-- The comparison tells the domains apart. -/
private theorem fst_eq_of_compareDomains (group group' : DomainId × List AggregatedDenial)
    (h : compareDomains group group' = .eq) : group.1 = group'.1 :=
  LandlockId.eq_of_value_eq (Std.compare_eq_iff_eq.mp (compareLex_eq_iff.mp h).2)

/-- The groups are compared without regard to the order of their denials. -/
private theorem compareGroups_congr (label label' : String) (a a' b b' : List AggregatedDenial)
    (ha : a.Perm a') (hb : b.Perm b') :
    compareGroups (label, a) (label', b) = compareGroups (label, a') (label', b') := by
  simp only [compareGroups, compareLex, descending, compareOn, total_congr ha, total_congr hb,
    maximum_congr ha, maximum_congr hb]

/-- The comparison tells the labels apart. -/
private theorem fst_eq_of_compareGroups (group group' : String × List AggregatedDenial)
    (h : compareGroups group group' = .eq) : group.1 = group'.1 :=
  Std.compare_eq_iff_eq.mp (compareLex_eq_iff.mp (compareLex_eq_iff.mp h).2).2

/-- What the comparison of denials does not tell apart. -/
private theorem compareEntries_eq_iff {u : Unicode} {entry entry' : AggregatedDenial} :
    compareEntries u entry entry' = .eq ↔
      entry.occurrenceCount = entry'.occurrenceCount ∧
        entry.latestTimestamp = entry'.latestTimestamp ∧ target u entry = target u entry' := by
  rw [compareEntries, compareLex_eq_iff, compareLex_eq_iff, descending_eq_iff,
    descending_eq_iff, compareOn, Std.compare_eq_iff_eq]
  refine and_congr_right fun _ => and_congr_left fun _ => ⟨fun h => ?_, fun h => h ▸ rfl⟩
  cases hentry : entry.latestTimestamp
  cases hentry' : entry'.latestTimestamp
  rw [hentry, hentry'] at h
  exact congrArg _ h

/-! ## Without ties -/

section Independent

variable {u : Unicode} {width : String → Nat} {model : ObservationModel}
  {selected : Option RowKind} (orders orders' : DenialOrders)

/-- Two orders of the map visit the same denials. -/
private theorem retained_perm :
    (retained orders.entries model).Perm (retained orders'.entries model) := by
  rw [← Multiset.coe_eq_coe, coe_retained, coe_retained]

/-- The sections come in the same order, whatever that of the map is. -/
private theorem domainIds_eq :
    (domainGroups orders model).map Prod.fst = (domainGroups orders' model).map Prod.fst :=
  Grouping.map_fst_sortBy_groups_congr (retained_perm orders orders') compareDomains_congr
    fst_eq_of_compareDomains

variable {orders orders'}

/-- The entries of a domain with a label. -/
def entriesOf (entries : List AggregatedDenial) (id : DomainId) (label : String) :
    List AggregatedDenial :=
  (Grouping.groupOf blockers
    (Grouping.groupOf (fun entry => entry.key.domainId) entries id).2 label).2

/-- The rows of the groups of a domain depend only on the entries and on how each group is
    sorted. -/
private theorem groupRows_congr {order order' : IterOrder String (List AggregatedDenial)}
    {entries entries' : List AggregatedDenial} (h : entries.Perm entries')
    (hsorted : ∀ label,
      Grouping.sortBy (compareEntries u) (Grouping.groupOf blockers entries label).2 =
        Grouping.sortBy (compareEntries u) (Grouping.groupOf blockers entries' label).2) :
    (labelGroups order entries).flatMap (groupRows u width model selected) =
      (labelGroups order' entries').flatMap (groupRows u width model selected) := by
  have hlabels : (labelGroups order entries).map Prod.fst =
      (labelGroups order' entries').map Prod.fst :=
    Grouping.map_fst_sortBy_groups_congr h compareGroups_congr fst_eq_of_compareGroups
  have hgroups : labelGroups order entries =
      ((labelGroups order entries).map Prod.fst).map (Grouping.groupOf blockers entries) :=
    Grouping.sortBy_groups_eq_map
  have hgroups' : labelGroups order' entries' =
      ((labelGroups order' entries').map Prod.fst).map (Grouping.groupOf blockers entries') :=
    Grouping.sortBy_groups_eq_map
  rw [hgroups, hgroups', hlabels]
  -- The labels are the same on both sides, and so is the rest of a group but its order
  generalize (labelGroups order' entries').map Prod.fst = labels
  rw [List.flatMap_map, List.flatMap_map]
  refine List.flatMap_congr fun label _ => ?_
  rw [groupRows, groupRows, hsorted label]
  rfl

/-- The section of a domain depends only on how its groups are sorted. -/
private theorem domainSection_congr {id : DomainId}
    (hsorted : ∀ label,
      Grouping.sortBy (compareEntries u)
          (entriesOf (retained orders.entries model) id label) =
        Grouping.sortBy (compareEntries u)
          (entriesOf (retained orders'.entries model) id label)) :
    domainSection u width model selected orders (Grouping.groupOf
        (fun entry => entry.key.domainId) (retained orders.entries model) id) =
      domainSection u width model selected orders' (Grouping.groupOf
        (fun entry => entry.key.domainId) (retained orders'.entries model) id) :=
  congrArg (denialDomainRow u model selected id :: ·)
    (groupRows_congr ((retained_perm orders orders').filter _) hsorted)

/-- The rows depend only on how the entries of each group are sorted. -/
theorem denialRows_congr
    (hsorted : ∀ id label,
      Grouping.sortBy (compareEntries u)
          (entriesOf (retained orders.entries model) id label) =
        Grouping.sortBy (compareEntries u)
          (entriesOf (retained orders'.entries model) id label)) :
    denialRows u width model selected orders = denialRows u width model selected orders' := by
  have hgroups : ∀ orders : DenialOrders, domainGroups orders model =
      ((domainGroups orders model).map Prod.fst).map (Grouping.groupOf
        (fun entry => entry.key.domainId) (retained orders.entries model)) :=
    fun orders => Grouping.sortBy_groups_eq_map
  rw [denialRows, denialRows, hgroups orders, hgroups orders', domainIds_eq orders orders']
  generalize (domainGroups orders' model).map Prod.fst = ids
  rw [List.foldl_map, List.foldl_map]
  refine List.foldl_ext _ _ _ fun rows id _ => ?_
  rw [domainSection_congr (hsorted id)]

/-- Without ties a group is sorted in one way. -/
private theorem sortBy_entriesOf (hties : NoTies u model) (id : DomainId) (label : String) :
    Grouping.sortBy (compareEntries u) (entriesOf (retained orders.entries model) id label) =
      Grouping.sortBy (compareEntries u)
        (entriesOf (retained orders'.entries model) id label) := by
  refine Grouping.sortBy_congr (((retained_perm orders orders').filter _).filter _) ?_
  -- Two entries of one group that compare equal are a tie
  intro entry hentry entry' hentry' heq
  simp only [entriesOf, Grouping.groupOf, List.mem_filter, decide_eq_true_eq] at hentry hentry'
  obtain ⟨⟨hmem, hdomain⟩, hlabel⟩ := hentry
  obtain ⟨⟨hmem', hdomain'⟩, hlabel'⟩ := hentry'
  obtain ⟨hcount, htime, htarget⟩ := compareEntries_eq_iff.mp heq
  refine hties entry ?_ entry' ?_ (hdomain.trans hdomain'.symm) (hlabel.trans hlabel'.symm)
    hcount htime htarget
  · rw [← coe_retained orders.entries]
    exact hmem
  · rw [← coe_retained orders.entries]
    exact hmem'

end Independent

/-! ## With a tie -/

section Tie

variable {u : Unicode} {model : ObservationModel} {orders : DenialOrders}

/-- The denials of the rows, in their order. -/
theorem filterMap_denialOf (width : String → Nat) (selected : Option RowKind) :
    (denialRows u width model selected orders).filterMap (fun row => denialOf row.kind) =
      (shownDenials u model orders).map AggregatedDenial.key := by
  rw [← map_snd_denialMarks ⟨none, none⟩, denialMarks_denialRows, List.map_map]
  rfl

/-- Entries that the sorting does not tell apart are shown in the order of the map. -/
private theorem pair_sublist_shownDenials {entry entry' : AggregatedDenial}
    (hdomain : entry.key.domainId = entry'.key.domainId) (hlabel : blockers entry = blockers entry')
    (heq : compareEntries u entry entry' = .eq)
    (h : [entry, entry'].Sublist (retained orders.entries model)) :
    [entry, entry'].Sublist (shownDenials u model orders) := by
  -- Both entries are in one group of one section
  have hmem : entry ∈ retained orders.entries model := h.subset (by simp)
  have hgroup : Grouping.groupOf (fun entry => entry.key.domainId) (retained orders.entries model)
      entry.key.domainId ∈ domainGroups orders model :=
    Grouping.mem_sortBy.mpr (Grouping.mem_groups.mpr ⟨⟨entry, hmem, rfl⟩, rfl⟩)
  have hsub : [entry, entry'].Sublist (Grouping.groupOf (fun entry => entry.key.domainId)
      (retained orders.entries model) entry.key.domainId).2 := by
    refine List.Sublist.trans ?_ (h.filter fun e => e.key.domainId = entry.key.domainId)
    simp [hdomain]
  generalize Grouping.groupOf (fun entry => entry.key.domainId) (retained orders.entries model)
    entry.key.domainId = group at hgroup hsub
  have hlabelled : Grouping.groupOf blockers group.2 (blockers entry) ∈
      labelGroups (orders.groups group.1) group.2 :=
    Grouping.mem_sortBy.mpr (Grouping.mem_groups.mpr ⟨⟨entry, hsub.subset (by simp), rfl⟩, rfl⟩)
  have hsub' : [entry, entry'].Sublist (Grouping.groupOf blockers group.2 (blockers entry)).2 := by
    refine List.Sublist.trans ?_ (hsub.filter fun e => blockers e = blockers entry)
    simp [hlabel]
  refine (Grouping.pair_sublist_sortBy heq hsub').trans ?_
  refine List.Sublist.trans ?_ (List.sublist_flatMap_of_mem _ hgroup)
  exact List.sublist_flatMap_of_mem (fun labelled => Grouping.sortBy (compareEntries u) labelled.2)
    hlabelled

/-- A retained denial is stored under its key. -/
private theorem lookup_of_mem_retainedDenials (hmodel : Keyed model) {entry : AggregatedDenial}
    (hentry : entry ∈ retainedDenials model) :
    model.denials.entries.lookup entry.key = some entry := by
  obtain ⟨⟨key, entry⟩, hmem, rfl⟩ := Multiset.mem_map.mp hentry
  have hlookup := Finmap.lookup_eq_some_iff.mpr hmem
  rwa [hmodel key entry hlookup]

/-- With a tie, two orders of the map give different rows. -/
private theorem exists_orders_of_tie (hmodel : Keyed model) {entry entry' : AggregatedDenial}
    (hentry : entry ∈ retainedDenials model) (hentry' : entry' ∈ retainedDenials model)
    (hdomain : entry.key.domainId = entry'.key.domainId) (hlabel : blockers entry = blockers entry')
    (heq : compareEntries u entry entry' = .eq) (hne : entry ≠ entry') (width : String → Nat)
    (selected : Option RowKind) :
    ∃ orders orders', (denialRows u width model selected orders).map DisplayRow.drawn ≠
      (denialRows u width model selected orders').map DisplayRow.drawn := by
  -- One order enumerates `entry` first, the other one `entry'`
  let ordersFrom (first : AggregatedDenial) : DenialOrders :=
    ⟨(default : IterOrder DenialKey AggregatedDenial).withFirst (first.key, first), default,
      fun _ => default⟩
  have hpair : ∀ {a b : AggregatedDenial}, a ∈ retainedDenials model →
      b ∈ retainedDenials model → b ≠ a → a.key.domainId = b.key.domainId →
      blockers a = blockers b → compareEntries u a b = .eq →
      [a.key, b.key].Sublist
        ((shownDenials u model (ordersFrom a)).map AggregatedDenial.key) := by
    intro a b ha hb hne hdomain hlabel heq
    have hentries : [(a.key, a), (b.key, b)].Sublist
        ((ordersFrom a).entries.toList model.denials.entries) := by
      refine IterOrder.pair_sublist_withFirst _ ?_ ?_ fun heq => hne (congrArg Prod.snd heq)
      · exact (IterOrder.mem_toList _).mpr (lookup_of_mem_retainedDenials hmodel ha)
      · exact (IterOrder.mem_toList _).mpr (lookup_of_mem_retainedDenials hmodel hb)
    have hshown := pair_sublist_shownDenials hdomain hlabel heq (hentries.map Prod.snd)
    exact hshown.map AggregatedDenial.key
  refine ⟨ordersFrom entry, ordersFrom entry', fun hdrawn => ?_⟩
  -- Equal rows would have the two keys in both orders, and no key is shown twice
  have hkinds := congrArg (List.filterMap fun row : RowKind × String × Style => denialOf row.1)
    hdrawn
  rw [List.filterMap_map, List.filterMap_map] at hkinds
  have hkeys := (filterMap_denialOf width selected).symm.trans
    (hkinds.trans (filterMap_denialOf width selected))
  have hnodup : ((shownDenials u model (ordersFrom entry)).map AggregatedDenial.key).Nodup :=
    ((shownDenials_perm hmodel).map _).nodup_iff.mpr (nodup_keys_retained hmodel _)
  have hswap : compareEntries u entry' entry = .eq := by
    rw [@Std.OrientedCmp.eq_swap _ (compareEntries u) _ entry' entry, heq]
    rfl
  refine hnodup.not_pair_sublist (hpair hentry hentry' hne.symm hdomain hlabel heq) ?_
  rw [hkeys]
  exact hpair hentry' hentry hne hdomain.symm hlabel.symm hswap

/-- The rows are independent of the order in which the maps are traversed if and only if no
    two retained denials agree in their domain, label, count, latest time and target. -/
theorem denialRows_order_independent_iff (u : Unicode) (width : String → Nat)
    (steps : List (IterOrder DenialKey AggregatedDenial × Event)) (selected : Option RowKind) :
    (∀ orders orders' : DenialOrders,
      (denialRows u width (ObservationModel.observeAll steps) selected orders).map
          DisplayRow.drawn =
        (denialRows u width (ObservationModel.observeAll steps) selected orders').map
          DisplayRow.drawn) ↔
      NoTies u (ObservationModel.observeAll steps) := by
  constructor
  · intro h entry hentry entry' hentry' hdomain hlabel hcount htime htarget
    by_contra hne
    obtain ⟨orders, orders', hdrawn⟩ := exists_orders_of_tie (keyed_observeAll steps) hentry
      hentry' hdomain hlabel (compareEntries_eq_iff.mpr ⟨hcount, htime, htarget⟩) hne width
      selected
    exact hdrawn (h orders orders')
  · intro hties orders orders'
    rw [denialRows_congr (sortBy_entriesOf hties)]

end Tie

/-! ### Two files of one name -/

/-- The denial to read a file `/a` with the given inode number. -/
def readDenial (inode : UInt64) : DenyAccessFsEvent where
  timestamp := ⟨1⟩
  context := default
  blockersType := .fsAccess
  blockersAccess := ⟨(1 : UInt64) <<< 2⟩
  device := 1
  inode
  pathname := ⟨[0x2f, 0x61], false, by decide, by decide, nofun⟩

/-- The entry of such a denial after it was observed once. -/
def readEntry (inode : UInt64) (sequence : Nat) : AggregatedDenial :=
  DenialAggregator.fresh (.denyAccessFs (readDenial inode))
    (.filesystem ⟨default, .fsAccess, ⟨(1 : UInt64) <<< 2⟩, 1, inode⟩) false false sequence

/-- Two files of one name, denied at the same time. -/
noncomputable def twinSteps : List (IterOrder DenialKey AggregatedDenial × Event) :=
  [(default, .denyAccessFs (readDenial 1)), (default, .denyAccessFs (readDenial 2))]

/-- What is stored is retained. -/
private theorem mem_retainedDenials {model : ObservationModel} {key : DenialKey}
    {entry : AggregatedDenial} (h : model.denials.entries.lookup key = some entry) :
    entry ∈ retainedDenials model :=
  Multiset.mem_map.mpr ⟨⟨key, entry⟩, Finmap.lookup_eq_some_iff.mp h, rfl⟩

/-- Both denials are stored, under different keys. -/
private theorem lookup_twinSteps :
    (ObservationModel.observeAll twinSteps).denials.entries.lookup (readEntry 1 1).key =
        some (readEntry 1 1) ∧
      (ObservationModel.observeAll twinSteps).denials.entries.lookup (readEntry 2 2).key =
        some (readEntry 2 2) := ⟨rfl, rfl⟩

/-- They are drawn in the order of the map. -/
theorem twins_drawn_in_map_order : ∃ orders orders' : DenialOrders,
    (denialRows .reference String.length (ObservationModel.observeAll twinSteps) none orders).map
        DisplayRow.drawn ≠
      (denialRows .reference String.length (ObservationModel.observeAll twinSteps) none
        orders').map DisplayRow.drawn := by
  refine exists_orders_of_tie (keyed_observeAll twinSteps)
    (mem_retainedDenials lookup_twinSteps.1) (mem_retainedDenials lookup_twinSteps.2) rfl rfl
    (compareEntries_eq_iff.mpr ⟨rfl, rfl, rfl⟩) ?_ _ _
  decide

end Landlock.Tui
