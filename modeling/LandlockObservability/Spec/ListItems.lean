import LandlockObservability.ForStd.Cursor
import LandlockObservability.Model.Navigation
import LandlockObservability.Spec.DenialOrder
import LandlockObservability.Spec.DomainTree

/-!
# The items of the lists

What can be selected in a tab is shown in one order, whatever is selected and however often the
list is drawn, and nothing is shown twice.  Drawing repeats an item on consecutive lines.
-/

namespace Landlock.Tui

/-- The kinds of the rows of a tab. -/
def kinds (rows : List DisplayRow) : List RowKind := rows.map DisplayRow.kind

/-- The items of a list of rows. -/
def items (rows : List DisplayRow) : List RowKind := (kinds rows).filter RowKind.selectable

/-! ## Domains -/

section Domains

variable {u : Unicode} {model : ObservationModel}
  {stateOrder order : IterOrder DomainId DomainState}

/-- The rows of the tab are the domains of the tree. -/
private theorem kinds_domainRows (selected : Option RowKind)
    (htree : ObservationModel.InTreeOrder model.state (model.domainTree stateOrder order)) :
    kinds (domainRows u stateOrder order model selected) =
      (model.domainTree stateOrder order).map fun e => .domain e.1 := by
  have hrow : ∀ e ∈ model.domainTree stateOrder order,
      ((model.state.domain e.1).map (domainRow u selected e.1 e.2)).map DisplayRow.kind =
        some (.domain e.1) := by
    intro e he
    obtain ⟨domain, hdomain⟩ :=
      Finmap.mem_iff.mp ((htree.mem_iff e.1).mp (List.mem_map_of_mem he))
    rw [State.domain, hdomain]
    rfl
  rw [kinds, domainRows, List.map_filterMap]
  exact (List.filterMap_congr hrow).trans (congrFun List.filterMap_eq_map _)

/-- No domain has two rows. -/
private theorem nodup_kinds_domainRows (selected : Option RowKind)
    (htree : ObservationModel.InTreeOrder model.state (model.domainTree stateOrder order)) :
    (kinds (domainRows u stateOrder order model selected)).Nodup := by
  rw [kinds_domainRows selected htree]
  have hids := List.pairwise_map.mp htree.nodup
  exact List.pairwise_map.mpr (hids.imp fun hne heq => hne (RowKind.domain.inj heq))

end Domains

/-! ## Denials -/

section Denials

variable {u : Unicode} {width : String → Nat} {model : ObservationModel} {orders : DenialOrders}

/-- The selection does not show in the kinds of a group, -/
private theorem kinds_groupRows (selected selected' : Option RowKind)
    (group : String × List AggregatedDenial) :
    kinds (groupRows u width model selected group) =
      kinds (groupRows u width model selected' group) := by
  rw [kinds, kinds, groupRows, groupRows, List.map_cons, List.map_cons, List.map_map, List.map_map]
  rfl

/-- nor in those of a section. -/
private theorem kinds_domainSection (selected selected' : Option RowKind)
    (group : DomainId × List AggregatedDenial) :
    kinds (domainSection u width model selected orders group) =
      kinds (domainSection u width model selected' orders group) := by
  rw [kinds, kinds, domainSection, domainSection, List.map_cons, List.map_cons, List.map_flatMap,
    List.map_flatMap]
  exact congrArg (RowKind.denialDomain group.1 :: ·)
    (List.flatMap_congr fun labelled _ => kinds_groupRows selected selected' labelled)

/-- The separators depend only on how many rows there are. -/
private theorem kinds_foldl_sections
    {sections sections' : DomainId × List AggregatedDenial → List DisplayRow}
    (hsections : ∀ group, kinds (sections group) = kinds (sections' group))
    (groups : List (DomainId × List AggregatedDenial)) {rows rows' : List DisplayRow}
    (h : kinds rows = kinds rows') :
    kinds (groups.foldl (fun rows group =>
        rows ++ (if rows.isEmpty then [] else [separator]) ++ sections group) rows) =
      kinds (groups.foldl (fun rows group =>
        rows ++ (if rows.isEmpty then [] else [separator]) ++ sections' group) rows') := by
  induction groups generalizing rows rows' with
  | nil => exact h
  | cons group groups ih =>
    -- A separator stands before every section but the first
    have hempty : rows.isEmpty = rows'.isEmpty := by
      have hlength := congrArg List.length h
      rw [kinds, kinds, List.length_map, List.length_map] at hlength
      rw [Bool.eq_iff_iff, List.isEmpty_iff_length_eq_zero, List.isEmpty_iff_length_eq_zero,
        hlength]
    rw [List.foldl_cons, List.foldl_cons]
    refine ih ?_
    have hmap := hsections group
    rw [kinds, kinds] at h hmap ⊢
    rw [List.map_append, List.map_append, List.map_append, List.map_append, h, hmap, hempty]

/-- The selection changes only the styles. -/
private theorem kinds_denialRows (selected selected' : Option RowKind) :
    kinds (denialRows u width model selected orders) =
      kinds (denialRows u width model selected' orders) :=
  kinds_foldl_sections (kinds_domainSection selected selected') _ rfl

/-- The rows are those of the sections and the separators. -/
theorem mem_foldl_sections {domainRows : DomainId × List AggregatedDenial → List DisplayRow}
    {groups : List (DomainId × List AggregatedDenial)} {rows : List DisplayRow} {row : DisplayRow}
    (h : row ∈ groups.foldl (fun rows group =>
      rows ++ (if rows.isEmpty then [] else [separator]) ++ domainRows group) rows) :
    row ∈ rows ∨ row = separator ∨ ∃ group ∈ groups, row ∈ domainRows group := by
  induction groups generalizing rows with
  | nil => exact .inl h
  | cons group groups ih =>
    rw [List.foldl_cons] at h
    -- The sections so far, the separator, and the section itself
    rcases ih h with hmem | hseparator | ⟨group', hgroup', hmem⟩
    · rcases List.mem_append.mp hmem with hmem | hmem
      · rcases List.mem_append.mp hmem with hmem | hmem
        · exact .inl hmem
        · split at hmem
          · exact absurd hmem List.not_mem_nil
          · exact .inr (.inl (List.mem_singleton.mp hmem))
      · exact .inr (.inr ⟨group, List.mem_cons_self, hmem⟩)
    · exact .inr (.inl hseparator)
    · exact .inr (.inr ⟨group', List.mem_cons_of_mem _ hgroup', hmem⟩)

/-- The items are domains with denials and denials. -/
private theorem items_denialRows_cases (selected : Option RowKind) {kind : RowKind}
    (h : kind ∈ items (denialRows u width model selected orders)) :
    (∃ id, kind = .denialDomain id) ∨ ∃ key, kind = .denial key := by
  obtain ⟨hkind, hselectable⟩ := List.mem_filter.mp h
  obtain ⟨row, hrow, rfl⟩ := List.mem_map.mp hkind
  rcases mem_foldl_sections hrow with hrow | rfl | ⟨group, _, hrow⟩
  · exact absurd hrow List.not_mem_nil
  · cases hselectable
  · rcases List.mem_cons.mp hrow with rfl | hrow
    · exact .inl ⟨_, rfl⟩
    · obtain ⟨labelled, _, hrow⟩ := List.mem_flatMap.mp hrow
      rcases List.mem_cons.mp hrow with rfl | hrow
      · cases hselectable
      · obtain ⟨entry, _, rfl⟩ := List.mem_map.mp hrow
        exact .inr ⟨_, rfl⟩

/-- A list of such kinds repeats nothing, if it repeats no domain and no denial. -/
private theorem nodup_of_marks {l : List RowKind}
    (hl : ∀ kind ∈ l, (∃ id, kind = .denialDomain id) ∨ ∃ key, kind = .denial key)
    (hdomains : (l.filterMap domainOf).Nodup) (hdenials : (l.filterMap denialOf).Nodup) :
    l.Nodup := by
  induction l with
  | nil => exact List.nodup_nil
  | cons kind l ih =>
    obtain ⟨hkind, hrest⟩ := List.forall_mem_cons.mp hl
    rw [List.nodup_cons]
    rcases hkind with ⟨id, rfl⟩ | ⟨key, rfl⟩
    · have hid : (id :: l.filterMap domainOf).Nodup := hdomains
      obtain ⟨hnot, hdomains⟩ := List.nodup_cons.mp hid
      refine ⟨fun hmem => hnot ?_, ih hrest hdomains hdenials⟩
      exact List.mem_filterMap.mpr ⟨_, hmem, rfl⟩
    · have hkey : (key :: l.filterMap denialOf).Nodup := hdenials
      obtain ⟨hnot, hdenials⟩ := List.nodup_cons.mp hkey
      refine ⟨fun hmem => hnot ?_, ih hrest hdomains hdenials⟩
      exact List.mem_filterMap.mpr ⟨_, hmem, rfl⟩

/-- Headings carry neither a domain nor a denial. -/
private theorem filterMap_items {α : Type} {mark : RowKind → Option α}
    (hmark : mark .heading = none)
    (rows : List DisplayRow) :
    (items rows).filterMap mark = rows.filterMap fun row => mark row.kind := by
  rw [items, kinds, List.filterMap_filter, List.filterMap_map]
  refine List.filterMap_congr fun row _ => ?_
  rw [Function.comp_apply]
  cases row.kind <;> first | rfl | exact hmark.symm

/-- No denial and no domain has two rows. -/
private theorem nodup_items_denialRows (hmodel : Keyed model) (selected : Option RowKind) :
    (items (denialRows u width model selected orders)).Nodup := by
  refine nodup_of_marks (fun kind => items_denialRows_cases selected) ?_ ?_
  · rw [filterMap_items rfl]
    have hmarks := domainMarks_denialRows u width model selected orders
    rw [domainMarks] at hmarks
    rw [hmarks]
    exact List.pairwise_map.mpr domainGroups_pairwise_ne
  · rw [filterMap_items rfl, filterMap_denialOf]
    exact ((shownDenials_perm hmodel).map _).nodup_iff.mpr (nodup_keys_retained hmodel _)

end Denials

/-! ## Rulesets -/

instance : Std.TransCmp compareRulesets := inferInstanceAs (Std.TransCmp (compareLex _ _))

/-- The rows of the tab are the sorted rulesets. -/
private theorem kinds_rulesetRows (order : IterOrder RulesetId RulesetState)
    (model : ObservationModel)
    (selected : Option RowKind) :
    kinds (rulesetRows order model selected) =
      (Grouping.sortBy compareRulesets ((order.toList model.state.rulesets).map Prod.snd)).map
        fun ruleset => .ruleset ruleset.id := by
  rw [kinds, rulesetRows, List.map_map]
  rfl

/-- No ruleset has two rows. -/
private theorem nodup_kinds_rulesetRows {model : ObservationModel} (hs : model.state.Integrity)
    (order : IterOrder RulesetId RulesetState) (selected : Option RowKind) :
    (kinds (rulesetRows order model selected)).Nodup := by
  have hids : ((order.toList model.state.rulesets).map Prod.snd).map RulesetState.id =
      (order.toList model.state.rulesets).map Prod.fst := by
    rw [List.map_map]
    exact List.map_congr_left fun p hp => (hs.rulesets _ _ (order.mem_toList.mp hp)).id_eq
  have hnodup : ((Grouping.sortBy compareRulesets
      ((order.toList model.state.rulesets).map Prod.snd)).map RulesetState.id).Nodup := by
    rw [((Grouping.sortBy_perm _).map RulesetState.id).nodup_iff, hids]
    exact order.nodup_keys_toList _
  rw [kinds_rulesetRows]
  have hne := List.pairwise_map.mp hnodup
  exact List.pairwise_map.mpr (hne.imp fun hne heq => hne (RowKind.ruleset.inj heq))

/-! ## Tabs -/

section Tabs

variable (u : Unicode) (w : Format.DisplayWidth) (orders : ModelOrders)
  (steps : List (IterOrder DenialKey AggregatedDenial × Event))

/-- Every drawing of an unchanged model shows the same rows in the same order. -/
theorem kinds_tabRows (redraw redraw' : Redraw) (tab : Tab) (selected selected' : Option RowKind) :
    kinds (tabRows u w orders (ObservationModel.observeAll steps) redraw tab selected) =
      kinds (tabRows u w orders (ObservationModel.observeAll steps) redraw' tab selected') := by
  have hs := ObservationModel.observeAll_integrity steps
  cases tab with
  | domains =>
    have htree := ObservationModel.domainTree_congr hs orders.domains redraw.domains
      orders.domains redraw'.domains
    rw [tabRows, tabRows,
      kinds_domainRows selected (ObservationModel.inTreeOrder_of_integrity hs _ _),
      kinds_domainRows selected' (ObservationModel.inTreeOrder_of_integrity hs _ _), htree]
  -- Only the texts depend on the width of the area
  | denials =>
    rw [tabRows, tabRows, kinds_denialRows selected selected']
    exact congrArg kinds (denialRows_congr fun _ _ => rfl)
  | rulesets => rw [tabRows, tabRows, kinds_rulesetRows, kinds_rulesetRows]
  | stats => rfl

/-- Nothing is shown twice. -/
theorem nodup_items_tabRows (redraw : Redraw) (tab : Tab) (selected : Option RowKind) :
    (items (tabRows u w orders (ObservationModel.observeAll steps) redraw tab selected)).Nodup := by
  have hs := ObservationModel.observeAll_integrity steps
  cases tab with
  | domains =>
    have htree := ObservationModel.inTreeOrder_of_integrity hs orders.domains redraw.domains
    exact (nodup_kinds_domainRows selected htree).filter _
  | denials => exact nodup_items_denialRows (keyed_observeAll steps) selected
  | rulesets => exact (nodup_kinds_rulesetRows hs orders.rulesets selected).filter _
  | stats => exact List.nodup_nil

end Tabs

end Landlock.Tui
