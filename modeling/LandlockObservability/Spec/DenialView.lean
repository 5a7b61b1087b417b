import LandlockObservability.Model.Rows
import LandlockObservability.Spec.ObservationConsistency
import Mathlib.Algebra.Order.BigOperators.Group.Multiset
import Mathlib.Data.Multiset.Fold
import Mathlib.Order.Lattice.Nat

/-!
# The denial view is a partition of the retained denials

`denial_rows` groups the retained denials by their domain, then by what blocked them, and
sorts all three levels.  A row is read with its place: the last domain row and the last
heading above it.  The marks of the rows are what a reader sees of the grouping; they are
added up over the sections of the list.
-/

namespace Landlock.Tui

/-! ## Comparisons -/

instance {α β : Type} [Ord β] [Std.TransOrd β] (key : α → β) :
    Std.TransCmp (descending key) :=
  inferInstanceAs (Std.TransCmp fun a b => compareOn key b a)

instance : Std.TransCmp compareDomains :=
  inferInstanceAs (Std.TransCmp (compareLex _ _))

instance : Std.TransCmp compareGroups :=
  inferInstanceAs (Std.TransCmp (compareLex _ (compareLex _ _)))

instance (u : Unicode) : Std.TransCmp (compareEntries u) :=
  inferInstanceAs (Std.TransCmp (compareLex _ (compareLex _ _)))

/-- Equal keys are the ones that the comparison does not order. -/
theorem descending_eq_iff {α : Type} {key : α → UInt64} {a b : α} :
    descending key a b = .eq ↔ key a = key b := by
  rw [descending, compareOn, Std.compare_eq_iff_eq, eq_comm]

/-! ## Totals -/

/-- A saturating sum stays at the largest number. -/
private theorem toNat_saturatingAdd (a b : UInt64) :
    (saturatingAdd a b).toNat = min (a.toNat + b.toNat) (2 ^ 64 - 1) := by
  rw [saturatingAdd, UInt64.toNat_ofNat']
  omega

/-- The counts of a list of denials. -/
def counts (entries : Multiset AggregatedDenial) : Multiset Nat :=
  entries.map fun entry => entry.occurrenceCount.toNat

/-- The total of a group is the sum of its counts, up to the largest number. -/
theorem toNat_total (entries : List AggregatedDenial) :
    (total entries).toNat = min (counts entries).sum (2 ^ 64 - 1) := by
  -- The saturation can come at any addition: the induction is over the start of the sum too
  have hfold : ∀ (entries : List AggregatedDenial) (sum : UInt64),
      (entries.foldl (fun sum entry => saturatingAdd sum entry.occurrenceCount) sum).toNat =
        min (sum.toNat + (counts entries).sum) (2 ^ 64 - 1) := by
    intro entries
    induction entries with
    | nil =>
      intro sum
      have hlt := sum.toNat_lt
      simp only [List.foldl_nil, counts, Multiset.coe_nil, Multiset.map_zero, Multiset.sum_zero]
      omega
    | cons entry entries ih =>
      intro sum
      rw [List.foldl_cons, ih, toNat_saturatingAdd, counts, counts, ← Multiset.cons_coe,
        Multiset.map_cons, Multiset.sum_cons]
      omega
  rw [total, hfold]
  simp

/-- The larger of two numbers, as a number without a bound. -/
private theorem toNat_max (a b : UInt64) : (max a b).toNat = max a.toNat b.toNat := by
  rw [show max a b = if a ≤ b then b else a from rfl]
  split
  · rename_i hle
    rw [UInt64.le_iff_toNat_le] at hle
    omega
  · rename_i hlt
    rw [UInt64.le_iff_toNat_le] at hlt
    omega

/-- The largest count of a group. -/
theorem toNat_maximum (entries : List AggregatedDenial) :
    (maximum entries).toNat = (counts entries).sup := by
  have hfold : ∀ (entries : List AggregatedDenial) (first : UInt64),
      ((entries.map AggregatedDenial.occurrenceCount).foldl max first).toNat =
        max first.toNat (counts entries).sup := by
    intro entries
    induction entries with
    | nil =>
      intro first
      exact (Nat.max_eq_left (Nat.zero_le _)).symm
    | cons entry entries ih =>
      intro first
      rw [List.map_cons, List.foldl_cons, ih, toNat_max, counts, counts, ← Multiset.cons_coe,
        Multiset.map_cons, Multiset.sup_cons]
      exact max_assoc _ _ _
  -- An empty list has no maximum, and the source takes zero
  cases entries with
  | nil => rfl
  | cons entry entries =>
    rw [maximum, List.map_cons, List.max?_cons', Option.getD_some, hfold, counts, counts,
      ← Multiset.cons_coe, Multiset.map_cons, Multiset.sup_cons]

/-! ## Places -/

/-- The last domain row and the last heading with a text. -/
structure Place where
  domain : Option DomainId
  heading : Option String
  deriving DecidableEq, Repr

/-- The place of the rows after a row. -/
def Place.after (place : Place) (row : DisplayRow) : Place :=
  match row.kind with
  | .denialDomain id => { place with domain := some id }
  | .heading => if row.text = "" then place else { place with heading := some row.text }
  | _ => place

/-- The place after the rows. -/
def Place.afterAll (place : Place) (rows : List DisplayRow) : Place := rows.foldl Place.after place

/-- The rows with their places. -/
def placed : Place → List DisplayRow → List (Place × DisplayRow)
  | _, [] => []
  | place, row :: rows => (place, row) :: placed (place.after row) rows

/-- The places of a list in two parts. -/
private theorem placed_append (place : Place) (rows rows' : List DisplayRow) :
    placed place (rows ++ rows') = placed place rows ++ placed (place.afterAll rows) rows' := by
  induction rows generalizing place with
  | nil => rfl
  | cons row rows ih =>
    rw [List.cons_append, placed, ih, placed, List.cons_append]
    rfl

/-- The rows are still there with their places. -/
private theorem map_snd_placed (place : Place) (rows : List DisplayRow) :
    (placed place rows).map Prod.snd = rows := by
  induction rows generalizing place with
  | nil => rfl
  | cons row rows ih => rw [placed, List.map_cons, ih]

/-- Rows of denials do not change the place. -/
private theorem placed_of_inert {place : Place} {rows : List DisplayRow}
    (h : ∀ row ∈ rows, place.after row = place) :
    placed place rows = rows.map (Prod.mk place) ∧ place.afterAll rows = place := by
  induction rows with
  | nil => exact ⟨rfl, rfl⟩
  | cons row rows ih =>
    obtain ⟨hrow, hrows⟩ := List.forall_mem_cons.mp h
    obtain ⟨hplaced, hafter⟩ := ih hrows
    refine ⟨?_, ?_⟩
    · rw [placed, hrow, hplaced, List.map_cons]
    · rw [Place.afterAll, List.foldl_cons, hrow]
      exact hafter

/-- The denial of a row. -/
def denialOf : RowKind → Option DenialKey
  | .denial key => some key
  | _ => none

/-- The domain of a domain row. -/
def domainOf : RowKind → Option DomainId
  | .denialDomain id => some id
  | _ => none

/-- The denials with their places. -/
def denialMarks (place : Place) (rows : List DisplayRow) : List (Place × DenialKey) :=
  (placed place rows).filterMap fun p => (denialOf p.2.kind).map (Prod.mk p.1)

/-- The headings that are not empty, with their domains. -/
def headingMarks (place : Place) (rows : List DisplayRow) : List (Option DomainId × String) :=
  (placed place rows).filterMap fun p =>
    if p.2.kind = .heading ∧ p.2.text ≠ "" then some (p.1.domain, p.2.text) else none

/-- The domain rows. -/
def domainMarks (rows : List DisplayRow) : List DomainId :=
  rows.filterMap fun row => domainOf row.kind

/-- The denials of a list in two parts. -/
private theorem denialMarks_append (place : Place) (rows rows' : List DisplayRow) :
    denialMarks place (rows ++ rows') =
      denialMarks place rows ++ denialMarks (place.afterAll rows) rows' := by
  rw [denialMarks, placed_append, List.filterMap_append]
  rfl

/-- Without their places, the denials are those of the rows. -/
theorem map_snd_denialMarks (place : Place) (rows : List DisplayRow) :
    (denialMarks place rows).map Prod.snd = rows.filterMap fun row => denialOf row.kind := by
  conv_rhs => rw [← map_snd_placed place rows]
  rw [denialMarks, List.map_filterMap, List.filterMap_map]
  refine List.filterMap_congr fun p _ => ?_
  rw [Option.map_map]
  exact Option.map_id'

/-- The headings of a list in two parts. -/
private theorem headingMarks_append (place : Place) (rows rows' : List DisplayRow) :
    headingMarks place (rows ++ rows') =
      headingMarks place rows ++ headingMarks (place.afterAll rows) rows' := by
  rw [headingMarks, placed_append, List.filterMap_append]
  rfl

/-- The domain rows of a list in two parts. -/
private theorem domainMarks_append (rows rows' : List DisplayRow) :
    domainMarks (rows ++ rows') = domainMarks rows ++ domainMarks rows' :=
  List.filterMap_append ..

/-! ## Sections -/

section Sections

variable {u : Unicode} {width : String → Nat} {model : ObservationModel}
  {selected : Option RowKind} {orders : DenialOrders}

/-- The heading of a label. -/
def headingText (label : String) : String := "  " ++ label

/-- A heading of a label is never taken for a separator. -/
private theorem headingText_ne_empty (label : String) : headingText label ≠ "" := by
  intro h
  have hlength := congrArg String.length h
  rw [headingText, String.length_append] at hlength
  exact absurd hlength (by simp)

/-- What the rows of denials show. -/
private theorem marks_denialRow (place : Place) (entries : List AggregatedDenial) :
    denialMarks place (entries.map (denialRow u width model selected)) =
        entries.map (fun entry => (place, entry.key)) ∧
      headingMarks place (entries.map (denialRow u width model selected)) = [] ∧
      place.afterAll (entries.map (denialRow u width model selected)) = place := by
  -- A row of a denial is neither a domain row nor a heading
  have hinert : ∀ row ∈ entries.map (denialRow u width model selected),
      place.after row = place := by
    intro row hrow
    obtain ⟨entry, _, rfl⟩ := List.mem_map.mp hrow
    rfl
  obtain ⟨hplaced, hafter⟩ := placed_of_inert hinert
  refine ⟨?_, ?_, hafter⟩
  · rw [denialMarks, hplaced, List.map_map, List.filterMap_map]
    exact congrFun List.filterMap_eq_map entries
  · rw [headingMarks, hplaced, List.map_map, List.filterMap_map, List.filterMap_eq_nil_iff]
    exact fun entry _ => rfl

/-- The place after the heading of a label. -/
private theorem after_heading (place : Place) (label : String) :
    place.after ⟨.heading, headingText label, Theme.heading, none⟩ =
      ⟨place.domain, some (headingText label)⟩ := by
  rw [Place.after]
  exact if_neg (headingText_ne_empty label)

/-- What a group shows. -/
private theorem marks_groupRows (place : Place) (group : String × List AggregatedDenial) :
    denialMarks place (groupRows u width model selected group) =
        (Grouping.sortBy (compareEntries u) group.2).map
          (fun entry => (⟨place.domain, some (headingText group.1)⟩, entry.key)) ∧
      headingMarks place (groupRows u width model selected group) =
        [(place.domain, headingText group.1)] ∧
      place.afterAll (groupRows u width model selected group) =
        ⟨place.domain, some (headingText group.1)⟩ := by
  -- The rows after the heading are those of the denials, at the place of the heading
  obtain ⟨hdenials, hheadings, hafter⟩ := @marks_denialRow u width model selected
    ⟨place.domain, some (headingText group.1)⟩ (Grouping.sortBy (compareEntries u) group.2)
  have hstart := after_heading place group.1
  rw [groupRows, ← headingText]
  refine ⟨?_, ?_, ?_⟩
  · rw [← hdenials, denialMarks, denialMarks, placed, hstart]
    exact List.filterMap_cons_none rfl
  · rw [headingMarks, placed, hstart, List.filterMap_cons_some]
    · exact congrArg _ hheadings
    · exact if_pos ⟨rfl, headingText_ne_empty group.1⟩
  · rw [Place.afterAll, List.foldl_cons, hstart]
    exact hafter

/-- What the groups of a domain show. -/
private theorem marks_groups (place : Place) (groups : List (String × List AggregatedDenial)) :
    denialMarks place (groups.flatMap (groupRows u width model selected)) =
        groups.flatMap (fun group => (Grouping.sortBy (compareEntries u) group.2).map
          fun entry => (⟨place.domain, some (headingText group.1)⟩, entry.key)) ∧
      headingMarks place (groups.flatMap (groupRows u width model selected)) =
        groups.map (fun group => (place.domain, headingText group.1)) := by
  induction groups generalizing place with
  | nil => exact ⟨rfl, rfl⟩
  | cons group groups ih =>
    obtain ⟨hdenials, hheadings, hafter⟩ := @marks_groupRows u width model selected place group
    obtain ⟨ihdenials, ihheadings⟩ := ih ⟨place.domain, some (headingText group.1)⟩
    refine ⟨?_, ?_⟩
    · rw [List.flatMap_cons, denialMarks_append, hdenials, hafter, ihdenials, List.flatMap_cons]
    · rw [List.flatMap_cons, headingMarks_append, hheadings, hafter, ihheadings, List.map_cons]
      rfl

/-- The groups of a domain have no domain row. -/
private theorem domainMarks_groups (groups : List (String × List AggregatedDenial)) :
    domainMarks (groups.flatMap (groupRows u width model selected)) = [] := by
  rw [domainMarks, List.filterMap_eq_nil_iff]
  intro row hrow
  obtain ⟨group, _, hrow⟩ := List.mem_flatMap.mp hrow
  rcases List.mem_cons.mp hrow with rfl | hrow
  · rfl
  · obtain ⟨entry, _, rfl⟩ := List.mem_map.mp hrow
    rfl

/-- What a domain shows, wherever its section stands. -/
private theorem marks_domainSection (place : Place) (group : DomainId × List AggregatedDenial) :
    denialMarks place (domainSection u width model selected orders group) =
        (labelGroups (orders.groups group.1) group.2).flatMap (fun labelled =>
          (Grouping.sortBy (compareEntries u) labelled.2).map
            fun entry => (⟨some group.1, some (headingText labelled.1)⟩, entry.key)) ∧
      headingMarks place (domainSection u width model selected orders group) =
        (labelGroups (orders.groups group.1) group.2).map
          (fun labelled => (some group.1, headingText labelled.1)) ∧
      domainMarks (domainSection u width model selected orders group) = [group.1] := by
  obtain ⟨hdenials, hheadings⟩ := @marks_groups u width model selected
    { place with domain := some group.1 } (labelGroups (orders.groups group.1) group.2)
  refine ⟨?_, ?_, ?_⟩
  · rw [← hdenials]
    exact List.filterMap_cons_none rfl
  · rw [← hheadings]
    exact List.filterMap_cons_none rfl
  · show group.1 :: domainMarks _ = [group.1]
    rw [domainMarks_groups]

/-- The separators show nothing, so that the list shows what its sections show. -/
private theorem foldl_sections {β : Type} (marks : List DisplayRow → List β)
    (section_ : DomainId × List AggregatedDenial → List DisplayRow)
    (shown : DomainId × List AggregatedDenial → List β)
    (hsection : ∀ rows group, marks (rows ++ section_ group) = marks rows ++ shown group)
    (hseparator : ∀ rows, marks (rows ++ [separator]) = marks rows)
    (groups : List (DomainId × List AggregatedDenial)) (rows : List DisplayRow) :
    marks (groups.foldl (fun rows group =>
      rows ++ (if rows.isEmpty then [] else [separator]) ++ section_ group) rows) =
      marks rows ++ groups.flatMap shown := by
  induction groups generalizing rows with
  | nil => rw [List.foldl_nil, List.flatMap_nil, List.append_nil]
  | cons group groups ih =>
    have hstart : marks (rows ++ if rows.isEmpty then [] else [separator]) = marks rows := by
      split
      · rw [List.append_nil]
      · exact hseparator rows
    rw [List.foldl_cons, ih, hsection, hstart, List.flatMap_cons, List.append_assoc]

variable (u width model selected orders)

/-- The denials of the view, in its order. -/
def shownDenials : List AggregatedDenial :=
  (domainGroups orders model).flatMap fun group =>
    (labelGroups (orders.groups group.1) group.2).flatMap fun labelled =>
      Grouping.sortBy (compareEntries u) labelled.2

variable {u model orders}

/-- A group has the entries with its label. -/
private theorem mem_labelGroups {order : IterOrder String (List AggregatedDenial)}
    {entries : List AggregatedDenial} {labelled : String × List AggregatedDenial}
    (h : labelled ∈ labelGroups order entries) :
    ∀ entry ∈ labelled.2, entry ∈ entries ∧ blockers entry = labelled.1 := by
  intro entry hentry
  rw [(Grouping.mem_groups.mp (Grouping.mem_sortBy.mp h)).2, Grouping.groupOf, List.mem_filter,
    decide_eq_true_eq] at hentry
  exact hentry

/-- A section has the retained denials of its domain. -/
private theorem mem_domainGroups {group : DomainId × List AggregatedDenial}
    (h : group ∈ domainGroups orders model) :
    ∀ entry ∈ group.2, entry ∈ retained orders.entries model ∧ entry.key.domainId = group.1 := by
  intro entry hentry
  rw [(Grouping.mem_groups.mp (Grouping.mem_sortBy.mp h)).2, Grouping.groupOf, List.mem_filter,
    decide_eq_true_eq] at hentry
  exact hentry

variable (u model orders)

/-- The rows show the denials under their domains and labels. -/
theorem denialMarks_denialRows (place : Place) :
    denialMarks place (denialRows u width model selected orders) =
      (shownDenials u model orders).map fun entry =>
        (⟨some entry.key.domainId, some (headingText (blockers entry))⟩, entry.key) := by
  rw [denialRows, foldl_sections (denialMarks place) _ _
    (fun rows group => by rw [denialMarks_append, (marks_domainSection _ group).1])
    (fun rows => by rw [denialMarks_append]; exact List.append_nil _), shownDenials,
    List.map_flatMap]
  -- The place names the domain and the label, and these are the ones of the entry
  refine (List.nil_append _).trans (List.flatMap_congr fun group hgroup => ?_)
  rw [List.map_flatMap]
  refine List.flatMap_congr fun labelled hlabelled => List.map_congr_left fun entry hentry => ?_
  obtain ⟨hmem, hlabel⟩ := mem_labelGroups hlabelled entry (Grouping.mem_sortBy.mp hentry)
  rw [hlabel, (mem_domainGroups hgroup entry hmem).2]

/-- The rows show the domains with denials. -/
theorem domainMarks_denialRows :
    domainMarks (denialRows u width model selected orders) =
      (domainGroups orders model).map Prod.fst := by
  rw [denialRows, foldl_sections domainMarks _ (fun group => [group.1])
    (fun rows group => by
      rw [domainMarks_append, (marks_domainSection ⟨none, none⟩ group).2.2])
    (fun rows => by rw [domainMarks_append]; exact List.append_nil _)]
  exact (List.nil_append _).trans List.map_eq_flatMap.symm

end Sections

/-! ## The retained denials -/

/-- The denials that a model retains. -/
def retainedDenials (model : ObservationModel) : Multiset AggregatedDenial :=
  model.denials.entries.entries.map Sigma.snd

/-- The traversal of the map reaches every retained denial once. -/
theorem coe_retained (order : IterOrder DenialKey AggregatedDenial) (model : ObservationModel) :
    (retained order model : Multiset AggregatedDenial) = retainedDenials model := by
  rw [retainedDenials, ← order.entries_eq, Multiset.map_coe, List.map_map]
  rfl

/-- Entries are stored under their own keys. -/
def Keyed (model : ObservationModel) : Prop :=
  ∀ key entry, model.denials.entries.lookup key = some entry → entry.key = key

/-- This is so in every reachable model. -/
theorem keyed_observeAll (steps : List (IterOrder DenialKey AggregatedDenial × Event)) :
    Keyed (ObservationModel.observeAll steps) := by
  intro key entry h
  obtain ⟨history, hdescribes, _⟩ := ObservationModel.exists_history steps h
  exact hdescribes.key_eq

section Retained

variable {model : ObservationModel} (hmodel : Keyed model)
  (order : IterOrder DenialKey AggregatedDenial)
include hmodel

/-- The keys of the retained denials are those of the map. -/
private theorem map_key_retained :
    (retained order model).map AggregatedDenial.key =
      (order.toList model.denials.entries).map Prod.fst := by
  rw [retained, List.map_map]
  exact List.map_congr_left fun p hp => hmodel p.1 p.2 (order.mem_toList.mp hp)

/-- No key is there twice, -/
theorem nodup_keys_retained : ((retained order model).map AggregatedDenial.key).Nodup := by
  rw [map_key_retained hmodel]
  exact order.nodup_keys_toList _

/-- and so no denial is. -/
private theorem nodup_retained : (retained order model).Nodup :=
  (nodup_keys_retained hmodel order).of_map

end Retained

/-! ## The view -/

section View

variable {u : Unicode} {width : String → Nat} {model : ObservationModel}
  {selected : Option RowKind} {orders : DenialOrders}

/-- The view has every retained denial, once. -/
theorem shownDenials_perm (hmodel : Keyed model) :
    (shownDenials u model orders).Perm (retained orders.entries model) := by
  have hnodup := nodup_retained hmodel orders.entries
  -- Both groupings and both sorts only rearrange
  have hgroups : ((domainGroups orders model).flatMap Prod.snd).Perm
      (retained orders.entries model) :=
    ((Grouping.sortBy_perm _).flatMap_right _).trans (Grouping.flatMap_groups_perm hnodup)
  refine List.Perm.trans (List.Perm.flatMap_left _ fun group hgroup => ?_) hgroups
  have hgroup_nodup : group.2.Nodup := by
    rw [(Grouping.mem_groups.mp (Grouping.mem_sortBy.mp hgroup)).2]
    exact hnodup.filter _
  have hlabels : ((labelGroups (orders.groups group.1) group.2).flatMap Prod.snd).Perm group.2 :=
    ((Grouping.sortBy_perm _).flatMap_right _).trans
      (Grouping.flatMap_groups_perm hgroup_nodup)
  exact (List.Perm.flatMap_left _ fun _ _ => Grouping.sortBy_perm _).trans hlabels

/-- Groups of different domains come in different sections. -/
theorem domainGroups_pairwise_ne :
    (domainGroups orders model).Pairwise fun group group' => group.1 ≠ group'.1 := by
  refine List.pairwise_map.mp ?_
  exact ((Grouping.sortBy_perm _).map Prod.fst).nodup_iff.mpr (Grouping.nodup_keys_groups ..)

end View

end Landlock.Tui
