import LandlockObservability.Model.Details
import LandlockObservability.Spec.ListItems

/-!
# Details of a ruleset

The details of a ruleset group its rules by what they allow.  The rules come from a hash map and
are collected in another one, and both are traversed in no particular order.  Nevertheless the
fields are always the same ones in the same order, because the labels are sorted and told apart
by their texts, and so are the objects.  Reading the fields gives the rules back, each once and
under what it allows.

* `ruleGroups_congr`: the groups do not depend on the traversals
* `readRules_groupFields`: reading a part of the fields
* `ruleset_details_complete`: the fields of a ruleset
-/

namespace Landlock.Tui

section Groups

variable {α : Type} [Ord α]

/-- The groups depend neither on the traversal of the map nor on the order of the rules. -/
theorem ruleGroups_congr [Std.TransOrd α] [Std.LawfulEqOrd α]
    (order order' : IterOrder String (List α)) {rules rules' : List (String × α)}
    (h : rules.Perm rules') : ruleGroups order rules = ruleGroups order' rules' := by
  have hgroups : ∀ k, Grouping.sortBy compare (Grouping.valuesOf Prod.fst Prod.snd rules k) =
      Grouping.sortBy compare (Grouping.valuesOf Prod.fst Prod.snd rules' k) := by
    intro k
    refine Grouping.sortBy_congr ((h.filter _).map _) fun _ _ _ _ heq => ?_
    exact Std.LawfulEqCmp.eq_of_compare heq
  simp only [ruleGroups, Grouping.sortBy_collect, List.map_map,
    Grouping.sortBy_keys_congr order order' _ _ h]
  refine List.map_congr_left fun k _ => ?_
  simp only [Function.comp_apply, hgroups]

/-- A list of groups as the pairs of what is allowed and on what. -/
def pairs (groups : List (String × List α)) : List (String × α) :=
  groups.flatMap fun group => group.2.map (Prod.mk group.1)

omit [Ord α] in
/-- The rules of a first group come first. -/
private theorem pairs_cons (group : String × List α) (groups : List (String × List α)) :
    pairs (group :: groups) = group.2.map (Prod.mk group.1) ++ pairs groups :=
  List.flatMap_cons

omit [Ord α] in
/-- Sorting within the groups keeps the pairs. -/
private theorem pairs_map_perm {sort : List α → List α} (hsort : ∀ l, (sort l).Perm l)
    (groups : List (String × List α)) :
    (pairs (groups.map fun group => (group.1, sort group.2))).Perm (pairs groups) := by
  induction groups with
  | nil => exact List.Perm.refl _
  | cons group groups ih =>
    rw [List.map_cons, pairs_cons, pairs_cons]
    exact ((hsort group.2).map _).append ih

/-- Each rule is in one group, once. -/
private theorem pairs_ruleGroups_perm (order : IterOrder String (List α))
    (rules : List (String × α)) :
    (pairs (ruleGroups order rules)).Perm rules := by
  refine (pairs_map_perm Grouping.sortBy_perm _).trans ?_
  refine ((Grouping.sortBy_perm _).flatMap_right _).trans ?_
  exact Grouping.flatMap_collect_perm order rules

end Groups

/-! ## Reading the fields -/

/-- A rule as the details show it: the label of its group, what it allows, and its object. -/
abbrev ShownRule := (String × String) × String

/-- What a reader takes from the fields: an object belongs to the heading above it. -/
def readRules : Option (String × String) → List Field → List ShownRule
  | _, [] => []
  | heading, field :: fields =>
    if field.label = "    " then
      heading.toList.map (fun above => (above, field.value)) ++ readRules heading fields
    else
      readRules (some (field.label, field.value)) fields

/-- The heading that is in force after some fields. -/
def headingAfter (heading : Option (String × String)) (fields : List Field) :
    Option (String × String) :=
  fields.foldl
    (fun heading field =>
      if field.label = "    " then heading else some (field.label, field.value)) heading

/-- Reading goes on under the heading that was read last. -/
private theorem readRules_append (heading : Option (String × String))
    (fields fields' : List Field) :
    readRules heading (fields ++ fields') =
      readRules heading fields ++ readRules (headingAfter heading fields) fields' := by
  induction fields generalizing heading with
  | nil => rfl
  | cons field fields ih =>
    rw [List.cons_append, readRules, readRules, headingAfter, List.foldl_cons]
    split
    · rw [ih, List.append_assoc]
      rfl
    · exact ih _

/-- Fields with labels are no objects. -/
private theorem readRules_labelled {fields : List Field}
    (h : ∀ field ∈ fields, field.label ≠ "    ")
    (heading : Option (String × String)) : readRules heading fields = [] := by
  induction fields generalizing heading with
  | nil => rfl
  | cons field fields ih =>
    obtain ⟨hfield, hfields⟩ := List.forall_mem_cons.mp h
    rw [readRules, if_neg hfield, ih hfields]

/-- The objects under a heading. -/
private theorem readRules_objects {α : Type} (text : α → String) (heading : String × String)
    (objects : List α) :
    readRules (some heading) (objects.map fun object => ⟨"    ", text object, .normal⟩) =
      objects.map fun object => (heading, text object) := by
  induction objects with
  | nil => rfl
  | cons object objects ih =>
    rw [List.map_cons, readRules, if_pos rfl, ih]
    rfl

/-- Reading groups of rules. -/
theorem readRules_groupFields {α : Type} {label : String} (hlabel : label ≠ "    ")
    (text : α → String) (groups : List (String × List α)) (heading : Option (String × String)) :
    readRules heading (groupFields label text groups) =
      (pairs groups).map fun rule => ((label, rule.1), text rule.2) := by
  induction groups generalizing heading with
  | nil => rfl
  | cons group groups ih =>
    rw [groupFields, List.flatMap_cons, ← groupFields, readRules_append, ih, readRules,
      if_neg hlabel, readRules_objects, pairs_cons, List.map_append, List.map_map]
    rfl

/-! ## A ruleset -/

section Ruleset

variable (u : Unicode) (id : RulesetId) (ruleset : RulesetState)

/-- The rules of a ruleset, as they are shown. -/
def shownRules (orders : RuleOrders) : List ShownRule :=
  (filesystemObjects u orders ruleset).map (fun rule => (("FS: ", rule.1), rule.2)) ++
    (networkObjects orders ruleset).map fun rule =>
      (("Net: ", rule.1), "port " ++ decimal rule.2.toNat)

/-- The details of a ruleset are complete and do not change from one drawing to the next: in
    whatever order the maps are traversed, the fields are the same, and reading them gives every
    rule of the ruleset exactly once, under what it allows. -/
theorem ruleset_details_complete (orders orders' : RuleOrders) :
    rulesetFields u orders id ruleset = rulesetFields u orders' id ruleset ∧
      (readRules none (rulesetFields u orders id ruleset)).Perm
        (shownRules u ruleset orders) := by
  constructor
  · -- the groups and the objects in them are sorted, so that only the rules matter
    have hfilesystem : (filesystemObjects u orders ruleset).Perm
        (filesystemObjects u orders' ruleset) :=
      (orders.filesystemRules.toList_perm orders'.filesystemRules _).map _
    have hnetwork : (networkObjects orders ruleset).Perm (networkObjects orders' ruleset) :=
      (orders.networkRules.toList_perm orders'.networkRules _).map _
    rw [rulesetFields, rulesetFields,
      ruleGroups_congr orders.filesystemGroups orders'.filesystemGroups hfilesystem,
      ruleGroups_congr orders.networkGroups orders'.networkGroups hnetwork]
  · -- the first fields are no rules; then come the two parts
    rw [rulesetFields, readRules_append, readRules_append, readRules_labelled (by simp),
      List.nil_append, readRules_groupFields (by decide), readRules_groupFields (by decide)]
    exact ((pairs_ruleGroups_perm _ _).map _).append ((pairs_ruleGroups_perm _ _).map _)

end Ruleset

end Landlock.Tui
