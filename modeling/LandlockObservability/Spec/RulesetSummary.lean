import LandlockObservability.Spec.StateSummary

/-!
# What is known about a ruleset

The facts of a replayed ruleset in terms of the sequence alone.  Versions are maxima,
masks are unions, and the creation facts and the path of a rule are those of the
last-arrived of the latest observations.

## Key results

- `State.replay_ruleset`: a reconstructed ruleset summarises all observations of it, and
  exists as soon as there is one
-/

namespace Landlock

/-- The union of masks. -/
def AccessMask.union {K : AccessKind} (masks : List (AccessMask K)) : AccessMask K :=
  ⟨masks.foldl (fun bits mask => bits ||| mask.bits) 0⟩

namespace RulesetState.Part

def created? : Part → Option CreateRulesetEvent
  | created event => some event
  | _ => none

def filesystemRule? : Part → Option AddRulePathBeneathEvent
  | filesystemRule event => some event
  | _ => none

def networkRule? : Part → Option AddRuleNetPortEvent
  | networkRule event => some event
  | _ => none

def finalVersion? : Part → Option UInt64
  | freed event => some event.rulesetVersion
  | _ => none

end RulesetState.Part

/-! ## Observations of a ruleset, in order of arrival -/

section

variable (r : RulesetId) (events : List Event)

/-- The versions under which ruleset `r` was seen. -/
def rulesetVersionsOf : List UInt64 :=
  events.filterMap fun e => (e.partOf r).map RulesetState.Part.version

/-- The versions with which ruleset `r` was freed. -/
def finalVersionsOf : List UInt64 :=
  events.filterMap fun e => (e.partOf r).bind RulesetState.Part.finalVersion?

/-- The creations of ruleset `r`. -/
def rulesetCreationsOf : List CreateRulesetEvent :=
  events.filterMap fun e => (e.partOf r).bind RulesetState.Part.created?

/-- The filesystem rules that were added to ruleset `r`. -/
def filesystemRulesOf : List AddRulePathBeneathEvent :=
  events.filterMap fun e => (e.partOf r).bind RulesetState.Part.filesystemRule?

/-- The network rules that were added to ruleset `r`. -/
def networkRulesOf : List AddRuleNetPortEvent :=
  events.filterMap fun e => (e.partOf r).bind RulesetState.Part.networkRule?

end

/-! ## Rules -/

namespace RulesetState

/-- One filesystem rule after all events that name its target. -/
private theorem foldl_mergeFilesystemRule {device : UInt32} {inode : UInt64}
    (xs : List AddRulePathBeneathEvent) (hxs : ∀ x ∈ xs, (x.device, x.inode) = (device, inode)) :
    xs.foldl (fun o x => some (mergeFilesystemRule x o)) none =
      (Register.selected (fun e : AddRulePathBeneathEvent => timestampValue e.timestamp) xs).map
        fun e => ⟨device, inode, AccessMask.union (xs.map (·.accessRights)), e.pathname,
          e.timestamp⟩ := by
  induction xs using List.reverseRecOn with
  | nil => rfl
  | append_singleton xs x ih =>
    rw [List.foldl_append, ih fun y hy => hxs y (by simp [hy]), Register.selected_concat,
      List.foldl_cons, List.foldl_nil]
    obtain ⟨rfl, rfl⟩ := Prod.mk.inj (hxs x (by simp))
    cases hsel : Register.selected
        (fun e : AddRulePathBeneathEvent => timestampValue e.timestamp) xs with
    | none =>
      -- The first event of the target makes the rule
      rw [Register.selected_eq_none_iff.mp hsel]
      simp [mergeFilesystemRule, AccessMask.union]
    | some e =>
      simp only [Option.map_some, mergeFilesystemRule, Register.replaces_some, ge_iff_le,
        AccessMask.union, List.map_append, List.map_cons, List.map_nil, List.foldl_append,
        List.foldl_cons, List.foldl_nil]
      split <;> rfl

/-- One network rule after all events that name its port. -/
private theorem foldl_mergeNetworkRule {port : UInt64} (xs : List AddRuleNetPortEvent)
    (hxs : ∀ x ∈ xs, x.port = port) :
    xs.foldl (fun o x => some (mergeNetworkRule x o)) none =
      if xs = [] then none else some ⟨port, AccessMask.union (xs.map (·.accessRights))⟩ := by
  induction xs using List.reverseRecOn with
  | nil => rfl
  | append_singleton xs x ih =>
    rw [List.foldl_append, ih fun y hy => hxs y (by simp [hy]), List.foldl_cons, List.foldl_nil]
    obtain rfl := hxs x (by simp)
    by_cases hnil : xs = []
    · simp [hnil, mergeNetworkRule, AccessMask.union]
    · simp [hnil, mergeNetworkRule, AccessMask.union]

/-- The creation facts, apart from the rest of the record. -/
def creationFacts (s : RulesetState) : Option KernelTimestamp × Option FilesystemAccess ×
    Option NetworkAccess × Option ScopeAccess :=
  (s.creationTimestamp, s.handledFs, s.handledNet, s.scopedAccess)

/-- The creation facts of one event. -/
def factsOf (e : CreateRulesetEvent) : Option KernelTimestamp × Option FilesystemAccess ×
    Option NetworkAccess × Option ScopeAccess :=
  (some e.timestamp, some e.handledFs, some e.handledNet, some e.scopedAccess)

/-- A creation changes only the creation facts. -/
private theorem view_creation {γ : Type} (view : RulesetState → γ) (event : CreateRulesetEvent)
    (s : RulesetState)
    (hwrite : view
      { s with
        creationTimestamp := some event.timestamp
        handledFs := some event.handledFs
        handledNet := some event.handledNet
        scopedAccess := some event.scopedAccess } = view s) :
    view (creation event s) = view s :=
  Register.view_latest view hwrite

/-- The record says of ruleset `r` what the events say. -/
structure Summarises (s : RulesetState) (r : RulesetId) (events : List Event) : Prop where
  maxObservedVersion : (rulesetVersionsOf r events).max? = some s.maxObservedVersion
  finalVersion : s.finalVersion = (finalVersionsOf r events).max?
  filesystemRule_none : ∀ target, s.filesystemRules.lookup target = none ↔
    ∀ e ∈ filesystemRulesOf r events, (e.device, e.inode) ≠ target
  filesystemRule_some : ∀ target rule, s.filesystemRules.lookup target = some rule →
    rule.accessRights = AccessMask.union
      (((filesystemRulesOf r events).filter fun e => (e.device, e.inode) = target).map
        (·.accessRights)) ∧
    ∃ e, Register.IsLatest (fun e => timestampValue e.timestamp)
      ((filesystemRulesOf r events).filter fun e => (e.device, e.inode) = target) e ∧
      rule.pathname = e.pathname
  networkRule_none : ∀ port, s.networkRules.lookup port = none ↔
    ∀ e ∈ networkRulesOf r events, e.port ≠ port
  networkRule_some : ∀ port rule, s.networkRules.lookup port = some rule →
    rule.accessRights = AccessMask.union
      (((networkRulesOf r events).filter fun e => e.port = port).map (·.accessRights))
  created : rulesetCreationsOf r events ≠ [] → ∃ e,
    Register.IsLatest (fun e => timestampValue e.timestamp) (rulesetCreationsOf r events) e ∧
    s.creationFacts = factsOf e
  uncreated : rulesetCreationsOf r events = [] → s.creationFacts = (none, none, none, none)

end RulesetState

/-! ## The record after a replay -/

namespace State

open RulesetState

variable (events : List Event) (r : RulesetId)

/-- The version is the highest one that was observed. -/
private theorem maxObservedVersion_rulesetRecord :
    (rulesetRecord events r).maxObservedVersion =
      (rulesetVersionsOf r events).foldl max 0 := by
  simp only [rulesetVersionsOf, Option.map_eq_bind]
  refine view_rulesetRecord RulesetState.maxObservedVersion _ _ (fun s p => ?_) events r
  cases p with
  | created event =>
    exact view_creation RulesetState.maxObservedVersion event
      (s.updateVersion event.rulesetVersion) rfl
  | _ => rfl

/-- The final version is the highest one of the free events. -/
private theorem finalVersion_rulesetRecord :
    (rulesetRecord events r).finalVersion = (finalVersionsOf r events).max? := by
  rw [← foldl_updateMax]
  refine view_rulesetRecord RulesetState.finalVersion _ _ (fun s p => ?_) events r
  cases p with
  | created event =>
    exact view_creation RulesetState.finalVersion event (s.updateVersion event.rulesetVersion) rfl
  | _ => rfl

/-- The rules are merged file by file, -/
private theorem filesystemRules_rulesetRecord :
    (rulesetRecord events r).filesystemRules =
      (filesystemRulesOf r events).foldl
        (fun m e => m.upsert (e.device, e.inode) (mergeFilesystemRule e)) ∅ := by
  refine view_rulesetRecord RulesetState.filesystemRules _ _ (fun s p => ?_) events r
  cases p with
  | created event =>
    exact view_creation RulesetState.filesystemRules event
      (s.updateVersion event.rulesetVersion) rfl
  | _ => rfl

/-- and port by port. -/
private theorem networkRules_rulesetRecord :
    (rulesetRecord events r).networkRules =
      (networkRulesOf r events).foldl (fun m e => m.upsert e.port (mergeNetworkRule e)) ∅ := by
  refine view_rulesetRecord RulesetState.networkRules _ _ (fun s p => ?_) events r
  cases p with
  | created event =>
    exact view_creation RulesetState.networkRules event (s.updateVersion event.rulesetVersion) rfl
  | _ => rfl

/-- The creation facts are what the creations leave behind. -/
private theorem creationFacts_rulesetRecord :
    (rulesetRecord events r).creationFacts =
      (Register.selected (fun e => timestampValue e.timestamp)
        (rulesetCreationsOf r events)).elim (none, none, none, none) factsOf := by
  have hlawful : Register.Lawful
      (fun v : Option KernelTimestamp × Option FilesystemAccess × Option NetworkAccess ×
        Option ScopeAccess => v.1.map timestampValue)
      (fun e : CreateRulesetEvent => timestampValue e.timestamp) (fun e _ => factsOf e) :=
    ⟨fun _ _ => rfl, fun _ _ _ => rfl⟩
  rw [← Register.foldl_latest hlawful rfl]
  refine view_rulesetRecord creationFacts _ _ (fun s p => ?_) events r
  cases p with
  | created event =>
    simp only [Option.elim_some, Part.created?, Part.apply, Part.update, creation]
    exact Register.map_latest creationFacts rfl rfl
  | _ => rfl

/-! ## What the record says -/

/-- The highest version of an observed ruleset is one under which it was seen. -/
private theorem max_rulesetVersionsOf (hr : r ∈ (replay events).rulesets) :
    (rulesetVersionsOf r events).max? = some (rulesetRecord events r).maxObservedVersion := by
  obtain ⟨e, he, hpart⟩ := (mem_rulesets_replay events r).mp hr
  obtain ⟨p, hp⟩ := Option.isSome_iff_exists.mp hpart
  have hmem : p.version ∈ rulesetVersionsOf r events :=
    List.mem_filterMap.mpr ⟨e, he, by rw [hp]; rfl⟩
  rw [maxObservedVersion_rulesetRecord]
  cases hversions : rulesetVersionsOf r events with
  | nil => simp [hversions] at hmem
  | cons v vs =>
    rw [List.foldl_cons, max_eq_right (UInt64.zero_le (a := v))]
    rfl

/-- The filesystem rule for one target is made of the events that name the target. -/
private theorem lookup_filesystemRules (target : UInt32 × UInt64) :
    (rulesetRecord events r).filesystemRules.lookup target =
      (Register.selected (fun e : AddRulePathBeneathEvent => timestampValue e.timestamp)
        ((filesystemRulesOf r events).filter fun e => (e.device, e.inode) = target)).map
        fun e => ⟨target.1, target.2, AccessMask.union
          (((filesystemRulesOf r events).filter fun e => (e.device, e.inode) = target).map
            (·.accessRights)), e.pathname, e.timestamp⟩ := by
  rw [filesystemRules_rulesetRecord, Finmap.lookup_foldl_upsert, Finmap.lookup_empty]
  exact foldl_mergeFilesystemRule _ (by simp)

/-- The network rule for one port is made of the events that name the port. -/
private theorem lookup_networkRules (port : UInt64) :
    (rulesetRecord events r).networkRules.lookup port =
      if ((networkRulesOf r events).filter fun e => e.port = port) = [] then none
      else some ⟨port, AccessMask.union
        (((networkRulesOf r events).filter fun e => e.port = port).map (·.accessRights))⟩ := by
  rw [networkRules_rulesetRecord, Finmap.lookup_foldl_upsert, Finmap.lookup_empty]
  exact foldl_mergeNetworkRule _ (by simp)

/-- A ruleset of the state summarises all observations of it. -/
private theorem summarises_rulesetRecord (hr : r ∈ (replay events).rulesets) :
    (rulesetRecord events r).Summarises r events where
  maxObservedVersion := max_rulesetVersionsOf events r hr
  finalVersion := finalVersion_rulesetRecord events r
  filesystemRule_none := by
    intro target
    rw [lookup_filesystemRules, Option.map_eq_none_iff, Register.selected_eq_none_iff,
      List.filter_eq_nil_iff]
    simp
  filesystemRule_some := by
    intro target rule hrule
    rw [lookup_filesystemRules, Option.map_eq_some_iff] at hrule
    obtain ⟨e, he, rfl⟩ := hrule
    exact ⟨rfl, e, Register.selected_eq_some_iff.mp he, rfl⟩
  networkRule_none := by
    intro port
    rw [lookup_networkRules]
    simp [List.filter_eq_nil_iff]
  networkRule_some := by
    intro port rule hrule
    rw [lookup_networkRules] at hrule
    split at hrule
    · cases hrule
    · cases hrule
      rfl
  -- The facts of a creation are those of the latest one
  created := by
    intro hne
    obtain ⟨e, hlatest, hsel⟩ :=
      Register.exists_selected (fun e => timestampValue e.timestamp) hne
    refine ⟨e, hlatest, ?_⟩
    rw [creationFacts_rulesetRecord, hsel]
    rfl
  uncreated := by
    intro hnil
    rw [creationFacts_rulesetRecord, Register.selected_eq_none_iff.mpr hnil]
    rfl

/-- Reconstructed rulesets summarise all observations of them, and there is one as soon as
    there is an observation. -/
theorem replay_ruleset :
    (r ∈ (replay events).rulesets ↔ ∃ e ∈ events, (e.partOf r).isSome) ∧
    ∀ s, (replay events).rulesets.lookup r = some s → s.Summarises r events := by
  refine ⟨mem_rulesets_replay events r, fun s hs => ?_⟩
  have hrecord : rulesetRecord events r = s := by
    rw [rulesetRecord, hs, Option.getD_some]
  rw [← hrecord]
  exact summarises_rulesetRecord events r (Finmap.mem_iff.mpr ⟨s, hs⟩)

end State

end Landlock
