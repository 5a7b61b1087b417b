import LandlockObservability.ForStd.List
import LandlockObservability.Model.Batch
import LandlockObservability.Spec.StateIntegrity

/-!
# What an event touches

`Batch::process` compares only the domains that the event names, and only the ruleset
that the event frees.  Nothing is missed: an event leaves every other domain and every
other deallocated identity alone, and a denial is always aggregated, so that it can be
written.

* `domain_apply_of_notMem`: a domain that the event does not name stays as it is.
* `deallocatedRulesetIdentity_apply`: the same for the identity of a deallocated ruleset.
* `apply_footprint`: an event reaches exactly the domains of `affected_domain_ids`, and no
  ruleset but the one it names.
* `observeEntry_latestEvent`: a denial is the latest event of an entry.
-/

namespace Landlock

/-! ## What an event leaves alone -/

namespace State

/-- A placeholder is for one domain at most. -/
private theorem mem_placeholder {id : DomainId} {other : Option DomainId} :
    id ∈ (domainPlaceholder other).map Prod.fst ↔ id ∈ other := by
  cases other <;> simp [domainPlaceholder, eq_comm]

/-- The domains that a denial is about. -/
private theorem mem_addDenial (id domain : DomainId) (parent : Option DomainId)
    (membership : Option DomainMembership) :
    id ∈ addDenial domain parent membership ↔
      id = domain ∨ id ∈ parent ∨ id ∈ membership.bind DomainMembership.domainId := by
  rcases membership with _ | _ | other <;> simp [addDenial, DomainMembership.domainId, eq_comm]

/-- The domains that a denial changes. -/
private theorem mem_denialEffects {id : DomainId} {context : DenialContext}
    {other : Option DomainId} :
    id ∈ (Event.denialEffects context other).map Prod.fst ↔
      id = context.hierarchy.domainId ∨ id ∈ context.hierarchy.parentId ∨ id ∈ other := by
  rw [Event.denialEffects, List.map_cons, List.mem_cons, List.map_append, List.mem_append,
    mem_placeholder, mem_placeholder]

/-- The domains whose entries an event updates are the ones it is about. -/
private theorem mem_domainEffects (e : Event) (id : DomainId) :
    id ∈ e.domainEffects.map Prod.fst ↔ id ∈ eventDomainIds e := by
  cases e with
  -- `apply` inserts the parent first, `affected_domain_ids` lists it last
  | createDomain event =>
    rw [Event.domainEffects, List.map_append, List.mem_append, mem_placeholder]
    simp [eventDomainIds, or_comm]
  | denyAccessFs event => exact mem_denialEffects.trans (mem_addDenial _ _ _ none).symm
  | denyAccessNet event => exact mem_denialEffects.trans (mem_addDenial _ _ _ none).symm
  | denyPtrace event =>
    exact mem_denialEffects.trans (mem_addDenial _ _ _ (some event.traceeDomain)).symm
  | denyScopeSignal event =>
    exact mem_denialEffects.trans (mem_addDenial _ _ _ (some event.targetDomain)).symm
  | denyScopeAbstractUnixSocket event =>
    exact mem_denialEffects.trans (mem_addDenial _ _ _ (some event.peerDomain)).symm
  | _ => simp [Event.domainEffects, Event.context, eventDomainIds]

/-- An event does not change a domain that it is not about. -/
theorem domain_apply_of_notMem (s : State) {e : Event} {id : DomainId}
    (h : id ∉ eventDomainIds e) : (s.apply e).domain id = s.domain id := by
  rw [apply_eq_effects]
  apply Finmap.lookup_updateEntries_of_notMem
  intro u hu heq
  exact h ((mem_domainEffects e id).mp (heq ▸ List.mem_map_of_mem hu))

/-- A domain stays in the state. -/
theorem domain_apply_eq_none (s : State) {e : Event} {id : DomainId}
    (h : (s.apply e).domain id = none) : s.domain id = none := by
  unfold domain at h ⊢
  rw [Finmap.lookup_eq_none] at h ⊢
  exact fun hmem => h ((le_apply s e).domains.mem hmem)

/-- What `deallocated_ruleset_identity` reads of a ruleset. -/
private def finalIdentity (r : RulesetState) : Option UInt64 :=
  if r.lifecycle ≠ .deallocated then none else r.finalVersion

/-- The identity of a ruleset is the one in its record. -/
private theorem deallocatedRulesetIdentity_eq (s : State) (id : RulesetId) :
    deallocatedRulesetIdentity s id =
      ((s.rulesets.lookup id).bind finalIdentity).map fun version => ⟨id, version⟩ := by
  unfold deallocatedRulesetIdentity ruleset finalIdentity
  cases s.rulesets.lookup id with
  | none => rfl
  | some r =>
    simp only [Option.bind_some]
    split <;> rfl

/-- Only a tombstone writes what the identity is read from. -/
private theorem finalIdentity_update {p : RulesetState.Part} (hp : ∀ event, p ≠ .freed event)
    (r : RulesetState) :
    finalIdentity (p.update (r.updateVersion p.version)) = finalIdentity r := by
  cases p with
  | created event =>
    -- The register keeps the record or replaces other fields of it
    simp only [RulesetState.Part.update, RulesetState.creation, Register.latest]
    split <;> rfl
  | filesystemRule event => rfl
  | networkRule event => rfl
  | referenced event => rfl
  | freed event => exact absurd rfl (hp event)

/-- Only freeing a ruleset changes the identity under which it was deallocated. -/
theorem deallocatedRulesetIdentity_apply (s : State) {e : Event} {id : RulesetId}
    (h : ∀ event, e = .freeRuleset event → event.rulesetId ≠ id) :
    deallocatedRulesetIdentity (s.apply e) id = deallocatedRulesetIdentity s id := by
  rw [deallocatedRulesetIdentity_eq, deallocatedRulesetIdentity_eq, apply_eq_effects]
  by_cases hfree : ∃ event, e = .freeRuleset event
  · -- another ruleset is freed
    obtain ⟨event, rfl⟩ := hfree
    have hother : ∀ u ∈ (Event.freeRuleset event).rulesetEffects, u.1 ≠ id := by
      intro u hu
      rw [List.mem_singleton.mp hu]
      exact h event rfl
    rw [Finmap.lookup_updateEntries_of_notMem _ _ _ hother]
  · rw [Finmap.bind_lookup_updateEntries _ _ finalIdentity _ (fun _ => rfl)]
    intro u hu r
    obtain ⟨p, hp, rfl⟩ := Event.rulesetEffects_cases hu
    apply finalIdentity_update
    intro event hfreed
    exact hfree ⟨event, by rw [hp, hfreed]; rfl⟩

/-- A freed ruleset has an identity under which it was deallocated. -/
theorem deallocatedRulesetIdentity_freeRuleset (s : State) (event : FreeRulesetEvent) :
    deallocatedRulesetIdentity (s.apply (.freeRuleset event)) event.rulesetId ≠ none := by
  rw [deallocatedRulesetIdentity_eq]
  have hlookup : (s.apply (.freeRuleset event)).rulesets.lookup event.rulesetId =
      some (RulesetState.applyFreeRuleset event ((s.rulesets.lookup event.rulesetId).getD
        (RulesetState.new event.rulesetId .deallocated event.rulesetVersion))) :=
    Finmap.lookup_updateEntry_self _ _ _ _
  rw [hlookup, Option.bind_some]
  intro hnone
  -- A free event stores a final version, whatever was known before
  have hsome := isSome_updateMax ((s.rulesets.lookup event.rulesetId).getD
    (RulesetState.new event.rulesetId .deallocated event.rulesetVersion)).finalVersion
    event.rulesetVersion
  have hfinal : updateMax ((s.rulesets.lookup event.rulesetId).getD
      (RulesetState.new event.rulesetId .deallocated event.rulesetVersion)).finalVersion
      event.rulesetVersion = none := Option.map_eq_none_iff.mp hnone
  rw [hfinal] at hsome
  cases hsome

end State

/-! ## What `process` looks at -/

/-- Sorting loses no domain. -/
theorem mem_affectedDomainIds {e : Event} {id : DomainId} :
    id ∈ affectedDomainIds e ↔ id ∈ eventDomainIds e := by
  rw [affectedDomainIds, List.mem_destutter_ne]
  exact (List.mergeSort_perm _ _).mem_iff

/-- The domains are looked at in ascending order. -/
private theorem pairwise_affectedDomainIds (e : Event) :
    (affectedDomainIds e).Pairwise fun a b => a.value < b.value := by
  apply List.pairwise_lt_destutter_ne fun _ _ => LandlockId.eq_of_value_eq
  have hsorted : ((eventDomainIds e).mergeSort fun a b => decide (a.value ≤ b.value)).Pairwise
      fun a b => decide (a.value ≤ b.value) = true :=
    List.pairwise_mergeSort (by simpa using fun a b c : DomainId => UInt64.le_trans)
      (by simp [UInt64.le_total]) _
  simpa using hsorted

/-- No domain is looked at twice. -/
theorem nodup_affectedDomainIds (e : Event) : (affectedDomainIds e).Nodup :=
  (pairwise_affectedDomainIds e).imp fun hlt heq => absurd (congrArg LandlockId.value heq) hlt.ne

/-- The ruleset that an event is about or that a new domain refers to. -/
def Event.namedRuleset : Event → Option RulesetId
  | .createRuleset event => some event.rulesetId
  | .addRulePathBeneath event => some event.rulesetId
  | .addRuleNetPort event => some event.rulesetId
  | .createDomain event => some event.rulesetId
  | .freeRuleset event => some event.rulesetId
  | _ => none

/-- The ruleset whose entry an event updates is the one it names. -/
private theorem Event.map_fst_rulesetEffects (e : Event) :
    e.rulesetEffects.map Prod.fst = e.namedRuleset.toList := by
  cases e <;> rfl

namespace State

/-- After an event all domains that it is about are in the state. -/
theorem isSome_domain_apply (s : State) {e : Event} {id : DomainId}
    (h : id ∈ eventDomainIds e) : ((s.apply e).domain id).isSome := by
  obtain ⟨u, hu, rfl⟩ := List.mem_map.mp ((mem_domainEffects e id).mpr h)
  rw [apply_eq_effects, domain, Finmap.lookup_isSome]
  exact (Finmap.mem_updateEntries _ _ _ _).mpr (Or.inl ⟨u, hu, rfl⟩)

/-- An event does not change a ruleset that it does not name. -/
private theorem ruleset_apply_of_ne (s : State) {e : Event} {id : RulesetId}
    (h : e.namedRuleset ≠ some id) : (s.apply e).ruleset id = s.ruleset id := by
  rw [apply_eq_effects]
  apply Finmap.lookup_updateEntries_of_notMem
  intro u hu heq
  have hmem : u.1 ∈ e.namedRuleset.toList :=
    e.map_fst_rulesetEffects ▸ List.mem_map_of_mem hu
  exact h (heq ▸ Option.mem_toList.mp hmem)

/-- A denial is not about a ruleset. -/
private theorem rulesets_apply_denial (s : State) {e : Event} (h : e.context.isSome) :
    (s.apply e).rulesets = s.rulesets := by
  rw [apply_eq_effects]
  cases e <;> first | rfl | cases h

/-- What `apply` can change of a state is what `affected_domain_ids` lists and the ruleset
    that the event names. -/
theorem apply_footprint (s : State) (e : Event) :
    (∀ id ∉ affectedDomainIds e, (s.apply e).domain id = s.domain id) ∧
    (∀ id ∈ affectedDomainIds e, ((s.apply e).domain id).isSome) ∧
    ((affectedDomainIds e).Pairwise fun a b => a.value < b.value) ∧
    (∀ id, e.namedRuleset ≠ some id → (s.apply e).ruleset id = s.ruleset id) ∧
    (e.context.isSome → (s.apply e).rulesets = s.rulesets) := by
  refine ⟨fun id hid => ?_, fun id hid => ?_, pairwise_affectedDomainIds e,
    fun id hid => s.ruleset_apply_of_ne hid, fun h => s.rulesets_apply_denial h⟩
  · exact s.domain_apply_of_notMem fun h => hid (mem_affectedDomainIds.mpr h)
  · exact s.isSome_domain_apply (mem_affectedDomainIds.mp hid)

end State

namespace DenialAggregator

/-- A denial is always aggregated, and is then the latest event of its entry. -/
theorem observeEntry_latestEvent (order : IterOrder DenialKey AggregatedDenial)
    (a : DenialAggregator) {event : Event} {facts : DenialKey × Bool × Bool}
    (hfacts : denialFacts event = some facts) :
    ∃ entry, (a.observeEntry order event).2 = some entry ∧ entry.latestEvent = event := by
  obtain ⟨key, sameExec, logged⟩ := facts
  simp only [observeEntry, hfacts]
  cases hlookup : (a.nextIngestionSequence order).entries.lookup key with
  | some entry => exact ⟨_, rfl, rfl⟩
  | none =>
    simp only
    split
    · rename_i hfull
      split
      · -- a full table has a least recent entry
        rename_i hargmin
        rw [List.argmin_eq_none] at hargmin
        have hpos := (a.nextIngestionSequence order).capacity.pos
        have hcard := order.length_toList (a.nextIngestionSequence order).entries
        rw [hargmin, List.length_nil] at hcard
        unfold len at hfull
        omega
      · rename_i leastRecent _
        have herased : ((a.nextIngestionSequence order).entries.erase leastRecent.1).lookup key =
            none := by
          by_cases heq : key = leastRecent.1
          · rw [heq, Finmap.lookup_erase]
          · rw [Finmap.lookup_erase_ne heq, hlookup]
        rw [herased]
        exact ⟨_, rfl, rfl⟩
    · exact ⟨_, rfl, rfl⟩

end DenialAggregator

end Landlock
