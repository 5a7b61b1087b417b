import LandlockObservability.ForStd.Fold
import LandlockObservability.Spec.StateExchange

/-!
# Order independence of the reconstructed state

The reconstructed state depends on the set of observed events only, neither on
their order nor on repetitions, as long as the events do not contradict each
other (`CoherentEvents`).  The proof exchanges the effects of two events entry by
entry, with the record lemmas of `StateExchange`, and removes repetitions with the
idempotence of `apply`.

## Key results

- `State.apply_idem`: an event seen twice in a row counts once, in every state
- `State.apply_comm`: coherent events can be exchanged, in every state
- `State.replay_eq_of_mem_iff`: sequences with the same events give the same state
-/

namespace Landlock

/-! ## What an effect can be -/

namespace RulesetState.Part

/-- The event a part comes from. -/
def event : Part → Event
  | created event => .createRuleset event
  | filesystemRule event => .addRulePathBeneath event
  | networkRule event => .addRuleNetPort event
  | referenced event => .createDomain event
  | freed event => .freeRuleset event

def rulesetId : Part → RulesetId
  | created event => event.rulesetId
  | filesystemRule event => event.rulesetId
  | networkRule event => event.rulesetId
  | referenced event => event.rulesetId
  | freed event => event.rulesetId

def version : Part → UInt64
  | created event => event.rulesetVersion
  | filesystemRule event => event.rulesetVersion
  | networkRule event => event.rulesetVersion
  | referenced event => event.rulesetVersion
  | freed event => event.rulesetVersion

end RulesetState.Part

/-- Every ruleset effect stores its version and then updates one group of fields. -/
theorem Event.rulesetEffects_cases {e : Event} {u : RulesetId × (RulesetState → RulesetState)}
    (h : u ∈ e.rulesetEffects) :
    ∃ p : RulesetState.Part, e = p.event ∧
      u = (p.rulesetId, p.update ∘ RulesetState.updateVersion p.version) := by
  -- Five events change the record of a ruleset
  cases e with
  | createRuleset event =>
    rw [List.mem_singleton.mp h, RulesetState.applyCreateRuleset_eq]
    exact ⟨.created event, rfl, rfl⟩
  | addRulePathBeneath event =>
    rw [List.mem_singleton.mp h, RulesetState.applyAddRulePathBeneath_eq]
    exact ⟨.filesystemRule event, rfl, rfl⟩
  | addRuleNetPort event =>
    rw [List.mem_singleton.mp h, RulesetState.applyAddRuleNetPort_eq]
    exact ⟨.networkRule event, rfl, rfl⟩
  | createDomain event =>
    rw [List.mem_singleton.mp h, RulesetState.applyCreateDomain_eq]
    exact ⟨.referenced event, rfl, rfl⟩
  | freeRuleset event =>
    rw [List.mem_singleton.mp h, RulesetState.applyFreeRuleset_eq]
    exact ⟨.freed event, rfl, rfl⟩
  | _ => simp [Event.rulesetEffects] at h

/-- The domain an event updates in a part, and the denial count it reports. -/
inductive DomainState.Part.Of (e : Event) : DomainState.Part → DomainId → UInt64 → Prop
  | created {event : CreateDomainEvent} (h : e = .createDomain event) :
    Of e (.created event) event.domainId 0
  | inferred {context : DenialContext} (h : e.context = some context) :
    Of e (.inferred context.hierarchy) context.hierarchy.domainId context.cumulativeDenialCount
  | freed {event : FreeDomainEvent} (h : e = .freeDomain event) :
    Of e (.freed event) event.domainId event.denialCount

/-- A domain effect is a placeholder, an enforcement, or raises the denial count
    and then updates one group of fields. -/
inductive Event.DomainEffect (e : Event) : DomainId × (DomainState → DomainState) → Prop
  | placeholder (id : DomainId) : DomainEffect e (id, fun state => state)
  | enforced {event : EnforceDomainEvent} (h : e = .enforceDomain event) :
    DomainEffect e (event.domainId, DomainState.applyEnforceDomain event)
  | part {p : DomainState.Part} {id : DomainId} {count : UInt64} (h : p.Of e id count) :
    DomainEffect e (id, p.update ∘ DomainState.raiseCount count)

/-- A placeholder changes nothing. -/
private theorem mem_domainPlaceholder {e : Event} {id : Option DomainId}
    {u : DomainId × (DomainState → DomainState)} (h : u ∈ domainPlaceholder id) :
    e.DomainEffect u := by
  cases id with
  | none => simp [domainPlaceholder] at h
  | some id =>
    rw [List.mem_singleton.mp h]
    exact .placeholder id

/-- Every effect on a domain is one of these. -/
theorem Event.domainEffects_cases {e : Event} {u : DomainId × (DomainState → DomainState)}
    (h : u ∈ e.domainEffects) : e.DomainEffect u := by
  -- The five denials have the same effects
  have hdenial : ∀ context other, e.context = some context →
      u ∈ Event.denialEffects context other → e.DomainEffect u := by
    intro context other hcontext hu
    rcases List.mem_cons.mp hu with rfl | hu
    · rw [DomainState.applyDenial_eq]
      exact .part (.inferred hcontext)
    · rcases List.mem_append.mp hu with hu | hu <;> exact mem_domainPlaceholder hu
  cases e with
  | createDomain event =>
    rcases List.mem_append.mp h with h | h
    · exact mem_domainPlaceholder h
    · rw [List.mem_singleton.mp h, DomainState.applyCreateDomain_eq]
      exact .part (.created rfl)
  | freeDomain event =>
    rw [List.mem_singleton.mp h, DomainState.applyFreeDomain_eq]
    exact .part (.freed rfl)
  | enforceDomain event =>
    rw [List.mem_singleton.mp h]
    exact .enforced rfl
  | denyAccessFs event => exact hdenial event.context _ rfl h
  | denyAccessNet event => exact hdenial event.context _ rfl h
  | denyPtrace event => exact hdenial event.context _ rfl h
  | denyScopeSignal event => exact hdenial event.context _ rfl h
  | denyScopeAbstractUnixSocket event => exact hdenial event.context _ rfl h
  | createRuleset event => simp [Event.domainEffects, Event.context] at h
  | addRulePathBeneath event => simp [Event.domainEffects, Event.context] at h
  | addRuleNetPort event => simp [Event.domainEffects, Event.context] at h
  | freeRuleset event => simp [Event.domainEffects, Event.context] at h

/-! ## Coherent events -/

/-- Events that do not contradict each other: what is written at one time into one
    register is the same, and all denials of a domain agree on its provenance. -/
structure CoherentEvents (events : List Event) : Prop where
  createRuleset : ∀ a b, .createRuleset a ∈ events → .createRuleset b ∈ events →
    a.rulesetId = b.rulesetId → a.timestamp = b.timestamp →
      a.handledFs = b.handledFs ∧ a.handledNet = b.handledNet ∧ a.scopedAccess = b.scopedAccess
  createDomain : ∀ a b, .createDomain a ∈ events → .createDomain b ∈ events →
    a.domainId = b.domainId → a.timestamp = b.timestamp →
      a.parentId = b.parentId ∧ a.creatorTgid = b.creatorTgid ∧ a.creatorComm = b.creatorComm ∧
        a.rulesetId = b.rulesetId ∧ a.rulesetVersion = b.rulesetVersion
  addRulePathBeneath : ∀ a b, .addRulePathBeneath a ∈ events → .addRulePathBeneath b ∈ events →
    a.rulesetId = b.rulesetId → (a.device, a.inode) = (b.device, b.inode) →
      a.timestamp = b.timestamp → a.pathname = b.pathname
  enforceDomain : ∀ a b, .enforceDomain a ∈ events → .enforceDomain b ∈ events →
    a.domainId = b.domainId → a.enforcingTid = b.enforcingTid →
      a.timestamp = b.timestamp → a = b
  denial : ∀ a ∈ events, ∀ b ∈ events, ∀ ca cb, a.context = some ca → b.context = some cb →
    ca.hierarchy.domainId = cb.hierarchy.domainId →
      ca.hierarchy.parentId = cb.hierarchy.parentId ∧
        ca.hierarchy.creatorTgid = cb.hierarchy.creatorTgid ∧
        ca.hierarchy.creatorComm = cb.hierarchy.creatorComm

namespace CoherentEvents

variable {events : List Event}

/-- A single event, however often it is seen, is coherent. -/
private theorem of_forall_eq {e : Event} (h : ∀ a ∈ events, a = e) : CoherentEvents events where
  createRuleset := fun a b ha hb _ _ => by
    cases (h _ ha).trans (h _ hb).symm
    exact ⟨rfl, rfl, rfl⟩
  createDomain := fun a b ha hb _ _ => by
    cases (h _ ha).trans (h _ hb).symm
    exact ⟨rfl, rfl, rfl, rfl, rfl⟩
  addRulePathBeneath := fun a b ha hb _ _ _ => by
    cases (h _ ha).trans (h _ hb).symm
    rfl
  enforceDomain := fun a b ha hb _ _ _ => by
    cases (h _ ha).trans (h _ hb).symm
    rfl
  denial := fun a ha b hb ca cb hca hcb _ => by
    rw [h a ha, ← h b hb, hcb] at hca
    cases hca
    exact ⟨rfl, rfl, rfl⟩

/-- Coherent ruleset effects on one ruleset can be exchanged. -/
private theorem rulesetEffects_comm (hc : CoherentEvents events) {a b : Event} (ha : a ∈ events)
    (hb : b ∈ events) :
    ∀ u ∈ a.rulesetEffects, ∀ v ∈ b.rulesetEffects, u.1 = v.1 →
      Function.Commute u.2 v.2 := by
  intro u hu v hv huv
  obtain ⟨p, rfl, rfl⟩ := Event.rulesetEffects_cases hu
  obtain ⟨q, rfl, rfl⟩ := Event.rulesetEffects_cases hv
  -- Only parts of one kind can write into one register
  have hagree : p.Agree q := by
    cases p with
    | created x =>
      cases q with
      | created y => exact hc.createRuleset x y ha hb huv
      | _ => trivial
    | filesystemRule x =>
      cases q with
      | filesystemRule y => exact hc.addRulePathBeneath x y ha hb huv
      | _ => trivial
    | _ => trivial
  exact Function.commute_comp_comp RulesetState.updateVersion_comm
    p.update_updateVersion q.update_updateVersion
    (RulesetState.Part.update_comm hagree) p.version q.version

/-- Coherent domain effects on one domain can be exchanged. -/
private theorem domainEffects_comm (hc : CoherentEvents events) {a b : Event} (ha : a ∈ events)
    (hb : b ∈ events) :
    ∀ u ∈ a.domainEffects, ∀ v ∈ b.domainEffects, u.1 = v.1 → Function.Commute u.2 v.2 := by
  intro u hu v hv huv
  rcases Event.domainEffects_cases hu with ⟨_⟩ | ⟨rfl⟩ | @⟨p, i, m, hp⟩
  · exact fun _ => rfl
  · rename_i x
    rcases Event.domainEffects_cases hv with ⟨_⟩ | ⟨rfl⟩ | @⟨q, j, n, hq⟩
    · exact fun _ => rfl
    · rename_i y
      exact DomainState.applyEnforceDomain_comm (hc.enforceDomain x y ha hb huv)
    · exact (Function.Commute.comp_left (q.update_applyEnforceDomain x)
        (DomainState.raiseCount_applyEnforceDomain n x)).symm
  · rcases Event.domainEffects_cases hv with ⟨_⟩ | ⟨rfl⟩ | @⟨q, j, n, hq⟩
    · exact fun _ => rfl
    · rename_i y
      show Function.Commute (p.update ∘ DomainState.raiseCount m) _
      exact Function.Commute.comp_left (p.update_applyEnforceDomain y)
        (DomainState.raiseCount_applyEnforceDomain m y)
    -- Two parts: creations of one domain, or denials in it, have to agree
    · have hagree : p.Agree q := by
        cases hp with
        | created hx =>
          cases hq with
          | created hy => exact hc.createDomain _ _ (hx ▸ ha) (hy ▸ hb) huv
          | _ => trivial
        | inferred hx =>
          cases hq with
          | inferred hy => exact hc.denial a ha b hb _ _ hx hy huv
          | _ => trivial
        | freed hx => cases hq <;> trivial
      exact Function.commute_comp_comp DomainState.raiseCount_comm p.update_raiseCount
        q.update_raiseCount (DomainState.Part.update_comm hagree) m n

end CoherentEvents

namespace State

/-- Coherent events can be exchanged, in every state. -/
theorem apply_comm {events : List Event} (hc : CoherentEvents events) {a b : Event}
    (ha : a ∈ events) (hb : b ∈ events) (s : State) :
    (s.apply a).apply b = (s.apply b).apply a := by
  simp only [apply_eq_effects]
  rw [Finmap.updateEntries_comm _ _ _ _ (hc.rulesetEffects_comm ha hb),
    Finmap.updateEntries_comm _ _ _ _ (hc.domainEffects_comm ha hb)]

/-- Seeing an event again changes no ruleset, -/
private theorem rulesetEffects_idem {e : Event} :
    ∀ u ∈ e.rulesetEffects, ∀ r, u.2 (u.2 r) = u.2 r := by
  intro u hu r
  obtain ⟨p, rfl, rfl⟩ := Event.rulesetEffects_cases hu
  exact Function.idem_comp (p.update_updateVersion p.version) p.update_idem
    (RulesetState.updateVersion_idem p.version) r

/-- and no domain. -/
private theorem domainEffects_idem {e : Event} :
    ∀ u ∈ e.domainEffects, ∀ d, u.2 (u.2 d) = u.2 d := by
  intro u hu d
  rcases Event.domainEffects_cases hu with ⟨_⟩ | ⟨rfl⟩ | @⟨p, i, n, hp⟩
  · rfl
  · exact DomainState.applyEnforceDomain_idem _ d
  · exact Function.idem_comp (p.update_raiseCount n) p.update_idem (DomainState.raiseCount_idem n) d

/-- An event seen twice in a row counts once, in every state. -/
theorem apply_idem (s : State) (e : Event) : (s.apply e).apply e = s.apply e := by
  -- An event does not contradict itself, so that its effects can be brought together
  have hc : CoherentEvents [e] := .of_forall_eq fun a ha => List.mem_singleton.mp ha
  simp only [apply_eq_effects]
  rw [Finmap.updateEntries_idem _ _ _ rulesetEffects_idem
      (hc.rulesetEffects_comm List.mem_cons_self List.mem_cons_self),
    Finmap.updateEntries_idem _ _ _ domainEffects_idem
      (hc.domainEffects_comm List.mem_cons_self List.mem_cons_self)]

/-- The reconstructed state is determined by the set of observed events: sequences
    in which the same coherent events occur, in any order and any number of times,
    give the same state. -/
theorem replay_eq_of_mem_iff {xs ys : List Event} (hmem : ∀ e, e ∈ xs ↔ e ∈ ys)
    (hc : CoherentEvents xs) : replay xs = replay ys :=
  List.foldl_eq_of_mem_iff hmem (fun _ ha _ hb s => apply_comm hc ha hb s)
    (fun a _ s => apply_idem s a) new

/-- A domain's life as the kernel reports it: ruleset, domain, a denial, and the frees. -/
def sampleEvents : List Event :=
  [.createRuleset ⟨⟨1⟩, default, 0, ⟨1⟩, ⟨2⟩, ⟨4⟩⟩,
   .createDomain ⟨⟨2⟩, default, 1, default, none, default, default⟩,
   .denyAccessNet ⟨⟨3⟩, default, ⟨0⟩, ⟨1⟩, 80, 443⟩,
   .freeDomain ⟨⟨4⟩, default, 1⟩,
   .freeRuleset ⟨⟨5⟩, default, 1⟩]

/-- They do not contradict each other. -/
private theorem sampleEvents_coherent : CoherentEvents sampleEvents where
  createRuleset := by simp [sampleEvents]
  createDomain := by simp [sampleEvents]
  addRulePathBeneath := by simp [sampleEvents]
  enforceDomain := by simp [sampleEvents]
  denial := by simp [sampleEvents, Event.context]

/-- The sample in reverse order and partly repeated gives the state of the sample. -/
theorem replay_sampleEvents :
    CoherentEvents sampleEvents ∧
      replay sampleEvents = replay (sampleEvents.reverse ++ sampleEvents.take 2) :=
  ⟨sampleEvents_coherent, replay_eq_of_mem_iff
    (by
      intro e
      rw [List.mem_append, List.mem_reverse]
      exact ⟨.inl, fun h => h.elim (fun he => he) List.mem_of_mem_take⟩)
    sampleEvents_coherent⟩

end State

end Landlock
