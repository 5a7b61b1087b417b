import LandlockObservability.ForStd.Register
import LandlockObservability.Model.State

/-!
# State updates as lists of record updates

`State.apply` only ever changes single entries of its two maps.  This file gives
the updates an event makes, as lists of keys with the function applied to the
entry (`Event.rulesetEffects`, `Event.domainEffects`), and shows that `apply` is
exactly the run of these lists (`State.apply_eq_effects`).  Every entry starts
from one default for its key, whatever lifecycle and version the source passes to
`new` there.

The record functions are then cut into the parts that touch one group of fields
each.  `creation` and the inner maps are latest-wins registers, the counters are
maxima, and the rest is independent, which is what the exchange lemmas at the end
state.
-/

namespace Landlock

/-! ## Single facts -/

/-- `update_max` is a latest-wins register that holds its own time. -/
theorem updateMax_eq_latest (current : Option UInt64) (candidate : UInt64) :
    updateMax current candidate =
      Register.latest id id (fun e _ => some e) candidate current := rfl

/-- `update_latest_timestamp` is a latest-wins register. -/
theorem updateLatestTimestamp_eq_latest (current : Option KernelTimestamp)
    (candidate : KernelTimestamp) :
    updateLatestTimestamp current candidate =
      Register.latest (Option.map timestampValue) timestampValue (fun e _ => some e)
        candidate current := by
  cases current <;> rfl

/-- Reading a maximum after a write gives the number that was written. -/
theorem lawful_max :
    Register.Lawful (τ := UInt64) id id (fun e (_ : Option UInt64) => some e) :=
  ⟨fun _ _ => rfl, fun _ _ _ => rfl⟩

/-- So it is with a latest timestamp. -/
theorem lawful_timestamp :
    Register.Lawful (Option.map timestampValue) timestampValue
      (fun e (_ : Option KernelTimestamp) => some e) :=
  ⟨fun _ _ => rfl, fun _ _ _ => rfl⟩

/-- A timestamp is its nanoseconds. -/
theorem timestampValue_injective : Function.Injective timestampValue := by
  rintro ⟨a⟩ ⟨b⟩ h
  exact congrArg KernelTimestamp.mk h

/-- Candidates of a maximum can come in any order -/
theorem updateMax_comm (c : Option UInt64) (a b : UInt64) :
    updateMax (updateMax c a) b = updateMax (updateMax c b) a := by
  simp only [updateMax_eq_latest]
  refine (Register.latest_comm lawful_max fun h => ?_) c
  intro _
  exact congrArg some h

/-- and again. -/
theorem updateMax_idem (c : Option UInt64) (a : UInt64) :
    updateMax (updateMax c a) a = updateMax c a := by
  simp only [updateMax_eq_latest]
  exact Register.latest_idem lawful_max a c

/-- So can candidates of a latest timestamp, -/
theorem updateLatestTimestamp_comm (c : Option KernelTimestamp) (a b : KernelTimestamp) :
    updateLatestTimestamp (updateLatestTimestamp c a) b =
      updateLatestTimestamp (updateLatestTimestamp c b) a := by
  simp only [updateLatestTimestamp_eq_latest]
  refine (Register.latest_comm lawful_timestamp fun h => ?_) c
  intro _
  exact congrArg some (timestampValue_injective h)

/-- also again. -/
theorem updateLatestTimestamp_idem (c : Option KernelTimestamp) (a : KernelTimestamp) :
    updateLatestTimestamp (updateLatestTimestamp c a) a = updateLatestTimestamp c a := by
  simp only [updateLatestTimestamp_eq_latest]
  exact Register.latest_idem lawful_timestamp a c

/-! ## Rulesets -/

namespace RulesetState

/-- The entry every ruleset update starts from. -/
def blank (id : RulesetId) : RulesetState := new id .allocated 0

/-- There is no third lifecycle, so marking an entry allocated changes nothing. -/
@[simp] theorem markAllocated_eq (state : RulesetState) : state.markAllocated = state := by
  cases state with
  | mk id lifecycle => cases lifecycle <;> rfl

/-- The creation facts as one latest-wins register. -/
def creation (event : CreateRulesetEvent) : RulesetState → RulesetState :=
  Register.latest (fun s => s.creationTimestamp.map timestampValue)
    (fun e : CreateRulesetEvent => timestampValue e.timestamp)
    (fun e s =>
      { s with
        creationTimestamp := some e.timestamp
        handledFs := some e.handledFs
        handledNet := some e.handledNet
        scopedAccess := some e.scopedAccess })
    event

/-- The lifecycle, timestamp and final version written by a free event. -/
def tombstone (event : FreeRulesetEvent) (state : RulesetState) : RulesetState :=
  { state with
    lifecycle := .deallocated
    freeTimestamp := updateLatestTimestamp state.freeTimestamp event.timestamp
    finalVersion := updateMax state.finalVersion event.rulesetVersion }

/-- The filesystem rule map after an `AddRulePathBeneath` event. -/
def addFilesystemRule (event : AddRulePathBeneathEvent) (state : RulesetState) : RulesetState :=
  { state with
    filesystemRules :=
      state.filesystemRules.upsert (event.device, event.inode) (mergeFilesystemRule event) }

/-- The network rule map after an `AddRuleNetPort` event. -/
def addNetworkRule (event : AddRuleNetPortEvent) (state : RulesetState) : RulesetState :=
  { state with networkRules := state.networkRules.upsert event.port (mergeNetworkRule event) }

/-- A creation writes the version and the creation facts. -/
theorem applyCreateRuleset_eq (event : CreateRulesetEvent) :
    applyCreateRuleset event = creation event ∘ updateVersion event.rulesetVersion := by
  funext state
  simp only [applyCreateRuleset, markAllocated_eq, Function.comp_apply, creation,
    Register.latest, Register.replaces, Option.all_map]

/-- A filesystem rule writes the version and the map of these rules. -/
theorem applyAddRulePathBeneath_eq (event : AddRulePathBeneathEvent) :
    applyAddRulePathBeneath event =
      addFilesystemRule event ∘ updateVersion event.rulesetVersion := by
  funext state
  simp only [applyAddRulePathBeneath, markAllocated_eq, Function.comp_apply, addFilesystemRule]

/-- A network rule writes the version and the map of these rules. -/
theorem applyAddRuleNetPort_eq (event : AddRuleNetPortEvent) :
    applyAddRuleNetPort event = addNetworkRule event ∘ updateVersion event.rulesetVersion := by
  funext state
  simp only [applyAddRuleNetPort, markAllocated_eq, Function.comp_apply, addNetworkRule]

/-- Of its ruleset, a new domain writes the version only. -/
theorem applyCreateDomain_eq (event : CreateDomainEvent) :
    applyCreateDomain event = updateVersion event.rulesetVersion := by
  funext state
  simp only [applyCreateDomain, markAllocated_eq]

/-- A free event writes the version and the tombstone. -/
theorem applyFreeRuleset_eq (event : FreeRulesetEvent) :
    applyFreeRuleset event = tombstone event ∘ updateVersion event.rulesetVersion := rfl

/-- The version that `new` starts with does not matter to an update that stores it. -/
private theorem updateVersion_new (id : RulesetId) (lifecycle : LifecycleState) (version : UInt64) :
    updateVersion version (new id lifecycle version) =
      updateVersion version (new id lifecycle 0) := by
  simp only [updateVersion, new, max_self]
  rw [max_eq_right (UInt64.zero_le (a := version))]

end RulesetState

/-! ## Domains -/

namespace DomainState

/-- The entry every domain update starts from. -/
def blank (id : DomainId) : DomainState := new id .allocated

@[simp] theorem markAllocated_eq (state : DomainState) : state.markAllocated = state := by
  cases state with
  | mk id lifecycle => cases lifecycle <;> rfl

/-- The creation facts as one latest-wins register. -/
def creation (event : CreateDomainEvent) : DomainState → DomainState :=
  Register.latest (fun s => s.creationTimestamp.map timestampValue)
    (fun e : CreateDomainEvent => timestampValue e.timestamp)
    (fun e s =>
      { s with
        creationTimestamp := some e.timestamp
        parent := some (DomainParent.ofId e.parentId)
        creatorTgid := some e.creatorTgid
        creatorComm := some e.creatorComm
        ruleset := some ⟨e.rulesetId, e.rulesetVersion⟩ })
    event

/-- Raise the cumulative denial count. -/
def raiseCount (count : UInt64) (state : DomainState) : DomainState :=
  { state with cumulativeDenialCount := updateMax state.cumulativeDenialCount count }

/-- Fill in the provenance that is still unknown. -/
def inference (hierarchy : HierarchySnapshot) (state : DomainState) : DomainState :=
  { state with
    parent := state.parent <|> some (DomainParent.ofId hierarchy.parentId)
    creatorTgid :=
      if state.creatorTgid.isNone && state.creatorComm.isNone then some hierarchy.creatorTgid
      else state.creatorTgid
    creatorComm :=
      if state.creatorTgid.isNone && state.creatorComm.isNone then some hierarchy.creatorComm
      else state.creatorComm }

/-- The lifecycle, timestamp and final count written by a free event. -/
def tombstone (event : FreeDomainEvent) (state : DomainState) : DomainState :=
  { state with
    lifecycle := .deallocated
    freeTimestamp := updateLatestTimestamp state.freeTimestamp event.timestamp
    finalDenialCount := updateMax state.finalDenialCount event.denialCount }

/-- A creation makes the denial count known and writes the creation facts. -/
theorem applyCreateDomain_eq (event : CreateDomainEvent) :
    applyCreateDomain event = creation event ∘ raiseCount 0 := by
  funext state
  simp only [applyCreateDomain, markAllocated_eq, Function.comp_apply, creation, raiseCount,
    Register.latest, Register.replaces, Option.all_map]

/-- A denial raises the count and fills in the provenance. -/
theorem applyDenial_eq (context : DenialContext) :
    applyDenial context =
      inference context.hierarchy ∘ raiseCount context.cumulativeDenialCount := by
  funext state
  simp only [applyDenial, markAllocated_eq, Function.comp_apply]
  rcases state with ⟨_, _, _, parent, tgid, comm, _⟩
  cases parent <;> cases tgid <;> cases comm <;> rfl

/-- A free event raises the count and writes the tombstone. -/
theorem applyFreeDomain_eq (event : FreeDomainEvent) :
    applyFreeDomain event = tombstone event ∘ raiseCount event.denialCount := rfl

/-- An enforcement event leaves everything but the enforcement facts alone. -/
theorem applyEnforceDomain_eq (event : EnforceDomainEvent) (state : DomainState) :
    applyEnforceDomain event state =
      { state with
        anyProcessWideEnforcement := state.anyProcessWideEnforcement || event.processWide
        enforcementEvents :=
          state.enforcementEvents.upsert event.enforcingTid (mergeEnforcement event) } := by
  simp only [applyEnforceDomain, markAllocated_eq]

end DomainState

/-! ## Effects of an event -/

/-- The placeholder entry of a domain that is only named as a relation. -/
def domainPlaceholder (id : Option DomainId) : List (DomainId × (DomainState → DomainState)) :=
  id.toList.map fun id => (id, fun state => state)

namespace Event

/-- The ruleset entries an event updates. -/
def rulesetEffects : Event → List (RulesetId × (RulesetState → RulesetState))
  | createRuleset event => [(event.rulesetId, RulesetState.applyCreateRuleset event)]
  | addRulePathBeneath event => [(event.rulesetId, RulesetState.applyAddRulePathBeneath event)]
  | addRuleNetPort event => [(event.rulesetId, RulesetState.applyAddRuleNetPort event)]
  | createDomain event => [(event.rulesetId, RulesetState.applyCreateDomain event)]
  | freeRuleset event => [(event.rulesetId, RulesetState.applyFreeRuleset event)]
  | _ => []

/-- The party of a denial other than the denying domain, if it was sandboxed. -/
def otherDomain : Event → Option DomainId
  | denyPtrace event => event.traceeDomain.domainId
  | denyScopeSignal event => event.targetDomain.domainId
  | denyScopeAbstractUnixSocket event => event.peerDomain.domainId
  | _ => none

/-- The domain entries a denial updates: the denying domain, its parent and the
    other party. -/
def denialEffects (context : DenialContext) (other : Option DomainId) :
    List (DomainId × (DomainState → DomainState)) :=
  (context.hierarchy.domainId, DomainState.applyDenial context) ::
    (domainPlaceholder context.hierarchy.parentId ++ domainPlaceholder other)

/-- The domain entries an event updates, in the order of the source. -/
def domainEffects : Event → List (DomainId × (DomainState → DomainState))
  | createDomain event =>
    domainPlaceholder event.parentId ++ [(event.domainId, DomainState.applyCreateDomain event)]
  | freeDomain event => [(event.domainId, DomainState.applyFreeDomain event)]
  | enforceDomain event => [(event.domainId, DomainState.applyEnforceDomain event)]
  | event =>
    match event.context with
    | some context => denialEffects context event.otherDomain
    | none => []

end Event

namespace State

/-- A ruleset update that stores its version starts as well from `blank`. -/
private theorem updateRuleset_eq (s : State) (id : RulesetId) (lifecycle : LifecycleState)
    (version : UInt64) (f g : RulesetState → RulesetState)
    (hf : f = g ∘ RulesetState.updateVersion version)
    (hg : g (RulesetState.updateVersion version (RulesetState.new id lifecycle 0)) =
      g (RulesetState.updateVersion version (RulesetState.blank id))) :
    s.updateRuleset id lifecycle version f =
      { s with rulesets := s.rulesets.updateEntry id (RulesetState.blank id) f } := by
  subst hf
  have hstart : (g ∘ RulesetState.updateVersion version) (RulesetState.new id lifecycle version) =
      (g ∘ RulesetState.updateVersion version) (RulesetState.blank id) := by
    rw [Function.comp_apply, RulesetState.updateVersion_new]
    exact hg
  simp only [updateRuleset, Finmap.updateEntry_congr s.rulesets id hstart]

/-- A domain that is named only gets a placeholder. -/
private theorem insertDomain_eq (s : State) (id : Option DomainId) :
    s.insertDomain id =
      { s with
        domains := Finmap.updateEntries DomainState.blank s.domains (domainPlaceholder id) } := by
  cases id <;> rfl

/-- A denial updates the denying domain and names its parent and the other party. -/
private theorem applyDenial_eq_effects (s : State) (context : DenialContext)
    (membership : Option DomainMembership) (other : Option DomainId)
    (hother : other = membership.bind DomainMembership.domainId) :
    s.applyDenial context membership =
      { s with
        domains := Finmap.updateEntries DomainState.blank s.domains
          (Event.denialEffects context other) } := by
  subst hother
  -- A membership without a domain names nobody
  have hinsert : s.applyDenial context membership =
      ((s.updateDomain context.hierarchy.domainId .allocated
        (DomainState.applyDenial context)).insertDomain context.hierarchy.parentId).insertDomain
          (membership.bind DomainMembership.domainId) := by
    rcases membership with _ | _ | _ <;> rfl
  rw [hinsert, insertDomain_eq, insertDomain_eq]
  simp only [Event.denialEffects, Finmap.updateEntries_cons, Finmap.updateEntries_append]
  rfl

/-- `apply` runs the effects of the event on the two maps. -/
theorem apply_eq_effects (s : State) (e : Event) :
    s.apply e =
      { rulesets := Finmap.updateEntries RulesetState.blank s.rulesets e.rulesetEffects
        domains := Finmap.updateEntries DomainState.blank s.domains e.domainEffects } := by
  cases e with
  | createRuleset event =>
    exact updateRuleset_eq s _ _ _ _ _ (RulesetState.applyCreateRuleset_eq event) rfl
  | addRulePathBeneath event =>
    exact updateRuleset_eq s _ _ _ _ _ (RulesetState.applyAddRulePathBeneath_eq event) rfl
  | addRuleNetPort event =>
    exact updateRuleset_eq s _ _ _ _ _ (RulesetState.applyAddRuleNetPort_eq event) rfl
  -- A new domain is the one event that touches both maps
  | createDomain event =>
    simp only [apply, insertDomain_eq]
    rw [updateRuleset_eq s _ _ _ _ id (RulesetState.applyCreateDomain_eq event) rfl]
    simp only [Event.domainEffects, Finmap.updateEntries_append]
    rfl
  | freeRuleset event =>
    exact updateRuleset_eq s _ _ _ _ _ (RulesetState.applyFreeRuleset_eq event) rfl
  | denyAccessFs event => exact applyDenial_eq_effects s event.context none none rfl
  | denyAccessNet event => exact applyDenial_eq_effects s event.context none none rfl
  | denyPtrace event => exact applyDenial_eq_effects s event.context _ _ rfl
  | denyScopeSignal event => exact applyDenial_eq_effects s event.context _ _ rfl
  | denyScopeAbstractUnixSocket event => exact applyDenial_eq_effects s event.context _ _ rfl
  | freeDomain event =>
    -- The source starts a fresh entry as deallocated here, and then marks it so anyway
    have hstart : DomainState.applyFreeDomain event (DomainState.new event.domainId .deallocated) =
        DomainState.applyFreeDomain event (DomainState.blank event.domainId) := rfl
    simp only [apply, updateDomain, Finmap.updateEntry_congr s.domains event.domainId hstart]
    rfl
  | enforceDomain event => rfl

end State

end Landlock
