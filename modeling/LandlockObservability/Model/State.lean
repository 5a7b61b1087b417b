import LandlockObservability.ForStd.Finmap
import LandlockObservability.Model.Event

/-!
# Reconstructed state

Models `src/state.rs`: the facts about rulesets and domains that are collected
from an event stream, and `State.apply`, which adds one event to them.

The hash maps of the source are finite maps up to order (`Finmap`), so that equal
states are the states with equal lookups.  The branches of the source's `apply`
mutate one record in place after an `entry(..).or_insert_with(..)`; each branch
is a function on that record here, and `apply` puts them into the maps with
`Finmap.updateEntry`.
-/

namespace Landlock

/-- A hash map: finitely many entries in no particular order. -/
abbrev HashMap (κ ν : Type) := Finmap fun _ : κ => ν

/-- The observed lifecycle of a retained object. -/
inductive LifecycleState where
  | allocated
  | deallocated
  deriving DecidableEq, Repr

/-- The known parent of a reconstructed domain. -/
inductive DomainParent where
  | root
  | domain (id : DomainId)
  deriving DecidableEq, Repr

/-- The parent written for an event's optional parent ID. -/
def DomainParent.ofId : Option DomainId → DomainParent
  | some id => .domain id
  | none => .root

/-- A ruleset identity paired with a particular version. -/
structure RulesetVersion where
  rulesetId : RulesetId
  rulesetVersion : UInt64
  deriving DecidableEq, Repr

/-- Reconstructed state for one filesystem rule target. -/
structure FilesystemRuleState where
  device : UInt32
  inode : UInt64
  accessRights : FilesystemAccess
  pathname : CapturedPath
  pathnameTimestamp : KernelTimestamp
  deriving DecidableEq

/-- Reconstructed state for one network rule target. -/
structure NetworkRuleState where
  port : UInt64
  accessRights : NetworkAccess
  deriving DecidableEq

/-- Reconstructed facts about a ruleset. -/
structure RulesetState where
  id : RulesetId
  lifecycle : LifecycleState
  creationTimestamp : Option KernelTimestamp
  handledFs : Option FilesystemAccess
  handledNet : Option NetworkAccess
  scopedAccess : Option ScopeAccess
  maxObservedVersion : UInt64
  finalVersion : Option UInt64
  freeTimestamp : Option KernelTimestamp
  filesystemRules : HashMap (UInt32 × UInt64) FilesystemRuleState
  networkRules : HashMap UInt64 NetworkRuleState
  deriving DecidableEq

/-- Reconstructed facts about a Landlock domain. -/
structure DomainState where
  id : DomainId
  lifecycle : LifecycleState
  creationTimestamp : Option KernelTimestamp
  parent : Option DomainParent
  creatorTgid : Option ProcessId
  creatorComm : Option CapturedCommand
  ruleset : Option RulesetVersion
  cumulativeDenialCount : Option UInt64
  finalDenialCount : Option UInt64
  freeTimestamp : Option KernelTimestamp
  enforcementEvents : HashMap ThreadId EnforceDomainEvent
  anyProcessWideEnforcement : Bool
  deriving DecidableEq

/-- Partial ruleset and domain state reconstructed from an event stream. -/
structure State where
  rulesets : HashMap RulesetId RulesetState
  domains : HashMap DomainId DomainState
  deriving DecidableEq

/-! ## Merging of single facts -/

def timestampValue (timestamp : KernelTimestamp) : UInt64 := timestamp.nanoseconds

/-- Keep the later of two timestamps; a candidate equal to the current one wins. -/
def updateLatestTimestamp (current : Option KernelTimestamp) (candidate : KernelTimestamp) :
    Option KernelTimestamp :=
  if current.all fun value => timestampValue candidate ≥ timestampValue value then
    some candidate
  else
    current

/-- Keep the greater of two values. -/
def updateMax (current : Option UInt64) (candidate : UInt64) : Option UInt64 :=
  if current.all fun value => candidate ≥ value then some candidate else current

/-! ## Rulesets -/

namespace RulesetState

def new (id : RulesetId) (lifecycle : LifecycleState) (version : UInt64) : RulesetState where
  id := id
  lifecycle := lifecycle
  creationTimestamp := none
  handledFs := none
  handledNet := none
  scopedAccess := none
  maxObservedVersion := version
  finalVersion := none
  freeTimestamp := none
  filesystemRules := ∅
  networkRules := ∅

def markAllocated (state : RulesetState) : RulesetState :=
  if state.lifecycle ≠ .deallocated then { state with lifecycle := .allocated } else state

def updateVersion (version : UInt64) (state : RulesetState) : RulesetState :=
  { state with maxObservedVersion := max state.maxObservedVersion version }

/-- The record update of the `CreateRuleset` branch. -/
def applyCreateRuleset (event : CreateRulesetEvent) (state : RulesetState) : RulesetState :=
  let state := state.markAllocated
  let state := state.updateVersion event.rulesetVersion
  -- The facts of one creation are kept together
  let replace := state.creationTimestamp.all fun timestamp =>
    timestampValue event.timestamp ≥ timestampValue timestamp
  if replace then
    { state with
      creationTimestamp := some event.timestamp
      handledFs := some event.handledFs
      handledNet := some event.handledNet
      scopedAccess := some event.scopedAccess }
  else
    state

/-- The filesystem rule after an `AddRulePathBeneath` event: a new rule, or the
    union of the masks with the path of the later observation. -/
def mergeFilesystemRule (event : AddRulePathBeneathEvent) :
    Option FilesystemRuleState → FilesystemRuleState
  | some rule =>
    let rule := { rule with accessRights := ⟨rule.accessRights.bits ||| event.accessRights.bits⟩ }
    -- Masks only grow; of the paths, the later observation is kept
    if timestampValue event.timestamp ≥ timestampValue rule.pathnameTimestamp then
      { rule with pathname := event.pathname, pathnameTimestamp := event.timestamp }
    else
      rule
  | none =>
    { device := event.device
      inode := event.inode
      accessRights := event.accessRights
      pathname := event.pathname
      pathnameTimestamp := event.timestamp }

/-- The record update of the `AddRulePathBeneath` branch. -/
def applyAddRulePathBeneath (event : AddRulePathBeneathEvent) (state : RulesetState) :
    RulesetState :=
  let state := state.markAllocated
  let state := state.updateVersion event.rulesetVersion
  { state with
    filesystemRules :=
      state.filesystemRules.upsert (event.device, event.inode) (mergeFilesystemRule event) }

/-- The network rule after an `AddRuleNetPort` event. -/
def mergeNetworkRule (event : AddRuleNetPortEvent) : Option NetworkRuleState → NetworkRuleState
  | some rule =>
    { rule with accessRights := ⟨rule.accessRights.bits ||| event.accessRights.bits⟩ }
  | none => { port := event.port, accessRights := event.accessRights }

/-- The record update of the `AddRuleNetPort` branch. -/
def applyAddRuleNetPort (event : AddRuleNetPortEvent) (state : RulesetState) : RulesetState :=
  let state := state.markAllocated
  let state := state.updateVersion event.rulesetVersion
  { state with networkRules := state.networkRules.upsert event.port (mergeNetworkRule event) }

/-- The ruleset half of the `CreateDomain` branch. -/
def applyCreateDomain (event : CreateDomainEvent) (state : RulesetState) : RulesetState :=
  let state := state.markAllocated
  state.updateVersion event.rulesetVersion

/-- The record update of the `FreeRuleset` branch. -/
def applyFreeRuleset (event : FreeRulesetEvent) (state : RulesetState) : RulesetState :=
  -- A tombstone stays one, see `mark_allocated`
  let state := { state with lifecycle := .deallocated }
  let state :=
    { state with freeTimestamp := updateLatestTimestamp state.freeTimestamp event.timestamp }
  let state := { state with finalVersion := updateMax state.finalVersion event.rulesetVersion }
  state.updateVersion event.rulesetVersion

end RulesetState

/-! ## Domains -/

namespace DomainState

def new (id : DomainId) (lifecycle : LifecycleState) : DomainState where
  id := id
  lifecycle := lifecycle
  creationTimestamp := none
  parent := none
  creatorTgid := none
  creatorComm := none
  ruleset := none
  cumulativeDenialCount := none
  finalDenialCount := none
  freeTimestamp := none
  enforcementEvents := ∅
  anyProcessWideEnforcement := false

def markAllocated (state : DomainState) : DomainState :=
  if state.lifecycle ≠ .deallocated then { state with lifecycle := .allocated } else state

/-- The domain half of the `CreateDomain` branch. -/
def applyCreateDomain (event : CreateDomainEvent) (state : DomainState) : DomainState :=
  let state := state.markAllocated
  -- A domain starts with no denials; a count known from a denial is not lowered
  let state := { state with cumulativeDenialCount := updateMax state.cumulativeDenialCount 0 }
  let replace := state.creationTimestamp.all fun timestamp =>
    timestampValue event.timestamp ≥ timestampValue timestamp
  if replace then
    { state with
      creationTimestamp := some event.timestamp
      parent := some (DomainParent.ofId event.parentId)
      creatorTgid := some event.creatorTgid
      creatorComm := some event.creatorComm
      ruleset := some ⟨event.rulesetId, event.rulesetVersion⟩ }
  else
    state

/-- The denying domain's update in `apply_denial`: fill in unknown provenance and
    raise the denial count. -/
def applyDenial (context : DenialContext) (state : DomainState) : DomainState :=
  let hierarchy := context.hierarchy
  let state := state.markAllocated
  let state :=
    -- The creation event is the better source, so a denial only fills gaps
    if state.parent.isNone then
      { state with parent := some (DomainParent.ofId hierarchy.parentId) }
    else
      state
  let state :=
    -- Both facts come from one event, so that they are filled together or not at all
    if state.creatorTgid.isNone && state.creatorComm.isNone then
      { state with
        creatorTgid := some hierarchy.creatorTgid
        creatorComm := some hierarchy.creatorComm }
    else
      state
  { state with
    cumulativeDenialCount :=
      updateMax state.cumulativeDenialCount context.cumulativeDenialCount }

/-- The record update of the `FreeDomain` branch. -/
def applyFreeDomain (event : FreeDomainEvent) (state : DomainState) : DomainState :=
  let state := { state with lifecycle := .deallocated }
  let state :=
    { state with freeTimestamp := updateLatestTimestamp state.freeTimestamp event.timestamp }
  let state :=
    { state with finalDenialCount := updateMax state.finalDenialCount event.denialCount }
  { state with
    cumulativeDenialCount := updateMax state.cumulativeDenialCount event.denialCount }

/-- The enforcement event kept for a thread: the later one, the new one if equal. -/
def mergeEnforcement (event : EnforceDomainEvent) :
    Option EnforceDomainEvent → EnforceDomainEvent
  | some current =>
    if timestampValue event.timestamp ≥ timestampValue current.timestamp then event else current
  | none => event

/-- The record update of the `EnforceDomain` branch. -/
def applyEnforceDomain (event : EnforceDomainEvent) (state : DomainState) : DomainState :=
  let state := state.markAllocated
  let state :=
    { state with
      anyProcessWideEnforcement := state.anyProcessWideEnforcement || event.processWide }
  { state with
    enforcementEvents :=
      state.enforcementEvents.upsert event.enforcingTid (mergeEnforcement event) }

/-- `DomainState::no_new_privs`: the weakest selected per-thread observation. -/
def noNewPrivs (state : DomainState) : Option Bool :=
  if state.enforcementEvents = ∅ then
    none
  else
    -- One thread without it is enough for `false`
    some (state.enforcementEvents.all fun _ event => event.noNewPrivs)

end DomainState

/-! ## The whole state -/

namespace State

def new : State := ⟨∅, ∅⟩

/-- `entry(id).or_insert_with(..)` on the rulesets, followed by the mutation `f`. -/
def updateRuleset (state : State) (id : RulesetId) (lifecycle : LifecycleState)
    (version : UInt64) (f : RulesetState → RulesetState) : State :=
  { state with
    rulesets := state.rulesets.updateEntry id (RulesetState.new id lifecycle version) f }

/-- `entry(id).or_insert_with(..)` on the domains, followed by the mutation `f`. -/
def updateDomain (state : State) (id : DomainId) (lifecycle : LifecycleState)
    (f : DomainState → DomainState) : State :=
  { state with domains := state.domains.updateEntry id (DomainState.new id lifecycle) f }

/-- `entry(id).or_insert_with(..)` with nothing done to the entry, for an optional ID. -/
def insertDomain (state : State) : Option DomainId → State
  | some id => state.updateDomain id .allocated fun domain => domain
  | none => state

/-- `apply_denial`. -/
def applyDenial (state : State) (context : DenialContext)
    (domainMembership : Option DomainMembership) : State :=
  let hierarchy := context.hierarchy
  let state := state.updateDomain hierarchy.domainId .allocated (DomainState.applyDenial context)
  -- The other domains become placeholders, without any fact
  let state := state.insertDomain hierarchy.parentId
  match domainMembership with
  | some (.sandboxed otherId) => state.insertDomain (some otherId)
  | _ => state

/-- `State::apply`: add one semantic observation. -/
def apply (state : State) : Event → State
  | .createRuleset event =>
    state.updateRuleset event.rulesetId .allocated event.rulesetVersion
      (RulesetState.applyCreateRuleset event)
  | .addRulePathBeneath event =>
    state.updateRuleset event.rulesetId .allocated event.rulesetVersion
      (RulesetState.applyAddRulePathBeneath event)
  | .addRuleNetPort event =>
    state.updateRuleset event.rulesetId .allocated event.rulesetVersion
      (RulesetState.applyAddRuleNetPort event)
  | .createDomain event =>
    let state := state.updateRuleset event.rulesetId .allocated event.rulesetVersion
      (RulesetState.applyCreateDomain event)
    -- The parent may be unknown so far
    let state := state.insertDomain event.parentId
    state.updateDomain event.domainId .allocated (DomainState.applyCreateDomain event)
  | .denyAccessFs event => state.applyDenial event.context none
  | .denyAccessNet event => state.applyDenial event.context none
  | .denyPtrace event => state.applyDenial event.context (some event.traceeDomain)
  | .denyScopeSignal event => state.applyDenial event.context (some event.targetDomain)
  | .denyScopeAbstractUnixSocket event => state.applyDenial event.context (some event.peerDomain)
  -- An object that is first seen at its end starts as deallocated
  | .freeDomain event =>
    state.updateDomain event.domainId .deallocated (DomainState.applyFreeDomain event)
  | .freeRuleset event =>
    state.updateRuleset event.rulesetId .deallocated event.rulesetVersion
      (RulesetState.applyFreeRuleset event)
  | .enforceDomain event =>
    state.updateDomain event.domainId .allocated (DomainState.applyEnforceDomain event)

/-- The state after a whole event sequence, from `State::new()`. -/
def replay (events : List Event) : State := events.foldl apply new

end State

end Landlock
