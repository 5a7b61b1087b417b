import LandlockObservability.Model.CapturedBytes

/-!
# Semantic events

Models `src/event/mod.rs`: the identities, masks and records of the twelve
observations.  The typestate builders of the source only make sure that every
field is given once, which structure values do by themselves, and the sealed
newtypes become structures whose proof fields are the checks of their `new`.

A macro of the source that produces several types (`task_id_type!`,
`access_type!`) is one type here, indexed by the kind it was instantiated at.
-/

namespace Landlock

/-! ## Identities -/

/-- `MIN_LANDLOCK_ID`: the smallest ID the kernel assigns to a ruleset or domain. -/
def minLandlockId : UInt64 := 0x100000000

/-- The kind marker of a Landlock ID. -/
inductive LandlockIdKind where
  | domain
  | ruleset
  deriving DecidableEq, Repr

/-- An ID assigned by the kernel, at least `minLandlockId`. -/
structure LandlockId (K : LandlockIdKind) where
  value : UInt64
  minLe : minLandlockId ≤ value
  deriving DecidableEq, Repr

/-- An ID is its value. -/
theorem LandlockId.eq_of_value_eq {K : LandlockIdKind} {a b : LandlockId K}
    (h : a.value = b.value) : a = b := by
  cases a
  cases b
  cases h
  rfl

abbrev DomainId := LandlockId .domain
abbrev RulesetId := LandlockId .ruleset

instance {K : LandlockIdKind} : Inhabited (LandlockId K) := ⟨⟨minLandlockId, UInt64.le_refl _⟩⟩

/-- `InvalidLandlockIdError`: the rejected value. -/
structure InvalidLandlockIdError where
  value : UInt64
  deriving DecidableEq, Repr

/-- `LandlockId::new`. -/
def LandlockId.new {K : LandlockIdKind} (value : UInt64) :
    Except InvalidLandlockIdError (LandlockId K) :=
  -- `NonZeroU64::new`, and then the range
  if h : value ≠ 0 ∧ minLandlockId ≤ value then .ok ⟨value, h.2⟩ else .error ⟨value⟩

/-- The kind of a task identity made by `task_id_type!`. -/
inductive TaskIdKind where
  | process
  | thread
  deriving DecidableEq, Repr

/-- A nonzero Linux task ID. -/
structure TaskId (K : TaskIdKind) where
  value : UInt32
  nonzero : value ≠ 0
  deriving DecidableEq, Repr

abbrev ProcessId := TaskId .process
abbrev ThreadId := TaskId .thread

instance {K : TaskIdKind} : Inhabited (TaskId K) := ⟨⟨1, by decide⟩⟩

/-- `InvalidTaskIdError`: the rejected value, always zero. -/
structure InvalidTaskIdError where
  value : UInt32
  deriving DecidableEq, Repr

/-- `ProcessId::new` and `ThreadId::new`. -/
def TaskId.new {K : TaskIdKind} (value : UInt32) : Except InvalidTaskIdError (TaskId K) :=
  if h : value ≠ 0 then .ok ⟨value, h⟩ else .error ⟨value⟩

/-- Monotonic kernel time in nanoseconds. -/
structure KernelTimestamp where
  nanoseconds : UInt64
  deriving DecidableEq, Repr

/-! ## Masks and request categories -/

/-- The mask types made by `access_type!`. -/
inductive AccessKind where
  | filesystem
  | network
  | scope
  deriving DecidableEq, Repr

/-- A 64-bit access mask; every bit is preserved, known or not. -/
structure AccessMask (K : AccessKind) where
  bits : UInt64
  deriving DecidableEq, Repr

abbrev FilesystemAccess := AccessMask .filesystem
abbrev NetworkAccess := AccessMask .network
abbrev ScopeAccess := AccessMask .scope

/-- The kernel request category of a denial, unknown values included. -/
structure BlockerType where
  raw : UInt32
  deriving DecidableEq, Repr

/-- Whether the other party of a denial belonged to a Landlock domain. -/
inductive DomainMembership where
  | unsandboxed
  | sandboxed (id : DomainId)
  deriving DecidableEq, Repr

/-- `DomainMembership::domain_id`. -/
def DomainMembership.domainId : DomainMembership → Option DomainId
  | unsandboxed => none
  | sandboxed id => some id

/-! ## Denial facts -/

/-- A captured domain hierarchy snapshot. -/
structure HierarchySnapshot where
  domainId : DomainId
  parentId : Option DomainId
  creatorTgid : ProcessId
  creatorComm : CapturedCommand
  deriving DecidableEq, Repr, Inhabited

/-- Facts shared by all denial events. -/
structure DenialContext where
  hierarchy : HierarchySnapshot
  cumulativeDenialCount : UInt64
  sameExec : Bool
  logged : Bool
  deriving DecidableEq, Repr, Inhabited

/-! ## The twelve event records -/

structure CreateRulesetEvent where
  timestamp : KernelTimestamp
  rulesetId : RulesetId
  rulesetVersion : UInt64
  handledFs : FilesystemAccess
  handledNet : NetworkAccess
  scopedAccess : ScopeAccess
  deriving DecidableEq, Repr

structure AddRulePathBeneathEvent where
  timestamp : KernelTimestamp
  rulesetId : RulesetId
  rulesetVersion : UInt64
  accessRights : FilesystemAccess
  device : UInt32
  inode : UInt64
  pathname : CapturedPath
  deriving DecidableEq, Repr

structure AddRuleNetPortEvent where
  timestamp : KernelTimestamp
  rulesetId : RulesetId
  rulesetVersion : UInt64
  accessRights : NetworkAccess
  port : UInt64
  deriving DecidableEq, Repr

structure CreateDomainEvent where
  timestamp : KernelTimestamp
  rulesetId : RulesetId
  rulesetVersion : UInt64
  domainId : DomainId
  parentId : Option DomainId
  creatorTgid : ProcessId
  creatorComm : CapturedCommand
  deriving DecidableEq, Repr

structure DenyAccessFsEvent where
  timestamp : KernelTimestamp
  context : DenialContext
  blockersType : BlockerType
  blockersAccess : FilesystemAccess
  device : UInt32
  inode : UInt64
  pathname : CapturedPath
  deriving DecidableEq, Repr

structure DenyAccessNetEvent where
  timestamp : KernelTimestamp
  context : DenialContext
  blockersType : BlockerType
  blockersAccess : NetworkAccess
  sourcePort : UInt64
  destinationPort : UInt64
  deriving DecidableEq, Repr

structure DenyPtraceEvent where
  timestamp : KernelTimestamp
  context : DenialContext
  traceeDomain : DomainMembership
  traceePid : ProcessId
  traceeComm : CapturedCommand
  deriving DecidableEq, Repr

structure DenyScopeSignalEvent where
  timestamp : KernelTimestamp
  context : DenialContext
  targetDomain : DomainMembership
  targetPid : ProcessId
  targetComm : CapturedCommand
  deriving DecidableEq, Repr

structure DenyScopeAbstractUnixSocketEvent where
  timestamp : KernelTimestamp
  context : DenialContext
  peerDomain : DomainMembership
  peerPid : Option ProcessId
  abstractName : CapturedAbstractUnixSocketName
  deriving DecidableEq, Repr

structure FreeDomainEvent where
  timestamp : KernelTimestamp
  domainId : DomainId
  denialCount : UInt64
  deriving DecidableEq, Repr

structure FreeRulesetEvent where
  timestamp : KernelTimestamp
  rulesetId : RulesetId
  rulesetVersion : UInt64
  deriving DecidableEq, Repr

structure EnforceDomainEvent where
  timestamp : KernelTimestamp
  domainId : DomainId
  enforcingTid : ThreadId
  complete : Bool
  processWide : Bool
  noNewPrivs : Bool
  deriving DecidableEq, Repr

/-- A semantic Landlock observation. -/
inductive Event where
  | createRuleset (event : CreateRulesetEvent)
  | addRulePathBeneath (event : AddRulePathBeneathEvent)
  | addRuleNetPort (event : AddRuleNetPortEvent)
  | createDomain (event : CreateDomainEvent)
  | denyAccessFs (event : DenyAccessFsEvent)
  | denyAccessNet (event : DenyAccessNetEvent)
  | denyPtrace (event : DenyPtraceEvent)
  | denyScopeSignal (event : DenyScopeSignalEvent)
  | denyScopeAbstractUnixSocket (event : DenyScopeAbstractUnixSocketEvent)
  | freeDomain (event : FreeDomainEvent)
  | freeRuleset (event : FreeRulesetEvent)
  | enforceDomain (event : EnforceDomainEvent)
  deriving DecidableEq, Repr

namespace Event

/-- `Observation::timestamp` of an event. -/
def timestamp : Event → KernelTimestamp
  | createRuleset event => event.timestamp
  | addRulePathBeneath event => event.timestamp
  | addRuleNetPort event => event.timestamp
  | createDomain event => event.timestamp
  | denyAccessFs event => event.timestamp
  | denyAccessNet event => event.timestamp
  | denyPtrace event => event.timestamp
  | denyScopeSignal event => event.timestamp
  | denyScopeAbstractUnixSocket event => event.timestamp
  | freeDomain event => event.timestamp
  | freeRuleset event => event.timestamp
  | enforceDomain event => event.timestamp

/-- `Denial::context`, for the five kinds that implement `Denial`. -/
def context : Event → Option DenialContext
  | denyAccessFs event => some event.context
  | denyAccessNet event => some event.context
  | denyPtrace event => some event.context
  | denyScopeSignal event => some event.context
  | denyScopeAbstractUnixSocket event => some event.context
  | _ => none

end Event

end Landlock
