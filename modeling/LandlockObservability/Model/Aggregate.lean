import LandlockObservability.ForStd.Finmap
import LandlockObservability.ForStd.Recency
import LandlockObservability.Model.State

/-!
# Denial aggregation

Models `src/aggregate.rs`: a bounded table of denials by key.  An entry counts the
matching denials since its key was last inserted, and inserting into a full table
evicts the key that was observed least recently.

The table is an unordered map.  Recency is kept in the sequence numbers of the
entries, which are numbered again when the `u128` counter is exhausted.  Where the
source traverses the map, the order of the traversal is the parameter `order`.
-/

namespace Landlock

/-! ## Keys -/

structure FilesystemDenialKey where
  domainId : DomainId
  blockersType : BlockerType
  blockersAccess : FilesystemAccess
  device : UInt32
  inode : UInt64
  deriving DecidableEq, Repr

structure NetworkDenialKey where
  domainId : DomainId
  blockersType : BlockerType
  blockersAccess : NetworkAccess
  sourcePort : UInt64
  destinationPort : UInt64
  deriving DecidableEq, Repr

structure PtraceDenialKey where
  domainId : DomainId
  traceeDomain : DomainMembership
  traceePid : ProcessId
  traceeComm : CapturedCommand
  deriving DecidableEq, Repr

structure SignalDenialKey where
  domainId : DomainId
  targetDomain : DomainMembership
  targetPid : ProcessId
  targetComm : CapturedCommand
  deriving DecidableEq, Repr

structure AbstractUnixSocketDenialKey where
  domainId : DomainId
  peerDomain : DomainMembership
  abstractName : CapturedAbstractUnixSocketName
  deriving DecidableEq, Repr

/-- A denial aggregation key.  Pathnames and the PIDs of socket peers are not part of
    it. -/
inductive DenialKey where
  | filesystem (key : FilesystemDenialKey)
  | network (key : NetworkDenialKey)
  | ptrace (key : PtraceDenialKey)
  | signal (key : SignalDenialKey)
  | abstractUnixSocket (key : AbstractUnixSocketDenialKey)
  deriving DecidableEq, Repr

/-- `DenialKey::domain_id`. -/
def DenialKey.domainId : DenialKey → DomainId
  | filesystem key => key.domainId
  | network key => key.domainId
  | ptrace key => key.domainId
  | signal key => key.domainId
  | abstractUnixSocket key => key.domainId

/-- `denial_facts`: the key of a denial, and its `same_exec` and `logged` flags. -/
def denialFacts : Event → Option (DenialKey × Bool × Bool)
  | .denyAccessFs denial =>
    some (.filesystem ⟨denial.context.hierarchy.domainId, denial.blockersType,
      denial.blockersAccess, denial.device, denial.inode⟩,
      denial.context.sameExec, denial.context.logged)
  | .denyAccessNet denial =>
    some (.network ⟨denial.context.hierarchy.domainId, denial.blockersType,
      denial.blockersAccess, denial.sourcePort, denial.destinationPort⟩,
      denial.context.sameExec, denial.context.logged)
  | .denyPtrace denial =>
    some (.ptrace ⟨denial.context.hierarchy.domainId, denial.traceeDomain, denial.traceePid,
      denial.traceeComm⟩, denial.context.sameExec, denial.context.logged)
  | .denyScopeSignal denial =>
    some (.signal ⟨denial.context.hierarchy.domainId, denial.targetDomain, denial.targetPid,
      denial.targetComm⟩, denial.context.sameExec, denial.context.logged)
  | .denyScopeAbstractUnixSocket denial =>
    some (.abstractUnixSocket ⟨denial.context.hierarchy.domainId, denial.peerDomain,
      denial.abstractName⟩, denial.context.sameExec, denial.context.logged)
  | _ => none

/-! ## The table -/

/-- An aggregated denial. -/
structure AggregatedDenial where
  key : DenialKey
  occurrenceCount : UInt64
  firstTimestamp : KernelTimestamp
  latestTimestamp : KernelTimestamp
  sameExec : Bool
  logged : Bool
  latestEvent : Event
  lastObservedSequence : Nat
  deriving DecidableEq, Repr

/-- A nonzero `usize`: the capacities that `build` accepts. -/
structure Capacity where
  value : Nat
  pos : 0 < value
  lt : value < 2 ^ 64
  deriving DecidableEq, Repr

/-- `DenialAggregator`. -/
structure DenialAggregator where
  capacity : Capacity
  entries : HashMap DenialKey AggregatedDenial
  ingestionSequence : Nat
  deriving DecidableEq

/-- `u128::MAX`. -/
def u128Max : Nat := 2 ^ 128 - 1

/-- `u128::saturating_add(1)`. -/
def saturatingIncrement (n : Nat) : Nat := min (n + 1) u128Max

/-- `u64::saturating_add(1)`. -/
def saturatingCount (n : UInt64) : UInt64 := UInt64.ofNat (min (n.toNat + 1) (2 ^ 64 - 1))

namespace DenialAggregator

/-- `DEFAULT_CAPACITY`. -/
def defaultCapacity : Capacity := ⟨1000, by decide, by decide⟩

/-- The aggregator that a successful `DenialAggregatorBuilder::build` returns. -/
def withCapacity (capacity : Capacity) : DenialAggregator := ⟨capacity, ∅, 0⟩

/-- `DenialAggregator::new`. -/
def new : DenialAggregator := withCapacity defaultCapacity

/-- `DenialAggregator::len`. -/
def len (a : DenialAggregator) : Nat := a.entries.keys.card

/-- The loop of `next_ingestion_sequence` over the entries in recency order. -/
def renumber : List (DenialKey × AggregatedDenial) →
    HashMap DenialKey AggregatedDenial × Nat → HashMap DenialKey AggregatedDenial × Nat
  | [], state => state
  | (key, entry) :: recency, (entries, sequence) =>
    let sequence := saturatingIncrement sequence
    renumber recency
      (entries.insert key { entry with lastObservedSequence := sequence }, sequence)

/-- The compaction of `next_ingestion_sequence`. -/
def compact (order : IterOrder DenialKey AggregatedDenial) (a : DenialAggregator) :
    DenialAggregator :=
  -- The oldest entry first; ties cannot occur, since sequence numbers are not reused
  let recency := (order.toList a.entries).mergeSort
    fun p q => p.2.lastObservedSequence ≤ q.2.lastObservedSequence
  let (entries, sequence) := renumber recency (a.entries, 0)
  { a with entries, ingestionSequence := sequence }

/-- `next_ingestion_sequence`; the new counter is also the result. -/
def nextIngestionSequence (order : IterOrder DenialKey AggregatedDenial)
    (a : DenialAggregator) : DenialAggregator :=
  -- The entries are renumbered from one, in the old order
  let a := if a.ingestionSequence = u128Max then a.compact order else a
  { a with ingestionSequence := saturatingIncrement a.ingestionSequence }

/-- The entry of a key that is already there, after another denial. -/
def hit (event : Event) (sameExec logged : Bool) (sequence : Nat) (entry : AggregatedDenial) :
    AggregatedDenial :=
  { entry with
    occurrenceCount := saturatingCount entry.occurrenceCount
    -- The latest denial is the one observed last, whatever its timestamp
    latestTimestamp := event.timestamp
    sameExec
    logged
    latestEvent := event
    lastObservedSequence := sequence }

/-- The entry of a new key. -/
def fresh (event : Event) (key : DenialKey) (sameExec logged : Bool) (sequence : Nat) :
    AggregatedDenial where
  key
  occurrenceCount := 1
  firstTimestamp := event.timestamp
  latestTimestamp := event.timestamp
  sameExec
  logged
  latestEvent := event
  lastObservedSequence := sequence

/-- `observe_entry`: the aggregator afterwards and the affected entry. -/
def observeEntry (order : IterOrder DenialKey AggregatedDenial) (a : DenialAggregator)
    (event : Event) : DenialAggregator × Option AggregatedDenial :=
  match denialFacts event with
  | none => (a, none)
  | some (key, sameExec, logged) =>
    let a := a.nextIngestionSequence order
    let sequence := a.ingestionSequence
    match a.entries.lookup key with
    -- `get_mut`: a known key needs no room
    | some entry =>
      let entry := hit event sameExec logged sequence entry
      ({ a with entries := a.entries.insert key entry }, some entry)
    | none =>
      let insert (entries : HashMap DenialKey AggregatedDenial) :=
        -- `entry(key).or_insert_with(..)`
        let entry := (entries.lookup key).getD (fresh event key sameExec logged sequence)
        ({ a with entries := entries.insert key entry }, some entry)
      -- The least recently observed key makes room
      if a.capacity.value ≤ a.len then
        match (order.toList a.entries).argmin fun p => p.2.lastObservedSequence with
        | none => (a, none)
        | some leastRecent => insert (a.entries.erase leastRecent.1)
      else
        insert a.entries

/-- `observe`. -/
def observe (order : IterOrder DenialKey AggregatedDenial) (a : DenialAggregator)
    (event : Event) : DenialAggregator :=
  (a.observeEntry order event).1

/-- A sequence of observations; the traversal order may be another one each time. -/
def observeAll (a : DenialAggregator)
    (steps : List (IterOrder DenialKey AggregatedDenial × Event)) : DenialAggregator :=
  steps.foldl (fun a step => a.observe step.1 step.2) a

end DenialAggregator

end Landlock
