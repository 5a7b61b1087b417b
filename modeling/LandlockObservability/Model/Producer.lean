import LandlockObservability.ForStd.Layout
import LandlockObservability.Model.Wire

/-!
# The record producer

Models the kernel side: `struct landlock_observability_event` of `src/bpf/event.h`,
and the stores that the handlers of `src/bpf/landlock_observability.bpf.c` make into
a zeroed record before they submit it.

Offsets are those a C compiler gives the members, computed from the declarations and
not from the numbers of the decoder.  A handler is modelled from the values it read
from kernel objects on, as the event made of these values.
-/

namespace Landlock.Producer

open Layout Wire

/-- The members of the record: those before the union, then those of its variants.
    Members of several variants that have the same name share a constructor. -/
inductive Member where
  | timestampNs | type | pad | unionPad
  | rulesetId | rulesetVersion | handledFs | handledNet | scopedAccess
  | accessRights | dev | pathnameBytesOmitted | inoPad | ino | pathname | port
  | domainId | parentId | creatorTgid | creatorComm | tailPad
  | enforcingTid | complete | processWide | noNewPrivs | variantPad
  | blockersType | countPad | numDenials | blockersAccess | sameExec | logged
  | sport | dport
  | traceeDomainId | traceePid | traceeComm
  | targetDomainId | targetPid | targetComm
  | peerDomainId | peerPid | abstractNameLen | abstractName
  | denials
  deriving DecidableEq, Repr

/-- The members before the union. -/
def header : List (Member × CType) :=
  [(.timestampNs, .u64), (.type, .u8), (.pad, .array 3), (.unionPad, .array 4)]

/-- The members that the variants of all denials start with.  The fifth one differs. -/
def denyHeader (fifth : Member × CType) : List (Member × CType) :=
  [(.domainId, .u64), (.parentId, .u64), (.creatorTgid, .u32), (.creatorComm, .array 16),
   fifth, (.numDenials, .u64), (.blockersAccess, .u64), (.sameExec, .u8), (.logged, .u8),
   (.variantPad, .array 6)]

/-- The variant of the union that holds the fields of a kind. -/
def variant : EventKind → List (Member × CType)
  | .createRuleset =>
    [(.rulesetId, .u64), (.rulesetVersion, .u64), (.handledFs, .u64), (.handledNet, .u64),
     (.scopedAccess, .u64)]
  | .addRulePathBeneath =>
    [(.rulesetId, .u64), (.rulesetVersion, .u64), (.accessRights, .u64), (.dev, .u32),
     (.pathnameBytesOmitted, .u8), (.inoPad, .array 3), (.ino, .u64), (.pathname, .array 256)]
  | .addRuleNetPort =>
    [(.rulesetId, .u64), (.rulesetVersion, .u64), (.accessRights, .u64), (.port, .u64)]
  | .createDomain =>
    [(.rulesetId, .u64), (.rulesetVersion, .u64), (.domainId, .u64), (.parentId, .u64),
     (.creatorTgid, .u32), (.creatorComm, .array 16), (.tailPad, .array 4)]
  | .denyAccessFs => denyHeader (.blockersType, .u32) ++
    [(.dev, .u32), (.pathnameBytesOmitted, .u8), (.inoPad, .array 3), (.ino, .u64),
     (.pathname, .array 256)]
  | .denyAccessNet => denyHeader (.blockersType, .u32) ++ [(.sport, .u64), (.dport, .u64)]
  | .denyPtrace => denyHeader (.countPad, .array 4) ++
    [(.traceeDomainId, .u64), (.traceePid, .u32), (.traceeComm, .array 16),
     (.tailPad, .array 4)]
  | .denyScopeSignal => denyHeader (.countPad, .array 4) ++
    [(.targetDomainId, .u64), (.targetPid, .u32), (.targetComm, .array 16),
     (.tailPad, .array 4)]
  | .denyScopeAbstractUnixSocket => denyHeader (.countPad, .array 4) ++
    [(.peerDomainId, .u64), (.peerPid, .u32), (.abstractNameLen, .u32),
     (.abstractName, .array 107), (.tailPad, .array 5)]
  | .freeDomain => [(.domainId, .u64), (.denials, .u64)]
  | .freeRuleset => [(.rulesetId, .u64), (.rulesetVersion, .u64)]
  | .enforceDomain =>
    [(.domainId, .u64), (.enforcingTid, .u32), (.complete, .u8), (.processWide, .u8),
     (.noNewPrivs, .u8), (.variantPad, .array 1)]

/-- The record as a kind uses it: every variant starts with a 64-bit word, so it is
    placed where the union starts. -/
def members (kind : EventKind) : List (Member × CType) := header ++ variant kind

def slots (kind : EventKind) : List (Slot Member) := place 0 (members kind)

/-- `sizeof(struct landlock_observability_event)`: the largest variant, aligned to the
    widest member. -/
def sizeOf : Nat :=
  alignUp ((EventKind.all.map fun kind => endOf 0 (members kind)).foldl max 0) 8

/-! ## Static assertions of the header file -/

/-- `ASSERT_DENIAL_HEADER`. -/
def assertedDenyHeader (fifth : Member) : List (Slot Member) :=
  [⟨.domainId, 16, 8⟩, ⟨.parentId, 24, 8⟩, ⟨.creatorTgid, 32, 4⟩, ⟨.creatorComm, 36, 16⟩,
   ⟨fifth, 52, 4⟩, ⟨.numDenials, 56, 8⟩, ⟨.blockersAccess, 64, 8⟩, ⟨.sameExec, 72, 1⟩,
   ⟨.logged, 73, 1⟩, ⟨.variantPad, 74, 6⟩]

/-- The `ASSERT_FIELD` lines of a variant, in the order of its members. -/
def assertedVariant : EventKind → List (Slot Member)
  | .createRuleset =>
    [⟨.rulesetId, 16, 8⟩, ⟨.rulesetVersion, 24, 8⟩, ⟨.handledFs, 32, 8⟩,
     ⟨.handledNet, 40, 8⟩, ⟨.scopedAccess, 48, 8⟩]
  | .addRulePathBeneath =>
    [⟨.rulesetId, 16, 8⟩, ⟨.rulesetVersion, 24, 8⟩, ⟨.accessRights, 32, 8⟩, ⟨.dev, 40, 4⟩,
     ⟨.pathnameBytesOmitted, 44, 1⟩, ⟨.inoPad, 45, 3⟩, ⟨.ino, 48, 8⟩, ⟨.pathname, 56, 256⟩]
  | .addRuleNetPort =>
    [⟨.rulesetId, 16, 8⟩, ⟨.rulesetVersion, 24, 8⟩, ⟨.accessRights, 32, 8⟩, ⟨.port, 40, 8⟩]
  | .createDomain =>
    [⟨.rulesetId, 16, 8⟩, ⟨.rulesetVersion, 24, 8⟩, ⟨.domainId, 32, 8⟩, ⟨.parentId, 40, 8⟩,
     ⟨.creatorTgid, 48, 4⟩, ⟨.creatorComm, 52, 16⟩, ⟨.tailPad, 68, 4⟩]
  | .denyAccessFs => assertedDenyHeader .blockersType ++
    [⟨.dev, 80, 4⟩, ⟨.pathnameBytesOmitted, 84, 1⟩, ⟨.inoPad, 85, 3⟩, ⟨.ino, 88, 8⟩,
     ⟨.pathname, 96, 256⟩]
  | .denyAccessNet => assertedDenyHeader .blockersType ++ [⟨.sport, 80, 8⟩, ⟨.dport, 88, 8⟩]
  | .denyPtrace => assertedDenyHeader .countPad ++
    [⟨.traceeDomainId, 80, 8⟩, ⟨.traceePid, 88, 4⟩, ⟨.traceeComm, 92, 16⟩, ⟨.tailPad, 108, 4⟩]
  | .denyScopeSignal => assertedDenyHeader .countPad ++
    [⟨.targetDomainId, 80, 8⟩, ⟨.targetPid, 88, 4⟩, ⟨.targetComm, 92, 16⟩, ⟨.tailPad, 108, 4⟩]
  | .denyScopeAbstractUnixSocket => assertedDenyHeader .countPad ++
    [⟨.peerDomainId, 80, 8⟩, ⟨.peerPid, 88, 4⟩, ⟨.abstractNameLen, 92, 4⟩,
     ⟨.abstractName, 96, 107⟩, ⟨.tailPad, 203, 5⟩]
  | .freeDomain => [⟨.domainId, 16, 8⟩, ⟨.denials, 24, 8⟩]
  | .freeRuleset => [⟨.rulesetId, 16, 8⟩, ⟨.rulesetVersion, 24, 8⟩]
  | .enforceDomain =>
    [⟨.domainId, 16, 8⟩, ⟨.enforcingTid, 24, 4⟩, ⟨.complete, 28, 1⟩, ⟨.processWide, 29, 1⟩,
     ⟨.noNewPrivs, 30, 1⟩, ⟨.variantPad, 31, 1⟩]

/-- The computed layout passes the assertions on members and on the record's size. -/
theorem static_assertions :
    sizeOf = recordSize ∧ ∀ kind, slots kind =
      [⟨.timestampNs, 0, 8⟩, ⟨.type, 8, 1⟩, ⟨.pad, 9, 3⟩, ⟨.unionPad, 12, 4⟩] ++
        assertedVariant kind :=
  ⟨by decide, fun kind => by cases kind <;> rfl⟩

/-! ## Stores -/

variable (en : Endian)

def word32 (v : UInt32) : List UInt8 := Bytes.ofWord en 4 v.toNat
def word64 (v : UInt64) : List UInt8 := Bytes.ofWord en 8 v.toNat

/-- A C `bool` stored into a `__u8`. -/
def boolean (b : Bool) : List UInt8 := if b then [1] else [0]

/-- A domain ID, zero for a null hierarchy. -/
def optionalId : Option DomainId → UInt64
  | none => 0
  | some domain => domain.value

/-- `tracee_domain_id` and its like: zero outside any domain. -/
def membershipId : DomainMembership → UInt64
  | .unsandboxed => 0
  | .sandboxed domain => domain.value

/-- A PID, zero for a null `struct pid`. -/
def optionalPid : Option ProcessId → UInt32
  | none => 0
  | some pid => pid.value

/-- `bpf_core_read_str` of a task command: the bytes up to and with the NUL. -/
def readStr (source : List UInt8) : List UInt8 := source.take 15 ++ [0]

/-- `bpf_get_current_comm`, which pads the command to the size of the member. -/
def currentComm (source : List UInt8) : List UInt8 :=
  readStr source ++ List.replicate (16 - (readStr source).length) 0

/-- The `pathname` member of a captured path. -/
def pathname (path : CapturedPath) : List UInt8 :=
  path.bytes ++ List.replicate (256 - path.bytes.length) 0

/-- `fill_deny_header`. -/
def fillDenyHeader (context : DenialContext) : List (Member × List UInt8) :=
  [(.domainId, word64 en context.hierarchy.domainId.value),
   (.numDenials, word64 en context.cumulativeDenialCount),
   (.parentId, word64 en (optionalId context.hierarchy.parentId)),
   (.creatorTgid, word32 en context.hierarchy.creatorTgid.value),
   (.creatorComm, readStr context.hierarchy.creatorComm.bytes)]

/-- The stores of a handler after those of the timestamp and the type. -/
def handlerStores : Event → List (Member × List UInt8)
  | .createRuleset event =>
    [(.rulesetId, word64 en event.rulesetId.value),
     (.rulesetVersion, word64 en event.rulesetVersion),
     (.handledFs, word64 en event.handledFs.bits),
     (.handledNet, word64 en event.handledNet.bits),
     (.scopedAccess, word64 en event.scopedAccess.bits)]
  | .addRulePathBeneath event =>
    [(.rulesetId, word64 en event.rulesetId.value),
     (.rulesetVersion, word64 en event.rulesetVersion),
     (.accessRights, word64 en event.accessRights.bits),
     (.dev, word32 en event.device),
     (.ino, word64 en event.inode),
     (.pathname, pathname event.pathname),
     (.pathnameBytesOmitted, boolean event.pathname.bytesOmitted)]
  | .addRuleNetPort event =>
    [(.rulesetId, word64 en event.rulesetId.value),
     (.rulesetVersion, word64 en event.rulesetVersion),
     (.accessRights, word64 en event.accessRights.bits),
     (.port, word64 en event.port)]
  | .createDomain event =>
    [(.rulesetId, word64 en event.rulesetId.value),
     (.rulesetVersion, word64 en event.rulesetVersion),
     (.domainId, word64 en event.domainId.value),
     (.parentId, word64 en (optionalId event.parentId)),
     (.creatorTgid, word32 en event.creatorTgid.value),
     (.creatorComm, currentComm event.creatorComm.bytes)]
  | .denyAccessFs event => fillDenyHeader en event.context ++
    [(.blockersType, word32 en event.blockersType.raw),
     (.blockersAccess, word64 en event.blockersAccess.bits),
     (.sameExec, boolean event.context.sameExec),
     (.logged, boolean event.context.logged),
     (.dev, word32 en event.device),
     (.ino, word64 en event.inode),
     (.pathname, pathname event.pathname),
     (.pathnameBytesOmitted, boolean event.pathname.bytesOmitted)]
  | .denyAccessNet event => fillDenyHeader en event.context ++
    [(.blockersType, word32 en event.blockersType.raw),
     (.blockersAccess, word64 en event.blockersAccess.bits),
     (.sameExec, boolean event.context.sameExec),
     (.logged, boolean event.context.logged),
     (.sport, word64 en event.sourcePort),
     (.dport, word64 en event.destinationPort)]
  | .denyPtrace event => fillDenyHeader en event.context ++
    -- This hook passes no access rights
    [(.blockersAccess, word64 en 0),
     (.sameExec, boolean event.context.sameExec),
     (.logged, boolean event.context.logged),
     (.traceeDomainId, word64 en (membershipId event.traceeDomain)),
     (.traceePid, word32 en event.traceePid.value),
     (.traceeComm, readStr event.traceeComm.bytes)]
  | .denyScopeSignal event => fillDenyHeader en event.context ++
    [(.blockersAccess, word64 en 0),
     (.sameExec, boolean event.context.sameExec),
     (.logged, boolean event.context.logged),
     (.targetDomainId, word64 en (membershipId event.targetDomain)),
     (.targetPid, word32 en event.targetPid.value),
     (.targetComm, readStr event.targetComm.bytes)]
  | .denyScopeAbstractUnixSocket event =>
    -- The name is captured first, since a failure discards the record
    [(.abstractName, event.abstractName.bytes),
     (.abstractNameLen, word32 en (UInt32.ofNat event.abstractName.bytes.length))] ++
    fillDenyHeader en event.context ++
    [(.blockersAccess, word64 en 0),
     (.sameExec, boolean event.context.sameExec),
     (.logged, boolean event.context.logged),
     (.peerDomainId, word64 en (membershipId event.peerDomain)),
     (.peerPid, word32 en (optionalPid event.peerPid))]
  | .freeDomain event =>
    [(.domainId, word64 en event.domainId.value), (.denials, word64 en event.denialCount)]
  | .freeRuleset event =>
    [(.rulesetId, word64 en event.rulesetId.value),
     (.rulesetVersion, word64 en event.rulesetVersion)]
  | .enforceDomain event =>
    [(.domainId, word64 en event.domainId.value),
     (.enforcingTid, word32 en event.enforcingTid.value),
     (.complete, boolean event.complete),
     (.processWide, boolean event.processWide),
     (.noNewPrivs, boolean event.noNewPrivs)]

end Landlock.Producer

namespace Landlock

/-- The kind a record of an event has. -/
def Event.kind : Event → Wire.EventKind
  | .createRuleset _ => .createRuleset
  | .addRulePathBeneath _ => .addRulePathBeneath
  | .addRuleNetPort _ => .addRuleNetPort
  | .createDomain _ => .createDomain
  | .denyAccessFs _ => .denyAccessFs
  | .denyAccessNet _ => .denyAccessNet
  | .denyPtrace _ => .denyPtrace
  | .denyScopeSignal _ => .denyScopeSignal
  | .denyScopeAbstractUnixSocket _ => .denyScopeAbstractUnixSocket
  | .freeDomain _ => .freeDomain
  | .freeRuleset _ => .freeRuleset
  | .enforceDomain _ => .enforceDomain

namespace Producer

/-- All stores of the handler of an event's kind. -/
def stores (en : Endian) (event : Event) : List (Member × List UInt8) :=
  (.timestampNs, word64 en event.timestamp.nanoseconds) :: (.type, [event.kind.value]) ::
    handlerStores en event

/-- The record a handler submits: the zeroed record of `alloc_event`, filled. -/
def encode (en : Endian) (event : Event) : List UInt8 :=
  Layout.fill (slots event.kind) (List.replicate sizeOf 0) (stores en event)

end Producer

end Landlock
