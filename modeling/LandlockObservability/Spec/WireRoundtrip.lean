import LandlockObservability.Spec.WireValidity

/-!
# Producer and decoder agree

`Event.fields` says which bytes each member of a record starts with when the record
is about a given event.  `decode` returns an event exactly for the records that hold
these bytes, at the offsets the C layout gives the members, and the record that the
producer submits holds them.  Hence decoding inverts encoding, and only the bytes
counted in `Event.semanticMembers` influence what is decoded.

## Key results

- `decode_eq_ok_iff`: the records that decode to an event
- `holds_encode`: the producer's record holds the bytes of its event
- `producer_decoder_agree`: the round trip, and what the other bytes do
-/

namespace Landlock

open Bytes Except Layout Producer

/-! ## The bytes of an event -/

/-- The members every denial has, with the bytes they start with. -/
def DenialContext.fields (en : Endian) (context : DenialContext) : List (Member × List UInt8) :=
  [(.domainId, word64 en context.hierarchy.domainId.value),
   (.parentId, word64 en (optionalId context.hierarchy.parentId)),
   (.creatorTgid, word32 en context.hierarchy.creatorTgid.value),
   (.creatorComm, context.hierarchy.creatorComm.bytes ++ [0]),
   (.numDenials, word64 en context.cumulativeDenialCount),
   (.sameExec, boolean context.sameExec),
   (.logged, boolean context.logged)]

/-- The members of an event's variant that are read, with the bytes they start with. -/
def Event.variantFields (en : Endian) : Event → List (Member × List UInt8)
  | .createRuleset event =>
    [(.rulesetId, word64 en event.rulesetId.value),
     (.rulesetVersion, word64 en event.rulesetVersion),
     (.handledFs, word64 en event.handledFs.bits),
     (.handledNet, word64 en event.handledNet.bits),
     (.scopedAccess, word64 en event.scopedAccess.bits)]
  | .addRulePathBeneath event =>
    [(.rulesetId, word64 en event.rulesetId.value),
     (.rulesetVersion, word64 en event.rulesetVersion),
     (.accessRights, word64 en event.accessRights.bits),
     (.dev, word32 en event.device),
     (.ino, word64 en event.inode),
     (.pathnameBytesOmitted, boolean event.pathname.bytesOmitted),
     (.pathname, Wire.pathBytes event.pathname)]
  | .addRuleNetPort event =>
    [(.rulesetId, word64 en event.rulesetId.value),
     (.rulesetVersion, word64 en event.rulesetVersion),
     (.accessRights, word64 en event.accessRights.bits),
     (.port, word64 en event.port)]
  | .createDomain event =>
    [(.rulesetId, word64 en event.rulesetId.value),
     (.rulesetVersion, word64 en event.rulesetVersion),
     (.domainId, word64 en event.domainId.value),
     (.parentId, word64 en (optionalId event.parentId)),
     (.creatorTgid, word32 en event.creatorTgid.value),
     (.creatorComm, event.creatorComm.bytes ++ [0])]
  | .denyAccessFs event => event.context.fields en ++
    [(.blockersType, word32 en event.blockersType.raw),
     (.blockersAccess, word64 en event.blockersAccess.bits),
     (.dev, word32 en event.device),
     (.ino, word64 en event.inode),
     (.pathnameBytesOmitted, boolean event.pathname.bytesOmitted),
     (.pathname, Wire.pathBytes event.pathname)]
  | .denyAccessNet event => event.context.fields en ++
    [(.blockersType, word32 en event.blockersType.raw),
     (.blockersAccess, word64 en event.blockersAccess.bits),
     (.sport, word64 en event.sourcePort),
     (.dport, word64 en event.destinationPort)]
  | .denyPtrace event => event.context.fields en ++
    [(.traceeDomainId, word64 en (membershipId event.traceeDomain)),
     (.traceePid, word32 en event.traceePid.value),
     (.traceeComm, event.traceeComm.bytes ++ [0])]
  | .denyScopeSignal event => event.context.fields en ++
    [(.targetDomainId, word64 en (membershipId event.targetDomain)),
     (.targetPid, word32 en event.targetPid.value),
     (.targetComm, event.targetComm.bytes ++ [0])]
  | .denyScopeAbstractUnixSocket event => event.context.fields en ++
    [(.peerDomainId, word64 en (membershipId event.peerDomain)),
     (.peerPid, word32 en (optionalPid event.peerPid)),
     (.abstractNameLen, ofWord en 4 event.abstractName.bytes.length),
     (.abstractName, event.abstractName.bytes)]
  | .freeDomain event =>
    [(.domainId, word64 en event.domainId.value), (.denials, word64 en event.denialCount)]
  | .freeRuleset event =>
    [(.rulesetId, word64 en event.rulesetId.value),
     (.rulesetVersion, word64 en event.rulesetVersion)]
  | .enforceDomain event =>
    [(.domainId, word64 en event.domainId.value),
     (.enforcingTid, word32 en event.enforcingTid.value),
     (.complete, boolean event.complete),
     (.processWide, boolean event.processWide),
     (.noNewPrivs, boolean event.noNewPrivs)]

/-- All members of an event's record that are read. -/
def Event.fields (en : Endian) (event : Event) : List (Member × List UInt8) :=
  (.timestampNs, word64 en event.timestamp.nanoseconds) :: (.type, [event.kind.value]) ::
    event.variantFields en

/-- The offset of a member in a record of a kind. -/
def memberOffset (kind : Wire.EventKind) (member : Member) : Nat :=
  ((slotOf (slots kind) member).map Slot.offset).getD 0

/-- A record holds the given bytes at the start of the given members. -/
def Holds (data : List UInt8) (kind : Wire.EventKind) (fields : List (Member × List UInt8)) :
    Prop :=
  ∀ f ∈ fields, HasAt data (memberOffset kind f.1) f.2

/-- A record holds a list of members one by one. -/
private theorem holds_cons {data : List UInt8} {kind : Wire.EventKind} {m : Member}
    {bs : List UInt8}
    {fields : List (Member × List UInt8)} :
    Holds data kind ((m, bs) :: fields) ↔
      HasAt data (memberOffset kind m) bs ∧ Holds data kind fields :=
  List.forall_mem_cons

/-- Nothing has to be held. -/
private theorem holds_nil {data : List UInt8} {kind : Wire.EventKind} : Holds data kind [] :=
  nofun

/-- A record holds two lists of members one after the other. -/
private theorem holds_append {data : List UInt8} {kind : Wire.EventKind}
    {fields fields' : List (Member × List UInt8)} :
    Holds data kind (fields ++ fields') ↔ Holds data kind fields ∧ Holds data kind fields' :=
  List.forall_mem_append

namespace Wire

/-! ## The arms of `decode` -/

section Arms

variable (en : Endian) {data : List UInt8} (hd : data.length = recordSize)
  (timestamp : KernelTimestamp)
include hd

/-- A word that is read is the word whose bytes are held. -/
private theorem u64_eq_word {offset : Nat} (h : offset + 8 ≤ recordSize) {v : UInt64} :
    u64 en data offset = v ↔ HasAt data offset (word64 en v) :=
  u64_eq_iff hd en h

/-- So it is with a word of four bytes. -/
private theorem u32_eq_word {offset : Nat} (h : offset + 4 ≤ recordSize) {v : UInt32} :
    u32 en data offset = v ↔ HasAt data offset (word32 en v) :=
  u32_eq_iff hd en h

/-- When the arm of a created ruleset returns an event. -/
private theorem createRulesetAt_eq_ok_iff {event : CreateRulesetEvent} :
    createRulesetAt en data timestamp = .ok event ↔ event.timestamp = timestamp ∧
      Holds data .createRuleset (Event.variantFields en (.createRuleset event)) := by
  rcases event with ⟨t, rulesetId, version, ⟨fs⟩, ⟨net⟩, ⟨scope⟩⟩
  simp +decide only [createRulesetAt, u64At_eq hd, ok_bind, bind_eq_ok_iff, pure_eq_ok_iff,
    id_eq_ok_iff, u64_eq_word en hd, AccessMask.mk.injEq, CreateRulesetEvent.mk.injEq,
    Event.variantFields, holds_cons, holds_nil]
  simp +ground only
  constructor
  -- Both sides now list the same members; the layout gave the offsets by computation
  · rintro ⟨_, hid, rfl, rfl, hversion, hfs, hnet, hscope⟩
    exact ⟨rfl, hid, hversion, hfs, hnet, hscope, trivial⟩
  · rintro ⟨rfl, hid, hversion, hfs, hnet, hscope, -⟩
    exact ⟨_, hid, rfl, rfl, hversion, hfs, hnet, hscope⟩

/-- When the arm of a filesystem rule returns an event. -/
private theorem addRulePathBeneathAt_eq_ok_iff {event : AddRulePathBeneathEvent} :
    addRulePathBeneathAt en data timestamp = .ok event ↔ event.timestamp = timestamp ∧
      Holds data .addRulePathBeneath (Event.variantFields en (.addRulePathBeneath event)) := by
  rcases event with ⟨t, rulesetId, version, ⟨access⟩, device, inode, path⟩
  simp +decide only [addRulePathBeneathAt, u64At_eq hd, u32At_eq hd, ok_bind, bind_eq_ok_iff,
    pure_eq_ok_iff, id_eq_ok_iff, u64_eq_word en hd, u32_eq_word en hd, capturedAt_eq_ok_iff hd,
    AccessMask.mk.injEq, AddRulePathBeneathEvent.mk.injEq, Event.variantFields, holds_cons,
    holds_nil]
  simp +ground only
  -- The flag and the bytes of the path are read together
  constructor
  · rintro ⟨_, hid, _, hpath, rfl, rfl, hversion, haccess, hdevice, hinode, rfl⟩
    exact ⟨rfl, hid, hversion, haccess, hdevice, hinode, hpath.1, hpath.2, trivial⟩
  · rintro ⟨rfl, hid, hversion, haccess, hdevice, hinode, homitted, hpath, -⟩
    exact ⟨_, hid, _, ⟨homitted, hpath⟩, rfl, rfl, hversion, haccess, hdevice, hinode, rfl⟩

/-- When the arm of a network rule returns an event. -/
private theorem addRuleNetPortAt_eq_ok_iff {event : AddRuleNetPortEvent} :
    addRuleNetPortAt en data timestamp = .ok event ↔ event.timestamp = timestamp ∧
      Holds data .addRuleNetPort (Event.variantFields en (.addRuleNetPort event)) := by
  rcases event with ⟨t, rulesetId, version, ⟨access⟩, port⟩
  simp +decide only [addRuleNetPortAt, u64At_eq hd, ok_bind, bind_eq_ok_iff, pure_eq_ok_iff,
    id_eq_ok_iff, u64_eq_word en hd, AccessMask.mk.injEq, AddRuleNetPortEvent.mk.injEq,
    Event.variantFields, holds_cons, holds_nil]
  simp +ground only
  constructor
  · rintro ⟨_, hid, rfl, rfl, hversion, haccess, hport⟩
    exact ⟨rfl, hid, hversion, haccess, hport, trivial⟩
  · rintro ⟨rfl, hid, hversion, haccess, hport, -⟩
    exact ⟨_, hid, rfl, rfl, hversion, haccess, hport⟩

/-- When the arm of a created domain returns an event. -/
private theorem createDomainAt_eq_ok_iff {event : CreateDomainEvent} :
    createDomainAt en data timestamp = .ok event ↔ event.timestamp = timestamp ∧
      Holds data .createDomain (Event.variantFields en (.createDomain event)) := by
  rcases event with ⟨t, rulesetId, version, domainId, parentId, tgid, comm⟩
  simp +decide only [createDomainAt, u64At_eq hd, u32At_eq hd, ok_bind, bind_eq_ok_iff,
    pure_eq_ok_iff, id_eq_ok_iff, parent_eq_ok_iff, processId, taskId_eq_ok_iff,
    commandAt_eq_ok_iff hd, u64_eq_word en hd, u32_eq_word en hd, CreateDomainEvent.mk.injEq,
    Event.variantFields, holds_cons, holds_nil]
  simp +ground only
  -- The identifiers are not zero, and the others are read as they are
  constructor
  · rintro ⟨_, hruleset, _, hid, _, hparent, _, htgid, _, hcomm, rfl, rfl, hversion, rfl, rfl,
      rfl, rfl⟩
    exact ⟨rfl, hruleset, hversion, hid, hparent, htgid, hcomm, trivial⟩
  · rintro ⟨rfl, hruleset, hversion, hid, hparent, htgid, hcomm, -⟩
    exact ⟨_, hruleset, _, hid, _, hparent, _, htgid, _, hcomm, rfl, rfl, hversion, rfl, rfl, rfl,
      rfl⟩

/-- The header of a denial holds its context. -/
private theorem denialContext_eq_ok_iff {context : DenialContext} :
    denialContext en data = .ok context ↔
      HasAt data 16 (word64 en context.hierarchy.domainId.value) ∧
      HasAt data 24 (word64 en (optionalId context.hierarchy.parentId)) ∧
      HasAt data 32 (word32 en context.hierarchy.creatorTgid.value) ∧
      HasAt data 36 (context.hierarchy.creatorComm.bytes ++ [0]) ∧
      HasAt data 56 (word64 en context.cumulativeDenialCount) ∧
      HasAt data 72 (boolean context.sameExec) ∧ HasAt data 73 (boolean context.logged) := by
  rcases context with ⟨⟨domainId, parentId, tgid, comm⟩, count, sameExec, logged⟩
  simp +decide only [denialContext, unionOffset, u64At_eq hd, u32At_eq hd, ok_bind, bind_eq_ok_iff,
    pure_eq_ok_iff, id_eq_ok_iff, parent_eq_ok_iff, processId, taskId_eq_ok_iff,
    commandAt_eq_ok_iff hd, booleanAt_eq_ok_iff, u64_eq_word en hd, u32_eq_word en hd,
    DenialContext.mk.injEq, HierarchySnapshot.mk.injEq]
  -- The reads of the header, in the order of the source, give the members of the context
  constructor
  · rintro ⟨_, hid, _, hparent, _, htgid, _, hcomm, _, hexec, _, hlogged, ⟨rfl, rfl, rfl, rfl⟩,
      hcount, rfl, rfl⟩
    exact ⟨hid, hparent, htgid, hcomm, hcount, hexec, hlogged⟩
  · rintro ⟨hid, hparent, htgid, hcomm, hcount, hexec, hlogged⟩
    exact ⟨_, hid, _, hparent, _, htgid, _, hcomm, _, hexec, _, hlogged, ⟨rfl, rfl, rfl, rfl⟩,
      hcount, rfl, rfl⟩

omit hd in
/-- All denials keep their context at the same offsets. -/
private theorem holds_context {kind : EventKind} {context : DenialContext}
    (hkind : kind ∈ [EventKind.denyAccessFs, .denyAccessNet, .denyPtrace, .denyScopeSignal,
      .denyScopeAbstractUnixSocket]) :
    Holds data kind (context.fields en) ↔
      HasAt data 16 (word64 en context.hierarchy.domainId.value) ∧
      HasAt data 24 (word64 en (optionalId context.hierarchy.parentId)) ∧
      HasAt data 32 (word32 en context.hierarchy.creatorTgid.value) ∧
      HasAt data 36 (context.hierarchy.creatorComm.bytes ++ [0]) ∧
      HasAt data 56 (word64 en context.cumulativeDenialCount) ∧
      HasAt data 72 (boolean context.sameExec) ∧ HasAt data 73 (boolean context.logged) := by
  simp only [List.mem_cons, List.not_mem_nil, or_false] at hkind
  simp only [DenialContext.fields, holds_cons, holds_nil, and_true]
  rcases hkind with rfl | rfl | rfl | rfl | rfl <;> exact Iff.rfl

/-- When the header of a denial returns a context. -/
private theorem denialContext_eq_ok_iff_holds {kind : EventKind} {context : DenialContext}
    (hkind : kind ∈ [EventKind.denyAccessFs, .denyAccessNet, .denyPtrace, .denyScopeSignal,
      .denyScopeAbstractUnixSocket]) :
    denialContext en data = .ok context ↔ Holds data kind (context.fields en) :=
  (denialContext_eq_ok_iff en hd).trans (holds_context en hkind).symm

/-- When the arm of a filesystem denial returns an event. -/
private theorem denyAccessFsAt_eq_ok_iff {event : DenyAccessFsEvent} :
    denyAccessFsAt en data timestamp = .ok event ↔ event.timestamp = timestamp ∧
      Holds data .denyAccessFs (Event.variantFields en (.denyAccessFs event)) := by
  rcases event with ⟨t, context, ⟨type⟩, ⟨access⟩, device, inode, path⟩
  -- The header is read first, and the members of the variant after it
  rw [Event.variantFields, holds_append,
    ← denialContext_eq_ok_iff_holds en hd (by decide)]
  simp +decide only [denyAccessFsAt, u64At_eq hd, u32At_eq hd, ok_bind, bind_eq_ok_iff,
    pure_eq_ok_iff, u64_eq_word en hd, u32_eq_word en hd, capturedAt_eq_ok_iff hd,
    AccessMask.mk.injEq, BlockerType.mk.injEq, DenyAccessFsEvent.mk.injEq, holds_cons, holds_nil]
  simp +ground only
  constructor
  · rintro ⟨_, hcontext, _, hpath, rfl, rfl, htype, haccess, hdevice, hinode, rfl⟩
    exact ⟨rfl, hcontext, htype, haccess, hdevice, hinode, hpath.1, hpath.2, trivial⟩
  · rintro ⟨rfl, hcontext, htype, haccess, hdevice, hinode, homitted, hpath, -⟩
    exact ⟨_, hcontext, _, ⟨homitted, hpath⟩, rfl, rfl, htype, haccess, hdevice, hinode, rfl⟩

/-- When the arm of a network denial returns an event. -/
private theorem denyAccessNetAt_eq_ok_iff {event : DenyAccessNetEvent} :
    denyAccessNetAt en data timestamp = .ok event ↔ event.timestamp = timestamp ∧
      Holds data .denyAccessNet (Event.variantFields en (.denyAccessNet event)) := by
  rcases event with ⟨t, context, ⟨type⟩, ⟨access⟩, sourcePort, destinationPort⟩
  rw [Event.variantFields, holds_append,
    ← denialContext_eq_ok_iff_holds en hd (by decide)]
  simp +decide only [denyAccessNetAt, u64At_eq hd, u32At_eq hd, ok_bind, bind_eq_ok_iff,
    pure_eq_ok_iff, u64_eq_word en hd, u32_eq_word en hd, AccessMask.mk.injEq, BlockerType.mk.injEq,
    DenyAccessNetEvent.mk.injEq, holds_cons, holds_nil]
  simp +ground only
  constructor
  · rintro ⟨_, hcontext, rfl, rfl, htype, haccess, hsource, hdestination⟩
    exact ⟨rfl, hcontext, htype, haccess, hsource, hdestination, trivial⟩
  · rintro ⟨rfl, hcontext, htype, haccess, hsource, hdestination, -⟩
    exact ⟨_, hcontext, rfl, rfl, htype, haccess, hsource, hdestination⟩

/-- When the arm of a ptrace denial returns an event. -/
private theorem denyPtraceAt_eq_ok_iff {event : DenyPtraceEvent} :
    denyPtraceAt en data timestamp = .ok event ↔ event.timestamp = timestamp ∧
      Holds data .denyPtrace (Event.variantFields en (.denyPtrace event)) := by
  rcases event with ⟨t, context, domain, pid, comm⟩
  rw [Event.variantFields, holds_append,
    ← denialContext_eq_ok_iff_holds en hd (by decide)]
  -- The arm reads the fields one by one
  simp +decide only [denyPtraceAt, u64At_eq hd, u32At_eq hd, ok_bind, bind_eq_ok_iff,
    pure_eq_ok_iff, domainMembership_eq_ok_iff, processId, taskId_eq_ok_iff, commandAt_eq_ok_iff hd,
    u64_eq_word en hd, u32_eq_word en hd, DenyPtraceEvent.mk.injEq, holds_cons, holds_nil]
  simp +ground only
  constructor
  · rintro ⟨_, hcontext, _, hdomain, _, hpid, _, hcomm, rfl, rfl, rfl, rfl, rfl⟩
    exact ⟨rfl, hcontext, hdomain, hpid, hcomm, trivial⟩
  · rintro ⟨rfl, hcontext, hdomain, hpid, hcomm, -⟩
    exact ⟨_, hcontext, _, hdomain, _, hpid, _, hcomm, rfl, rfl, rfl, rfl, rfl⟩

/-- When the arm of a signal denial returns an event. -/
private theorem denyScopeSignalAt_eq_ok_iff {event : DenyScopeSignalEvent} :
    denyScopeSignalAt en data timestamp = .ok event ↔ event.timestamp = timestamp ∧
      Holds data .denyScopeSignal (Event.variantFields en (.denyScopeSignal event)) := by
  rcases event with ⟨t, context, domain, pid, comm⟩
  rw [Event.variantFields, holds_append,
    ← denialContext_eq_ok_iff_holds en hd (by decide)]
  -- The same fields, under the names of the signal
  simp +decide only [denyScopeSignalAt, u64At_eq hd, u32At_eq hd, ok_bind, bind_eq_ok_iff,
    pure_eq_ok_iff, domainMembership_eq_ok_iff, processId, taskId_eq_ok_iff, commandAt_eq_ok_iff hd,
    u64_eq_word en hd, u32_eq_word en hd, DenyScopeSignalEvent.mk.injEq, holds_cons, holds_nil]
  simp +ground only
  constructor
  · rintro ⟨_, hcontext, _, hdomain, _, hpid, _, hcomm, rfl, rfl, rfl, rfl, rfl⟩
    exact ⟨rfl, hcontext, hdomain, hpid, hcomm, trivial⟩
  · rintro ⟨rfl, hcontext, hdomain, hpid, hcomm, -⟩
    exact ⟨_, hcontext, _, hdomain, _, hpid, _, hcomm, rfl, rfl, rfl, rfl, rfl⟩

/-- When the arm of a socket denial returns an event. -/
private theorem denyScopeAbstractUnixSocketAt_eq_ok_iff {event : DenyScopeAbstractUnixSocketEvent} :
    denyScopeAbstractUnixSocketAt en data timestamp = .ok event ↔ event.timestamp = timestamp ∧
      Holds data .denyScopeAbstractUnixSocket
        (Event.variantFields en (.denyScopeAbstractUnixSocket event)) := by
  rcases event with ⟨t, context, domain, pid, name⟩
  rw [Event.variantFields, holds_append,
    ← denialContext_eq_ok_iff_holds en hd (by decide)]
  simp +decide only [denyScopeAbstractUnixSocketAt, u64At_eq hd, u32At_eq hd, ok_bind,
    bind_eq_ok_iff, pure_eq_ok_iff, domainMembership_eq_ok_iff, optionalProcessId_eq_iff,
    abstractUnixSocketNameAt_eq_ok_iff hd, u64_eq_word en hd, u32_eq_word en hd,
    DenyScopeAbstractUnixSocketEvent.mk.injEq, holds_cons, holds_nil]
  simp +ground only
  -- The name has a length of its own, which says how much of the member is read
  constructor
  · rintro ⟨_, hcontext, _, hdomain, _, hname, rfl, rfl, rfl, hpid, rfl⟩
    exact ⟨rfl, hcontext, hdomain, hpid, hname.1, hname.2, trivial⟩
  · rintro ⟨rfl, hcontext, hdomain, hpid, hlength, hname, -⟩
    exact ⟨_, hcontext, _, hdomain, _, ⟨hlength, hname⟩, rfl, rfl, rfl, hpid, rfl⟩

/-- When the arm of a freed domain returns an event. -/
private theorem freeDomainAt_eq_ok_iff {event : FreeDomainEvent} :
    freeDomainAt en data timestamp = .ok event ↔ event.timestamp = timestamp ∧
      Holds data .freeDomain (Event.variantFields en (.freeDomain event)) := by
  rcases event with ⟨t, domainId, count⟩
  simp +decide only [freeDomainAt, u64At_eq hd, ok_bind, bind_eq_ok_iff, pure_eq_ok_iff,
    id_eq_ok_iff, u64_eq_word en hd, FreeDomainEvent.mk.injEq, Event.variantFields, holds_cons,
    holds_nil]
  simp +ground only
  constructor
  · rintro ⟨_, hid, rfl, rfl, hcount⟩
    exact ⟨rfl, hid, hcount, trivial⟩
  · rintro ⟨rfl, hid, hcount, -⟩
    exact ⟨_, hid, rfl, rfl, hcount⟩

/-- When the arm of a freed ruleset returns an event. -/
private theorem freeRulesetAt_eq_ok_iff {event : FreeRulesetEvent} :
    freeRulesetAt en data timestamp = .ok event ↔ event.timestamp = timestamp ∧
      Holds data .freeRuleset (Event.variantFields en (.freeRuleset event)) := by
  rcases event with ⟨t, rulesetId, version⟩
  simp +decide only [freeRulesetAt, u64At_eq hd, ok_bind, bind_eq_ok_iff, pure_eq_ok_iff,
    id_eq_ok_iff, u64_eq_word en hd, FreeRulesetEvent.mk.injEq, Event.variantFields, holds_cons,
    holds_nil]
  simp +ground only
  constructor
  · rintro ⟨_, hid, rfl, rfl, hversion⟩
    exact ⟨rfl, hid, hversion, trivial⟩
  · rintro ⟨rfl, hid, hversion, -⟩
    exact ⟨_, hid, rfl, rfl, hversion⟩

/-- When the arm of an enforcement returns an event. -/
private theorem enforceDomainAt_eq_ok_iff {event : EnforceDomainEvent} :
    enforceDomainAt en data timestamp = .ok event ↔ event.timestamp = timestamp ∧
      Holds data .enforceDomain (Event.variantFields en (.enforceDomain event)) := by
  rcases event with ⟨t, domainId, tid, complete, processWide, noNewPrivs⟩
  simp +decide only [enforceDomainAt, u64At_eq hd, u32At_eq hd, ok_bind, bind_eq_ok_iff,
    pure_eq_ok_iff, id_eq_ok_iff, threadId, taskId_eq_ok_iff, booleanAt_eq_ok_iff,
    u64_eq_word en hd, u32_eq_word en hd, EnforceDomainEvent.mk.injEq, Event.variantFields,
    holds_cons, holds_nil]
  simp +ground only
  constructor
  · rintro ⟨_, hid, _, htid, _, hcomplete, _, hwide, _, hprivs, rfl, rfl, rfl, rfl, rfl, rfl⟩
    exact ⟨rfl, hid, htid, hcomplete, hwide, hprivs, trivial⟩
  · rintro ⟨rfl, hid, htid, hcomplete, hwide, hprivs, -⟩
    exact ⟨_, hid, _, htid, _, hcomplete, _, hwide, _, hprivs, rfl, rfl, rfl, rfl, rfl, rfl⟩

/-- The arm of an event's kind returns it exactly when its members are held. -/
private theorem eventAt_eq_ok_iff (event : Event) :
    eventAt en data timestamp event.kind = .ok event ↔
      event.timestamp = timestamp ∧ Holds data event.kind (event.variantFields en) := by
  -- An arm wraps the record it reads, so that it is enough to know when the record is read
  cases event with
  | createRuleset event =>
    exact (map_eq_ok_iff_of_injective fun _ _ => Event.createRuleset.inj).trans
      (createRulesetAt_eq_ok_iff en hd timestamp)
  | addRulePathBeneath event =>
    exact (map_eq_ok_iff_of_injective fun _ _ => Event.addRulePathBeneath.inj).trans
      (addRulePathBeneathAt_eq_ok_iff en hd timestamp)
  | addRuleNetPort event =>
    exact (map_eq_ok_iff_of_injective fun _ _ => Event.addRuleNetPort.inj).trans
      (addRuleNetPortAt_eq_ok_iff en hd timestamp)
  | createDomain event =>
    exact (map_eq_ok_iff_of_injective fun _ _ => Event.createDomain.inj).trans
      (createDomainAt_eq_ok_iff en hd timestamp)
  | denyAccessFs event =>
    exact (map_eq_ok_iff_of_injective fun _ _ => Event.denyAccessFs.inj).trans
      (denyAccessFsAt_eq_ok_iff en hd timestamp)
  | denyAccessNet event =>
    exact (map_eq_ok_iff_of_injective fun _ _ => Event.denyAccessNet.inj).trans
      (denyAccessNetAt_eq_ok_iff en hd timestamp)
  | denyPtrace event =>
    exact (map_eq_ok_iff_of_injective fun _ _ => Event.denyPtrace.inj).trans
      (denyPtraceAt_eq_ok_iff en hd timestamp)
  | denyScopeSignal event =>
    exact (map_eq_ok_iff_of_injective fun _ _ => Event.denyScopeSignal.inj).trans
      (denyScopeSignalAt_eq_ok_iff en hd timestamp)
  | denyScopeAbstractUnixSocket event =>
    exact (map_eq_ok_iff_of_injective fun _ _ => Event.denyScopeAbstractUnixSocket.inj).trans
      (denyScopeAbstractUnixSocketAt_eq_ok_iff en hd timestamp)
  | freeDomain event =>
    exact (map_eq_ok_iff_of_injective fun _ _ => Event.freeDomain.inj).trans
      (freeDomainAt_eq_ok_iff en hd timestamp)
  | freeRuleset event =>
    exact (map_eq_ok_iff_of_injective fun _ _ => Event.freeRuleset.inj).trans
      (freeRulesetAt_eq_ok_iff en hd timestamp)
  | enforceDomain event =>
    exact (map_eq_ok_iff_of_injective fun _ _ => Event.enforceDomain.inj).trans
      (enforceDomainAt_eq_ok_iff en hd timestamp)

omit hd in
/-- An arm only returns events of its kind. -/
private theorem kind_of_eventAt {kind : EventKind} {event : Event}
    (h : eventAt en data timestamp kind = .ok event) : event.kind = kind := by
  cases kind <;> obtain ⟨_, _, rfl⟩ := map_eq_ok_iff.mp h <;> rfl

end Arms

/-- The list of the kinds has all of them. -/
theorem EventKind.mem_all (kind : EventKind) : kind ∈ EventKind.all := by
  cases kind <;> decide

/-- The records that decode to an event: those that hold its bytes. -/
theorem decode_eq_ok_iff (en : Endian) {data : List UInt8} {event : Event} :
    decode en data = .ok event ↔
      data.length = recordSize ∧ Holds data event.kind (event.fields en) := by
  by_cases hd : data.length = recordSize
  · obtain ⟨byte, hbyte, hdecode⟩ := decode_of_length en hd
    -- The timestamp and the type are read before the arm is chosen
    have htime : u64 en data timestampOffset = event.timestamp.nanoseconds ↔
        HasAt data (memberOffset event.kind .timestampNs)
          (word64 en event.timestamp.nanoseconds) := by
      rw [u64_eq_word en hd (by decide)]
      cases event <;> exact Iff.rfl
    have htype : HasAt data (memberOffset event.kind .type) [event.kind.value] ↔
        byte = event.kind.value := by
      have hoffset : memberOffset event.kind .type = 8 := by cases event <;> rfl
      rw [hoffset, hasAt_singleton, hbyte, Option.some.injEq]
    rw [Event.fields, holds_cons, holds_cons, htype, ← htime, hdecode]
    constructor
    · intro h
      cases hkind : EventKind.ofValue byte with
      | none =>
        rw [hkind] at h
        cases h
      | some kind =>
        rw [hkind] at h
        obtain ⟨_, rfl⟩ := EventKind.ofValue_eq_some_iff.mp hkind
        -- The arm that was taken is the one of the event's kind
        obtain rfl := kind_of_eventAt en _ h
        obtain ⟨ht, hholds⟩ := (eventAt_eq_ok_iff en hd _ event).mp h
        exact ⟨hd, by rw [ht], rfl, hholds⟩
    · rintro ⟨_, ht, rfl, hholds⟩
      rw [EventKind.ofValue_eq_some_iff.mpr ⟨EventKind.mem_all _, rfl⟩]
      refine (eventAt_eq_ok_iff en hd _ event).mpr ⟨?_, hholds⟩
      rw [ht]
  · have hdecode : decode en data = .error (.length recordSize data.length) := if_pos hd
    rw [hdecode]
    exact ⟨nofun, fun h => absurd h.1 hd⟩

end Wire

/-! ## The producer's record -/

namespace Producer

variable (en : Endian)

/-- A command fits its member, so its copy ends with a NUL. -/
private theorem readStr_command (comm : CapturedCommand) :
    readStr comm.bytes = comm.bytes ++ [0] := by
  have hle : comm.bytes.length ≤ 15 := comm.lengthLe
  rw [readStr, List.take_of_length_le hle]

/-- The member of a command starts with the command and a NUL. -/
private theorem prefix_currentComm (comm : CapturedCommand) :
    comm.bytes ++ [0] <+: currentComm comm.bytes := by
  rw [currentComm, readStr_command]
  exact List.prefix_append _ _

/-- It is as long as the kernel's. -/
private theorem length_currentComm (comm : CapturedCommand) :
    (currentComm comm.bytes).length = 16 := by
  have hle : comm.bytes.length ≤ 15 := comm.lengthLe
  rw [currentComm, readStr_command]
  simp only [List.length_append, List.length_replicate, List.length_singleton]
  omega

/-- A path fills its member. -/
theorem length_pathname (path : CapturedPath) : (pathname path).length = 256 := by
  have hle : path.bytes.length ≤ 256 := path.lengthLe
  rw [pathname, List.length_append, List.length_replicate]
  omega

/-- The member of a path starts with the bytes that the decoder reads. -/
theorem prefix_pathname (path : CapturedPath) :
    Wire.pathBytes path <+: pathname path := by
  have hle : path.bytes.length ≤ 256 := path.lengthLe
  rw [Wire.pathBytes, pathname]
  -- A path that fills the member has no NUL after it
  by_cases hlt : path.bytes.length < Wire.pathSize
  · rw [if_pos hlt, List.prefix_append_right_inj]
    obtain ⟨n, hn⟩ : ∃ n, 256 - path.bytes.length = n + 1 := by
      have : path.bytes.length < 256 := hlt
      exact ⟨255 - path.bytes.length, by omega⟩
    rw [hn, List.replicate_succ]
    exact ⟨List.replicate n 0, rfl⟩
  · rw [if_neg hlt]
    exact List.prefix_append _ _

@[simp] theorem length_word64 (v : UInt64) : (word64 en v).length = 8 := length_ofWord _ _ _

@[simp] theorem length_word32 (v : UInt32) : (word32 en v).length = 4 := length_ofWord _ _ _

@[simp] theorem length_boolean (b : Bool) : (boolean b).length = 1 := by
  cases b <;> rfl

/-- A string that is read fits a command, its NUL included. -/
theorem length_readStr_le (source : List UInt8) : (readStr source).length ≤ 16 := by
  rw [readStr, List.length_append, List.length_take, List.length_singleton]
  omega

/-- A name fits its member. -/
private theorem length_abstractName_le (name : CapturedAbstractUnixSocketName) :
    name.bytes.length ≤ 107 := name.lengthLe

/-- The size of a member that is stored into, in every variant that has it. -/
def memberSize : Member → Nat
  | .pad | .unionPad | .inoPad | .countPad | .variantPad | .tailPad => 0
  | .type | .pathnameBytesOmitted | .complete | .processWide | .noNewPrivs | .sameExec
  | .logged => 1
  | .dev | .creatorTgid | .enforcingTid | .blockersType | .traceePid | .targetPid | .peerPid
  | .abstractNameLen => 4
  | .creatorComm | .traceeComm | .targetComm => 16
  | .abstractName => 107
  | .pathname => 256
  | .timestampNs | .rulesetId | .rulesetVersion | .handledFs | .handledNet | .scopedAccess
  | .accessRights | .ino | .port | .domainId | .parentId | .numDenials | .blockersAccess | .sport
  | .dport | .traceeDomainId | .targetDomainId | .peerDomainId | .denials => 8

/-- The members of every variant have room for what is stored. -/
private theorem memberSize_le (kind : Wire.EventKind) :
    ∀ m ∈ members kind, memberSize m.1 ≤ m.2.size := by
  cases kind <;> decide

/-- Stores fit a record when each is of a member and no longer than it. -/
theorem fits_of_memberSize {kind : Wire.EventKind} {as : List (Member × List UInt8)}
    (hnames : ∀ name ∈ as.map Prod.fst, name ∈ (members kind).map Prod.fst)
    (hsizes : ∀ a ∈ as, a.2.length ≤ memberSize a.1) : ∀ a ∈ as, Fits (slots kind) a := by
  intro a ha
  obtain ⟨slot, hslot, m, hm, hname, hsize⟩ :=
    exists_slotOf_place 0 (hnames a.1 (List.mem_map_of_mem ha))
  refine ⟨slot, hslot, (hsizes a ha).trans ?_⟩
  rw [hsize, ← hname]
  exact memberSize_le kind m hm

/-- The bytes a handler stores into a member fit it. -/
private theorem fits_stores (event : Event) :
    ∀ a ∈ stores en event, Fits (slots event.kind) a := by
  refine fits_of_memberSize ?_ ?_
  · cases event <;> exact of_decide_eq_true rfl
  · cases event <;>
      simp only [stores, handlerStores, fillDenyHeader, List.cons_append, List.nil_append,
        List.forall_mem_cons] <;>
      simp [memberSize, length_pathname, length_currentComm, length_readStr_le,
        length_abstractName_le]

/-- No handler stores into a member twice. -/
private theorem nodup_stores (event : Event) : ((stores en event).map Prod.fst).Nodup := by
  cases event <;> exact of_decide_eq_true rfl

/-- The name length is stored as it is: it is below the word size. -/
theorem word32_abstractName (name : CapturedAbstractUnixSocketName) :
    word32 en (UInt32.ofNat name.bytes.length) = ofWord en 4 name.bytes.length := by
  have hle := length_abstractName_le name
  have hword : (UInt32.ofNat name.bytes.length).toNat = name.bytes.length :=
    UInt32.toNat_ofNat_of_lt (lt_of_le_of_lt hle (by decide))
  rw [word32, hword]

/-- A handler stores every byte that the decoder reads. -/
theorem fields_stored (event : Event) :
    ∀ f ∈ event.fields en, ∃ a ∈ stores en event, a.1 = f.1 ∧ f.2 <+: a.2 := by
  cases event <;>
    simp only [Event.fields, Event.variantFields, DenialContext.fields, stores, handlerStores,
      fillDenyHeader, List.cons_append, List.nil_append, List.forall_mem_cons,
      List.exists_mem_cons_iff, readStr_command, prefix_currentComm, prefix_pathname,
      word32_abstractName, List.prefix_refl, reduceCtorEq, false_and, true_and, true_or, or_true,
      false_or, and_self] <;>
    exact fun _ h => absurd h List.not_mem_nil

/-- The members fit the record. -/
private theorem endOf_members_le (kind : Wire.EventKind) :
    endOf 0 (members kind) ≤ (List.replicate sizeOf (0 : UInt8)).length := by
  rw [List.length_replicate]
  cases kind <;> decide

section Fill

variable {kind : Wire.EventKind} {as : List (Member × List UInt8)}
  (hfits : ∀ a ∈ as, Fits (slots kind) a)
include hfits

/-- Stores do not change the length of a record. -/
theorem length_fill_record :
    (fill (slots kind) (List.replicate sizeOf 0) as).length = Wire.recordSize := by
  have hlen := length_fill (endOf_members_le kind) hfits
  rw [List.length_replicate, static_assertions.1] at hlen
  exact hlen

/-- A record holds what was stored into it: members do not overlap and are stored once. -/
theorem holds_fill (hnodup : (as.map Prod.fst).Nodup) :
    Holds (fill (slots kind) (List.replicate sizeOf 0) as) kind as := by
  intro a ha
  obtain ⟨slot, hslot, _⟩ := hfits a ha
  have hoffset : memberOffset kind a.1 = slot.offset := by
    rw [memberOffset, hslot]
    rfl
  rw [hoffset]
  exact hasAt_fill (endOf_members_le kind) hfits hnodup ha hslot

end Fill

/-- What starts the bytes that are stored is held as well. -/
theorem Holds.of_stored {data : List UInt8} {kind : Wire.EventKind}
    {as fields : List (Member × List UInt8)} (h : Holds data kind as)
    (hstored : ∀ f ∈ fields, ∃ a ∈ as, a.1 = f.1 ∧ f.2 <+: a.2) : Holds data kind fields := by
  intro f hf
  obtain ⟨a, ha, hname, hbytes⟩ := hstored f hf
  rw [← hname]
  exact (h a ha).mono hbytes

/-- A record has the fixed length. -/
theorem length_encode (event : Event) : (encode en event).length = Wire.recordSize :=
  length_fill_record (fits_stores en event)

/-- The record that a handler submits holds the bytes of its event. -/
theorem holds_encode (event : Event) :
    Holds (encode en event) event.kind (event.fields en) :=
  Holds.of_stored (holds_fill (fits_stores en event) (nodup_stores en event))
    (fields_stored en event)

end Producer

/-! ## The positions that matter -/

/-- The members every denial has, with the number of their bytes that are read. -/
def DenialContext.semanticMembers (context : DenialContext) : List (Member × Nat) :=
  [(.domainId, 8), (.parentId, 8), (.creatorTgid, 4),
   (.creatorComm, context.hierarchy.creatorComm.bytes.length + 1), (.numDenials, 8),
   (.sameExec, 1), (.logged, 1)]

/-- The bytes of a path field that matter: up to the first NUL, if there is one. -/
def CapturedBytes.semanticPathLength (path : CapturedPath) : Nat :=
  min (path.bytes.length + 1) 256

/-- The members of an event's variant, with the number of their bytes that are read.
    Padding, the other variants, the constant `blockers_access` of three denials, bytes
    after a NUL and bytes past the length of an abstract name are not among them. -/
def Event.semanticVariant : Event → List (Member × Nat)
  | .createRuleset _ =>
    [(.rulesetId, 8), (.rulesetVersion, 8), (.handledFs, 8), (.handledNet, 8),
     (.scopedAccess, 8)]
  | .addRulePathBeneath event =>
    [(.rulesetId, 8), (.rulesetVersion, 8), (.accessRights, 8), (.dev, 4), (.ino, 8),
     (.pathnameBytesOmitted, 1), (.pathname, event.pathname.semanticPathLength)]
  | .addRuleNetPort _ =>
    [(.rulesetId, 8), (.rulesetVersion, 8), (.accessRights, 8), (.port, 8)]
  | .createDomain event =>
    [(.rulesetId, 8), (.rulesetVersion, 8), (.domainId, 8), (.parentId, 8),
     (.creatorTgid, 4), (.creatorComm, event.creatorComm.bytes.length + 1)]
  | .denyAccessFs event => event.context.semanticMembers ++
    [(.blockersType, 4), (.blockersAccess, 8), (.dev, 4), (.ino, 8),
     (.pathnameBytesOmitted, 1), (.pathname, event.pathname.semanticPathLength)]
  | .denyAccessNet event => event.context.semanticMembers ++
    [(.blockersType, 4), (.blockersAccess, 8), (.sport, 8), (.dport, 8)]
  | .denyPtrace event => event.context.semanticMembers ++
    [(.traceeDomainId, 8), (.traceePid, 4), (.traceeComm, event.traceeComm.bytes.length + 1)]
  | .denyScopeSignal event => event.context.semanticMembers ++
    [(.targetDomainId, 8), (.targetPid, 4), (.targetComm, event.targetComm.bytes.length + 1)]
  | .denyScopeAbstractUnixSocket event => event.context.semanticMembers ++
    [(.peerDomainId, 8), (.peerPid, 4), (.abstractNameLen, 4),
     (.abstractName, event.abstractName.bytes.length)]
  | .freeDomain _ => [(.domainId, 8), (.denials, 8)]
  | .freeRuleset _ => [(.rulesetId, 8), (.rulesetVersion, 8)]
  | .enforceDomain _ =>
    [(.domainId, 8), (.enforcingTid, 4), (.complete, 1), (.processWide, 1), (.noNewPrivs, 1)]

/-- All members of an event's record, with the number of their bytes that are read. -/
def Event.semanticMembers (event : Event) : List (Member × Nat) :=
  (.timestampNs, 8) :: (.type, 1) :: event.semanticVariant

/-- The byte positions of a record that determine the event. -/
def Event.SemanticPosition (event : Event) (i : Nat) : Prop :=
  ∃ m ∈ event.semanticMembers,
    memberOffset event.kind m.1 ≤ i ∧ i < memberOffset event.kind m.1 + m.2

/-- Two records agree on the positions that determine the event. -/
def AgreeOn (event : Event) (d d' : List UInt8) : Prop :=
  ∀ i, event.SemanticPosition i → d[i]? = d'[i]?

/-- As many bytes of a path are read as matter. -/
private theorem length_pathBytes (path : CapturedPath) :
    (Wire.pathBytes path).length = path.semanticPathLength := by
  have hle : path.bytes.length ≤ 256 := path.lengthLe
  rw [Wire.pathBytes, CapturedBytes.semanticPathLength, Wire.pathSize]
  split
  · rw [List.length_append, List.length_singleton]
    omega
  · omega

/-- The bytes that are read are as many as `semanticMembers` counts. -/
private theorem Event.semanticMembers_eq (en : Endian) (event : Event) :
    event.semanticMembers = (event.fields en).map fun f => (f.1, f.2.length) := by
  cases event <;>
    simp [Event.semanticMembers, Event.semanticVariant, DenialContext.semanticMembers,
      Event.fields, Event.variantFields, DenialContext.fields, length_pathBytes]

/-- Holding the bytes of an event only depends on the positions that matter. -/
theorem Holds.congr {en : Endian} {event : Event} {d d' : List UInt8}
    (h : Holds d event.kind (event.fields en)) (hd : AgreeOn event d d') :
    Holds d' event.kind (event.fields en) := by
  intro f hf
  refine (h f hf).congr fun i hi hi' => hd i ⟨(f.1, f.2.length), ?_, hi, hi'⟩
  rw [Event.semanticMembers_eq en]
  exact List.mem_map_of_mem hf

/-- Records that hold the bytes of an event agree on the positions that matter. -/
private theorem Holds.agreeOn {en : Endian} {event : Event} {d d' : List UInt8}
    (h : Holds d event.kind (event.fields en)) (h' : Holds d' event.kind (event.fields en)) :
    AgreeOn event d d' := by
  rintro i ⟨m, hm, hi, hi'⟩
  rw [Event.semanticMembers_eq en] at hm
  obtain ⟨f, hf, rfl⟩ := List.mem_map.mp hm
  exact (h f hf).getElem?_eq (h' f hf) hi hi'

/-- The producer and the decoder agree on the record format: decoding the record of an
    event gives the event back; a record that decodes to an event agrees with the
    event's own record on every position that matters; and no other position
    influences the result. -/
theorem producer_decoder_agree (en : Endian) :
    (∀ event : Event, Wire.decode en (encode en event) = .ok event) ∧
      ∀ (d : List UInt8) (event : Event), Wire.decode en d = .ok event →
        AgreeOn event d (encode en event) ∧
          ∀ d' : List UInt8, d'.length = Wire.recordSize → AgreeOn event d d' →
            Wire.decode en d' = .ok event := by
  constructor
  · intro event
    exact (Wire.decode_eq_ok_iff en).mpr ⟨length_encode en event, holds_encode en event⟩
  · intro d event hdecode
    obtain ⟨_, hholds⟩ := (Wire.decode_eq_ok_iff en).mp hdecode
    refine ⟨hholds.agreeOn (holds_encode en event), ?_⟩
    intro d' hlen hagree
    exact (Wire.decode_eq_ok_iff en).mpr ⟨hlen, hholds.congr hagree⟩

end Landlock
