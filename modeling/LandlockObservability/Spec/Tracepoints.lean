import LandlockObservability.Model.Tracepoints
import LandlockObservability.Spec.SocketRecords

/-!
# From a tracepoint to an event

Between the kernel's values and the event that user space sees lie a record of bytes, its
layout in C, the byte order of the machine and the decoder.  None of it matters: a program's
records decode to what `Tracepoint.shown` makes of the values directly, the checks of
identities and their errors included.

* `Stored`: reading the fields of a filled record
* `Tracepoint.handle_decodes`: the programs and the decoder together
* `Tracepoint.shown_decides`: which tracepoints give malformed samples
* `Tracepoint.tracepoint_transparent`: the statement for a reader
-/

namespace Landlock

open Bytes Except Layout Wire Producer

/-! ## What a tracepoint shows -/

/-- The kernel cuts a command off at 15 bytes. -/
private theorem length_untilNul_readStr_le (source : List UInt8) :
    (untilNul (readStr source)).length ≤ 15 := by
  -- The NUL at the end is not counted
  have hlt : (untilNul (readStr source)).length < (readStr source).length :=
    length_untilNul_lt_iff.mpr (by simp [readStr])
  have hle := length_readStr_le source
  omega

/-- A captured command has no NUL. -/
private theorem command_nulFree (source : List UInt8) :
    CapturedBytesOrigin.command.allowsNul = false → 0 ∉ untilNul (readStr source) :=
  fun _ => zero_notMem_untilNul _

/-- A captured command is never marked as cut off. -/
private theorem command_omission (source : List UInt8) (h : false = true) :
    CapturedBytesOrigin.command.omissionPolicy = .fullCapacity ∧
      (untilNul (readStr source)).length = CapturedBytesOrigin.command.maximumLen := by
  cases h

/-- A command as it is captured: at most 15 bytes, up to the first NUL. -/
def commandOf (source : List UInt8) : CapturedCommand where
  bytes := untilNul (readStr source)
  bytesOmitted := false
  nulFree := command_nulFree source
  lengthLe := length_untilNul_readStr_le source
  omission := command_omission source

namespace Producer.KernelHierarchy

/-- The command of the creator, empty if it is unknown. -/
def comm (h : KernelHierarchy) : List UInt8 := (h.details.map Prod.snd).getD []

/-- What a denial shows of the domain that denied.  An unknown creator is not accepted. -/
def context (h : KernelHierarchy) (sameExec logged : Bool) : Except DecodeError DenialContext := do
  let domainId ← Wire.id h.id "domain_id"
  let parentId ← Wire.parent (h.parent.getD 0) "parent_id"
  let creatorTgid ← Wire.processId h.creatorTgid "creator_tgid"
  return {
    hierarchy := { domainId, parentId, creatorTgid, creatorComm := commandOf h.comm }
    cumulativeDenialCount := h.numDenials
    sameExec
    logged }

end Producer.KernelHierarchy

/-- What user space is shown of a tracepoint: nothing if its record is discarded, and else an
    event, or the first identity that is not valid. -/
def Tracepoint.shown (en : Endian) (call : Invocation) :
    Tracepoint → Option (Except DecodeError Event)
  | createRuleset ruleset => some <| Event.createRuleset <$> do
    let rulesetId ← Wire.id ruleset.id "ruleset_id"
    return {
      timestamp := ⟨call.ktimeGetNs⟩
      rulesetId
      rulesetVersion := ruleset.version
      handledFs := ⟨ruleset.handledFs⟩
      handledNet := ⟨ruleset.handledNet⟩
      scopedAccess := ⟨ruleset.scope⟩ }
  | addRulePathBeneath ruleset accessRights device inode pathname =>
    pathname.map fun path => Event.addRulePathBeneath <$> do
      let rulesetId ← Wire.id ruleset.id "ruleset_id"
      return {
        timestamp := ⟨call.ktimeGetNs⟩
        rulesetId
        rulesetVersion := ruleset.version
        accessRights := ⟨accessRights⟩
        device
        inode
        pathname := .ofPath path.val path.property }
  | addRuleNetPort ruleset accessRights port => some <| Event.addRuleNetPort <$> do
    let rulesetId ← Wire.id ruleset.id "ruleset_id"
    return {
      timestamp := ⟨call.ktimeGetNs⟩
      rulesetId
      rulesetVersion := ruleset.version
      accessRights := ⟨accessRights⟩
      port }
  | createDomain hierarchy ruleset => some <| Event.createDomain <$> do
    let rulesetId ← Wire.id ruleset.id "ruleset_id"
    let domainId ← Wire.id hierarchy.id "domain_id"
    let parentId ← Wire.parent (hierarchy.parent.getD 0) "parent_id"
    let creatorTgid ← Wire.processId (call.currentPidTgid >>> 32).toUInt32 "creator_tgid"
    return {
      timestamp := ⟨call.ktimeGetNs⟩
      rulesetId
      rulesetVersion := ruleset.version
      domainId
      parentId
      creatorTgid
      creatorComm := commandOf call.currentComm }
  | enforceDomain hierarchy complete processWide noNewPrivs => some <| Event.enforceDomain <$> do
    let domainId ← Wire.id hierarchy.id "domain_id"
    let enforcingTid ← Wire.threadId call.currentPidTgid.toUInt32 "enforcing_tid"
    return {
      timestamp := ⟨call.ktimeGetNs⟩
      domainId
      enforcingTid
      complete
      processWide
      noNewPrivs }
  | denyAccessFs hierarchy sameExec logged blockers device inode pathname =>
    pathname.map fun path => Event.denyAccessFs <$> do
      let context ← hierarchy.context sameExec logged
      return {
        timestamp := ⟨call.ktimeGetNs⟩
        context
        blockersType := ⟨blockers.type⟩
        blockersAccess := ⟨blockers.access⟩
        device
        inode := inode.getD 0
        pathname := .ofPath path.val path.property }
  | denyAccessNet hierarchy sameExec logged blockers socketFamily address addrlen =>
    some <| Event.denyAccessNet <$> do
      let context ← hierarchy.context sameExec logged
      let port := checkedPort en socketFamily address addrlen
      return {
        timestamp := ⟨call.ktimeGetNs⟩
        context
        blockersType := ⟨blockers.type⟩
        blockersAccess := ⟨blockers.access⟩
        sourcePort := if hasBindRight blockers.access then port else 0
        destinationPort := if hasConnectRight blockers.access then port else 0 }
  | denyPtrace hierarchy sameExec logged traceeDomainId tracee =>
    some <| Event.denyPtrace <$> do
      let context ← hierarchy.context sameExec logged
      let traceeDomain ← Wire.domainMembership traceeDomainId "tracee_domain"
      let traceePid ← Wire.processId tracee.tgid "tracee_pid"
      return {
        timestamp := ⟨call.ktimeGetNs⟩
        context
        traceeDomain
        traceePid
        traceeComm := commandOf tracee.comm }
  | denyScopeSignal hierarchy sameExec logged targetDomainId target =>
    some <| Event.denyScopeSignal <$> do
      let context ← hierarchy.context sameExec logged
      let targetDomain ← Wire.domainMembership targetDomainId "target_domain"
      let targetPid ← Wire.processId target.tgid "target_pid"
      return {
        timestamp := ⟨call.ktimeGetNs⟩
        context
        targetDomain
        targetPid
        targetComm := commandOf target.comm }
  | denyScopeAbstractUnixSocket hierarchy sameExec logged peerDomainId peerPid address reads =>
    if h : Capturable (reads.pointer address) reads then
      some <| Event.denyScopeAbstractUnixSocket <$> do
        let context ← hierarchy.context sameExec logged
        let peerDomain ← Wire.domainMembership peerDomainId "peer_domain"
        return {
          timestamp := ⟨call.ktimeGetNs⟩
          context
          peerDomain
          peerPid := Wire.optionalProcessId (peerPid.getD 0)
          abstractName := h.captured }
    else none
  | freeDomain hierarchy => some <| Event.freeDomain <$> do
    let domainId ← Wire.id hierarchy.id "domain_id"
    return { timestamp := ⟨call.ktimeGetNs⟩, domainId, denialCount := hierarchy.numDenials }
  | freeRuleset ruleset => some <| Event.freeRuleset <$> do
    let rulesetId ← Wire.id ruleset.id "ruleset_id"
    return { timestamp := ⟨call.ktimeGetNs⟩, rulesetId, rulesetVersion := ruleset.version }

/-! ## Reading a filled record -/

/-- A record of a kind that holds what was stored. -/
structure Stored (record : List UInt8) (kind : EventKind)
    (stores : List (Member × List UInt8)) : Prop where
  length : record.length = recordSize
  holds : Holds record kind stores

namespace Stored

variable {record : List UInt8} {kind : EventKind} {stores : List (Member × List UInt8)}
  (h : Stored record kind stores)
include h

/-- What is stored ends inside the record. -/
private theorem end_le {m : Member} {bytes : List UInt8} {offset : Nat}
    (hoffset : memberOffset kind m = offset) (hmem : (m, bytes) ∈ stores)
    (hpos : 0 < bytes.length) : offset + bytes.length ≤ recordSize := by
  have hle : bytes.length ≤ (record.drop (memberOffset kind m)).length :=
    (h.holds _ hmem).length_le
  rw [List.length_drop, hoffset, h.length] at hle
  -- An empty member could start behind the record
  omega

/-- Reading a word that was stored. -/
theorem u64At (en : Endian) (offset : Nat) (m : Member) (v : UInt64)
    (hoffset : memberOffset kind m = offset) (hmem : (m, word64 en v) ∈ stores) (field : String) :
    Wire.u64At en record offset field = .ok v := by
  have hle := h.end_le hoffset hmem (by simp)
  rw [length_word64] at hle
  rw [u64At_eq h.length en hle, (u64_eq_iff h.length en hle).mpr (hoffset ▸ h.holds _ hmem)]

/-- Reading a word of four bytes that was stored. -/
theorem u32At (en : Endian) (offset : Nat) (m : Member) (v : UInt32)
    (hoffset : memberOffset kind m = offset) (hmem : (m, word32 en v) ∈ stores) (field : String) :
    Wire.u32At en record offset field = .ok v := by
  have hle := h.end_le hoffset hmem (by simp)
  rw [length_word32] at hle
  rw [u32At_eq h.length en hle, (u32_eq_iff h.length en hle).mpr (hoffset ▸ h.holds _ hmem)]

/-- Reading a flag that was stored. -/
theorem booleanAt (offset : Nat) (m : Member) (b : Bool) (hoffset : memberOffset kind m = offset)
    (hmem : (m, boolean b) ∈ stores) (field : String) :
    Wire.booleanAt record offset field = .ok b :=
  booleanAt_eq_ok_iff.mpr (hoffset ▸ h.holds _ hmem)

/-- A command is read up to its NUL, whatever follows in the member. -/
theorem commandAt (offset : Nat) (m : Member) (source bytes : List UInt8)
    (hoffset : memberOffset kind m = offset) (hle : offset + commSize ≤ recordSize)
    (hmem : (m, bytes) ∈ stores) (hbytes : readStr source <+: bytes) (field : String) :
    Wire.commandAt record offset field = .ok (commandOf source) := by
  have hstored : (commandOf source).bytes ++ [0] <+: readStr source := by
    have hnul : (0 : UInt8) ∉ (commandOf source).bytes := zero_notMem_untilNul _
    rcases (untilNul_eq_iff hnul).mp rfl with hpre | heq
    · exact hpre
    · -- the copy itself ends with a NUL
      rw [heq] at hnul
      exact absurd (by simp [readStr]) hnul
  rw [commandAt_eq_ok_iff h.length hle, ← hoffset]
  exact (h.holds _ hmem).mono (hstored.trans hbytes)

/-- A path is read with its flag. -/
theorem capturedAt (offset omittedOffset : Nat) (path : CapturedPath)
    (hoffset : memberOffset kind .pathname = offset)
    (homitted : memberOffset kind .pathnameBytesOmitted = omittedOffset)
    (hle : offset + pathSize ≤ recordSize) (hmem : (.pathname, pathname path) ∈ stores)
    (hflag : (.pathnameBytesOmitted, boolean path.bytesOmitted) ∈ stores)
    (field omittedField : String) :
    Wire.capturedAt record offset pathSize omittedOffset field omittedField = .ok path := by
  rw [capturedAt_eq_ok_iff h.length hle, ← hoffset, ← homitted]
  exact ⟨h.holds _ hflag, (h.holds _ hmem).mono (prefix_pathname path)⟩

/-- A name is read with its length. -/
theorem abstractUnixSocketNameAt (en : Endian) (lengthOffset nameOffset : Nat)
    (name : CapturedAbstractUnixSocketName)
    (hlengthOffset : memberOffset kind .abstractNameLen = lengthOffset)
    (hnameOffset : memberOffset kind .abstractName = nameOffset)
    (hlength : lengthOffset + 4 ≤ recordSize)
    (hname : nameOffset + abstractUnixSocketNameMaxLen ≤ recordSize)
    (hlen : (.abstractNameLen, word32 en (UInt32.ofNat name.bytes.length)) ∈ stores)
    (hbytes : (.abstractName, name.bytes) ∈ stores) :
    Wire.abstractUnixSocketNameAt en record lengthOffset nameOffset = .ok name := by
  rw [abstractUnixSocketNameAt_eq_ok_iff h.length en hlength hname, ← word32_abstractName,
    ← hlengthOffset, ← hnameOffset]
  exact ⟨h.holds _ hlen, h.holds _ hbytes⟩

/-- The type byte selects the arm of the decoder. -/
private theorem decode_eq (en : Endian) (timestampNs : UInt64)
    (htime : (.timestampNs, word64 en timestampNs) ∈ stores)
    (htype : (.type, [kind.value]) ∈ stores) :
    decode en record = eventAt en record ⟨timestampNs⟩ kind := by
  obtain ⟨byte, hbyte, hdecode⟩ := decode_of_length en h.length
  -- Type and time are in front of the union, at the same place for every kind
  have hoffset : memberOffset kind .type = 8 := by cases kind <;> rfl
  have hvalue : byte = kind.value := by
    have hat := hasAt_singleton.mp (hoffset ▸ h.holds _ htype)
    exact Option.some.inj (hbyte.symm.trans hat)
  have hnow : u64 en record timestampOffset = timestampNs := by
    have hzero : memberOffset kind .timestampNs = timestampOffset := by cases kind <;> rfl
    exact (u64_eq_iff h.length en (by decide)).mpr (hzero ▸ h.holds _ htime)
  rw [hdecode, EventKind.ofValue_eq_some_iff.mpr ⟨EventKind.mem_all kind, hvalue⟩, hnow]

end Stored

/-- A filled record holds what it was filled with. -/
private theorem stored_fill {kind : EventKind} {stores : List (Member × List UInt8)}
    (hnames : ∀ name ∈ stores.map Prod.fst, name ∈ (members kind).map Prod.fst)
    (hsizes : ∀ a ∈ stores, a.2.length ≤ memberSize a.1)
    (hnodup : (stores.map Prod.fst).Nodup) :
    Stored (fill (slots kind) (List.replicate sizeOf 0) stores) kind stores := by
  have hfits := fits_of_memberSize hnames hsizes
  exact ⟨length_fill_record hfits, holds_fill hfits hnodup⟩

/-- The kinds whose record starts with the header of a denial. -/
def denialKinds : List EventKind :=
  [.denyAccessFs, .denyAccessNet, .denyPtrace, .denyScopeSignal, .denyScopeAbstractUnixSocket]

/-- The header is at the same place in all of them. -/
private theorem memberOffset_denyHeader {kind : EventKind} (h : kind ∈ denialKinds) :
    memberOffset kind .domainId = 16 ∧ memberOffset kind .parentId = 24 ∧
      memberOffset kind .creatorTgid = 32 ∧ memberOffset kind .creatorComm = 36 ∧
      memberOffset kind .numDenials = 56 ∧ memberOffset kind .sameExec = 72 ∧
      memberOffset kind .logged = 73 := by
  revert kind
  decide

/-- An unknown creator has the empty command. -/
private theorem readStr_comm (h : KernelHierarchy) : readStr h.comm = h.creatorComm := by
  rcases h with ⟨id, numDenials, parent, _ | ⟨pid, comm⟩⟩ <;> rfl

/-- The header of a denial is read as the domain that denied. -/
theorem Stored.denialContext {record : List UInt8} {kind : EventKind}
    {stores : List (Member × List UInt8)} (h : Stored record kind stores)
    (hkind : kind ∈ denialKinds) (en : Endian) (hierarchy : KernelHierarchy)
    (sameExec logged : Bool) (hheader : ∀ a ∈ fillDenyHeaderFrom en hierarchy, a ∈ stores)
    (hsame : (.sameExec, boolean sameExec) ∈ stores)
    (hlogged : (.logged, boolean logged) ∈ stores) :
    Wire.denialContext en record = hierarchy.context sameExec logged := by
  obtain ⟨hdomain, hparent, htgid, hcomm, hcount, hsameAt, hloggedAt⟩ :=
    memberOffset_denyHeader hkind
  -- The reads of the source, in its order
  simp only [Wire.denialContext, unionOffset,
    h.u64At en 16 .domainId hierarchy.id hdomain (hheader _ (by simp [fillDenyHeaderFrom])),
    h.u64At en 24 .parentId (hierarchy.parent.getD 0) hparent
      (hheader _ (by simp [fillDenyHeaderFrom])),
    h.u32At en 32 .creatorTgid hierarchy.creatorTgid htgid
      (hheader _ (by simp [fillDenyHeaderFrom])),
    h.commandAt 36 .creatorComm hierarchy.comm hierarchy.creatorComm hcomm (by decide)
      (hheader _ (by simp [fillDenyHeaderFrom])) (readStr_comm hierarchy ▸ List.prefix_rfl),
    h.u64At en 56 .numDenials hierarchy.numDenials hcount
      (hheader _ (by simp [fillDenyHeaderFrom])),
    h.booleanAt 72 .sameExec sameExec hsameAt hsame,
    h.booleanAt 73 .logged logged hloggedAt hlogged]
  rfl

/-! ## The programs -/

namespace Tracepoint

variable {en : Endian} {call : Invocation}

/-- What is submitted decodes to what the arm of its kind reads from it. -/
private theorem map_decode_submitEvent {kind : EventKind} {stores : List (Member × List UInt8)}
    {result : Except DecodeError Event}
    (hnames : ∀ name ∈ stores.map Prod.fst, name ∈ (members kind).map Prod.fst)
    (hsizes : ∀ a ∈ stores, a.2.length ≤ memberSize a.1)
    (hnodup : (stores.map Prod.fst).Nodup)
    (htime : (.timestampNs, word64 en call.ktimeGetNs) ∈ stores)
    (htype : (.type, [kind.value]) ∈ stores)
    (hread : ∀ record, Stored record kind stores →
      eventAt en record ⟨call.ktimeGetNs⟩ kind = result) :
    (submitEvent call kind stores).map (decode en) = if call.room then [result] else [] := by
  have hstored := stored_fill hnames hsizes hnodup
  have hdecode := (hstored.decode_eq en call.ktimeGetNs htime htype).trans (hread _ hstored)
  rw [submitEvent, allocEvent]
  cases call.room with
  | false => rfl
  | true => exact congrArg (fun result => [result]) hdecode

/-- The program of a created ruleset. -/
private theorem handleCreateRuleset_decodes (ruleset : KernelRuleset) :
    (handleCreateRuleset en call ruleset).map (decode en) =
      if call.room then (shown en call (.createRuleset ruleset)).toList else [] := by
  refine map_decode_submitEvent (of_decide_eq_true rfl) ?_ (of_decide_eq_true rfl)
    (by simp [eventHeader]) (by simp [eventHeader]) fun record h => ?_
  · simp [eventHeader, memberSize]
  -- Each read of the decoder finds what the program stored at its offset
  · simp only [eventAt, createRulesetAt,
      h.u64At en 16 .rulesetId ruleset.id rfl (by simp),
      h.u64At en 24 .rulesetVersion ruleset.version rfl (by simp),
      h.u64At en 32 .handledFs ruleset.handledFs rfl (by simp),
      h.u64At en 40 .handledNet ruleset.handledNet rfl (by simp),
      h.u64At en 48 .scopedAccess ruleset.scope rfl (by simp)]
    rfl

/-- The program of a network rule. -/
private theorem handleAddRuleNetPort_decodes (ruleset : KernelRuleset)
    (accessRights port : UInt64) :
    (handleAddRuleNetPort en call ruleset accessRights port).map (decode en) =
      if call.room then (shown en call (.addRuleNetPort ruleset accessRights port)).toList
      else [] := by
  refine map_decode_submitEvent (of_decide_eq_true rfl) ?_ (of_decide_eq_true rfl)
    (by simp [eventHeader]) (by simp [eventHeader]) fun record h => ?_
  · simp [eventHeader, memberSize]
  · simp only [eventAt, addRuleNetPortAt,
      h.u64At en 16 .rulesetId ruleset.id rfl (by simp),
      h.u64At en 24 .rulesetVersion ruleset.version rfl (by simp),
      h.u64At en 32 .accessRights accessRights rfl (by simp),
      h.u64At en 40 .port port rfl (by simp)]
    rfl

/-- The current command fits its member. -/
private theorem length_currentComm_le (source : List UInt8) :
    (Producer.currentComm source).length ≤ 16 := by
  have hread := length_readStr_le source
  rw [Producer.currentComm, List.length_append, List.length_replicate]
  omega

/-- The program of a created domain. -/
private theorem handleCreateDomain_decodes (hierarchy : KernelHierarchy) (ruleset : KernelRuleset) :
    (handleCreateDomain en call hierarchy ruleset).map (decode en) =
      if call.room then (shown en call (.createDomain hierarchy ruleset)).toList else [] := by
  refine map_decode_submitEvent (of_decide_eq_true rfl) ?_ (of_decide_eq_true rfl)
    (by simp [eventHeader]) (by simp [eventHeader]) fun record h => ?_
  · simp [eventHeader, memberSize, length_currentComm_le]
  · simp only [eventAt, createDomainAt,
      h.u64At en 16 .rulesetId ruleset.id rfl (by simp),
      h.u64At en 24 .rulesetVersion ruleset.version rfl (by simp),
      h.u64At en 32 .domainId hierarchy.id rfl (by simp),
      h.u64At en 40 .parentId (hierarchy.parent.getD 0) rfl (by simp),
      h.u32At en 48 .creatorTgid (call.currentPidTgid >>> 32).toUInt32 rfl (by simp),
      h.commandAt 52 .creatorComm call.currentComm (Producer.currentComm call.currentComm) rfl
        (by decide) (by simp) (List.prefix_append _ _)]
    rfl

/-- The program of an enforcement. -/
private theorem handleEnforceDomain_decodes (hierarchy : KernelHierarchy)
    (complete processWide noNewPrivs : Bool) :
    (handleEnforceDomain en call hierarchy complete processWide noNewPrivs).map (decode en) =
      if call.room then
        (shown en call (.enforceDomain hierarchy complete processWide noNewPrivs)).toList
      else [] := by
  refine map_decode_submitEvent (of_decide_eq_true rfl) ?_ (of_decide_eq_true rfl)
    (by simp [eventHeader]) (by simp [eventHeader]) fun record h => ?_
  · simp [eventHeader, memberSize]
  · simp only [eventAt, enforceDomainAt,
      h.u64At en 16 .domainId hierarchy.id rfl (by simp),
      h.u32At en 24 .enforcingTid call.currentPidTgid.toUInt32 rfl (by simp),
      h.booleanAt 28 .complete complete rfl (by simp),
      h.booleanAt 29 .processWide processWide rfl (by simp),
      h.booleanAt 30 .noNewPrivs noNewPrivs rfl (by simp)]
    rfl

/-- The program of a freed domain. -/
private theorem handleFreeDomain_decodes (hierarchy : KernelHierarchy) :
    (handleFreeDomain en call hierarchy).map (decode en) =
      if call.room then (shown en call (.freeDomain hierarchy)).toList else [] := by
  refine map_decode_submitEvent (of_decide_eq_true rfl) ?_ (of_decide_eq_true rfl)
    (by simp [eventHeader]) (by simp [eventHeader]) fun record h => ?_
  · simp [eventHeader, memberSize]
  · simp only [eventAt, freeDomainAt,
      h.u64At en 16 .domainId hierarchy.id rfl (by simp),
      h.u64At en 24 .denials hierarchy.numDenials rfl (by simp)]
    rfl

/-- The program of a freed ruleset. -/
private theorem handleFreeRuleset_decodes (ruleset : KernelRuleset) :
    (handleFreeRuleset en call ruleset).map (decode en) =
      if call.room then (shown en call (.freeRuleset ruleset)).toList else [] := by
  refine map_decode_submitEvent (of_decide_eq_true rfl) ?_ (of_decide_eq_true rfl)
    (by simp [eventHeader]) (by simp [eventHeader]) fun record h => ?_
  · simp [eventHeader, memberSize]
  · simp only [eventAt, freeRulesetAt,
      h.u64At en 16 .rulesetId ruleset.id rfl (by simp),
      h.u64At en 24 .rulesetVersion ruleset.version rfl (by simp)]
    rfl

/-! ## Denials between tasks -/

/-- The program of a ptrace denial. -/
private theorem handleDenyPtrace_decodes (hierarchy : KernelHierarchy) (sameExec logged : Bool)
    (traceeDomainId : UInt64) (tracee : KernelTask) :
    (handleDenyPtrace en call hierarchy sameExec logged traceeDomainId tracee).map (decode en) =
      if call.room then
        (shown en call (.denyPtrace hierarchy sameExec logged traceeDomainId tracee)).toList
      else [] := by
  refine map_decode_submitEvent (of_decide_eq_true rfl) ?_ (of_decide_eq_true rfl)
    (by simp [eventHeader]) (by simp [eventHeader]) fun record h => ?_
  · simp [eventHeader, fillDenyHeaderFrom, memberSize, KernelHierarchy.length_creatorComm_le,
      length_readStr_le]
  · simp only [eventAt, denyPtraceAt,
      h.denialContext (by decide) en hierarchy sameExec logged (fun a ha => by simp [ha]) (by simp)
        (by simp),
      h.u64At en 80 .traceeDomainId traceeDomainId rfl (by simp),
      h.u32At en 88 .traceePid tracee.tgid rfl (by simp),
      h.commandAt 92 .traceeComm tracee.comm (readStr tracee.comm) rfl (by decide) (by simp)
        List.prefix_rfl]
    rfl

/-- The program of a signal denial. -/
private theorem handleDenyScopeSignal_decodes (hierarchy : KernelHierarchy) (sameExec logged : Bool)
    (targetDomainId : UInt64) (target : KernelTask) :
    (handleDenyScopeSignal en call hierarchy sameExec logged targetDomainId target).map
        (decode en) =
      if call.room then
        (shown en call (.denyScopeSignal hierarchy sameExec logged targetDomainId target)).toList
      else [] := by
  refine map_decode_submitEvent (of_decide_eq_true rfl) ?_ (of_decide_eq_true rfl)
    (by simp [eventHeader]) (by simp [eventHeader]) fun record h => ?_
  · simp [eventHeader, fillDenyHeaderFrom, memberSize, KernelHierarchy.length_creatorComm_le,
      length_readStr_le]
  · simp only [eventAt, denyScopeSignalAt,
      h.denialContext (by decide) en hierarchy sameExec logged (fun a ha => by simp [ha]) (by simp)
        (by simp),
      h.u64At en 80 .targetDomainId targetDomainId rfl (by simp),
      h.u32At en 88 .targetPid target.tgid rfl (by simp),
      h.commandAt 92 .targetComm target.comm (readStr target.comm) rfl (by decide) (by simp)
        List.prefix_rfl]
    rfl

/-! ## Programs that capture -/

/-- A record with a captured path decodes to what the arm of its kind reads from it. -/
private theorem map_decode_submitWithPath {kind : EventKind} {fields : List (Member × List UInt8)}
    {path : KernelString} {result : Except DecodeError Event}
    (hstored : ∀ record, Stored record kind (fields ++
      [(.pathname, pathname (.ofPath path.val path.property)),
        (.pathnameBytesOmitted,
          boolean (CapturedBytes.ofPath path.val path.property).bytesOmitted)]) →
      decode en record = result)
    (hnames : ∀ name ∈ fields.map Prod.fst ++ [Member.pathname, Member.pathnameBytesOmitted],
      name ∈ (members kind).map Prod.fst)
    (hsizes : ∀ a ∈ fields, a.2.length ≤ memberSize a.1)
    (hnodup : (fields.map Prod.fst ++ [Member.pathname, Member.pathnameBytesOmitted]).Nodup) :
    (submitWithPath kind (List.replicate sizeOf 0) fields (some path.val)).map (decode en) =
      [result] := by
  rw [submitWithPath, capturePath_ofPath path.val path.property]
  refine congrArg (fun result => [result]) (hstored _ (stored_fill ?_ ?_ ?_))
  · rw [List.map_append]
    exact hnames
  -- The two members of the path are the only ones that are not among the fields
  · intro a ha
    rcases List.mem_append.mp ha with ha | ha
    · exact hsizes a ha
    · rcases List.mem_pair.mp ha with rfl | rfl
      · exact (length_pathname _).le
      · exact (length_boolean _).le
  · rw [List.map_append]
    exact hnodup

/-- The program of a filesystem rule. -/
private theorem handleAddRulePathBeneath_decodes (ruleset : KernelRuleset) (accessRights : UInt64)
    (device : UInt32) (inode : UInt64) (pathname : Option KernelString) :
    (handleAddRulePathBeneath en call ruleset accessRights device inode pathname).map
        (decode en) =
      if call.room then
        (shown en call (.addRulePathBeneath ruleset accessRights device inode pathname)).toList
      else [] := by
  rw [handleAddRulePathBeneath, allocEvent]
  cases call.room with
  | false => rfl
  | true =>
    cases pathname with
    -- The record is discarded
    | none => rfl
    | some path =>
      refine map_decode_submitWithPath (fun record h => ?_) (of_decide_eq_true rfl) ?_
        (of_decide_eq_true rfl)
      · rw [h.decode_eq en call.ktimeGetNs (by simp [eventHeader]) (by simp [eventHeader])]
        simp only [eventAt, addRulePathBeneathAt,
          h.u64At en 16 .rulesetId ruleset.id rfl (by simp),
          h.u64At en 24 .rulesetVersion ruleset.version rfl (by simp),
          h.u64At en 32 .accessRights accessRights rfl (by simp),
          h.u32At en 40 .dev device rfl (by simp),
          h.u64At en 48 .ino inode rfl (by simp),
          h.capturedAt 56 44 (.ofPath path.val path.property) rfl rfl (by decide) (by simp)
            (by simp)]
        rfl
      · simp [eventHeader, memberSize]

/-- The program of a filesystem denial. -/
private theorem handleDenyAccessFs_decodes (hierarchy : KernelHierarchy) (sameExec logged : Bool)
    (blockers : KernelBlockers) (device : UInt32) (inode : Option UInt64)
    (pathname : Option KernelString) :
    (handleDenyAccessFs en call hierarchy sameExec logged blockers device inode pathname).map
        (decode en) =
      if call.room then
        (shown en call
          (.denyAccessFs hierarchy sameExec logged blockers device inode pathname)).toList
      else [] := by
  rw [handleDenyAccessFs, allocEvent]
  cases call.room with
  | false => rfl
  | true =>
    cases pathname with
    -- The record is discarded
    | none => rfl
    | some path =>
      refine map_decode_submitWithPath (fun record h => ?_) (of_decide_eq_true rfl) ?_
        (of_decide_eq_true rfl)
      · rw [h.decode_eq en call.ktimeGetNs (by simp [eventHeader]) (by simp [eventHeader])]
        simp only [eventAt, denyAccessFsAt,
          h.denialContext (by decide) en hierarchy sameExec logged (fun a ha => by simp [ha])
            (by simp) (by simp),
          h.u32At en 52 .blockersType blockers.type rfl (by simp),
          h.u64At en 64 .blockersAccess blockers.access rfl (by simp),
          h.u32At en 80 .dev device rfl (by simp),
          h.u64At en 88 .ino (inode.getD 0) rfl (by simp),
          h.capturedAt 96 84 (.ofPath path.val path.property) rfl rfl (by decide) (by simp)
            (by simp)]
        rfl
      · simp [eventHeader, fillDenyHeaderFrom, memberSize,
          KernelHierarchy.length_creatorComm_le]

/-- The program of a network denial. -/
private theorem handleDenyAccessNet_decodes (hierarchy : KernelHierarchy) (sameExec logged : Bool)
    (blockers : KernelBlockers) (socketFamily : UInt16) (address : SockaddrIn)
    (addrlen : Int32) :
    ((denyAccessNet hierarchy sameExec logged blockers socketFamily address addrlen).handle
        en call).map (decode en) =
      if call.room then
        (shown en call
          (.denyAccessNet hierarchy sameExec logged blockers socketFamily address addrlen)).toList
      else [] := by
  let denial : NetDenial :=
    ⟨call.ktimeGetNs, hierarchy, blockers.type, blockers.access, sameExec, logged⟩
  let ports := projectCheckedPort en blockers.access socketFamily address addrlen
  -- The ports are stored last, in the record that the header has filled
  have h : Stored (netRecord en denial ports) .denyAccessNet (netStores en denial ports) :=
    ⟨(holds_netStores ports).1, (holds_netStores ports).2⟩
  rw [handle, handleDenyAccessNet, allocEvent]
  cases call.room with
  | false => rfl
  | true =>
    refine congrArg (fun result => [result]) ?_
    show decode en (netRecord en denial ports) = _
    rw [h.decode_eq en call.ktimeGetNs (by simp [netStores, denial]) (by simp [netStores])]
    simp only [eventAt, denyAccessNetAt,
      h.denialContext (by decide) en hierarchy sameExec logged
        (fun a ha => by simp [netStores, denial, ha]) (by simp [netStores, denial])
        (by simp [netStores, denial]),
      h.u32At en 52 .blockersType blockers.type rfl (by simp [netStores, denial]),
      h.u64At en 64 .blockersAccess blockers.access rfl (by simp [netStores, denial]),
      h.u64At en 80 .sport ports.1 rfl (by simp [netStores]),
      h.u64At en 88 .dport ports.2 rfl (by simp [netStores])]
    simp only [ports, projectCheckedPort_eq]
    rfl

/-- The program of a socket denial. -/
private theorem handleDenyScopeAbstractUnixSocket_decodes (hierarchy : KernelHierarchy)
    (sameExec logged : Bool) (peerDomainId : UInt64) (peerPid : Option UInt32)
    (address : Option UnixAddress) (reads : NameReads) :
    ((denyScopeAbstractUnixSocket hierarchy sameExec logged peerDomainId peerPid address
        reads).handle en call).map (decode en) =
      if call.room then
        (shown en call (.denyScopeAbstractUnixSocket hierarchy sameExec logged peerDomainId peerPid
          address reads)).toList
      else [] := by
  let denial : PeerDenial := ⟨call.ktimeGetNs, hierarchy, sameExec, logged, peerDomainId, peerPid⟩
  rw [handle, handleDenyScopeAbstractUnixSocket, allocEvent]
  cases call.room with
  | false => rfl
  | true =>
    by_cases hcapturable : Capturable (reads.pointer address) reads
    -- The name is stored last, with its length
    · let name := abstractName (reads.pointer address)
      let length := UInt32.ofNat name.length
      have hcapture := capture_eq_some_iff.mpr ⟨hcapturable, rfl⟩
      have hfits := fits_peerStores en denial hcapturable.length_le length
      have hnodup := nodup_peerStores en denial name length
      have h : Stored _ .denyScopeAbstractUnixSocket (peerStores en denial name length) :=
        ⟨length_fill_record hfits, holds_fill hfits hnodup⟩
      simp only [shown, hcapture, dif_pos hcapturable]
      refine congrArg (fun result => [result]) ?_
      rw [h.decode_eq en call.ktimeGetNs (by simp [peerStores, denial]) (by simp [peerStores])]
      simp only [eventAt, denyScopeAbstractUnixSocketAt,
        h.denialContext (by decide) en hierarchy sameExec logged
          (fun a ha => by simp [peerStores, denial, ha]) (by simp [peerStores, denial])
          (by simp [peerStores, denial]),
        h.u64At en 80 .peerDomainId peerDomainId rfl (by simp [peerStores, denial]),
        h.u32At en 88 .peerPid (peerPid.getD 0) rfl (by simp [peerStores, denial]),
        h.abstractUnixSocketNameAt en 92 96 hcapturable.captured rfl rfl (by decide) (by decide)
          (by simp [peerStores, Capturable.captured, length, name])
          (by simp [peerStores, Capturable.captured, name])]
      rfl
    · -- the record is discarded
      have hcapture : captureAbstractUnixSocketName address reads = none :=
        Option.eq_none_iff_forall_ne_some.mpr fun _ hsome =>
          hcapturable (capture_eq_some_iff.mp hsome).1
      simp [shown, hcapture, hcapturable]

/-- The programs and the decoder together: what is submitted decodes to what is shown. -/
theorem handle_decodes (en : Endian) (call : Invocation) (tracepoint : Tracepoint) :
    (tracepoint.handle en call).map (decode en) =
      if call.room then (tracepoint.shown en call).toList else [] := by
  cases tracepoint with
  | createRuleset ruleset => exact handleCreateRuleset_decodes ruleset
  | addRulePathBeneath ruleset accessRights device inode pathname =>
    exact handleAddRulePathBeneath_decodes ruleset accessRights device inode pathname
  | addRuleNetPort ruleset accessRights port =>
    exact handleAddRuleNetPort_decodes ruleset accessRights port
  | createDomain hierarchy ruleset => exact handleCreateDomain_decodes hierarchy ruleset
  | enforceDomain hierarchy complete processWide noNewPrivs =>
    exact handleEnforceDomain_decodes hierarchy complete processWide noNewPrivs
  | denyAccessFs hierarchy sameExec logged blockers device inode pathname =>
    exact handleDenyAccessFs_decodes hierarchy sameExec logged blockers device inode pathname
  | denyAccessNet hierarchy sameExec logged blockers socketFamily address addrlen =>
    exact handleDenyAccessNet_decodes hierarchy sameExec logged blockers socketFamily address
      addrlen
  | denyPtrace hierarchy sameExec logged traceeDomainId tracee =>
    exact handleDenyPtrace_decodes hierarchy sameExec logged traceeDomainId tracee
  | denyScopeSignal hierarchy sameExec logged targetDomainId target =>
    exact handleDenyScopeSignal_decodes hierarchy sameExec logged targetDomainId target
  | denyScopeAbstractUnixSocket hierarchy sameExec logged peerDomainId peerPid address reads =>
    exact handleDenyScopeAbstractUnixSocket_decodes hierarchy sameExec logged peerDomainId peerPid
      address reads
  | freeDomain hierarchy => exact handleFreeDomain_decodes hierarchy
  | freeRuleset ruleset => exact handleFreeRuleset_decodes ruleset

/-! ## Valid identities -/

/-- An ID that the kernel assigns, and one that may be missing. -/
def ValidId (id : UInt64) : Prop := 2 ^ 32 ≤ id.toNat

@[inherit_doc ValidId]
def ValidOptionalId (id : UInt64) : Prop := id.toNat = 0 ∨ ValidId id

/-- The identities of a domain and of its creator. -/
structure ValidHierarchy (h : KernelHierarchy) : Prop where
  id : ValidId h.id
  parent : ValidOptionalId (h.parent.getD 0)
  creator : h.creatorTgid.toNat ≠ 0

/-- All identities that a tracepoint shows are valid. -/
def Valid (call : Invocation) : Tracepoint → Prop
  | createRuleset ruleset => ValidId ruleset.id
  | addRulePathBeneath ruleset _ _ _ _ => ValidId ruleset.id
  | addRuleNetPort ruleset _ _ => ValidId ruleset.id
  | createDomain hierarchy ruleset =>
    ValidId ruleset.id ∧ ValidId hierarchy.id ∧ ValidOptionalId (hierarchy.parent.getD 0) ∧
      (call.currentPidTgid >>> 32).toUInt32.toNat ≠ 0
  | enforceDomain hierarchy _ _ _ =>
    ValidId hierarchy.id ∧ call.currentPidTgid.toUInt32.toNat ≠ 0
  | denyAccessFs hierarchy _ _ _ _ _ _ => ValidHierarchy hierarchy
  | denyAccessNet hierarchy _ _ _ _ _ _ => ValidHierarchy hierarchy
  | denyPtrace hierarchy _ _ traceeDomainId tracee =>
    ValidHierarchy hierarchy ∧ ValidOptionalId traceeDomainId ∧ tracee.tgid.toNat ≠ 0
  | denyScopeSignal hierarchy _ _ targetDomainId target =>
    ValidHierarchy hierarchy ∧ ValidOptionalId targetDomainId ∧ target.tgid.toNat ≠ 0
  | denyScopeAbstractUnixSocket hierarchy _ _ peerDomainId _ _ _ =>
    ValidHierarchy hierarchy ∧ ValidOptionalId peerDomainId
  | freeDomain hierarchy => ValidId hierarchy.id
  | freeRuleset ruleset => ValidId ruleset.id

/-- The domain that denied is shown exactly for valid identities. -/
private theorem context_decides (hierarchy : KernelHierarchy) (sameExec logged : Bool) :
    Decides FieldRejection (ValidHierarchy hierarchy) (hierarchy.context sameExec logged) := by
  refine Decides.congr
    ((id_decides _).bind fun _ => (parent_decides _).bind fun _ => (taskId_decides _).bind fun _ =>
      .pure _) ?_
  constructor
  · rintro ⟨hid, hparent, hcreator, -⟩
    exact ⟨hid, hparent, hcreator⟩
  · intro h
    exact ⟨h.id, h.parent, h.creator, trivial⟩

/-- An event is shown exactly for valid identities. -/
theorem shown_decides {tracepoint : Tracepoint} {result : Except DecodeError Event}
    (h : tracepoint.shown en call = some result) :
    Decides FieldRejection (tracepoint.Valid call) result := by
  -- Most tracepoints show a single identity
  have hid : ∀ {α : Type} {K : LandlockIdKind} (value : UInt64) (field : String)
      (f : LandlockId K → α),
      Decides FieldRejection (ValidId value) (Wire.id value field >>= fun id => pure (f id)) :=
    fun value field f => ((id_decides value).bind fun _ => .pure _).congr (iff_of_eq (and_true _))
  cases tracepoint with
  | createRuleset ruleset =>
    cases h
    exact (hid _ _ _).map _
  | addRulePathBeneath ruleset accessRights device inode pathname =>
    obtain ⟨path, -, rfl⟩ := Option.map_eq_some_iff.mp h
    exact (hid _ _ _).map _
  | addRuleNetPort ruleset accessRights port =>
    cases h
    exact (hid _ _ _).map _
  | createDomain hierarchy ruleset =>
    cases h
    refine Decides.congr (((id_decides _).bind fun _ => (id_decides _).bind fun _ =>
      (parent_decides _).bind fun _ => (taskId_decides _).bind fun _ => .pure _).map _) ?_
    simp [Valid, ValidId, ValidOptionalId]
  | enforceDomain hierarchy complete processWide noNewPrivs =>
    cases h
    refine Decides.congr (((id_decides _).bind fun _ => (taskId_decides _).bind fun _ =>
      .pure _).map _) ?_
    simp [Valid, ValidId]
  | denyAccessFs hierarchy sameExec logged blockers device inode pathname =>
    obtain ⟨path, -, rfl⟩ := Option.map_eq_some_iff.mp h
    exact (((context_decides _ _ _).bind fun _ => .pure _).map _).congr (iff_of_eq (and_true _))
  | denyAccessNet hierarchy sameExec logged blockers socketFamily address addrlen =>
    cases h
    exact (((context_decides _ _ _).bind fun _ => .pure _).map _).congr (iff_of_eq (and_true _))
  | denyPtrace hierarchy sameExec logged traceeDomainId tracee =>
    cases h
    refine Decides.congr (((context_decides _ _ _).bind fun _ =>
      (domainMembership_decides _).bind fun _ => (taskId_decides _).bind fun _ =>
      .pure _).map _) ?_
    simp [Valid, ValidId, ValidOptionalId]
  | denyScopeSignal hierarchy sameExec logged targetDomainId target =>
    cases h
    refine Decides.congr (((context_decides _ _ _).bind fun _ =>
      (domainMembership_decides _).bind fun _ => (taskId_decides _).bind fun _ =>
      .pure _).map _) ?_
    simp [Valid, ValidId, ValidOptionalId]
  | denyScopeAbstractUnixSocket hierarchy sameExec logged peerDomainId peerPid address reads =>
    by_cases hcapturable : Capturable (reads.pointer address) reads
    · simp only [shown, dif_pos hcapturable, Option.some.injEq] at h
      subst h
      -- A captured name is always accepted: only identities can be wrong
      refine Decides.congr (((context_decides _ _ _).bind fun _ =>
        (domainMembership_decides _).bind fun _ => .pure _).map _) ?_
      simp [Valid, ValidId, ValidOptionalId]
    · simp only [shown, dif_neg hcapturable] at h
      cases h
  | freeDomain hierarchy =>
    cases h
    exact (hid _ _ _).map _
  | freeRuleset ruleset =>
    cases h
    exact (hid _ _ _).map _

/-! ## Paths end to end -/

/-- A valid identity is accepted as it is. -/
private theorem id_of_validId {K : LandlockIdKind} {value : UInt64} (h : ValidId value)
    (field : String) :
    ∃ id : LandlockId K, Wire.id value field = .ok id ∧ id.value = value := by
  obtain ⟨id, hid⟩ := (id_decides value).ok_iff.mpr h
  exact ⟨id, hid, (id_eq_ok_iff.mp hid).symm⟩

/-- As much of a path is captured as fits. -/
private theorem bytes_ofPath (path : KernelString) :
    (CapturedBytes.ofPath path.val path.property).bytes =
      path.val.take (min path.val.length 256) := by
  rw [Nat.min_comm, ← List.take_eq_take_min]
  rfl

/-- The records of both programs decode to the first 256 bytes of the path, marked exactly when
    the path is longer, and to the other values as they were read; a path that cannot be read
    gives no record. -/
theorem path_capture_exact (en : Endian) (call : Invocation) (hroom : call.room = true)
    (path : KernelString) :
    (∀ ruleset accessRights device inode, ValidId ruleset.id → ∃ record event,
      handleAddRulePathBeneath en call ruleset accessRights device inode (some path) = [record] ∧
      decode en record = .ok (.addRulePathBeneath event) ∧
      event.timestamp.nanoseconds = call.ktimeGetNs ∧ event.rulesetId.value = ruleset.id ∧
      event.rulesetVersion = ruleset.version ∧ event.accessRights.bits = accessRights ∧
      event.device = device ∧ event.inode = inode ∧
      event.pathname.bytes = path.val.take (min path.val.length 256) ∧
      (event.pathname.bytesOmitted = true ↔ 256 < path.val.length)) ∧
    (∀ hierarchy sameExec logged blockers device inode, ValidHierarchy hierarchy →
      ∃ record event,
      handleDenyAccessFs en call hierarchy sameExec logged blockers device inode (some path) =
        [record] ∧
      decode en record = .ok (.denyAccessFs event) ∧
      event.timestamp.nanoseconds = call.ktimeGetNs ∧
      hierarchy.context sameExec logged = .ok event.context ∧
      event.blockersType.raw = blockers.type ∧ event.blockersAccess.bits = blockers.access ∧
      event.device = device ∧ event.inode = inode.getD 0 ∧
      event.pathname.bytes = path.val.take (min path.val.length 256) ∧
      (event.pathname.bytesOmitted = true ↔ 256 < path.val.length)) ∧
    ∀ call, (∀ ruleset accessRights device inode,
        handleAddRulePathBeneath en call ruleset accessRights device inode none = []) ∧
      ∀ hierarchy sameExec logged blockers device inode,
        handleDenyAccessFs en call hierarchy sameExec logged blockers device inode none = [] := by
  refine ⟨fun ruleset accessRights device inode hvalid => ?_,
    fun hierarchy sameExec logged blockers device inode hvalid => ?_, fun call => ⟨?_, ?_⟩⟩
  -- The identity is accepted, so that what is shown is an event, and it is the one of the record
  · obtain ⟨id, hid, hvalue⟩ := id_of_validId (K := .ruleset) hvalid "ruleset_id"
    have hdecodes := @handleAddRulePathBeneath_decodes en call ruleset accessRights device inode
      (some path)
    rw [hroom, if_pos rfl, shown, Option.map_some, Option.toList_some, hid] at hdecodes
    obtain ⟨record, hrecord, hdecode⟩ := List.map_eq_singleton_iff.mp hdecodes
    exact ⟨record, _, hrecord, hdecode, rfl, hvalue, rfl, rfl, rfl, rfl, bytes_ofPath path,
      decide_eq_true_iff⟩
  · obtain ⟨context, hcontext⟩ := (context_decides hierarchy sameExec logged).ok_iff.mpr hvalid
    have hdecodes := @handleDenyAccessFs_decodes en call hierarchy sameExec logged blockers device
      inode (some path)
    rw [hroom, if_pos rfl, shown, Option.map_some, Option.toList_some, hcontext] at hdecodes
    obtain ⟨record, hrecord, hdecode⟩ := List.map_eq_singleton_iff.mp hdecodes
    exact ⟨record, _, hrecord, hdecode, rfl, hcontext, rfl, rfl, rfl, rfl, bytes_ofPath path,
      decide_eq_true_iff⟩
  · -- without room there is no record to begin with
    intro ruleset accessRights device inode
    rw [handleAddRulePathBeneath, allocEvent]
    cases call.room <;> rfl
  · intro hierarchy sameExec logged blockers device inode
    rw [handleDenyAccessFs, allocEvent]
    cases call.room <;> rfl

/-- A program that finds room for its record. -/
def sampleCall : Invocation := ⟨true, 7, 0, []⟩

/-- A path of one byte more than fits. -/
def longPath : KernelString := ⟨List.replicate 257 97, fun h => by
  rw [List.mem_replicate] at h
  exact absurd h.2 (by decide)⟩

/-- A domain that the first process has created. -/
def sampleHierarchy : KernelHierarchy := ⟨4294967296, 1, none, some (some 1, [])⟩

/-- Its identities are valid. -/
private theorem sampleHierarchy_valid : ValidHierarchy sampleHierarchy where
  id := Nat.le_refl _
  parent := .inl rfl
  creator := by decide

/-- A path that is too long is cut off and marked. -/
theorem path_capture_exact_marked :
    ∃ record event, handleDenyAccessFs .little sampleCall sampleHierarchy false true ⟨4, 1⟩ 1
        (some 2) (some longPath) = [record] ∧
      decode .little record = .ok (.denyAccessFs event) ∧
      event.pathname.bytes = List.replicate 256 97 ∧ event.pathname.bytesOmitted = true := by
  obtain ⟨-, hdenial, -⟩ := path_capture_exact .little sampleCall rfl longPath
  obtain ⟨record, event, hrecord, hdecode, -, -, -, -, -, -, hbytes, homitted⟩ :=
    hdenial sampleHierarchy false true ⟨4, 1⟩ 1 (some 2) sampleHierarchy_valid
  have hlength : longPath.val.length = 257 := List.length_replicate
  refine ⟨record, event, hrecord, hdecode, ?_, homitted.mpr (by rw [hlength]; decide)⟩
  rw [hbytes, hlength]
  exact List.take_replicate

/-! ## Discarded records -/

/-- The program of a tracepoint discards its record: the path cannot be read, or the peer has an
    address that is not abstract, is too short or too long, or cannot be read any further. -/
def Discarded : Tracepoint → Prop
  | addRulePathBeneath _ _ _ _ pathname => pathname = none
  | denyAccessFs _ _ _ _ _ _ pathname => pathname = none
  | denyScopeAbstractUnixSocket _ _ _ _ _ address reads =>
    ∃ addr, reads.pointer address = some addr ∧ ¬ Readable addr reads
  | _ => False

/-- Exactly then, nothing is shown. -/
private theorem shown_eq_none_iff {tracepoint : Tracepoint} :
    tracepoint.shown en call = none ↔ tracepoint.Discarded := by
  cases tracepoint with
  | addRulePathBeneath ruleset accessRights device inode pathname => exact Option.map_eq_none_iff
  | denyAccessFs hierarchy sameExec logged blockers device inode pathname =>
    exact Option.map_eq_none_iff
  | denyScopeAbstractUnixSocket hierarchy sameExec logged peerDomainId peerPid address reads =>
    simp only [shown, Discarded, dite_eq_right_iff, reduceCtorEq, imp_false]
    cases hpointer : reads.pointer address with
    | none => simp [capturable_none]
    | some addr => simp [capturable_some]
  | _ => exact iff_of_false (fun h => (by cases h)) id

/-- The way from the kernel to user space is transparent.  For every tracepoint with any values
    and in both byte orders, at most one record is submitted, and none exactly if the ring
    buffer is full or the program discards it.  The record decodes to the event of the values
    that were read, or to the error for the first of them that is not valid, so that it is
    malformed exactly if an identity is not valid. -/
theorem tracepoint_transparent (en : Endian) (call : Invocation) (tracepoint : Tracepoint) :
    (tracepoint.handle en call).length ≤ 1 ∧
      (tracepoint.handle en call = [] ↔ call.room = false ∨ tracepoint.Discarded) ∧
      ∀ record ∈ tracepoint.handle en call,
        tracepoint.shown en call = some (decode en record) ∧
        ((∃ event, decode en record = .ok event) ↔ tracepoint.Valid call) := by
  have hdecodes := handle_decodes en call tracepoint
  rw [← @shown_eq_none_iff en call]
  -- Without room nothing is submitted; with room, what is shown decides
  cases hroom : call.room with
  | false =>
    rw [hroom] at hdecodes
    have hnil : tracepoint.handle en call = [] := List.map_eq_nil_iff.mp hdecodes
    rw [hnil]
    exact ⟨Nat.zero_le 1, ⟨fun _ => .inl rfl, fun _ => rfl⟩, fun _ h => absurd h List.not_mem_nil⟩
  | true =>
    rw [hroom, if_pos rfl] at hdecodes
    cases hshown : tracepoint.shown en call with
    | none =>
      rw [hshown] at hdecodes
      have hnil : tracepoint.handle en call = [] := List.map_eq_nil_iff.mp hdecodes
      rw [hnil]
      exact ⟨Nat.zero_le 1, ⟨fun _ => .inr rfl, fun _ => rfl⟩,
        fun _ h => absurd h List.not_mem_nil⟩
    | some result =>
      rw [hshown] at hdecodes
      obtain ⟨record, hrecord, rfl⟩ := List.map_eq_singleton_iff.mp hdecodes
      rw [hrecord]
      refine ⟨le_rfl, ⟨fun h => (by cases h), fun h => ?_⟩, fun record' h => ?_⟩
      · rcases h with h | h <;> cases h
      · rw [List.mem_singleton.mp h]
        exact ⟨rfl, (shown_decides hshown).ok_iff⟩

end Tracepoint

end Landlock
