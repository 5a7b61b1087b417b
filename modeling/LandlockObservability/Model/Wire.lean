import LandlockObservability.ForStd.Bytes
import LandlockObservability.Model.Event

/-!
# The record decoder

Models `src/wire.rs`: `decode` turns a fixed-size record of the kernel side into a
semantic event, and reports the first field that it rejects.

A sample is a list of bytes.  The functions follow the source in what they check
and in which order, the error values carry the same field names, and `usize` is
64 bits wide.  Words are in the byte order of the machine, which both sides share;
it is the parameter `en`.
-/

namespace Landlock

namespace Wire

def recordSize : Nat := 352
def timestampOffset : Nat := 0
def typeOffset : Nat := 8
def unionOffset : Nat := 16
def commSize : Nat := 16
def pathSize : Nat := 256
def abstractUnixSocketNameMaxLen : Nat := 107

/-- The event kinds, `enum event_type` of the kernel side. -/
inductive EventKind where
  | createRuleset
  | addRulePathBeneath
  | addRuleNetPort
  | createDomain
  | denyAccessFs
  | denyAccessNet
  | denyPtrace
  | denyScopeSignal
  | denyScopeAbstractUnixSocket
  | freeDomain
  | freeRuleset
  | enforceDomain
  deriving DecidableEq, Repr

namespace EventKind

/-- The constants `CREATE_RULESET` to `ENFORCE_DOMAIN`. -/
def value : EventKind → UInt8
  | createRuleset => 1
  | addRulePathBeneath => 2
  | addRuleNetPort => 3
  | createDomain => 4
  | denyAccessFs => 5
  | denyAccessNet => 6
  | denyPtrace => 7
  | denyScopeSignal => 8
  | denyScopeAbstractUnixSocket => 9
  | freeDomain => 10
  | freeRuleset => 11
  | enforceDomain => 12

def all : List EventKind :=
  [createRuleset, addRulePathBeneath, addRuleNetPort, createDomain, denyAccessFs,
   denyAccessNet, denyPtrace, denyScopeSignal, denyScopeAbstractUnixSocket, freeDomain,
   freeRuleset, enforceDomain]

/-- The kind a type byte stands for. -/
def ofValue (byte : UInt8) : Option EventKind := all.find? fun kind => kind.value = byte

end EventKind

/-- A malformed record. -/
inductive DecodeError where
  | length (expected actual : Nat)
  | boolean (field : String) (value : UInt8)
  | capturedBytes (field : String) (source : CapturedBytesError)
  | abstractUnixSocketNameLength (value : UInt32) (maximum : Nat)
  | id (field : String) (value : UInt64)
  | taskId (field : String)
  | eventKind (value : UInt8)
  | field (field : String)
  deriving DecidableEq, Repr

/-! ## Reading fields -/

/-- `slice_at`. -/
def sliceAt (data : List UInt8) (offset size : Nat) (field : String) :
    Except DecodeError (List UInt8) :=
  -- `offset.checked_add(size)`
  if offset + size < 2 ^ 64 then
    if offset + size ≤ data.length then .ok (Bytes.slice data offset size)
    else .error (.field field)
  else .error (.field field)

/-- `bytes`: a slice of exactly `size` bytes. -/
def bytes (size : Nat) (data : List UInt8) (offset : Nat) (field : String) :
    Except DecodeError (List UInt8) := do
  let value ← sliceAt data offset size field
  if value.length = size then .ok value else .error (.field field)

/-- `u32_at`. -/
def u32At (en : Endian) (data : List UInt8) (offset : Nat) (field : String) :
    Except DecodeError UInt32 := do
  return UInt32.ofNat (Bytes.toWord en (← bytes 4 data offset field))

/-- `u64_at`. -/
def u64At (en : Endian) (data : List UInt8) (offset : Nat) (field : String) :
    Except DecodeError UInt64 := do
  return UInt64.ofNat (Bytes.toWord en (← bytes 8 data offset field))

/-- `captured_c_string`: the bytes before the first NUL, or all of them. -/
def capturedCString {K : CapturedBytesOrigin} (value : List UInt8) (bytesOmitted : Bool)
    (field : String) : Except DecodeError (CapturedBytes K) :=
  -- `position(..).unwrap_or(value.len())`
  let stop := value.findIdx (· == 0)
  if stop ≤ value.length then
    (CapturedBytes.new (value.take stop) bytesOmitted).mapError (.capturedBytes field)
  else .error (.field field)

/-- `boolean_at`. -/
def booleanAt (data : List UInt8) (offset : Nat) (field : String) :
    Except DecodeError Bool :=
  match data[offset]? with
  | none => .error (.field field)
  | some value =>
    if value = 0 then .ok false else if value = 1 then .ok true
    else .error (.boolean field value)

/-- `captured_at`: the omission flag is checked before the bytes. -/
def capturedAt {K : CapturedBytesOrigin} (data : List UInt8) (offset size omittedOffset : Nat)
    (field omittedField : String) : Except DecodeError (CapturedBytes K) := do
  let value ← sliceAt data offset size field
  let bytesOmitted ← booleanAt data omittedOffset omittedField
  capturedCString value bytesOmitted field

/-- The `FIELD` of `abstract_unix_socket_name_at`. -/
def abstractUnixSocketNameField : String := "abstract_unix_socket_name"

/-- `abstract_unix_socket_name_at`: the length field decides how many bytes count. -/
def abstractUnixSocketNameAt (en : Endian) (data : List UInt8) (lengthOffset nameOffset : Nat) :
    Except DecodeError CapturedAbstractUnixSocketName := do
  let length ← u32At en data lengthOffset "abstract_unix_socket_name_length"
  if length > UInt32.ofNat abstractUnixSocketNameMaxLen then
    .error (.abstractUnixSocketNameLength length abstractUnixSocketNameMaxLen)
  else
    -- An abstract name may hold NUL bytes, so that it is not cut at one
    let value ← sliceAt data nameOffset length.toNat abstractUnixSocketNameField
    (CapturedBytes.new value false).mapError (.capturedBytes abstractUnixSocketNameField)

/-- `command_at`. -/
def commandAt (data : List UInt8) (offset : Nat) (field : String) :
    Except DecodeError CapturedCommand := do
  let value ← sliceAt data offset commSize field
  capturedCString value false field

/-- `id`. -/
def id {K : LandlockIdKind} (value : UInt64) (field : String) :
    Except DecodeError (LandlockId K) :=
  (LandlockId.new value).mapError fun _ => .id field value

/-- `process_id` and `thread_id`. -/
def taskId {K : TaskIdKind} (value : UInt32) (field : String) :
    Except DecodeError (TaskId K) :=
  (TaskId.new value).mapError fun _ => .taskId field

def processId (value : UInt32) (field : String) : Except DecodeError ProcessId :=
  taskId value field

def threadId (value : UInt32) (field : String) : Except DecodeError ThreadId :=
  taskId value field

/-- `optional_process_id`: zero stands for no process. -/
def optionalProcessId (value : UInt32) : Option ProcessId :=
  -- `ok()`: the error is dropped
  (TaskId.new value).toOption

/-- `parent`: zero stands for no parent. -/
def parent (value : UInt64) (field : String) : Except DecodeError (Option DomainId) :=
  if value = 0 then .ok none else (id value field).map some

/-- `domain_membership`: zero stands for no domain. -/
def domainMembership (value : UInt64) (field : String) :
    Except DecodeError DomainMembership :=
  if value = 0 then .ok .unsandboxed else (id value field).map .sandboxed

/-- `denial_context`: the header shared by the five denial layouts. -/
def denialContext (en : Endian) (data : List UInt8) : Except DecodeError DenialContext := do
  let domainId ← id (← u64At en data unionOffset "domain_id") "domain_id"
  let parentId ← parent (← u64At en data 24 "parent_id") "parent_id"
  let creatorTgid ← processId (← u32At en data 32 "creator_tgid") "creator_tgid"
  let creatorComm ← commandAt data 36 "creator_comm"
  -- Offset 52 holds the blockers of the access layouts, and padding in the others
  let hierarchy := { domainId, parentId, creatorTgid, creatorComm }
  let cumulativeDenialCount ← u64At en data 56 "cumulative_denial_count"
  let sameExec ← booleanAt data 72 "same_exec"
  let logged ← booleanAt data 73 "logged"
  return { hierarchy, cumulativeDenialCount, sameExec, logged }

/-! ## The arms of `decode` -/

def createRulesetAt (en : Endian) (data : List UInt8) (timestamp : KernelTimestamp) :
    Except DecodeError CreateRulesetEvent := do
  let rulesetId ← id (← u64At en data 16 "ruleset_id") "ruleset_id"
  let rulesetVersion ← u64At en data 24 "ruleset_version"
  let handledFs := ⟨← u64At en data 32 "handled_fs"⟩
  let handledNet := ⟨← u64At en data 40 "handled_net"⟩
  let scopedAccess := ⟨← u64At en data 48 "scoped"⟩
  return { timestamp, rulesetId, rulesetVersion, handledFs, handledNet, scopedAccess }

def addRulePathBeneathAt (en : Endian) (data : List UInt8) (timestamp : KernelTimestamp) :
    Except DecodeError AddRulePathBeneathEvent := do
  let rulesetId ← id (← u64At en data 16 "ruleset_id") "ruleset_id"
  let rulesetVersion ← u64At en data 24 "ruleset_version"
  let accessRights := ⟨← u64At en data 32 "access_rights"⟩
  let device ← u32At en data 40 "device"
  let inode ← u64At en data 48 "inode"
  let pathname ← capturedAt data 56 pathSize 44 "pathname" "pathname_bytes_omitted"
  return { timestamp, rulesetId, rulesetVersion, accessRights, device, inode, pathname }

def addRuleNetPortAt (en : Endian) (data : List UInt8) (timestamp : KernelTimestamp) :
    Except DecodeError AddRuleNetPortEvent := do
  let rulesetId ← id (← u64At en data 16 "ruleset_id") "ruleset_id"
  let rulesetVersion ← u64At en data 24 "ruleset_version"
  let accessRights := ⟨← u64At en data 32 "access_rights"⟩
  let port ← u64At en data 40 "port"
  return { timestamp, rulesetId, rulesetVersion, accessRights, port }

def createDomainAt (en : Endian) (data : List UInt8) (timestamp : KernelTimestamp) :
    Except DecodeError CreateDomainEvent := do
  let rulesetId ← id (← u64At en data 16 "ruleset_id") "ruleset_id"
  let rulesetVersion ← u64At en data 24 "ruleset_version"
  let domainId ← id (← u64At en data 32 "domain_id") "domain_id"
  let parentId ← parent (← u64At en data 40 "parent_id") "parent_id"
  let creatorTgid ← processId (← u32At en data 48 "creator_tgid") "creator_tgid"
  let creatorComm ← commandAt data 52 "creator_comm"
  return { timestamp, rulesetId, rulesetVersion, domainId, parentId, creatorTgid, creatorComm }

def denyAccessFsAt (en : Endian) (data : List UInt8) (timestamp : KernelTimestamp) :
    Except DecodeError DenyAccessFsEvent := do
  let context ← denialContext en data
  let blockersType := ⟨← u32At en data 52 "blockers_type"⟩
  let blockersAccess := ⟨← u64At en data 64 "blockers_access"⟩
  let device ← u32At en data 80 "device"
  let inode ← u64At en data 88 "inode"
  let pathname ← capturedAt data 96 pathSize 84 "pathname" "pathname_bytes_omitted"
  return { timestamp, context, blockersType, blockersAccess, device, inode, pathname }

def denyAccessNetAt (en : Endian) (data : List UInt8) (timestamp : KernelTimestamp) :
    Except DecodeError DenyAccessNetEvent := do
  let context ← denialContext en data
  let blockersType := ⟨← u32At en data 52 "blockers_type"⟩
  let blockersAccess := ⟨← u64At en data 64 "blockers_access"⟩
  let sourcePort ← u64At en data 80 "source_port"
  let destinationPort ← u64At en data 88 "destination_port"
  return { timestamp, context, blockersType, blockersAccess, sourcePort, destinationPort }

def denyPtraceAt (en : Endian) (data : List UInt8) (timestamp : KernelTimestamp) :
    Except DecodeError DenyPtraceEvent := do
  -- The header is checked before the fields of the variant
  let context ← denialContext en data
  let traceeDomain ← domainMembership (← u64At en data 80 "tracee_domain") "tracee_domain"
  let traceePid ← processId (← u32At en data 88 "tracee_pid") "tracee_pid"
  let traceeComm ← commandAt data 92 "tracee_comm"
  return { timestamp, context, traceeDomain, traceePid, traceeComm }

def denyScopeSignalAt (en : Endian) (data : List UInt8) (timestamp : KernelTimestamp) :
    Except DecodeError DenyScopeSignalEvent := do
  let context ← denialContext en data
  let targetDomain ← domainMembership (← u64At en data 80 "target_domain") "target_domain"
  let targetPid ← processId (← u32At en data 88 "target_pid") "target_pid"
  let targetComm ← commandAt data 92 "target_comm"
  return { timestamp, context, targetDomain, targetPid, targetComm }

def denyScopeAbstractUnixSocketAt (en : Endian) (data : List UInt8)
    (timestamp : KernelTimestamp) : Except DecodeError DenyScopeAbstractUnixSocketEvent := do
  let context ← denialContext en data
  let peerDomain ← domainMembership (← u64At en data 80 "peer_domain") "peer_domain"
  let peerPid := optionalProcessId (← u32At en data 88 "peer_pid")
  let abstractName ← abstractUnixSocketNameAt en data 92 96
  return { timestamp, context, peerDomain, peerPid, abstractName }

def freeDomainAt (en : Endian) (data : List UInt8) (timestamp : KernelTimestamp) :
    Except DecodeError FreeDomainEvent := do
  let domainId ← id (← u64At en data 16 "domain_id") "domain_id"
  let denialCount ← u64At en data 24 "denial_count"
  return { timestamp, domainId, denialCount }

def freeRulesetAt (en : Endian) (data : List UInt8) (timestamp : KernelTimestamp) :
    Except DecodeError FreeRulesetEvent := do
  let rulesetId ← id (← u64At en data 16 "ruleset_id") "ruleset_id"
  let rulesetVersion ← u64At en data 24 "ruleset_version"
  return { timestamp, rulesetId, rulesetVersion }

def enforceDomainAt (en : Endian) (data : List UInt8) (timestamp : KernelTimestamp) :
    Except DecodeError EnforceDomainEvent := do
  let domainId ← id (← u64At en data 16 "domain_id") "domain_id"
  let enforcingTid ← threadId (← u32At en data 24 "enforcing_tid") "enforcing_tid"
  let complete ← booleanAt data 28 "complete"
  let processWide ← booleanAt data 29 "process_wide"
  let noNewPrivs ← booleanAt data 30 "no_new_privs"
  return { timestamp, domainId, enforcingTid, complete, processWide, noNewPrivs }

/-- The event of a record of kind `kind`. -/
def eventAt (en : Endian) (data : List UInt8) (timestamp : KernelTimestamp) :
    EventKind → Except DecodeError Event
  | .createRuleset => Event.createRuleset <$> createRulesetAt en data timestamp
  | .addRulePathBeneath => Event.addRulePathBeneath <$> addRulePathBeneathAt en data timestamp
  | .addRuleNetPort => Event.addRuleNetPort <$> addRuleNetPortAt en data timestamp
  | .createDomain => Event.createDomain <$> createDomainAt en data timestamp
  | .denyAccessFs => Event.denyAccessFs <$> denyAccessFsAt en data timestamp
  | .denyAccessNet => Event.denyAccessNet <$> denyAccessNetAt en data timestamp
  | .denyPtrace => Event.denyPtrace <$> denyPtraceAt en data timestamp
  | .denyScopeSignal => Event.denyScopeSignal <$> denyScopeSignalAt en data timestamp
  | .denyScopeAbstractUnixSocket =>
    Event.denyScopeAbstractUnixSocket <$> denyScopeAbstractUnixSocketAt en data timestamp
  | .freeDomain => Event.freeDomain <$> freeDomainAt en data timestamp
  | .freeRuleset => Event.freeRuleset <$> freeRulesetAt en data timestamp
  | .enforceDomain => Event.enforceDomain <$> enforceDomainAt en data timestamp

/-- `decode`: the event of a complete record. -/
def decode (en : Endian) (data : List UInt8) : Except DecodeError Event :=
  if data.length ≠ recordSize then
    .error (.length recordSize data.length)
  else
    match data[typeOffset]? with
    -- Not reachable past the length check, as in the source
    | none => .error (.field "event_type")
    | some eventType => do
      let timestamp := ⟨← u64At en data timestampOffset "timestamp"⟩
      match EventKind.ofValue eventType with
      | some kind => eventAt en data timestamp kind
      | none => .error (.eventKind eventType)

end Wire

end Landlock
