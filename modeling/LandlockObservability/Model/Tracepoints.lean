import LandlockObservability.Model.SocketHandlers

/-!
# The tracepoint programs

Models the twelve programs of `src/bpf/landlock_observability.bpf.c` from the values that they
read from kernel objects on, whatever these are: an ID may be zero and a creator unknown.  The
programs whose interesting part is a path or a socket address end as in
`Model.PathHandlers` and `Model.SocketHandlers`.

As there, `BPF_CORE_READ` has no error and a pointer is what it was read as.
-/

namespace Landlock

open Layout Wire Producer

/-- A string of the kernel: the bytes before its NUL. -/
abbrev KernelString := {bytes : List UInt8 // (0 : UInt8) ∉ bytes}

/-- A `struct landlock_ruleset` as it is read, with the bit fields of its masks widened. -/
structure KernelRuleset where
  id : UInt64
  version : UInt64
  handledFs : UInt64
  handledNet : UInt64
  scope : UInt64

/-- A `struct task_struct` as it is read. -/
structure KernelTask where
  tgid : UInt32
  comm : List UInt8

/-- What a program gets from the helpers: whether the ring buffer has room for a record, the
    time, and the task that it runs in. -/
structure Invocation where
  room : Bool
  ktimeGetNs : UInt64
  currentPidTgid : UInt64
  currentComm : List UInt8

/-- A `struct landlock_blockers`. -/
structure KernelBlockers where
  access : UInt64
  type : UInt32

/-- A tracepoint of Landlock, with what its program uses of the arguments. -/
inductive Tracepoint where
  | createRuleset (ruleset : KernelRuleset)
  | addRulePathBeneath (ruleset : KernelRuleset) (accessRights : UInt64) (device : UInt32)
      (inode : UInt64) (pathname : Option KernelString)
  | addRuleNetPort (ruleset : KernelRuleset) (accessRights port : UInt64)
  | createDomain (hierarchy : KernelHierarchy) (ruleset : KernelRuleset)
  | enforceDomain (hierarchy : KernelHierarchy) (complete processWide noNewPrivs : Bool)
  | denyAccessFs (hierarchy : KernelHierarchy) (sameExec logged : Bool)
      (blockers : KernelBlockers) (device : UInt32) (inode : Option UInt64)
      (pathname : Option KernelString)
  | denyAccessNet (hierarchy : KernelHierarchy) (sameExec logged : Bool)
      (blockers : KernelBlockers) (socketFamily : UInt16) (address : SockaddrIn)
      (addrlen : Int32)
  | denyPtrace (hierarchy : KernelHierarchy) (sameExec logged : Bool) (traceeDomainId : UInt64)
      (tracee : KernelTask)
  | denyScopeSignal (hierarchy : KernelHierarchy) (sameExec logged : Bool)
      (targetDomainId : UInt64) (target : KernelTask)
  | denyScopeAbstractUnixSocket (hierarchy : KernelHierarchy) (sameExec logged : Bool)
      (peerDomainId : UInt64) (peerPid : Option UInt32) (address : Option UnixAddress)
      (reads : NameReads)
  | freeDomain (hierarchy : KernelHierarchy)
  | freeRuleset (ruleset : KernelRuleset)

namespace Tracepoint

variable (en : Endian) (call : Invocation)

/-- `alloc_event`, the stores, and `submit_event`. -/
def submitEvent (kind : EventKind) (stores : List (Member × List UInt8)) : List (List UInt8) :=
  match allocEvent call.room with
  | none => []
  | some record => [fill (slots kind) record stores]

/-- The stores that every program makes. -/
def eventHeader (kind : EventKind) : List (Member × List UInt8) :=
  [(.timestampNs, word64 en call.ktimeGetNs), (.type, [kind.value])]

def handleCreateRuleset (ruleset : KernelRuleset) : List (List UInt8) :=
  submitEvent call .createRuleset (eventHeader en call .createRuleset ++
    [(.rulesetId, word64 en ruleset.id),
     (.rulesetVersion, word64 en ruleset.version),
     (.handledFs, word64 en ruleset.handledFs),
     (.handledNet, word64 en ruleset.handledNet),
     (.scopedAccess, word64 en ruleset.scope)])

def handleAddRulePathBeneath (ruleset : KernelRuleset) (accessRights : UInt64) (device : UInt32)
    (inode : UInt64) (pathname : Option KernelString) : List (List UInt8) :=
  match allocEvent call.room with
  | none => []
  | some record =>
    -- The path comes last, and its failure discards the record
    submitWithPath .addRulePathBeneath record (eventHeader en call .addRulePathBeneath ++
      [(.rulesetId, word64 en ruleset.id),
       (.rulesetVersion, word64 en ruleset.version),
       (.accessRights, word64 en accessRights),
       (.dev, word32 en device),
       (.ino, word64 en inode)]) (pathname.map Subtype.val)

def handleAddRuleNetPort (ruleset : KernelRuleset) (accessRights port : UInt64) :
    List (List UInt8) :=
  submitEvent call .addRuleNetPort (eventHeader en call .addRuleNetPort ++
    [(.rulesetId, word64 en ruleset.id),
     (.rulesetVersion, word64 en ruleset.version),
     (.accessRights, word64 en accessRights),
     (.port, word64 en port)])

def handleCreateDomain (hierarchy : KernelHierarchy) (ruleset : KernelRuleset) :
    List (List UInt8) :=
  submitEvent call .createDomain (eventHeader en call .createDomain ++
    [(.rulesetId, word64 en ruleset.id),
     (.rulesetVersion, word64 en ruleset.version),
     (.domainId, word64 en hierarchy.id),
     (.parentId, word64 en (hierarchy.parent.getD 0)),
     -- The high half of `bpf_get_current_pid_tgid`
     (.creatorTgid, word32 en (call.currentPidTgid >>> 32).toUInt32),
     (.creatorComm, Producer.currentComm call.currentComm)])

def handleEnforceDomain (hierarchy : KernelHierarchy) (complete processWide noNewPrivs : Bool) :
    List (List UInt8) :=
  submitEvent call .enforceDomain (eventHeader en call .enforceDomain ++
    [(.domainId, word64 en hierarchy.id),
     -- The low half of `bpf_get_current_pid_tgid`
     (.enforcingTid, word32 en call.currentPidTgid.toUInt32),
     (.complete, boolean complete),
     (.processWide, boolean processWide),
     (.noNewPrivs, boolean noNewPrivs)])

def handleDenyAccessFs (hierarchy : KernelHierarchy) (sameExec logged : Bool)
    (blockers : KernelBlockers) (device : UInt32) (inode : Option UInt64)
    (pathname : Option KernelString) : List (List UInt8) :=
  match allocEvent call.room with
  | none => []
  | some record =>
    submitWithPath .denyAccessFs record (eventHeader en call .denyAccessFs ++
      fillDenyHeaderFrom en hierarchy ++
      [(.blockersType, word32 en blockers.type),
       (.blockersAccess, word64 en blockers.access),
       (.sameExec, boolean sameExec),
       (.logged, boolean logged),
       (.dev, word32 en device),
       -- A null inode gives zero
       (.ino, word64 en (inode.getD 0))]) (pathname.map Subtype.val)

/-- The end of the two programs for denials between tasks, which differ in the members. -/
def submitTaskDenial (kind : EventKind) (domainMember pidMember commMember : Member)
    (hierarchy : KernelHierarchy) (sameExec logged : Bool) (domainId : UInt64)
    (task : KernelTask) : List (List UInt8) :=
  submitEvent call kind (eventHeader en call kind ++ fillDenyHeaderFrom en hierarchy ++
    -- No access rights are passed to these hooks
    [(.blockersAccess, word64 en 0),
     (.sameExec, boolean sameExec),
     (.logged, boolean logged),
     (domainMember, word64 en domainId),
     (pidMember, word32 en task.tgid),
     (commMember, readStr task.comm)])

def handleDenyPtrace (hierarchy : KernelHierarchy) (sameExec logged : Bool)
    (traceeDomainId : UInt64) (tracee : KernelTask) : List (List UInt8) :=
  submitTaskDenial en call .denyPtrace .traceeDomainId .traceePid .traceeComm hierarchy sameExec
    logged traceeDomainId tracee

def handleDenyScopeSignal (hierarchy : KernelHierarchy) (sameExec logged : Bool)
    (targetDomainId : UInt64) (target : KernelTask) : List (List UInt8) :=
  submitTaskDenial en call .denyScopeSignal .targetDomainId .targetPid .targetComm hierarchy
    sameExec logged targetDomainId target

def handleFreeDomain (hierarchy : KernelHierarchy) : List (List UInt8) :=
  submitEvent call .freeDomain (eventHeader en call .freeDomain ++
    [(.domainId, word64 en hierarchy.id), (.denials, word64 en hierarchy.numDenials)])

def handleFreeRuleset (ruleset : KernelRuleset) : List (List UInt8) :=
  submitEvent call .freeRuleset (eventHeader en call .freeRuleset ++
    [(.rulesetId, word64 en ruleset.id), (.rulesetVersion, word64 en ruleset.version)])

/-- The records that the program of a tracepoint submits. -/
def handle : Tracepoint → List (List UInt8)
  | createRuleset ruleset => handleCreateRuleset en call ruleset
  | addRulePathBeneath ruleset accessRights device inode pathname =>
    handleAddRulePathBeneath en call ruleset accessRights device inode pathname
  | addRuleNetPort ruleset accessRights port =>
    handleAddRuleNetPort en call ruleset accessRights port
  | createDomain hierarchy ruleset => handleCreateDomain en call hierarchy ruleset
  | enforceDomain hierarchy complete processWide noNewPrivs =>
    handleEnforceDomain en call hierarchy complete processWide noNewPrivs
  | denyAccessFs hierarchy sameExec logged blockers device inode pathname =>
    handleDenyAccessFs en call hierarchy sameExec logged blockers device inode pathname
  | denyAccessNet hierarchy sameExec logged blockers socketFamily address addrlen =>
    handleDenyAccessNet en call.room
      ⟨call.ktimeGetNs, hierarchy, blockers.type, blockers.access, sameExec, logged⟩
      socketFamily address addrlen
  | denyPtrace hierarchy sameExec logged traceeDomainId tracee =>
    handleDenyPtrace en call hierarchy sameExec logged traceeDomainId tracee
  | denyScopeSignal hierarchy sameExec logged targetDomainId target =>
    handleDenyScopeSignal en call hierarchy sameExec logged targetDomainId target
  | denyScopeAbstractUnixSocket hierarchy sameExec logged peerDomainId peerPid address reads =>
    handleDenyScopeAbstractUnixSocket en call.room
      ⟨call.ktimeGetNs, hierarchy, sameExec, logged, peerDomainId, peerPid⟩ address reads
  | freeDomain hierarchy => handleFreeDomain en call hierarchy
  | freeRuleset ruleset => handleFreeRuleset en call ruleset

end Tracepoint

end Landlock
