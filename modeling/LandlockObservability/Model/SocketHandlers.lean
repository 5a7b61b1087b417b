import LandlockObservability.Model.PathHandlers

/-!
# Handlers that read a socket address

Models `project_checked_port`, `capture_abstract_unix_socket_name`, `fill_deny_header` and the
handlers `handle_deny_access_net` and `handle_deny_scope_abstract_unix_socket` of
`src/bpf/landlock_observability.bpf.c`.  A handler's result is the list of the records that it
submits.

`BPF_CORE_READ` has no error: memory that cannot be read is zero, and so a pointer that cannot
be read is null.  The address of a peer decides what is emitted at all, so that its reads are
modelled one by one; every other pointer is what it was read as, `none` for a null pointer.
-/

namespace Landlock.Producer

open Layout Wire

/-! ## Ports -/

/-- `AF_UNSPEC`, `AF_INET` and `AF_INET6`. -/
def afUnspec : UInt16 := 0

@[inherit_doc afUnspec]
def afInet : UInt16 := 2

@[inherit_doc afUnspec]
def afInet6 : UInt16 := 10

/-- `LANDLOCK_ACCESS_NET_BIND`. -/
def landlockAccessNetBind : UInt64 := ((1 : UInt64) <<< 0) ||| ((1 : UInt64) <<< 2)

/-- `LANDLOCK_ACCESS_NET_CONNECT_SEND`. -/
def landlockAccessNetConnectSend : UInt64 := ((1 : UInt64) <<< 1) ||| ((1 : UInt64) <<< 3)

/-- `SOCKADDR_PORT_END`: the port follows the family, and both have two bytes. -/
def sockaddrPortEnd : Int32 := 4

/-- `HAS_CHECKED_PORT`. -/
def hasCheckedPort (addrlen : Int32) (addressFamily socketFamily : UInt16) : Bool :=
  decide (addrlen ≥ sockaddrPortEnd) &&
    -- An unspecified address means IPv4 on an IPv4 socket
    (addressFamily == afInet || addressFamily == afInet6 ||
      (addressFamily == afUnspec && socketFamily == afInet))

/-- `LEGACY_SOURCE_PORT`. -/
def legacySourcePort (access : UInt64) (hasPort : Bool) (port : UInt64) : UInt64 :=
  if hasPort ∧ access &&& landlockAccessNetBind ≠ 0 then port else 0

/-- `LEGACY_DESTINATION_PORT`. -/
def legacyDestinationPort (access : UInt64) (hasPort : Bool) (port : UInt64) : UInt64 :=
  if hasPort ∧ access &&& landlockAccessNetConnectSend ≠ 0 then port else 0

/-- The members of `struct sockaddr_in` that are read, as they are in memory. -/
structure SockaddrIn where
  family : UInt16
  sinPort : UInt16

/-- `bpf_ntohs`. -/
def bpfNtohs : Endian → UInt16 → UInt16
  | .little, value => (value <<< 8) ||| (value >>> 8)
  | .big, value => value

/-- `project_checked_port`: the source and the destination port. -/
def projectCheckedPort (en : Endian) (blockersAccess : UInt64) (socketFamily : UInt16)
    (address : SockaddrIn) (addrlen : Int32) : UInt64 × UInt64 :=
  let hasPort := hasCheckedPort addrlen address.family socketFamily
  let port : UInt64 := if hasPort then (bpfNtohs en address.sinPort).toUInt64 else 0
  (legacySourcePort blockersAccess hasPort port, legacyDestinationPort blockersAccess hasPort port)

/-! ## Abstract names -/

/-- A `struct unix_address`: its length, and the bytes from `sun_path` on. -/
structure UnixAddress where
  len : Int32
  sunPath : Nat → UInt8

/-- Which of the reads of `capture_abstract_unix_socket_name` succeed: of the pointer to the
    address, of the length, of the first byte and of the name. -/
structure NameReads where
  addr : Bool
  len : Bool
  first : Bool
  name : Bool
  deriving DecidableEq, Repr

/-- `BPF_CORE_READ(unix_peer, addr)`. -/
def NameReads.pointer (reads : NameReads) (address : Option UnixAddress) : Option UnixAddress :=
  if reads.addr then address else none

/-- `ABSTRACT_UNIX_SOCKET_NAME_MAX_LEN`, as the comparison promotes it. -/
def abstractUnixSocketNameMax : Int32 := 107

/-- `capture_abstract_unix_socket_name` for a peer with this address: the bytes stored and their
    number, or `none` where the source returns 0. -/
def captureAbstractUnixSocketName (address : Option UnixAddress) (reads : NameReads) :
    Option (List UInt8 × UInt32) :=
  -- The family and the NUL that an abstract name starts with
  let prefixLen : Int32 := 3
  match reads.pointer address with
  -- No address: an unnamed peer
  | none => some ([], 0)
  | some addr =>
    -- A read that fails leaves zero, which is too short
    let sockaddrLen := if reads.len then addr.len else 0
    if sockaddrLen < prefixLen ∨ sockaddrLen > prefixLen + abstractUnixSocketNameMax then none
    else
      let nameLen := (sockaddrLen - prefixLen).toUInt32
      if !reads.first then none
      -- A pathname, not an abstract name
      else if addr.sunPath 0 ≠ 0 then none
      else if nameLen ≠ 0 ∧ !reads.name then none
      else some ((List.range nameLen.toNat).map fun i => addr.sunPath (i + 1), nameLen)

/-! ## Handlers -/

/-- A `struct landlock_hierarchy` as it is read: `parent` is the ID of the parent, `details`
    the number of the creator's PID and its command. -/
structure KernelHierarchy where
  id : UInt64
  numDenials : UInt64
  parent : Option UInt64
  details : Option (Option UInt32 × List UInt8)

variable (en : Endian)

/-- The `creator_tgid` of `fill_deny_header`; null pointers give zero. -/
def KernelHierarchy.creatorTgid (h : KernelHierarchy) : UInt32 :=
  match h.details with
  | some (pid, _) => pid.getD 0
  | none => 0

/-- The `creator_comm` of `fill_deny_header`. -/
def KernelHierarchy.creatorComm (h : KernelHierarchy) : List UInt8 :=
  match h.details with
  | some (_, comm) => readStr comm
  | none => [0]

/-- `fill_deny_header`. -/
def fillDenyHeaderFrom (h : KernelHierarchy) : List (Member × List UInt8) :=
  [(.domainId, word64 en h.id),
   (.numDenials, word64 en h.numDenials),
   (.parentId, word64 en (h.parent.getD 0)),
   (.creatorTgid, word32 en h.creatorTgid),
   (.creatorComm, h.creatorComm)]

/-- What `handle_deny_access_net` reads apart from the address. -/
structure NetDenial where
  timestampNs : UInt64
  hierarchy : KernelHierarchy
  blockersType : UInt32
  blockersAccess : UInt64
  sameExec : Bool
  logged : Bool

/-- The stores of `handle_deny_access_net` for the projected ports. -/
def netStores (denial : NetDenial) (ports : UInt64 × UInt64) : List (Member × List UInt8) :=
  [(.timestampNs, word64 en denial.timestampNs), (.type, [EventKind.denyAccessNet.value])] ++
  fillDenyHeaderFrom en denial.hierarchy ++
  [(.blockersType, word32 en denial.blockersType),
   (.blockersAccess, word64 en denial.blockersAccess),
   (.sameExec, boolean denial.sameExec),
   (.logged, boolean denial.logged),
   (.sport, word64 en ports.1),
   (.dport, word64 en ports.2)]

def handleDenyAccessNet (room : Bool) (denial : NetDenial) (socketFamily : UInt16)
    (address : SockaddrIn) (addrlen : Int32) : List (List UInt8) :=
  match allocEvent room with
  | none => []
  | some record =>
    let ports := projectCheckedPort en denial.blockersAccess socketFamily address addrlen
    [fill (slots .denyAccessNet) record (netStores en denial ports)]

/-- What `handle_deny_scope_abstract_unix_socket` reads apart from the name. -/
structure PeerDenial where
  timestampNs : UInt64
  hierarchy : KernelHierarchy
  sameExec : Bool
  logged : Bool
  peerDomainId : UInt64
  peerPid : Option UInt32

/-- The stores of `handle_deny_scope_abstract_unix_socket` for a captured name. -/
def peerStores (denial : PeerDenial) (name : List UInt8) (nameLen : UInt32) :
    List (Member × List UInt8) :=
  [(.abstractName, name), (.abstractNameLen, word32 en nameLen),
   (.timestampNs, word64 en denial.timestampNs),
   (.type, [EventKind.denyScopeAbstractUnixSocket.value])] ++
  fillDenyHeaderFrom en denial.hierarchy ++
  [(.blockersAccess, word64 en 0),
   (.sameExec, boolean denial.sameExec),
   (.logged, boolean denial.logged),
   (.peerDomainId, word64 en denial.peerDomainId),
   (.peerPid, word32 en (denial.peerPid.getD 0))]

def handleDenyScopeAbstractUnixSocket (room : Bool) (denial : PeerDenial)
    (address : Option UnixAddress) (reads : NameReads) : List (List UInt8) :=
  match allocEvent room with
  | none => []
  | some record =>
    match captureAbstractUnixSocketName address reads with
    -- `discard_event`
    | none => []
    | some (name, nameLen) =>
      [fill (slots .denyScopeAbstractUnixSocket) record (peerStores en denial name nameLen)]

end Landlock.Producer
