import LandlockObservability.Model.Event

/-!
# Names of access rights

Models `src/event/access_names.rs` and the part of `src/event/mod.rs` that reads masks:
the known names of a mask, its unknown bits, and what a filesystem denial was about.
-/

namespace Landlock

/-! ## Tables -/

/-- A table of single bits, given by their numbers, with names. -/
def accessTable (names : List (UInt64 × String)) : List (UInt64 × String) :=
  names.map fun (index, name) => (1 <<< index, name)

/-- `FILESYSTEM_ACCESS_NAMES`. -/
def filesystemAccessNames : List (UInt64 × String) := accessTable
  [(0, "execute"), (1, "write_file"), (2, "read_file"), (3, "read_dir"),
    (4, "remove_dir"), (5, "remove_file"), (6, "make_char"),
    (7, "make_dir"), (8, "make_reg"), (9, "make_sock"), (10, "make_fifo"),
    (11, "make_block"), (12, "make_sym"), (13, "refer"), (14, "truncate"),
    (15, "ioctl_dev"), (16, "resolve_unix")]

/-- `NETWORK_ACCESS_NAMES`. -/
def networkAccessNames : List (UInt64 × String) := accessTable
  [(0, "bind_tcp"), (1, "connect_tcp"), (2, "bind_udp"),
    (3, "connect_send_udp")]

/-- `SCOPE_NAMES`. -/
def scopeNames : List (UInt64 × String) := accessTable
  [(0, "abstract_unix_socket"), (1, "signal")]

/-- The table that `access_type!` is given. -/
def AccessKind.table : AccessKind → List (UInt64 × String)
  | filesystem => filesystemAccessNames
  | network => networkAccessNames
  | scope => scopeNames

namespace AccessMask

variable {K : AccessKind}

/-- `known_bits`. -/
def knownBits (mask : AccessMask K) : UInt64 :=
  mask.bits &&& K.table.foldl (fun bits entry => bits ||| entry.1) 0

/-- `unknown_bits`. -/
def unknownBits (mask : AccessMask K) : UInt64 :=
  mask.bits &&& ~~~ K.table.foldl (fun bits entry => bits ||| entry.1) 0

/-- `known_names`: bits and texts. -/
def knownEntries (mask : AccessMask K) : List (UInt64 × String) :=
  K.table.filter fun entry => mask.bits &&& entry.1 != 0

/-- `known_names`, as texts. -/
def knownNames (mask : AccessMask K) : List String :=
  mask.knownEntries.map Prod.snd

end AccessMask

/-! ## Blockers -/

namespace BlockerType

/-- `FS_CHANGE_TOPOLOGY`. -/
def fsChangeTopology : BlockerType := ⟨2⟩

/-- `FS_ACCESS`. -/
def fsAccess : BlockerType := ⟨3⟩

/-- `NET_ACCESS`. -/
def netAccess : BlockerType := ⟨4⟩

end BlockerType

/-- The reason a filesystem operation was blocked. -/
inductive FilesystemBlockers where
  | access (access : FilesystemAccess)
  | changeTopology
  | other (requestType : BlockerType) (access : FilesystemAccess)
  deriving DecidableEq, Repr

/-- `FilesystemBlockers::classify`. -/
def FilesystemBlockers.classify (requestType : BlockerType) (access : FilesystemAccess) :
    FilesystemBlockers :=
  if requestType.raw = BlockerType.fsAccess.raw then .access access
  -- A topology change with access bits is left to the last case
  else if requestType.raw = BlockerType.fsChangeTopology.raw ∧ access.bits = 0 then
    .changeTopology
  else .other requestType access

/-- `DenyAccessFsEvent::blockers`. -/
def DenyAccessFsEvent.blockers (event : DenyAccessFsEvent) : FilesystemBlockers :=
  .classify event.blockersType event.blockersAccess

end Landlock
