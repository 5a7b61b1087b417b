import LandlockObservability.Model.Display

/-!
# Labels of the interactive mode

Models the labels of `lltop/src/tui/format.rs`, and `blockers_event` and `target_event` of
`lltop/src/tui/ui.rs`: what blocked an operation, and what it was aimed at.
-/

namespace Landlock.Tui

namespace Format

/-- `access`. -/
def access (names : List String) (unknown : UInt64) : String :=
  let parts := names ++ if unknown ≠ 0 then ["0x" ++ lowerHex unknown.toNat] else []
  if parts = [] then "0x0" else ", ".intercalate parts

/-- `filesystem_rights`, `network_rights` and `scope_rights`. -/
def rights {K : AccessKind} (value : AccessMask K) : String :=
  access value.knownNames value.unknownBits

def filesystemRights (value : FilesystemAccess) : String := rights value
def networkRights (value : NetworkAccess) : String := rights value
def scopeRights (value : ScopeAccess) : String := rights value

def filesystem (value : FilesystemAccess) : String := "FS: " ++ filesystemRights value
def network (value : NetworkAccess) : String := "Net: " ++ networkRights value
def scope (value : ScopeAccess) : String := "Scope: " ++ scopeRights value

/-- `filesystem_blocker`. -/
def filesystemBlocker : FilesystemBlockers → String
  | .access access => filesystem access
  | .changeTopology => "FS: change_topology"
  | .other requestType access =>
    if requestType = .fsChangeTopology then
      "FS: change_topology, access=0x" ++ lowerHex access.bits.toNat
    else
      "FS: request_type=0x" ++ lowerHex requestType.raw.toNat ++ ", access=0x" ++
        lowerHex access.bits.toNat

/-- `network_blocker`. -/
def networkBlocker (blockersType : BlockerType) (access : NetworkAccess) : String :=
  if blockersType = .netAccess then network access
  else
    "Net: request_type=0x" ++ lowerHex blockersType.raw.toNat ++ ", access=0x" ++
      lowerHex access.bits.toNat

end Format

/-- `blockers_event`. -/
def blockersEvent : Event → String
  | .denyAccessFs event => Format.filesystemBlocker event.blockers
  | .denyAccessNet event => Format.networkBlocker event.blockersType event.blockersAccess
  | .denyPtrace _ => "ptrace"
  | .denyScopeSignal _ => Format.scope ⟨(1 : UInt64) <<< 1⟩
  | .denyScopeAbstractUnixSocket _ => Format.scope ⟨(1 : UInt64) <<< 0⟩
  | _ => "unknown"

/-- The network arm of `target_event`. -/
def networkTarget (event : DenyAccessNetEvent) : String :=
  let names := if event.blockersType = .netAccess then event.blockersAccess.knownNames else []
  let bind := names.any fun name => "bind_".isPrefixOf name
  let connect := names.any fun name => "connect_".isPrefixOf name
  let sport := "sport:" ++ decimal event.sourcePort.toNat
  let dport := "dport:" ++ decimal event.destinationPort.toNat
  match bind, connect with
  | true, false => sport
  | false, true => dport
  | _, _ => sport ++ ", " ++ dport

/-- `target_event`. -/
def targetEvent (u : Unicode) : Event → String
  | .denyAccessFs event => event.pathname.display u
  | .denyAccessNet event => networkTarget event
  | .denyPtrace event =>
    "pid:" ++ decimal event.traceePid.value.toNat ++ " " ++ event.traceeComm.display u
  | .denyScopeSignal event =>
    "pid:" ++ decimal event.targetPid.value.toNat ++ " " ++ event.targetComm.display u
  | .denyScopeAbstractUnixSocket event => event.abstractName.display u
  | _ => "unknown"

end Landlock.Tui
