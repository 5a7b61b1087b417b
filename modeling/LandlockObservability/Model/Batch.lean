import LandlockObservability.ForStd.Numeral
import LandlockObservability.Model.AccessNames
import LandlockObservability.Model.Aggregate
import Mathlib.Data.List.Defs

/-!
# Batch mode

Models `lltop/src/batch.rs`: each event is applied to the reconstructed state and to the
denial aggregation, and what changed is written as lines of text.  A domain is written
when its line differs from the line it had before the event, a ruleset when the identity
under which it was deallocated differs; a denial is always written, and a line of
counters follows whatever was written.
-/

namespace Landlock

/-! ## Denial kinds and counters -/

inductive DenialKind where
  | fs
  | net
  | ptrace
  | signal
  | abstractUnix
  deriving DecidableEq, Repr

namespace DenialKind

/-- `ALL`. -/
def all : List DenialKind := [fs, net, ptrace, signal, abstractUnix]

def label : DenialKind → String
  | fs => "FS"
  | net => "NET"
  | ptrace => "PTRACE"
  | signal => "SIGNAL"
  | abstractUnix => "ABSTRACT_UNIX"

/-- `stats_label`. -/
def statsLabel : DenialKind → String
  | fs => "fs"
  | net => "net"
  | ptrace => "ptrace"
  | signal => "signal"
  | abstractUnix => "abstract_unix"

/-- `from_event`. -/
def fromEvent : Event → Option DenialKind
  | .denyAccessFs _ => some fs
  | .denyAccessNet _ => some net
  | .denyPtrace _ => some ptrace
  | .denyScopeSignal _ => some signal
  | .denyScopeAbstractUnixSocket _ => some abstractUnix
  | _ => none

end DenialKind

/-- `Stats`; the array of the source is indexed by kind. -/
structure Stats where
  totalDenials : UInt64
  denials : DenialKind → UInt64

namespace Stats

/-- `Stats::default`. -/
def zero : Stats := ⟨0, fun _ => 0⟩

def observe (stats : Stats) (kind : DenialKind) : Stats where
  totalDenials := saturatingCount stats.totalDenials
  denials := fun other =>
    if other = kind then saturatingCount (stats.denials other) else stats.denials other

end Stats

/-! ## Texts -/

/-- `{:x}`. -/
def lowerHex (n : Nat) : String := Numeral.text 16 n

/-- `{}` of an unsigned number. -/
def decimal (n : Nat) : String := Numeral.text 10 n

/-- `Display` of a Landlock ID. -/
def LandlockId.display {K : LandlockIdKind} (id : LandlockId K) : String :=
  lowerHex id.value.toNat

/-- `Display` of a ruleset version. -/
def RulesetVersion.display (version : RulesetVersion) : String :=
  version.rulesetId.display ++ "." ++ decimal version.rulesetVersion.toNat

/-- Whether `escape` writes a byte as it is. -/
def isPlain (byte : UInt8) : Bool :=
  let c := Char.ofNat byte.toNat
  c.isAlphanum || c == '_' || c == '-' || c == '.' || c == '/'

/-- One byte of `escape`: as it is, or as a backslash, `x` and two digits. -/
def escapeByte (byte : UInt8) : String :=
  if isPlain byte then String.singleton (Char.ofNat byte.toNat)
  -- `{:02x}`
  else "\\x" ++ String.ofList [Nat.digitChar (byte.toNat / 16), Nat.digitChar (byte.toNat % 16)]

/-- `escape`. -/
def escape {K : CapturedBytesOrigin} (value : CapturedBytes K) : String :=
  String.join (value.bytes.map escapeByte) ++ if value.bytesOmitted then "…" else ""

/-- `access_blockers`. -/
def accessBlockers (start : String) (names : List String) (unknownBits : UInt64) : String :=
  let unknown := "0x" ++ lowerHex unknownBits.toNat
  let parts := names ++ if unknownBits ≠ 0 then [unknown] else []
  -- Without any bit the text is the number alone, without the start
  if parts = [] then unknown else start ++ ":" ++ ",".intercalate parts

/-- `filesystem_blockers`. -/
def filesystemBlockers : FilesystemBlockers → String
  | .access access => accessBlockers "FS" access.knownNames access.unknownBits
  | .changeTopology => "FS:change_topology"
  | .other requestType access =>
    -- Only with access bits, since `classify` takes the others
    if requestType = .fsChangeTopology then
      "FS:change_topology,access=0x" ++ lowerHex access.bits.toNat
    else
      "FS:request_type=0x" ++ lowerHex requestType.raw.toNat ++ ",access=0x" ++
        lowerHex access.bits.toNat

/-- `network_blockers`. -/
def networkBlockers (blockersType : BlockerType) (access : NetworkAccess) : String :=
  if blockersType = .netAccess then
    accessBlockers "Net" access.knownNames access.unknownBits
  else
    "Net:request_type=0x" ++ lowerHex blockersType.raw.toNat ++ ",access=0x" ++
      lowerHex access.bits.toNat

/-- `domain_membership`. -/
def domainMembership : DomainMembership → String
  | .unsandboxed => "0"
  | .sandboxed id => id.display

/-- `elapsed`. -/
def elapsed (firstNs latestNs : UInt64) : String :=
  -- `saturating_sub`: timestamps may come out of order
  let seconds := (latestNs.toNat - firstNs.toNat) / 1000000000
  if seconds < 60 then decimal seconds ++ "s"
  else if seconds < 3600 then decimal (seconds / 60) ++ "m" ++ decimal (seconds % 60) ++ "s"
  else decimal (seconds / 3600) ++ "h" ++ decimal (seconds % 3600 / 60) ++ "m"

/-! ## Records -/

/-- `format_domain`. -/
def formatDomain (domain : DomainState) : String :=
  let parent := match domain.parent with
    | none => "?"
    | some .root => "0"
    | some (.domain id) => id.display
  let ruleset := match domain.ruleset with
    | none => "?"
    | some version => version.display
  -- Both facts come from one event
  let creator := match domain.creatorComm, domain.creatorTgid with
    | some comm, some tgid => escape comm ++ "[" ++ decimal tgid.value.toNat ++ "]"
    | _, _ => "?"
  let noNewPrivs := match domain.noNewPrivs with
    | none => "?"
    | some value => if value then "1" else "0"
  "DOMAIN domain=" ++ domain.id.display ++ " parent=" ++ parent ++ " ruleset=" ++ ruleset ++
    " creator=" ++ creator ++ " no_new_privs=" ++ noNewPrivs

/-- `DenialFields`. -/
structure DenialFields where
  domain : DomainId
  blockers : String
  target : String
  relation : Option (String × DomainMembership)

/-- The target of a network denial: the port that the known names decide on, or both. -/
def networkTarget (event : DenyAccessNetEvent) : String :=
  let names := if event.blockersType = .netAccess then event.blockersAccess.knownNames else []
  let hasBind := names.any fun name => "bind_".isPrefixOf name
  let hasConnect := names.any fun name => "connect_".isPrefixOf name
  let sport := "sport:" ++ decimal event.sourcePort.toNat
  let dport := "dport:" ++ decimal event.destinationPort.toNat
  match hasBind, hasConnect with
  | true, false => sport
  | false, true => dport
  -- Neither or both: the names do not decide
  | _, _ => sport ++ "," ++ dport

/-- `denial_fields`. -/
def denialFields : Event → Option DenialFields
  | .denyAccessFs event =>
    some ⟨event.context.hierarchy.domainId, filesystemBlockers event.blockers,
      escape event.pathname, none⟩
  | .denyAccessNet event =>
    some ⟨event.context.hierarchy.domainId,
      networkBlockers event.blockersType event.blockersAccess, networkTarget event, none⟩
  | .denyPtrace event =>
    some ⟨event.context.hierarchy.domainId, "ptrace",
      "pid:" ++ decimal event.traceePid.value.toNat ++ ":" ++ escape event.traceeComm,
      some ("tracee_domain", event.traceeDomain)⟩
  | .denyScopeSignal event =>
    some ⟨event.context.hierarchy.domainId, "Scope:signal",
      "pid:" ++ decimal event.targetPid.value.toNat ++ ":" ++ escape event.targetComm,
      some ("target_domain", event.targetDomain)⟩
  | .denyScopeAbstractUnixSocket event =>
    some ⟨event.context.hierarchy.domainId, "Scope:abstract_unix_socket",
      "@" ++ escape event.abstractName, some ("peer_domain", event.peerDomain)⟩
  | _ => none

/-- `u8::from` of a flag, as text. -/
def flag (value : Bool) : String := if value then "1" else "0"

/-- `format_denial`. -/
def formatDenial (kind : DenialKind) (denial : AggregatedDenial) : Option String :=
  (denialFields denial.latestEvent).map fun fields =>
    -- Only denials between two parties have one
    let relation := match fields.relation with
      | none => ""
      | some (label, membership) => " " ++ label ++ "=" ++ domainMembership membership
    "DENIAL type=" ++ kind.label ++ " domain=" ++ fields.domain.display ++ " blockers=" ++
      fields.blockers ++ " target=" ++ fields.target ++ " count=" ++
      decimal denial.occurrenceCount.toNat ++ " age=" ++
      elapsed denial.firstTimestamp.nanoseconds denial.latestTimestamp.nanoseconds ++
      " same_exec=" ++ flag denial.sameExec ++ " logged=" ++ flag denial.logged ++ relation

/-- `format_stats`. -/
def formatStats (allocated total : Nat) (stats : Stats) : String :=
  let kinds := " ".intercalate
    (DenialKind.all.map fun kind => kind.statsLabel ++ "=" ++ decimal (stats.denials kind).toNat)
  "STATS domains=" ++ decimal allocated ++ "/" ++ decimal total ++ " denials=" ++
    decimal stats.totalDenials.toNat ++ " (" ++ kinds ++ ")"

/-- The line that `process` writes for a deallocated ruleset. -/
def formatDropRuleset (ruleset : RulesetVersion) : String :=
  "DROP_RULESET ruleset=" ++ ruleset.display

/-! ## Affected objects -/

/-- `State::domain`. -/
def State.domain (state : State) (id : DomainId) : Option DomainState := state.domains.lookup id

/-- `State::ruleset`. -/
def State.ruleset (state : State) (id : RulesetId) : Option RulesetState :=
  state.rulesets.lookup id

/-- `State::domain_count`. -/
def State.domainCount (state : State) : Nat := state.domains.keys.card

/-- `add_denial`. -/
def addDenial (domain : DomainId) (parent : Option DomainId)
    (membership : Option DomainMembership) : List DomainId :=
  [domain] ++ parent.toList ++
    match membership with
    | some (.sandboxed id) => [id]
    | _ => []

/-- The domains that an event is about, as `affected_domain_ids` collects them. -/
def eventDomainIds : Event → List DomainId
  | .createDomain event => [event.domainId] ++ event.parentId.toList
  | .freeDomain event => [event.domainId]
  | .enforceDomain event => [event.domainId]
  | .denyAccessFs event =>
    addDenial event.context.hierarchy.domainId event.context.hierarchy.parentId none
  | .denyAccessNet event =>
    addDenial event.context.hierarchy.domainId event.context.hierarchy.parentId none
  | .denyPtrace event =>
    addDenial event.context.hierarchy.domainId event.context.hierarchy.parentId
      (some event.traceeDomain)
  | .denyScopeSignal event =>
    addDenial event.context.hierarchy.domainId event.context.hierarchy.parentId
      (some event.targetDomain)
  | .denyScopeAbstractUnixSocket event =>
    addDenial event.context.hierarchy.domainId event.context.hierarchy.parentId
      (some event.peerDomain)
  | _ => []

/-- `affected_domain_ids`: sorted, and without repetitions. -/
def affectedDomainIds (event : Event) : List DomainId :=
  ((eventDomainIds event).mergeSort fun a b => a.value ≤ b.value).destutter (· ≠ ·)

/-- `deallocated_ruleset_identity`. -/
def deallocatedRulesetIdentity (state : State) (id : RulesetId) : Option RulesetVersion :=
  match state.ruleset id with
  | none => none
  | some ruleset =>
    if ruleset.lifecycle ≠ .deallocated then none
    -- The version of the free event, not the highest one observed
    else ruleset.finalVersion.map fun version => ⟨id, version⟩

/-! ## Processing -/

/-- `Batch`. -/
structure Batch where
  state : State
  denials : DenialAggregator
  stats : Stats
  allocatedDomains : Nat

/-- `usize::MAX`. -/
def usizeMax : Nat := 2 ^ 64 - 1

namespace Batch

def new : Batch := ⟨.new, .new, .zero, 0⟩

/-- What `process` compares of a domain: its line, and whether it is allocated. -/
def domainView (state : State) (id : DomainId) : Option (String × Bool) :=
  (state.domain id).map fun domain => (formatDomain domain, decide (domain.lifecycle = .allocated))

/-- The counter of allocated domains after one domain was looked at. -/
def countAllocated (previous current : Option (String × Bool)) (allocated : Nat) : Nat :=
  match previous.map Prod.snd, current with
  -- `saturating_sub` is the subtraction of `Nat`
  | some true, some (_, false) => allocated - 1
  | some false, some (_, true) => min (allocated + 1) usizeMax
  | none, some (_, true) => min (allocated + 1) usizeMax
  | _, _ => allocated

/-- The line of a domain that was looked at, if it changed. -/
def changedRecord (previous current : Option (String × Bool)) : Option String :=
  -- The lines are compared, not the records
  if current.map Prod.fst ≠ previous.map Prod.fst then current.map Prod.fst else none

/-- The loop of `process` over the affected domains. -/
def domainChanges (before after : State) (ids : List DomainId) (allocated : Nat) :
    Nat × List String :=
  ids.foldl (fun (allocated, records) id =>
    let previous := domainView before id
    let current := domainView after id
    (countAllocated previous current allocated,
      records ++ (changedRecord previous current).toList)) (allocated, [])

/-- The line for a ruleset that the event deallocated, if its identity changed. -/
def dropRecord (before after : State) : Event → Option String
  -- Only this event can deallocate a ruleset
  | .freeRuleset event =>
    let previous := deallocatedRulesetIdentity before event.rulesetId
    let current := deallocatedRulesetIdentity after event.rulesetId
    if current ≠ previous then current.map formatDropRuleset else none
  | _ => none

/-- `Batch::process`: the batch afterwards and the lines. -/
def process (order : IterOrder DenialKey AggregatedDenial) (batch : Batch) (event : Event) :
    Batch × List String :=
  let state := batch.state.apply event
  -- The source tests the kind twice, for the record and for the counters
  let (denials, denialRecord, stats) := match DenialKind.fromEvent event with
    | none => (batch.denials, none, batch.stats)
    -- The record is of the entry after this denial
    | some kind =>
      let (denials, denial) := batch.denials.observeEntry order event
      (denials, denial.bind (formatDenial kind), batch.stats.observe kind)
  -- The state before the event is still there to compare with
  let (allocatedDomains, domainRecords) :=
    domainChanges batch.state state (affectedDomainIds event) batch.allocatedDomains
  let records :=
    domainRecords ++ (dropRecord batch.state state event).toList ++ denialRecord.toList
  let statsRecord :=
    -- A free event changes no line of the domain, but it changes the counters
    if records ≠ [] ∨ (batch.allocatedDomains, batch.state.domainCount) ≠
        (allocatedDomains, state.domainCount) then
      [formatStats allocatedDomains state.domainCount stats]
    else []
  (⟨state, denials, stats, allocatedDomains⟩, records ++ statsRecord)

/-- A sequence of events from `Batch::new`, and everything written.  The traversal order
    of the aggregation may be another one each time. -/
def processAll (steps : List (IterOrder DenialKey AggregatedDenial × Event)) :
    Batch × List String :=
  steps.foldl (fun (batch, written) (order, event) =>
    let (batch, records) := batch.process order event
    (batch, written ++ records)) (new, [])

/-- One more event. -/
theorem processAll_concat (steps : List (IterOrder DenialKey AggregatedDenial × Event))
    (step : IterOrder DenialKey AggregatedDenial × Event) :
    processAll (steps ++ [step]) =
      (((processAll steps).1.process step.1 step.2).1,
        (processAll steps).2 ++ ((processAll steps).1.process step.1 step.2).2) := by
  unfold processAll
  rw [List.foldl_append]
  rfl

end Batch

end Landlock
