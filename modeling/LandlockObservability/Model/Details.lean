import LandlockObservability.Model.Navigation

/-!
# Details, statistics and the status line

Models the rest of what `lltop/src/tui/ui.rs` shows: `detail_lines`, the lines of `draw_stats`
and `status_line`, with `format::timestamp` and `domain_ruleset` (`lltop/src/tui/format.rs`,
`lltop/src/tui/model.rs`).

A style is named by the function of `lltop/src/tui/theme.rs` that gives it.  The orders in which
hash maps are traversed are parameters.
-/

namespace Landlock.Tui

/-- The styles of the details. -/
inductive DetailStyle where
  | normal
  | heading
  | observed
  | tombstone
  | unknown
  | traceOnly
  | hot
  deriving DecidableEq, Repr

/-- `lifecycle_style`, by the name of the style. -/
def detailLifecycleStyle : LifecycleState → DetailStyle
  | .allocated => .observed
  | .deallocated => .tombstone

/-- A field of the details: its label, its value and the style of the value. -/
structure Field where
  label : String
  value : String
  style : DetailStyle
  deriving DecidableEq, Repr

/-- A line of styled spans. -/
abbrev DetailLine := List (String × DetailStyle)

/-- `format::timestamp`. -/
def Format.timestamp (value : Option KernelTimestamp) : String :=
  value.elim "?" fun v => decimal v.nanoseconds.toNat ++ "ns"

/-- `domain_ruleset`. -/
def domainRuleset (domain : DomainState) : Option RulesetId :=
  domain.ruleset.map RulesetVersion.rulesetId

/-! ## Fields -/

/-- The parent of a domain in the details. -/
def parentText : Option DomainParent → String
  | none => "?"
  | some .root => "0"
  | some (.domain id) => id.display

/-- The field `no_new_privs` of a domain. -/
def noNewPrivsField (domain : DomainState) : Field :=
  match domain.lifecycle, domain.noNewPrivs with
  -- No thread was observed
  | _, none => ⟨"no_new_privs: ", "unknown", .unknown⟩
  | _, some true =>
    ⟨"no_new_privs: ", "set for all latest observed enforcing TIDs", .observed⟩
  | .allocated, some false =>
    ⟨"no_new_privs: ", "WARNING: missing no_new_privs means privilege gain is possible", .hot⟩
  -- The domain is gone, so that the warning is history
  | _, some false =>
    ⟨"no_new_privs: ",
      "historical observation: missing no_new_privs; privilege gain was possible", .tombstone⟩

/-- The fields of a domain. -/
def domainFields (id : DomainId) (domain : DomainState) : List Field :=
  [⟨"Domain: ", id.display, .normal⟩,
   ⟨"Status: ", lifecycle domain.lifecycle, detailLifecycleStyle domain.lifecycle⟩,
   ⟨"Parent: ", parentText domain.parent, .normal⟩,
   ⟨"Ruleset: ", domain.ruleset.elim "?" RulesetVersion.display, .normal⟩,
   ⟨"Created: ", Format.timestamp domain.creationTimestamp, .normal⟩,
   ⟨"Observed enforcing TIDs: ", decimal domain.enforcementEvents.keys.card, .normal⟩,
   noNewPrivsField domain] ++
  -- A hint, as a field without a label
  if (domainRuleset domain).isSome then [⟨"", "[Enter] View ruleset", .unknown⟩] else []

/-- The field that only denials at abstract UNIX sockets have. -/
def peerFields : Event → List Field
  | .denyScopeAbstractUnixSocket event =>
    [⟨"Latest peer PID: ", event.peerPid.elim "unknown" fun pid => decimal pid.value.toNat,
      .normal⟩]
  | _ => []

/-- The second text of `visibility`. -/
def visibilityLabel (logged : Bool) : String := if logged then "audit-visible" else "trace-only"

/-- The fields of a denial. -/
def denialEntryFields (u : Unicode) (key : DenialKey) (entry : AggregatedDenial) : List Field :=
  [⟨"Domain: ", key.domainId.display, .normal⟩,
   ⟨"Blocked: ", blockers entry, .normal⟩,
   ⟨"Target: ", target u entry, .normal⟩] ++
  -- Of the latest denial; the PID of the peer is not part of the key
  peerFields entry.latestEvent ++
  [⟨"Count: ", decimal entry.occurrenceCount.toNat, .normal⟩,
   ⟨"First seen: ", decimal entry.firstTimestamp.nanoseconds.toNat ++ "ns", .normal⟩,
   ⟨"Latest seen: ", decimal entry.latestTimestamp.nanoseconds.toNat ++ "ns", .normal⟩,
   ⟨"same_exec: ", toString entry.sameExec, .normal⟩,
   ⟨"Logged: ", visibility entry.logged ++ " " ++ visibilityLabel entry.logged,
    if entry.logged then .observed else .traceOnly⟩]

/-- The orders of the hash maps of a ruleset's details: of its rules, and of the groups that are
    made of them. -/
structure RuleOrders where
  filesystemRules : IterOrder (UInt32 × UInt64) FilesystemRuleState
  filesystemGroups : IterOrder String (List String)
  networkRules : IterOrder UInt64 NetworkRuleState
  networkGroups : IterOrder String (List UInt64)

/-- Objects in the groups of what is allowed on them: the groups sorted by their label, the
    objects of a group sorted. -/
def ruleGroups {α : Type} [Ord α] (order : IterOrder String (List α)) (rules : List (String × α)) :
    List (String × List α) :=
  (Grouping.sortBy (compareOn Prod.fst)
    (order.toList (Grouping.collect Prod.fst Prod.snd rules))).map fun (allowed, objects) =>
      (allowed, Grouping.sortBy compare objects)

/-- The fields of groups of rules. -/
def groupFields {α : Type} (label : String) (text : α → String) (groups : List (String × List α)) :
    List Field :=
  groups.flatMap fun (allowed, objects) =>
    ⟨label, allowed, .heading⟩ :: objects.map fun object => ⟨"    ", text object, .normal⟩

/-- The filesystem rules of a ruleset: what is allowed, and on which path. -/
def filesystemObjects (u : Unicode) (orders : RuleOrders) (ruleset : RulesetState) :
    List (String × String) :=
  (orders.filesystemRules.toList ruleset.filesystemRules).map fun (_, rule) =>
    (Format.filesystemRights rule.accessRights, rule.pathname.display u)

/-- The network rules of a ruleset: what is allowed, and on which port. -/
def networkObjects (orders : RuleOrders) (ruleset : RulesetState) : List (String × UInt64) :=
  (orders.networkRules.toList ruleset.networkRules).map fun (_, rule) =>
    (Format.networkRights rule.accessRights, rule.port)

/-- The fields of a ruleset. -/
def rulesetFields (u : Unicode) (orders : RuleOrders) (id : RulesetId) (ruleset : RulesetState) :
    List Field :=
  let version : RulesetVersion := ⟨id, ruleset.maxObservedVersion⟩
  [⟨"Ruleset: ", version.display, .normal⟩,
   ⟨"Status: ", lifecycle ruleset.lifecycle, detailLifecycleStyle ruleset.lifecycle⟩,
   ⟨"Handled FS: ", ruleset.handledFs.elim "?" Format.filesystemRights, .normal⟩,
   ⟨"Handled Net: ", ruleset.handledNet.elim "?" Format.networkRights, .normal⟩,
   ⟨"Scoped: ", ruleset.scopedAccess.elim "?" Format.scopeRights, .normal⟩] ++
  groupFields "FS: " (fun path => path)
    (ruleGroups orders.filesystemGroups (filesystemObjects u orders ruleset)) ++
  groupFields "Net: " (fun port => "port " ++ decimal port.toNat)
    (ruleGroups orders.networkGroups (networkObjects orders ruleset))

section

variable (u : Unicode) (orders : RuleOrders) (model : ObservationModel)

/-- The list `fields` of `detail_lines`. -/
def detailFields : Option RowKind → List Field
  | some (.domain id) => (model.state.domain id).elim [] (domainFields id)
  | some (.denialDomain id) => (model.state.domain id).elim [] (domainFields id)
  | some (.denial key) => (model.denial key).elim [] (denialEntryFields u key)
  | some (.ruleset id) => (model.state.ruleset id).elim [] (rulesetFields u orders id)
  | _ => []

/-- The lines of a field. -/
def fieldLines (w : Format.DisplayWidth) (width : Nat) (field : Field) : List DetailLine :=
  -- At least one column is left for the value
  let indent := min (field.label.length + 4) (width - 1)
  (Format.wrap w field.value (width - field.label.length) (width - indent)).zipIdx.map
    fun (part, index) =>
      if index = 0 then [(field.label, .heading), (part, field.style)]
      else [(String.ofList (List.replicate indent ' ') ++ part, field.style)]

/-- `detail_lines`. -/
def detailLines (w : Format.DisplayWidth) (width : Nat) (selected : Option RowKind) :
    List DetailLine :=
  let fields := detailFields u orders model selected
  -- What was selected may have been evicted
  if fields.isEmpty then [[("Selection no longer retained", .unknown)]]
  else fields.flatMap (fieldLines w width)

end

/-! ## Statistics and status -/

/-- The label of a counter in `draw_stats`. -/
def statsLabel : DenialKind → String
  | .fs => "Filesystem"
  | .net => "Network"
  | .ptrace => "Ptrace"
  | .signal => "Signal"
  | .abstractUnix => "Abstract Unix"

/-- The lines of `draw_stats`, as texts. -/
def statsLines (model : ObservationModel) : List String :=
  ["Observed denials: " ++ decimal model.stats.total.toNat] ++
  DenialKind.all.map (fun kind =>
    "  " ++ statsLabel kind ++ ": " ++ decimal (model.stats.byKind kind).toNat) ++
  ["",
   "Domains: " ++ decimal model.allocatedDomains ++ " allocated / " ++
     decimal model.state.domainCount ++ " observed",
   "Rulesets: " ++ decimal model.allocatedRulesets ++ " allocated / " ++
     decimal model.state.rulesets.keys.card ++ " observed",
   "Latest event: " ++ decimal model.latestSeen.nanoseconds.toNat ++ "ns"]

/-- Whether `status_line` warns about a domain. -/
def lacksNoNewPrivs (domain : DomainState) : Bool :=
  domain.lifecycle = .allocated ∧ domain.noNewPrivs = some false

/-- `status_line`. -/
def statusLine (order : IterOrder DomainId DomainState) (app : App) (model : ObservationModel) :
    String :=
  " " ++ decimal model.state.domainCount ++ " domains (" ++ decimal model.allocatedDomains ++
    " allocated) | " ++ decimal model.stats.total.toNat ++ " denials" ++
    (if app.paused then " | PAUSED" else "") ++
    (if (order.toList model.state.domains).any fun entry => lacksNoNewPrivs entry.2 then
      " | WARNING: missing no_new_privs means privilege gain is possible"
    else
      "") ++
    app.collectorWarning.elim "" fun warning => " | COLLECTOR WARNING: " ++ warning

end Landlock.Tui
