import LandlockObservability.Model.DomainTree
import LandlockObservability.Model.Labels

/-!
# Rows of the lists

Models the lists of `lltop/src/tui/ui.rs`: `domain_rows`, `denial_rows` and `ruleset_rows` with
the styles of `lltop/src/tui/theme.rs`.

`width` is `format::display_width`, the number of columns that a text takes on the screen.  The
order in which a hash map is traversed is a parameter; a new map has an order of its own each
time.
-/

namespace Landlock.Tui

/-! ## Styles -/

/-- `ratatui::style::Color`, as far as the lists use it. -/
inductive Color where
  | gray
  | darkGray
  | lightRed
  | lightGreen
  | lightCyan
  | indexed (index : UInt8)
  deriving DecidableEq, Repr

/-- `ratatui::style::Style`, with the modifiers that the lists use. -/
structure Style where
  fg : Option Color := none
  bg : Option Color := none
  bold : Bool := false
  dim : Bool := false
  deriving DecidableEq, Repr

/-- `Style::patch`: what the other style sets replaces what this one has. -/
def Style.patch (style other : Style) : Style where
  fg := other.fg.or style.fg
  bg := other.bg.or style.bg
  bold := style.bold || other.bold
  dim := style.dim || other.dim

namespace Theme

def normal : Style := {}
def heading : Style := { fg := some .lightCyan, bold := true }
def selected : Style := { bg := some (.indexed 238) }
def related : Style := { bg := some (.indexed 236) }
def observed : Style := { fg := some .lightGreen }
def tombstone : Style := { fg := some .darkGray, dim := true }
def hot : Style := { fg := some .lightRed, bold := true }
def recent : Style := { fg := some .lightRed }
def cooling : Style := { fg := some .gray }
def cold : Style := { fg := some .darkGray }

def recency (ageNs : UInt64) : Style :=
  -- One, five and thirty seconds
  if ageNs < 1000000000 then hot
  else if ageNs < 5000000000 then recent
  else if ageNs < 30000000000 then cooling
  else cold

end Theme

/-! ## Rows -/

/-- `RowKind`. -/
inductive RowKind where
  | domain (id : DomainId)
  | denialDomain (id : DomainId)
  | denial (key : DenialKey)
  | ruleset (id : RulesetId)
  | heading
  deriving DecidableEq, Repr

/-- `RowKind::selectable`. -/
def RowKind.selectable : RowKind → Bool
  | heading => false
  | _ => true

/-- `DisplayRow`. -/
structure DisplayRow where
  kind : RowKind
  text : String
  style : Style
  continuationIndent : Option Nat
  deriving DecidableEq, Repr

/-- `selected_style`. -/
def selectedStyle (kind : RowKind) (selected : Option RowKind) (base : Style) : Style :=
  -- Only the background changes
  if selected = some kind then base.patch Theme.selected else base

/-- `lifecycle`. -/
def lifecycle : LifecycleState → String
  | .allocated => "allocated"
  | .deallocated => "deallocated"

/-- `lifecycle_style`. -/
def lifecycleStyle : LifecycleState → Style
  | .allocated => Theme.observed
  | .deallocated => Theme.tombstone

/-- The creator of a domain, if it is known. -/
def creator (u : Unicode) (domain : DomainState) : Option String :=
  match domain.creatorComm, domain.creatorTgid with
  | some comm, some tgid =>
    some (comm.display u ++ "[" ++ decimal tgid.value.toNat ++ "]")
  | _, _ => none

/-! ## Domains -/

/-- The loop of `tree_prefix`; the last bit of the list is the one of the row itself. -/
def treeConnectors : List Bool → String
  | [] => ""
  | [isLast] => if isLast then "└─ " else "├─ "
  -- Below a last child there is no line to continue
  | isLast :: last => (if isLast then "   " else "│  ") ++ treeConnectors last

/-- `tree_prefix`. -/
def treePrefix (last : List Bool) : String :=
  -- Roots have no connector
  if last.length ≤ 1 then "" else treeConnectors last.tail

/-- The row of a domain in `domain_rows`. -/
def domainRow (u : Unicode) (selected : Option RowKind) (id : DomainId) (trail : List Bool)
    (domain : DomainState) : DisplayRow :=
  let count := domain.cumulativeDenialCount.elim "?" fun value => decimal value.toNat
  let status :=
    -- A domain that is gone cannot gain privileges any more
    if domain.lifecycle = .allocated ∧ domain.noNewPrivs = some false then
      lifecycle domain.lifecycle ++
        "; WARNING: missing no_new_privs means privilege gain is possible"
    else
      lifecycle domain.lifecycle
  { kind := .domain id
    text := treePrefix trail ++ id.display ++ "  " ++ (creator u domain).getD "?" ++
      "  denials=" ++ count ++ "  " ++ status
    style := selectedStyle (.domain id) selected (lifecycleStyle domain.lifecycle)
    continuationIndent := none }

/-- `domain_rows`. -/
def domainRows (u : Unicode) (stateOrder order : IterOrder DomainId DomainState)
    (model : ObservationModel) (selected : Option RowKind) : List DisplayRow :=
  (model.domainTree stateOrder order).filterMap fun (id, trail) =>
    (model.state.domain id).map (domainRow u selected id trail)

/-! ## Denials -/

/-- `blockers`. -/
def blockers (entry : AggregatedDenial) : String := blockersEvent entry.latestEvent

/-- `target`. -/
def target (u : Unicode) (entry : AggregatedDenial) : String := targetEvent u entry.latestEvent

/-- `u64::saturating_add`. -/
def saturatingAdd (a b : UInt64) : UInt64 := UInt64.ofNat (min (a.toNat + b.toNat) (2 ^ 64 - 1))

/-- `total`. -/
def total (entries : List AggregatedDenial) : UInt64 :=
  entries.foldl (fun sum entry => saturatingAdd sum entry.occurrenceCount) 0

/-- `maximum`. -/
def maximum (entries : List AggregatedDenial) : UInt64 :=
  (entries.map AggregatedDenial.occurrenceCount).max?.getD 0

/-- `b.cmp(&a)` by a key. -/
def descending {α β : Type} [Ord β] (key : α → β) (a b : α) : Ordering := compareOn key b a

/-- The comparison of the domains: the most denials first. -/
def compareDomains : DomainId × List AggregatedDenial → DomainId × List AggregatedDenial →
    Ordering :=
  compareLex (descending fun group => total group.2) (compareOn fun group => group.1.value)

/-- The comparison of the groups of a domain.  Texts compare by their bytes, which is the
    order of their characters. -/
def compareGroups : String × List AggregatedDenial → String × List AggregatedDenial →
    Ordering :=
  compareLex (descending fun group => maximum group.2)
    (compareLex (descending fun group => total group.2) (compareOn Prod.fst))

/-- The comparison of the entries of a group. -/
def compareEntries (u : Unicode) : AggregatedDenial → AggregatedDenial → Ordering :=
  compareLex (descending AggregatedDenial.occurrenceCount)
    (compareLex (descending fun entry => entry.latestTimestamp.nanoseconds)
      (compareOn (target u)))

/-- The orders of the hash maps of `denial_rows`: of `DenialAggregator::entries`, of the map of
    the domains, and of the map of the groups of each domain. -/
structure DenialOrders where
  entries : IterOrder DenialKey AggregatedDenial
  domains : IterOrder DomainId (List AggregatedDenial)
  groups : DomainId → IterOrder String (List AggregatedDenial)

/-- `DenialAggregator::entries`. -/
def retained (order : IterOrder DenialKey AggregatedDenial) (model : ObservationModel) :
    List AggregatedDenial :=
  (order.toList model.denials.entries).map Prod.snd

/-- The sorted list `domains`. -/
def domainGroups (orders : DenialOrders) (model : ObservationModel) :
    List (DomainId × List AggregatedDenial) :=
  Grouping.sortBy compareDomains
    (Grouping.groups orders.domains (fun denial => denial.key.domainId)
      (retained orders.entries model))

/-- The sorted list `groups`. -/
def labelGroups (order : IterOrder String (List AggregatedDenial))
    (entries : List AggregatedDenial) : List (String × List AggregatedDenial) :=
  Grouping.sortBy compareGroups (Grouping.groups order blockers entries)

/-- `visibility`; its second text is not used here. -/
def visibility (logged : Bool) : String := if logged then "🔔" else "🔕"

/-- `denial_row_text`. -/
def denialRowText (width : String → Nat) (count : UInt64) (visibility target : String) :
    String × Nat :=
  let number := decimal count.toNat
  -- `{:>6}`
  let start := "    " ++ "".pushn ' ' (6 - number.length) ++ number ++ " " ++ visibility ++ "  "
  (start ++ target, width start)

/-- The target of the selected denial. -/
def selectedTarget (u : Unicode) (model : ObservationModel) : Option RowKind → Option String
  | some (.denial key) => (model.denial key).map (target u)
  | _ => none

section

variable (u : Unicode) (width : String → Nat) (model : ObservationModel)
  (selected : Option RowKind)

/-- The row of a denial. -/
def denialRow (entry : AggregatedDenial) : DisplayRow :=
  let kind := RowKind.denial entry.key
  let style := Theme.recency (model.denialAgeNs entry)
  let style :=
    -- Other denials at the target of the selected one
    if selectedTarget u model selected = some (target u entry) ∧ selected ≠ some kind then
      style.patch Theme.related
    else
      style
  let (text, continuationIndent) :=
    denialRowText width entry.occurrenceCount (visibility entry.logged) (target u entry)
  { kind
    text
    style := selectedStyle kind selected style
    continuationIndent := some continuationIndent }

/-- The rows of a group: its label and its entries. -/
def groupRows (group : String × List AggregatedDenial) : List DisplayRow :=
  ⟨.heading, "  " ++ group.1, Theme.heading, none⟩ ::
    (Grouping.sortBy (compareEntries u) group.2).map (denialRow u width model selected)

/-- The row of a domain in `denial_rows`. -/
def denialDomainRow (domain : DomainId) : DisplayRow :=
  let creator := ((model.state.domain domain).bind (creator u)).getD "?"
  { kind := .denialDomain domain
    text := "Domain " ++ domain.display ++ " (" ++ creator ++ ")"
    style := selectedStyle (.denialDomain domain) selected { Theme.observed with bold := true }
    continuationIndent := none }

/-- The rows of a domain. -/
def domainSection (orders : DenialOrders) (group : DomainId × List AggregatedDenial) :
    List DisplayRow :=
  denialDomainRow u model selected group.1 ::
    (labelGroups (orders.groups group.1) group.2).flatMap (groupRows u width model selected)

/-- The empty row between two domains. -/
def separator : DisplayRow := ⟨.heading, "", Theme.normal, none⟩

/-- `denial_rows`. -/
def denialRows (orders : DenialOrders) : List DisplayRow :=
  (domainGroups orders model).foldl
    (fun rows group =>
      -- An empty row before every domain but the first
      rows ++ (if rows.isEmpty then [] else [separator]) ++
        domainSection u width model selected orders group) []

end

/-! ## Rulesets -/

/-- The comparison of the rulesets: the newest first, those without a creation time last. -/
def compareRulesets : RulesetState → RulesetState → Ordering :=
  compareLex
    (descending fun ruleset => ruleset.creationTimestamp.map KernelTimestamp.nanoseconds)
    (compareOn fun ruleset => ruleset.id.value)

/-- The row of a ruleset. -/
def rulesetRow (selected : Option RowKind) (ruleset : RulesetState) : DisplayRow :=
  let version : RulesetVersion := ⟨ruleset.id, ruleset.maxObservedVersion⟩
  let rules := min (ruleset.filesystemRules.keys.card + ruleset.networkRules.keys.card) usizeMax
  { kind := .ruleset ruleset.id
    text := version.display ++ "  rules=" ++ decimal rules ++ "  " ++ lifecycle ruleset.lifecycle
    style := selectedStyle (.ruleset ruleset.id) selected (lifecycleStyle ruleset.lifecycle)
    continuationIndent := none }

/-- `ruleset_rows`. -/
def rulesetRows (order : IterOrder RulesetId RulesetState) (model : ObservationModel)
    (selected : Option RowKind) : List DisplayRow :=
  (Grouping.sortBy compareRulesets
    ((order.toList model.state.rulesets).map Prod.snd)).map (rulesetRow selected)

end Landlock.Tui
