import LandlockObservability.ForStd.Timeline
import LandlockObservability.ForStd.ObjectStore
import LandlockObservability.Spec.StateOrder
import LandlockObservability.Spec.StateSummary

/-!
# The observed objects

What the events are about: the rulesets and domains of the kernel as abstract objects.  An
event is a transition of the objects that it concerns, each one by itself: a ruleset gains a
rule, a domain counts a denial.  `Objects.After events o` says that `o` is what the objects
are after `events` have happened, in this order.

The kernel itself is not modelled; this is what is assumed of it:

* an object is created once, before anything else happens to it, and it changes only while it
  is live
* the versions of a ruleset and the denial count of a domain do not go down, and the version
  that a domain takes is not one of the future
* the rules for one file, and the enforcements of one domain by one thread, come at different
  times, each later than the one before it
* a denial reports the provenance that the creation of its domain has reported
* a parent or peer that an event names exists

## Key results

* `Step.extends`, `After.confirms`: objects only grow, so that what an event once said of
  them stays right
* `After.coherent`: events of real objects do not contradict each other
* `After.of_foldlM`: the assumptions can be checked
-/

namespace Landlock

open ObjectStore

/-! ## Rulesets -/

/-- The time of a name. -/
def nameTime (name : KernelTimestamp × CapturedPath) : UInt64 := timestampValue name.1

/-- What a ruleset allows beneath one file or directory, and how that was named. -/
structure FilesystemRule where
  access : FilesystemAccess
  names : Timeline nameTime

/-- A ruleset as the kernel has it. -/
structure RulesetObject where
  createdAt : KernelTimestamp
  handledFs : FilesystemAccess
  handledNet : NetworkAccess
  scopedAccess : ScopeAccess
  version : UInt64
  filesystem : UInt32 × UInt64 → Option FilesystemRule
  network : UInt64 → Option NetworkAccess
  freedAt : Option KernelTimestamp

namespace RulesetObject

/-- Rights that are added to those of an earlier rule for the same target. -/
def added {K : AccessKind} (earlier : Option (AccessMask K)) (rights : AccessMask K) :
    AccessMask K :=
  earlier.elim rights fun access => ⟨access.bits ||| rights.bits⟩

/-- A rule in addition to the earlier ones for the same target, which is named later than
    they are. -/
def addRule (earlier : Option FilesystemRule) (event : AddRulePathBeneathEvent)
    (h : ∀ names ∈ earlier.map (·.names), nameTime names.latest < timestampValue event.timestamp) :
    FilesystemRule where
  access := added (earlier.map (·.access)) event.accessRights
  names := .extend (earlier.map (·.names)) (event.timestamp, event.pathname) h

/-- The transitions of a ruleset.  A ruleset is created once; rules are added while it is
    live, and each is named later than the one before it for the same target.  Versions do
    not go down. -/
inductive Becomes : Option RulesetObject → RulesetState.Part → RulesetObject → Prop
  | created (event : CreateRulesetEvent) :
    Becomes none (.created event)
      { createdAt := event.timestamp
        handledFs := event.handledFs
        handledNet := event.handledNet
        scopedAccess := event.scopedAccess
        version := event.rulesetVersion
        filesystem := fun _ => none
        network := fun _ => none
        freedAt := none }
  | filesystemRule {r : RulesetObject} {event : AddRulePathBeneathEvent}
      (hlive : r.freedAt = none) (hversion : r.version ≤ event.rulesetVersion)
      (hnamed : ∀ names ∈ (r.filesystem (event.device, event.inode)).map (·.names),
        nameTime names.latest < timestampValue event.timestamp) :
    Becomes (some r) (.filesystemRule event)
      { r with
        version := event.rulesetVersion
        filesystem := Function.update r.filesystem (event.device, event.inode)
          (some (addRule (r.filesystem (event.device, event.inode)) event hnamed)) }
  | networkRule {r : RulesetObject} {event : AddRuleNetPortEvent}
      (hlive : r.freedAt = none) (hversion : r.version ≤ event.rulesetVersion) :
    Becomes (some r) (.networkRule event)
      { r with
        version := event.rulesetVersion
        network := Function.update r.network event.port
          (some (added (r.network event.port) event.accessRights)) }
  -- A domain is made from the ruleset as it is, or was when it was looked up
  | referenced {r : RulesetObject} {event : CreateDomainEvent}
      (hversion : event.rulesetVersion ≤ r.version) :
    Becomes (some r) (.referenced event) r
  | freed {r : RulesetObject} {event : FreeRulesetEvent}
      (hlive : r.freedAt = none) (hversion : r.version ≤ event.rulesetVersion) :
    Becomes (some r) (.freed event)
      { r with version := event.rulesetVersion, freedAt := some event.timestamp }

/-- What a ruleset can become in any number of transitions. -/
structure Extends (r r' : RulesetObject) : Prop where
  createdAt : r'.createdAt = r.createdAt
  handledFs : r'.handledFs = r.handledFs
  handledNet : r'.handledNet = r.handledNet
  scopedAccess : r'.scopedAccess = r.scopedAccess
  version : r.version ≤ r'.version
  filesystem : ∀ target rule, r.filesystem target = some rule →
    ∃ rule', r'.filesystem target = some rule' ∧ MaskLe rule.access rule'.access ∧
      rule.names.entries ⊆ rule'.names.entries
  network : ∀ port access, r.network port = some access →
    ∃ access', r'.network port = some access' ∧ MaskLe access access'
  freed : r.freedAt ≠ none → r' = r

/-- Nothing has happened. -/
theorem Extends.refl (r : RulesetObject) : r.Extends r where
  createdAt := rfl
  handledFs := rfl
  handledNet := rfl
  scopedAccess := rfl
  version := le_rfl
  filesystem := fun _ rule h => ⟨rule, h, .refl _, List.Subset.refl _⟩
  network := fun _ access h => ⟨access, h, .refl _⟩
  freed := fun _ => rfl

/-- Rights are kept when others are added, -/
private theorem maskLe_added {K : AccessKind} (access rights : AccessMask K) :
    MaskLe access (added (some access) rights) := by
  show access.bits ||| (access.bits ||| rights.bits) = access.bits ||| rights.bits
  rw [← UInt64.or_assoc, UInt64.or_self]

/-- and the added ones are there. -/
private theorem rights_maskLe_added {K : AccessKind} (earlier : Option (AccessMask K))
    (rights : AccessMask K) : MaskLe rights (added earlier rights) := by
  cases earlier with
  | none => exact .refl _
  | some access =>
    show rights.bits ||| (access.bits ||| rights.bits) = access.bits ||| rights.bits
    rw [UInt64.or_comm access.bits, ← UInt64.or_assoc, UInt64.or_self]

/-- A rule allows what it allowed, and is named as it was. -/
private theorem addRule_extends {earlier : Option FilesystemRule} {event : AddRulePathBeneathEvent}
    (h : ∀ names ∈ earlier.map (·.names), nameTime names.latest < timestampValue event.timestamp)
    {rule : FilesystemRule} (hrule : earlier = some rule) :
    MaskLe rule.access (addRule earlier event h).access ∧
      rule.names.entries ⊆ (addRule earlier event h).names.entries := by
  subst hrule
  exact ⟨maskLe_added rule.access event.accessRights, Timeline.entries_subset_extend h rfl⟩

/-- A transition makes of a ruleset something that it can become. -/
theorem Becomes.extends {r r' : RulesetObject} {p : RulesetState.Part}
    (h : Becomes (some r) p r') : r.Extends r' := by
  cases h with
  | @filesystemRule _ event hlive hversion hnamed =>
    refine { Extends.refl r with version := hversion, filesystem := ?_, freed := ?_ }
    · -- rights are added for this target, and the others keep theirs
      intro target rule hrule
      by_cases htarget : target = (event.device, event.inode)
      · subst htarget
        exact ⟨_, Function.update_self .., addRule_extends hnamed hrule⟩
      · exact ⟨rule, (Function.update_of_ne htarget ..).trans hrule, .refl _,
          List.Subset.refl _⟩
    · exact fun hfreed => absurd hlive hfreed
  | @networkRule _ event hlive hversion =>
    refine { Extends.refl r with version := hversion, network := ?_, freed := ?_ }
    · intro port access haccess
      by_cases hport : port = event.port
      · subst hport
        refine ⟨_, Function.update_self .., ?_⟩
        rw [haccess]
        exact maskLe_added access event.accessRights
      · exact ⟨access, (Function.update_of_ne hport ..).trans haccess, .refl _⟩
    · exact fun hfreed => absurd hlive hfreed
  | referenced hversion => exact .refl r
  | freed hlive hversion =>
    exact { Extends.refl r with version := hversion, freed := fun hfreed => absurd hlive hfreed }

/-- What an event says of a ruleset is right. -/
def Confirms (r : RulesetObject) : RulesetState.Part → Prop
  | .created event =>
    r.createdAt = event.timestamp ∧ r.handledFs = event.handledFs ∧
      r.handledNet = event.handledNet ∧ r.scopedAccess = event.scopedAccess ∧
      event.rulesetVersion ≤ r.version
  | .filesystemRule event =>
    event.rulesetVersion ≤ r.version ∧
      ∃ rule, r.filesystem (event.device, event.inode) = some rule ∧
        MaskLe event.accessRights rule.access ∧
        (event.timestamp, event.pathname) ∈ rule.names.entries
  | .networkRule event =>
    event.rulesetVersion ≤ r.version ∧
      ∃ access, r.network event.port = some access ∧ MaskLe event.accessRights access
  | .referenced event => event.rulesetVersion ≤ r.version
  | .freed event => r.freedAt = some event.timestamp ∧ r.version = event.rulesetVersion

/-- What has just happened is right. -/
theorem Becomes.confirms {before : Option RulesetObject} {r : RulesetObject}
    {p : RulesetState.Part} (h : Becomes before p r) : r.Confirms p := by
  cases h with
  | created event => exact ⟨rfl, rfl, rfl, rfl, le_rfl⟩
  | filesystemRule hlive hversion hnamed =>
    exact ⟨le_rfl, _, Function.update_self .., rights_maskLe_added _ _, List.mem_cons_self⟩
  | networkRule hlive hversion =>
    exact ⟨le_rfl, _, Function.update_self .., rights_maskLe_added _ _⟩
  | referenced hversion => exact hversion
  | freed hlive hversion => exact ⟨rfl, rfl⟩

/-- What is right of a ruleset stays right. -/
theorem Confirms.mono {r r' : RulesetObject} {p : RulesetState.Part} (h : r.Confirms p)
    (hext : r.Extends r') : r'.Confirms p := by
  cases p with
  | created event =>
    obtain ⟨hcreated, hfs, hnet, hscope, hversion⟩ := h
    exact ⟨hext.createdAt.trans hcreated, hext.handledFs.trans hfs, hext.handledNet.trans hnet,
      hext.scopedAccess.trans hscope, hversion.trans hext.version⟩
  | filesystemRule event =>
    obtain ⟨hversion, rule, hrule, haccess, hnamed⟩ := h
    obtain ⟨rule', hrule', haccess', hnames⟩ := hext.filesystem _ _ hrule
    exact ⟨hversion.trans hext.version, rule', hrule', haccess.trans haccess', hnames hnamed⟩
  | networkRule event =>
    obtain ⟨hversion, access, haccess, hle⟩ := h
    obtain ⟨access', haccess', hle'⟩ := hext.network _ _ haccess
    exact ⟨hversion.trans hext.version, access', haccess', hle.trans hle'⟩
  | referenced event => exact le_trans h hext.version
  | freed event =>
    -- A freed ruleset does not change any more
    have hsame := hext.freed (by rw [h.1]; exact Option.some_ne_none _)
    exact hsame ▸ h

/-- The transition, if the ruleset can make it. -/
def next : Option RulesetObject → RulesetState.Part → Option RulesetObject
  | none, .created event => some
    { createdAt := event.timestamp
      handledFs := event.handledFs
      handledNet := event.handledNet
      scopedAccess := event.scopedAccess
      version := event.rulesetVersion
      filesystem := fun _ => none
      network := fun _ => none
      freedAt := none }
  | some r, .filesystemRule event =>
    if h : r.freedAt = none ∧ r.version ≤ event.rulesetVersion ∧
        ∀ names ∈ (r.filesystem (event.device, event.inode)).map (·.names),
          nameTime names.latest < timestampValue event.timestamp then
      some { r with
        version := event.rulesetVersion
        filesystem := Function.update r.filesystem (event.device, event.inode)
          (some (addRule (r.filesystem (event.device, event.inode)) event h.2.2)) }
    else none
  | some r, .networkRule event =>
    if r.freedAt = none ∧ r.version ≤ event.rulesetVersion then
      some { r with
        version := event.rulesetVersion
        network := Function.update r.network event.port
          (some (added (r.network event.port) event.accessRights)) }
    else none
  | some r, .referenced event => if event.rulesetVersion ≤ r.version then some r else none
  | some r, .freed event =>
    if r.freedAt = none ∧ r.version ≤ event.rulesetVersion then
      some { r with version := event.rulesetVersion, freedAt := some event.timestamp }
    else none
  | _, _ => none

/-- The computed transitions are transitions. -/
theorem becomes_of_next {before : Option RulesetObject} {p : RulesetState.Part}
    {r : RulesetObject} (h : next before p = some r) : Becomes before p r := by
  unfold next at h
  split at h
  · cases h
    exact .created _
  · split at h
    · rename_i hguard
      cases h
      exact .filesystemRule hguard.1 hguard.2.1 hguard.2.2
    · cases h
  · split at h
    · rename_i hguard
      cases h
      exact .networkRule hguard.1 hguard.2
    · cases h
  · split at h
    · rename_i hguard
      cases h
      exact .referenced hguard
    · cases h
  · split at h
    · rename_i hguard
      cases h
      exact .freed hguard.1 hguard.2
    · cases h
  · cases h

end RulesetObject

/-! ## Domains -/

/-- The time of an enforcement. -/
def enforcementTime (event : EnforceDomainEvent) : UInt64 := timestampValue event.timestamp

/-- A domain as the kernel has it. -/
structure DomainObject where
  createdAt : KernelTimestamp
  parent : Option DomainId
  creatorTgid : ProcessId
  creatorComm : CapturedCommand
  ruleset : RulesetVersion
  denials : UInt64
  enforced : ThreadId → Option (Timeline enforcementTime)
  processWide : Bool
  freedAt : Option KernelTimestamp

namespace DomainObject

/-- The transitions of a domain.  A domain is created once, from one version of a ruleset;
    a denial reports where the domain comes from and a count that does not go down, and a
    thread that enforces the domain again does so later. -/
inductive Becomes : Option DomainObject → DomainObservation → DomainObject → Prop
  | created (event : CreateDomainEvent) :
    Becomes none (.created event)
      { createdAt := event.timestamp
        parent := event.parentId
        creatorTgid := event.creatorTgid
        creatorComm := event.creatorComm
        ruleset := ⟨event.rulesetId, event.rulesetVersion⟩
        denials := 0
        enforced := fun _ => none
        processWide := false
        freedAt := none }
  | denied {d : DomainObject} {context : DenialContext} (hlive : d.freedAt = none)
      (hparent : d.parent = context.hierarchy.parentId)
      (htgid : d.creatorTgid = context.hierarchy.creatorTgid)
      (hcomm : d.creatorComm = context.hierarchy.creatorComm)
      (hcount : d.denials ≤ context.cumulativeDenialCount) :
    Becomes (some d) (.denied context) { d with denials := context.cumulativeDenialCount }
  | enforced {d : DomainObject} {event : EnforceDomainEvent} (hlive : d.freedAt = none)
      (hlater : ∀ earlier ∈ d.enforced event.enforcingTid,
        enforcementTime earlier.latest < enforcementTime event) :
    Becomes (some d) (.enforced event)
      { d with
        enforced := Function.update d.enforced event.enforcingTid
          (some (.extend (d.enforced event.enforcingTid) event hlater))
        processWide := d.processWide || event.processWide }
  | freed {d : DomainObject} {event : FreeDomainEvent} (hlive : d.freedAt = none)
      (hcount : d.denials ≤ event.denialCount) :
    Becomes (some d) (.freed event)
      { d with denials := event.denialCount, freedAt := some event.timestamp }

/-- What a domain can become in any number of transitions. -/
structure Extends (d d' : DomainObject) : Prop where
  createdAt : d'.createdAt = d.createdAt
  parent : d'.parent = d.parent
  creatorTgid : d'.creatorTgid = d.creatorTgid
  creatorComm : d'.creatorComm = d.creatorComm
  ruleset : d'.ruleset = d.ruleset
  denials : d.denials ≤ d'.denials
  enforced : ∀ thread events, d.enforced thread = some events →
    ∃ events', d'.enforced thread = some events' ∧ events.entries ⊆ events'.entries
  processWide : d.processWide = true → d'.processWide = true
  freed : d.freedAt ≠ none → d' = d

/-- Nothing has happened. -/
theorem Extends.refl (d : DomainObject) : d.Extends d where
  createdAt := rfl
  parent := rfl
  creatorTgid := rfl
  creatorComm := rfl
  ruleset := rfl
  denials := le_rfl
  enforced := fun _ events h => ⟨events, h, List.Subset.refl _⟩
  processWide := id
  freed := fun _ => rfl

/-- A transition makes of a domain something that it can become. -/
theorem Becomes.extends {d d' : DomainObject} {ob : DomainObservation}
    (h : Becomes (some d) ob d') : d.Extends d' := by
  cases h with
  | denied hlive hparent htgid hcomm hcount =>
    exact { Extends.refl d with denials := hcount, freed := fun hfreed => absurd hlive hfreed }
  | @enforced _ event hlive hlater =>
    refine { Extends.refl d with
      enforced := ?_
      processWide := fun hwide => by rw [hwide, Bool.true_or]
      freed := fun hfreed => absurd hlive hfreed }
    -- The enforcements of one thread grow, those of the others stay
    intro thread events hevents
    by_cases hthread : thread = event.enforcingTid
    · subst hthread
      exact ⟨_, Function.update_self .., Timeline.entries_subset_extend hlater hevents⟩
    · exact ⟨events, (Function.update_of_ne hthread ..).trans hevents, List.Subset.refl _⟩
  | freed hlive hcount =>
    exact { Extends.refl d with denials := hcount, freed := fun hfreed => absurd hlive hfreed }

/-- What an event says of a domain is right. -/
def Confirms (d : DomainObject) : DomainObservation → Prop
  | .created event =>
    d.createdAt = event.timestamp ∧ d.parent = event.parentId ∧
      d.creatorTgid = event.creatorTgid ∧ d.creatorComm = event.creatorComm ∧
      d.ruleset = ⟨event.rulesetId, event.rulesetVersion⟩
  | .denied context =>
    d.parent = context.hierarchy.parentId ∧ d.creatorTgid = context.hierarchy.creatorTgid ∧
      d.creatorComm = context.hierarchy.creatorComm ∧ context.cumulativeDenialCount ≤ d.denials
  | .enforced event =>
    (∃ events, d.enforced event.enforcingTid = some events ∧ event ∈ events.entries) ∧
      (event.processWide = true → d.processWide = true)
  | .freed event => d.freedAt = some event.timestamp ∧ d.denials = event.denialCount

/-- What has just happened is right. -/
theorem Becomes.confirms {before : Option DomainObject} {d : DomainObject}
    {ob : DomainObservation} (h : Becomes before ob d) : d.Confirms ob := by
  cases h with
  | created event => exact ⟨rfl, rfl, rfl, rfl, rfl⟩
  | denied hlive hparent htgid hcomm hcount => exact ⟨hparent, htgid, hcomm, le_rfl⟩
  | @enforced d event hlive hlater =>
    refine ⟨⟨_, Function.update_self .., List.mem_cons_self⟩, fun hwide => ?_⟩
    show (d.processWide || event.processWide) = true
    rw [hwide, Bool.or_true]
  | freed hlive hcount => exact ⟨rfl, rfl⟩

/-- What is right of a domain stays right. -/
theorem Confirms.mono {d d' : DomainObject} {ob : DomainObservation} (h : d.Confirms ob)
    (hext : d.Extends d') : d'.Confirms ob := by
  cases ob with
  | created event =>
    obtain ⟨hcreated, hparent, htgid, hcomm, hruleset⟩ := h
    exact ⟨hext.createdAt.trans hcreated, hext.parent.trans hparent,
      hext.creatorTgid.trans htgid, hext.creatorComm.trans hcomm, hext.ruleset.trans hruleset⟩
  | denied context =>
    obtain ⟨hparent, htgid, hcomm, hcount⟩ := h
    exact ⟨hext.parent.trans hparent, hext.creatorTgid.trans htgid,
      hext.creatorComm.trans hcomm, hcount.trans hext.denials⟩
  | enforced event =>
    obtain ⟨⟨events, hevents, hmem⟩, hwide⟩ := h
    obtain ⟨events', hevents', hsubset⟩ := hext.enforced _ _ hevents
    exact ⟨⟨events', hevents', hsubset hmem⟩, fun h => hext.processWide (hwide h)⟩
  | freed event =>
    have hsame := hext.freed (by rw [h.1]; exact Option.some_ne_none _)
    exact hsame ▸ h

/-- The transition, if the domain can make it. -/
def next : Option DomainObject → DomainObservation → Option DomainObject
  | none, .created event => some
    { createdAt := event.timestamp
      parent := event.parentId
      creatorTgid := event.creatorTgid
      creatorComm := event.creatorComm
      ruleset := ⟨event.rulesetId, event.rulesetVersion⟩
      denials := 0
      enforced := fun _ => none
      processWide := false
      freedAt := none }
  | some d, .denied context =>
    if d.freedAt = none ∧ d.parent = context.hierarchy.parentId ∧
        d.creatorTgid = context.hierarchy.creatorTgid ∧
        d.creatorComm = context.hierarchy.creatorComm ∧
        d.denials ≤ context.cumulativeDenialCount then
      some { d with denials := context.cumulativeDenialCount }
    else none
  | some d, .enforced event =>
    if h : d.freedAt = none ∧ ∀ earlier ∈ d.enforced event.enforcingTid,
        enforcementTime earlier.latest < enforcementTime event then
      some { d with
        enforced := Function.update d.enforced event.enforcingTid
          (some (.extend (d.enforced event.enforcingTid) event h.2))
        processWide := d.processWide || event.processWide }
    else none
  | some d, .freed event =>
    if d.freedAt = none ∧ d.denials ≤ event.denialCount then
      some { d with denials := event.denialCount, freedAt := some event.timestamp }
    else none
  | _, _ => none

/-- The computed transitions are transitions. -/
theorem becomes_of_next {before : Option DomainObject} {ob : DomainObservation}
    {d : DomainObject} (h : next before ob = some d) : Becomes before ob d := by
  unfold next at h
  split at h
  · cases h
    exact .created _
  · split at h
    · rename_i hguard
      cases h
      exact .denied hguard.1 hguard.2.1 hguard.2.2.1 hguard.2.2.2.1 hguard.2.2.2.2
    · cases h
  · split at h
    · rename_i hguard
      cases h
      exact .enforced hguard.1 hguard.2
    · cases h
  · split at h
    · rename_i hguard
      cases h
      exact .freed hguard.1 hguard.2
    · cases h
  · cases h

end DomainObject

/-! ## All objects -/

/-- An event is about a domain only if it names it. -/
theorem Event.names_of_observationOf {e : Event} {id : DomainId} {ob : DomainObservation}
    (h : e.observationOf id = some ob) : e.NamesDomain id := by
  cases e <;>
    simp_all [Event.observationOf, Event.context, Event.NamesDomain, Option.filter_some]

/-- The rulesets and domains that have ever existed, freed ones included. -/
structure Objects where
  rulesets : RulesetId → Option RulesetObject
  domains : DomainId → Option DomainObject

namespace Objects

/-- Before the first event there is nothing. -/
def initial : Objects := ⟨fun _ => none, fun _ => none⟩

/-- One event happens to the objects: those that it concerns make their transitions, and
    the parents and peers that it names exist. -/
structure Step (o : Objects) (e : Event) (o' : Objects) : Prop where
  rulesets : Moves RulesetObject.Becomes (fun id => e.partOf id) o.rulesets o'.rulesets
  domains : Moves DomainObject.Becomes (fun id => e.observationOf id) o.domains o'.domains
  named : ∀ id, e.NamesDomain id → (o.domains id).isSome ∨ (e.observationOf id).isSome

/-- The objects after some events, oldest first. -/
inductive After : List Event → Objects → Prop
  | initial : After [] initial
  | step {events : List Event} {e : Event} {o o' : Objects} (h : After events o)
      (hstep : o.Step e o') : After (events ++ [e]) o'

/-- Objects after which other objects can come. -/
structure Extends (o o' : Objects) : Prop where
  rulesets : ∀ id r, o.rulesets id = some r → ∃ r', o'.rulesets id = some r' ∧ r.Extends r'
  domains : ∀ id d, o.domains id = some d → ∃ d', o'.domains id = some d' ∧ d.Extends d'

/-- What an event makes of the objects comes after them. -/
theorem Step.extends {o o' : Objects} {e : Event} (h : o.Step e o') : o.Extends o' where
  rulesets := fun _ _ hr =>
    h.rulesets.persists RulesetObject.Extends.refl (fun _ _ _ hb => hb.extends) hr
  domains := fun _ _ hd =>
    h.domains.persists DomainObject.Extends.refl (fun _ _ _ hb => hb.extends) hd

/-- All that an event says is right. -/
structure Confirms (o : Objects) (e : Event) : Prop where
  rulesets : ∀ id p, e.partOf id = some p → ∃ r, o.rulesets id = some r ∧ r.Confirms p
  domains : ∀ id ob, e.observationOf id = some ob → ∃ d, o.domains id = some d ∧ d.Confirms ob
  named : ∀ id, e.NamesDomain id → ∃ d, o.domains id = some d

/-- An event that happens is right. -/
theorem Step.confirms {o o' : Objects} {e : Event} (h : o.Step e o') : o'.Confirms e where
  rulesets := fun id p hp => by
    obtain ⟨r, hr, hbecomes⟩ := h.rulesets.of_part hp
    exact ⟨r, hr, hbecomes.confirms⟩
  domains := fun id ob hob => by
    obtain ⟨d, hd, hbecomes⟩ := h.domains.of_part hob
    exact ⟨d, hd, hbecomes.confirms⟩
  -- A named domain was there before, or it is the one that is created
  named := fun id hnames => by
    rcases h.named id hnames with hknown | hob
    · obtain ⟨d, hd⟩ := Option.isSome_iff_exists.mp hknown
      obtain ⟨d', hd', -⟩ := h.extends.domains id d hd
      exact ⟨d', hd'⟩
    · obtain ⟨ob, hob⟩ := Option.isSome_iff_exists.mp hob
      obtain ⟨d, hd, -⟩ := h.domains.of_part hob
      exact ⟨d, hd⟩

/-- An event that is right stays right. -/
theorem Confirms.mono {o o' : Objects} {e : Event} (h : o.Confirms e) (hext : o.Extends o') :
    o'.Confirms e where
  rulesets := fun id p hp => by
    obtain ⟨r, hr, hconfirms⟩ := h.rulesets id p hp
    obtain ⟨r', hr', hext'⟩ := hext.rulesets id r hr
    exact ⟨r', hr', hconfirms.mono hext'⟩
  domains := fun id ob hob => by
    obtain ⟨d, hd, hconfirms⟩ := h.domains id ob hob
    obtain ⟨d', hd', hext'⟩ := hext.domains id d hd
    exact ⟨d', hd', hconfirms.mono hext'⟩
  named := fun id hnames => by
    obtain ⟨d, hd⟩ := h.named id hnames
    obtain ⟨d', hd', -⟩ := hext.domains id d hd
    exact ⟨d', hd'⟩

namespace After

variable {events : List Event} {o : Objects}

/-- What has been said of the objects stays right. -/
theorem confirms (h : After events o) : ∀ e ∈ events, o.Confirms e := by
  induction h with
  | initial => exact fun e he => absurd he List.not_mem_nil
  | step h hstep ih =>
    intro e he
    rcases List.mem_append.mp he with he | he
    · exact (ih e he).mono hstep.extends
    · rw [List.mem_singleton.mp he]
      exact hstep.confirms

/-- What happened up to an earlier moment has led to objects of its own. -/
theorem of_append {first rest : List Event} (h : After (first ++ rest) o) :
    ∃ o', After first o' := by
  induction rest using List.reverseRecOn generalizing o with
  | nil => exact ⟨o, by simpa using h⟩
  | append_singleton rest e ih =>
    rw [← List.append_assoc] at h
    -- The last event is taken away
    generalize hall : (first ++ rest) ++ [e] = all at h
    cases h with
    | initial => simp at hall
    | step h hstep =>
      rw [(List.append_inj' hall rfl).1] at ih
      exact ih h

/-- The second of two events happens to objects of which the first is right. -/
def Precedes (a b : Event) : Prop := ∃ o o' : Objects, o.Confirms a ∧ o.Step b o'

/-- Of two different events, one happened to objects of which the other was right. -/
private theorem precedes (h : After events o) {a b : Event} (ha : a ∈ events) (hb : b ∈ events) :
    a = b ∨ Precedes a b ∨ Precedes b a := by
  induction h with
  | initial => exact absurd ha List.not_mem_nil
  | @step events e o o' h hstep ih =>
    rcases List.mem_append.mp ha with ha | ha <;> rcases List.mem_append.mp hb with hb | hb
    · exact ih ha hb
    · rw [List.mem_singleton.mp hb]
      exact .inr (.inl ⟨o, o', h.confirms a ha, hstep⟩)
    · rw [List.mem_singleton.mp ha]
      exact .inr (.inr ⟨o, o', h.confirms b hb, hstep⟩)
    · exact .inl ((List.mem_singleton.mp ha).trans (List.mem_singleton.mp hb).symm)

/-- A rule is named later than the rules before it for the same target. -/
theorem Precedes.filesystemRule {a b : AddRulePathBeneathEvent}
    (h : Precedes (.addRulePathBeneath a) (.addRulePathBeneath b))
    (hid : a.rulesetId = b.rulesetId) (htarget : (a.device, a.inode) = (b.device, b.inode)) :
    timestampValue a.timestamp < timestampValue b.timestamp := by
  obtain ⟨o, o', hconfirms, hstep⟩ := h
  obtain ⟨r, hr, -, rule, hrule, -, hnamed⟩ :=
    hconfirms.rulesets a.rulesetId (.filesystemRule a) (if_pos rfl)
  obtain ⟨r', -, hbecomes⟩ := hstep.rulesets.of_part (k := b.rulesetId) (if_pos rfl)
  rw [← hid, hr] at hbecomes
  -- The rule that `a` has added is still there when `b` happens
  cases hbecomes with
  | filesystemRule hlive hversion hlater =>
    rw [← htarget, hrule] at hlater
    exact lt_of_le_of_lt (rule.names.time_le_latest hnamed) (hlater rule.names rfl)

/-- A thread enforces a domain again only later. -/
theorem Precedes.enforced {a b : EnforceDomainEvent}
    (h : Precedes (.enforceDomain a) (.enforceDomain b)) (hid : a.domainId = b.domainId)
    (hthread : a.enforcingTid = b.enforcingTid) :
    timestampValue a.timestamp < timestampValue b.timestamp := by
  obtain ⟨o, o', hconfirms, hstep⟩ := h
  obtain ⟨d, hd, ⟨events, hevents, hmem⟩, -⟩ :=
    hconfirms.domains a.domainId (.enforced a) (if_pos rfl)
  obtain ⟨d', -, hbecomes⟩ := hstep.domains.of_part (k := b.domainId) (if_pos rfl)
  rw [← hid, hd] at hbecomes
  cases hbecomes with
  | enforced hlive hlater =>
    rw [← hthread, hevents] at hlater
    exact lt_of_le_of_lt (events.time_le_latest hmem) (hlater events rfl)

/-- The events of objects do not contradict each other. -/
theorem coherent (h : After events o) : CoherentEvents events where
  -- There is one creation and one provenance: both events are right about the same object
  createRuleset := fun a b ha hb hid _ => by
    obtain ⟨r, hr, -, hfs, hnet, hscope, -⟩ :=
      (h.confirms _ ha).rulesets a.rulesetId (.created a) (if_pos rfl)
    obtain ⟨r', hr', -, hfs', hnet', hscope', -⟩ :=
      (h.confirms _ hb).rulesets b.rulesetId (.created b) (if_pos rfl)
    rw [← hid, hr] at hr'
    cases hr'
    exact ⟨hfs.symm.trans hfs', hnet.symm.trans hnet', hscope.symm.trans hscope'⟩
  createDomain := fun a b ha hb hid _ => by
    obtain ⟨d, hd, -, hparent, htgid, hcomm, hruleset⟩ :=
      (h.confirms _ ha).domains a.domainId (.created a) (if_pos rfl)
    obtain ⟨d', hd', -, hparent', htgid', hcomm', hruleset'⟩ :=
      (h.confirms _ hb).domains b.domainId (.created b) (if_pos rfl)
    rw [← hid, hd] at hd'
    cases hd'
    have hsame := hruleset.symm.trans hruleset'
    exact ⟨hparent.symm.trans hparent', htgid.symm.trans htgid', hcomm.symm.trans hcomm',
      congrArg RulesetVersion.rulesetId hsame, congrArg RulesetVersion.rulesetVersion hsame⟩
  -- Rules and enforcements of one register come at different times
  addRulePathBeneath := fun a b ha hb hid htarget htime => by
    rcases h.precedes ha hb with heq | hlt | hlt
    · cases heq
      rfl
    · exact absurd (congrArg timestampValue htime) (hlt.filesystemRule hid htarget).ne
    · exact absurd (congrArg timestampValue htime)
        (hlt.filesystemRule hid.symm htarget.symm).ne'
  enforceDomain := fun a b ha hb hid hthread htime => by
    rcases h.precedes ha hb with heq | hlt | hlt
    · exact Event.enforceDomain.inj heq
    · exact absurd (congrArg timestampValue htime) (hlt.enforced hid hthread).ne
    · exact absurd (congrArg timestampValue htime) (hlt.enforced hid.symm hthread.symm).ne'
  denial := fun a ha b hb ca cb hca hcb hid => by
    obtain ⟨d, hd, hparent, htgid, hcomm, -⟩ :=
      (h.confirms a ha).domains _ _ (Event.observationOf_of_context hca)
    obtain ⟨d', hd', hparent', htgid', hcomm', -⟩ :=
      (h.confirms b hb).domains _ _ (Event.observationOf_of_context hcb)
    rw [← hid, hd] at hd'
    cases hd'
    exact ⟨hparent.symm.trans hparent', htgid.symm.trans htgid', hcomm.symm.trans hcomm'⟩

end After

/-! ## Checking events -/

/-- What an event makes of the objects, if they can make the transition. -/
def next (o : Objects) (e : Event) : Option Objects :=
  let named := e.domainEffects.map Prod.fst
  (advance RulesetObject.next (fun id => e.partOf id) o.rulesets
      (e.rulesetEffects.map Prod.fst)).bind fun rulesets =>
    (advance DomainObject.next (fun id => e.observationOf id) o.domains named).bind fun domains =>
      if ∀ id ∈ named, (o.domains id).isSome ∨ (e.observationOf id).isSome then
        some ⟨rulesets, domains⟩
      else none

/-- A computed step is a step. -/
private theorem step_of_next {o o' : Objects} {e : Event} (h : o.next e = some o') :
    o.Step e o' := by
  obtain ⟨rulesets, hrulesets, h⟩ := Option.bind_eq_some_iff.mp h
  obtain ⟨domains, hdomains, h⟩ := Option.bind_eq_some_iff.mp h
  have hnamed : ∀ id, e.NamesDomain id → id ∈ e.domainEffects.map Prod.fst := fun id hnames => by
    obtain ⟨u, hu, rfl⟩ := (exists_domainEffects_iff e id).mpr hnames
    exact List.mem_map_of_mem hu
  split at h
  · rename_i hexist
    cases h
    refine ⟨moves_of_advance (fun _ _ _ => RulesetObject.becomes_of_next) (fun id hid => ?_)
      hrulesets, moves_of_advance (fun _ _ _ => DomainObject.becomes_of_next) (fun id hid => ?_)
      hdomains, fun id hnames => hexist id (hnamed id hnames)⟩
    · obtain ⟨u, hu, rfl⟩ := (exists_rulesetEffects_iff e id).mpr hid
      exact List.mem_map_of_mem hu
    · obtain ⟨ob, hob⟩ := Option.isSome_iff_exists.mp hid
      exact hnamed id (Event.names_of_observationOf hob)
  · cases h

/-- Events that can be gone through one by one can have happened. -/
theorem After.of_foldlM {first rest : List Event} {o o' : Objects} (hfirst : After first o)
    (h : rest.foldlM next o = some o') : After (first ++ rest) o' := by
  induction rest generalizing first o with
  | nil =>
    cases h
    rwa [List.append_nil]
  | cons e rest ih =>
    rw [List.foldlM_cons] at h
    obtain ⟨o₁, hnext, hrest⟩ := Option.bind_eq_some_iff.mp h
    rw [List.append_cons]
    exact ih (hfirst.step (step_of_next hnext)) hrest

end Objects

end Landlock
