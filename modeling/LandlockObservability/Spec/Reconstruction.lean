import LandlockObservability.Spec.Objects
import LandlockObservability.Spec.StateKnowledge
import LandlockObservability.Spec.Tracepoints

/-!
# Reconstruction of the objects

`State` is the observer's side of `Objects`.  Two relations connect them, record by record:

* `Describes`: the state tells everything about the objects, and nothing else.  It holds for
  the events of the objects in every order and multiplicity (`replay_describes`).
* `AgreesWith`: whatever the state tells is right.  It holds for any part of the events
  (`agreesWith_replay`).
-/

namespace Landlock

open ObjectStore

/-! ## Lookups after an event -/

namespace State

/-- An event is to the record of a ruleset what it tells of the ruleset. -/
private theorem lookup_rulesets_apply (s : State) (e : Event) (id : RulesetId) :
    (s.apply e).rulesets.lookup id =
      observe RulesetState.blank RulesetState.Part.apply (fun id => e.partOf id)
        (fun id => s.rulesets.lookup id) id := by
  rw [apply_eq_effects, observe]
  cases hpart : e.partOf id with
  | none =>
    refine Finmap.lookup_updateEntries_of_notMem _ _ _ fun u hu hid => ?_
    have hsome := (exists_rulesetEffects_iff e id).mp ⟨u, hu, hid⟩
    simp [hpart] at hsome
  | some p =>
    have hmem := (exists_rulesetEffects_iff e id).mpr (by rw [hpart]; rfl)
    rw [Finmap.lookup_updateEntries_of_mem _ _ _ hmem, updatesAt_rulesetEffects, hpart]
    rfl

/-- A domain that an event names has a record afterwards. -/
private theorem lookup_domains_apply_of_names (s : State) {e : Event} {id : DomainId}
    (h : e.NamesDomain id) :
    (s.apply e).domains.lookup id =
      some ((e.observationOf id).elim ((s.domains.lookup id).getD (DomainState.blank id))
        fun ob => ob.update ((s.domains.lookup id).getD (DomainState.blank id))) := by
  rw [apply_eq_effects,
    Finmap.lookup_updateEntries_of_mem _ _ _ ((exists_domainEffects_iff e id).mpr h),
    updatesAt_domainEffects]

/-- The record of another domain stays. -/
private theorem lookup_domains_apply_of_not_names (s : State) {e : Event} {id : DomainId}
    (h : ¬ e.NamesDomain id) : (s.apply e).domains.lookup id = s.domains.lookup id := by
  rw [apply_eq_effects]
  exact Finmap.lookup_updateEntries_of_notMem _ _ _ fun u hu hid =>
    h ((exists_domainEffects_iff e id).mp ⟨u, hu, hid⟩)

end State

/-! ## Updates of single facts -/

/-- A maximum is the candidate or was there. -/
private theorem mem_updateMax {current : Option UInt64} {candidate x : UInt64}
    (h : x ∈ updateMax current candidate) : x = candidate ∨ x ∈ current := by
  rw [updateMax] at h
  split at h
  · exact .inl (Option.mem_some_iff.mp h).symm
  · exact .inr h

/-- So it is with a latest timestamp. -/
private theorem mem_updateLatestTimestamp {current : Option KernelTimestamp}
    {candidate x : KernelTimestamp} (h : x ∈ updateLatestTimestamp current candidate) :
    x = candidate ∨ x ∈ current := by
  rw [updateLatestTimestamp] at h
  split at h
  · exact .inl (Option.mem_some_iff.mp h).symm
  · exact .inr h

/-- A count that has grown replaces the one before. -/
private theorem updateMax_some {current candidate : UInt64} (h : current ≤ candidate) :
    updateMax (some current) candidate = some candidate := by
  simp [updateMax, h]

/-- Two parts of a mask together are a part of it. -/
theorem MaskLe.or {K : AccessKind} {a b c : AccessMask K} (ha : MaskLe a c) (hb : MaskLe b c) :
    MaskLe ⟨a.bits ||| b.bits⟩ c := by
  unfold MaskLe at *
  rw [UInt64.or_assoc, hb, ha]

/-! ## Records of rulesets -/

/-- The record that tells everything about a rule: its rights and its latest name. -/
def FilesystemRule.record (target : UInt32 × UInt64) (rule : FilesystemRule) :
    FilesystemRuleState where
  device := target.1
  inode := target.2
  accessRights := rule.access
  pathname := rule.names.latest.2
  pathnameTimestamp := rule.names.latest.1

namespace RulesetObject

/-- The record tells everything about the ruleset. -/
structure DescribedBy (id : RulesetId) (r : RulesetObject) (t : RulesetState) : Prop where
  id : t.id = id
  lifecycle : t.lifecycle = r.freedAt.elim .allocated fun _ => .deallocated
  creationTimestamp : t.creationTimestamp = some r.createdAt
  handledFs : t.handledFs = some r.handledFs
  handledNet : t.handledNet = some r.handledNet
  scopedAccess : t.scopedAccess = some r.scopedAccess
  maxObservedVersion : t.maxObservedVersion = r.version
  finalVersion : t.finalVersion = r.freedAt.map fun _ => r.version
  freeTimestamp : t.freeTimestamp = r.freedAt
  filesystemRules : ∀ target,
    t.filesystemRules.lookup target = (r.filesystem target).map (FilesystemRule.record target)
  networkRules : ∀ port,
    t.networkRules.lookup port = (r.network port).map (NetworkRuleState.mk port)

/-- A creation tells everything about a ruleset that is new. -/
theorem describedBy_created {id : RulesetId} {p : RulesetState.Part} {r : RulesetObject}
    (h : Becomes none p r) : r.DescribedBy id (p.apply (RulesetState.blank id)) := by
  cases h with
  | created event =>
    refine ⟨rfl, rfl, rfl, rfl, rfl, rfl, ?_, rfl, rfl, fun _ => rfl, fun _ => rfl⟩
    exact max_eq_right UInt64.zero_le

/-- Merging a rule into its record is adding the rights to those of the rule before it, under
    the new name. -/
private theorem mergeFilesystemRule_record {earlier : Option FilesystemRule}
    {event : AddRulePathBeneathEvent}
    (hnamed : ∀ names ∈ earlier.map (·.names),
      nameTime names.latest < timestampValue event.timestamp) :
    RulesetState.mergeFilesystemRule event
        (earlier.map (FilesystemRule.record (event.device, event.inode))) =
      (addRule earlier event hnamed).record (event.device, event.inode) := by
  cases earlier with
  | none => rfl
  | some rule =>
    -- The newer name wins in the record
    have hlater : nameTime rule.names.latest ≤ timestampValue event.timestamp :=
      (hnamed rule.names rfl).le
    exact if_pos hlater

/-- Merging a rule into its record is adding the rights to those of the rule before it. -/
private theorem mergeNetworkRule_mk (earlier : Option NetworkAccess) (event : AddRuleNetPortEvent) :
    RulesetState.mergeNetworkRule event (earlier.map (NetworkRuleState.mk event.port)) =
      ⟨event.port, added earlier event.accessRights⟩ := by
  cases earlier <;> rfl

/-- The record follows the ruleset. -/
theorem DescribedBy.step {id : RulesetId} {r r' : RulesetObject} {p : RulesetState.Part}
    {t : RulesetState} (hbecomes : Becomes (some r) p r') (h : r.DescribedBy id t) :
    r'.DescribedBy id (p.apply t) := by
  have hversion : ∀ version, r.version ≤ version →
      max t.maxObservedVersion version = version := fun version hle => by
    rw [h.maxObservedVersion]
    exact max_eq_right hle
  -- What a ruleset can become, event by event
  cases hbecomes with
  | filesystemRule hlive hle hnamed =>
    refine { h with
      maxObservedVersion := hversion _ hle, finalVersion := ?_, filesystemRules := ?_ }
    · show t.finalVersion = _
      rw [h.finalVersion, hlive]
      rfl
    · -- one target changes, on both sides by the same event
      exact Finmap.lookup_upsert_of_view h.filesystemRules _ (mergeFilesystemRule_record hnamed)
  | @networkRule _ event hlive hle =>
    refine { h with maxObservedVersion := hversion _ hle, finalVersion := ?_, networkRules := ?_ }
    · show t.finalVersion = _
      rw [h.finalVersion, hlive]
      rfl
    · exact Finmap.lookup_upsert_of_view h.networkRules _ (mergeNetworkRule_mk _ event)
  | referenced hle =>
    -- The ruleset may have grown since the domain took its version
    refine { h with maxObservedVersion := ?_ }
    show max t.maxObservedVersion _ = _
    rw [h.maxObservedVersion]
    exact max_eq_left hle
  | @freed _ event hlive hle =>
    refine { h with
      lifecycle := rfl
      maxObservedVersion := hversion _ hle
      finalVersion := ?_
      freeTimestamp := ?_ }
    · show updateMax t.finalVersion event.rulesetVersion = _
      rw [h.finalVersion, hlive]
      rfl
    · show updateLatestTimestamp t.freeTimestamp event.timestamp = _
      rw [h.freeTimestamp, hlive]
      rfl

/-- What the record tells about the ruleset is right: it may be less than there is to tell, and
    the name of a rule may be one that it once had. -/
structure AgreesWith (id : RulesetId) (r : RulesetObject) (t : RulesetState) : Prop where
  id : t.id = id
  lifecycle : t.lifecycle = .deallocated → r.freedAt ≠ none
  creationTimestamp : ∀ x ∈ t.creationTimestamp, x = r.createdAt
  handledFs : ∀ x ∈ t.handledFs, x = r.handledFs
  handledNet : ∀ x ∈ t.handledNet, x = r.handledNet
  scopedAccess : ∀ x ∈ t.scopedAccess, x = r.scopedAccess
  maxObservedVersion : t.maxObservedVersion ≤ r.version
  finalVersion : ∀ x ∈ t.finalVersion, r.freedAt ≠ none ∧ x = r.version
  freeTimestamp : ∀ x ∈ t.freeTimestamp, r.freedAt = some x
  filesystemRules : ∀ target state, t.filesystemRules.lookup target = some state →
    (state.device, state.inode) = target ∧ ∃ rule, r.filesystem target = some rule ∧
      MaskLe state.accessRights rule.access ∧
      (state.pathnameTimestamp, state.pathname) ∈ rule.names.entries
  networkRules : ∀ port state, t.networkRules.lookup port = some state →
    state.port = port ∧ ∃ access, r.network port = some access ∧
      MaskLe state.accessRights access

/-- A blank record tells nothing. -/
theorem agreesWith_blank (id : RulesetId) (r : RulesetObject) :
    r.AgreesWith id (RulesetState.blank id) where
  id := rfl
  lifecycle := fun h => by cases h
  creationTimestamp := fun _ h => by cases h
  handledFs := fun _ h => by cases h
  handledNet := fun _ h => by cases h
  scopedAccess := fun _ h => by cases h
  maxObservedVersion := UInt64.zero_le
  finalVersion := fun _ h => by cases h
  freeTimestamp := fun _ h => by cases h
  filesystemRules := fun _ _ h => by cases h
  networkRules := fun _ _ h => by cases h

/-- A version that the ruleset has had keeps the record right. -/
theorem AgreesWith.updateVersion {id : RulesetId} {r : RulesetObject} {t : RulesetState}
    (h : r.AgreesWith id t) {version : UInt64} (hle : version ≤ r.version) :
    r.AgreesWith id (t.updateVersion version) :=
  { h with maxObservedVersion := max_le h.maxObservedVersion hle }

/-- An event that is right keeps the record right. -/
theorem AgreesWith.update {id : RulesetId} {r : RulesetObject} {p : RulesetState.Part}
    {t : RulesetState} (hconfirms : r.Confirms p) (h : r.AgreesWith id t) :
    r.AgreesWith id (p.update t) := by
  cases p with
  | created event =>
    obtain ⟨hcreated, hfs, hnet, hscope, -⟩ := hconfirms
    show r.AgreesWith id (RulesetState.creation event t)
    rw [RulesetState.creation, Register.latest]
    -- An older creation than the recorded one is ignored
    split
    · exact { h with
        creationTimestamp := fun x hx => (Option.mem_some_iff.mp hx).symm.trans hcreated.symm
        handledFs := fun x hx => (Option.mem_some_iff.mp hx).symm.trans hfs.symm
        handledNet := fun x hx => (Option.mem_some_iff.mp hx).symm.trans hnet.symm
        scopedAccess := fun x hx => (Option.mem_some_iff.mp hx).symm.trans hscope.symm }
    · exact h
  | filesystemRule event =>
    obtain ⟨-, rule, hrule, haccess, hnamed⟩ := hconfirms
    refine { h with filesystemRules := Finmap.forall_lookup_upsert h.filesystemRules _ ?_ ?_ }
    · exact ⟨rfl, rule, hrule, haccess, hnamed⟩
    · rintro state ⟨htarget, rule', hrule', haccess', hnamed'⟩
      rw [hrule] at hrule'
      cases hrule'
      -- Whichever name is kept, the rule has had it
      simp only [RulesetState.mergeFilesystemRule]
      split
      · exact ⟨htarget, rule, hrule, haccess'.or haccess, hnamed⟩
      · exact ⟨htarget, rule, hrule, haccess'.or haccess, hnamed'⟩
  | networkRule event =>
    obtain ⟨-, access, haccess, hle⟩ := hconfirms
    refine { h with networkRules := Finmap.forall_lookup_upsert h.networkRules _ ?_ ?_ }
    · exact ⟨rfl, access, haccess, hle⟩
    · rintro state ⟨hport, access', haccess', hle'⟩
      rw [haccess] at haccess'
      cases haccess'
      exact ⟨hport, access, haccess, hle'.or hle⟩
  | referenced event => exact h
  | freed event =>
    obtain ⟨hfreed, hversion⟩ := hconfirms
    have hgone : r.freedAt ≠ none := by
      rw [hfreed]
      exact Option.some_ne_none _
    refine { h with
      lifecycle := fun _ => hgone
      finalVersion := fun x hx => ?_
      freeTimestamp := fun x hx => ?_ }
    · rcases mem_updateMax hx with rfl | hx
      · exact ⟨hgone, hversion.symm⟩
      · exact h.finalVersion x hx
    · rcases mem_updateLatestTimestamp hx with rfl | hx
      · exact hfreed
      · exact h.freeTimestamp x hx

/-- A right event has a version that the ruleset has had. -/
private theorem Confirms.version_le {r : RulesetObject} {p : RulesetState.Part} (h : r.Confirms p) :
    p.version ≤ r.version := by
  cases p with
  | created event => exact h.2.2.2.2
  | filesystemRule event => exact h.1
  | networkRule event => exact h.1
  | referenced event => exact h
  | freed event => exact h.2.ge

/-- An event that is right keeps the record right, its version included. -/
theorem AgreesWith.apply {id : RulesetId} {r : RulesetObject} {p : RulesetState.Part}
    {t : RulesetState} (hconfirms : r.Confirms p) (h : r.AgreesWith id t) :
    r.AgreesWith id (p.apply t) :=
  (h.updateVersion hconfirms.version_le).update hconfirms

end RulesetObject

/-! ## Records of domains -/

namespace DomainObject

/-- The record tells everything about the domain. -/
structure DescribedBy (id : DomainId) (d : DomainObject) (t : DomainState) : Prop where
  id : t.id = id
  lifecycle : t.lifecycle = d.freedAt.elim .allocated fun _ => .deallocated
  creationTimestamp : t.creationTimestamp = some d.createdAt
  parent : t.parent = some (DomainParent.ofId d.parent)
  creatorTgid : t.creatorTgid = some d.creatorTgid
  creatorComm : t.creatorComm = some d.creatorComm
  ruleset : t.ruleset = some d.ruleset
  cumulativeDenialCount : t.cumulativeDenialCount = some d.denials
  finalDenialCount : t.finalDenialCount = d.freedAt.map fun _ => d.denials
  freeTimestamp : t.freeTimestamp = d.freedAt
  enforcementEvents : ∀ thread,
    t.enforcementEvents.lookup thread = (d.enforced thread).map (·.latest)
  anyProcessWideEnforcement : t.anyProcessWideEnforcement = d.processWide

/-- A creation tells everything about a domain that is new. -/
theorem describedBy_created {id : DomainId} {ob : DomainObservation} {d : DomainObject}
    (h : Becomes none ob d) : d.DescribedBy id (ob.update (DomainState.blank id)) := by
  cases h with
  | created event =>
    exact ⟨rfl, rfl, rfl, rfl, rfl, rfl, rfl, rfl, rfl, rfl, fun _ => rfl, rfl⟩

/-- The latest enforcement wins in the record. -/
private theorem mergeEnforcement_latest {earlier : Option (Timeline enforcementTime)}
    {event : EnforceDomainEvent}
    (hlater : ∀ events ∈ earlier, enforcementTime events.latest < enforcementTime event) :
    DomainState.mergeEnforcement event (earlier.map (·.latest)) =
      (Timeline.extend earlier event hlater).latest := by
  cases earlier with
  | none => rfl
  | some events => exact if_pos (hlater events rfl).le

/-- The record follows the domain. -/
theorem DescribedBy.step {id : DomainId} {d d' : DomainObject} {ob : DomainObservation}
    {t : DomainState} (hbecomes : Becomes (some d) ob d') (h : d.DescribedBy id t) :
    d'.DescribedBy id (ob.update t) := by
  cases hbecomes with
  | @denied _ context hlive hparent htgid hcomm hcount =>
    show DescribedBy id _ (DomainState.applyDenial context t)
    rw [DomainState.applyDenial_eq]
    -- The provenance is known, so that the denial only raises the count
    refine { h with
      parent := ?_
      creatorTgid := ?_
      creatorComm := ?_
      cumulativeDenialCount := ?_
      finalDenialCount := ?_ }
    · show (t.parent <|> _) = _
      rw [h.parent]
      rfl
    · show (if t.creatorTgid.isNone && t.creatorComm.isNone then _ else t.creatorTgid) = _
      rw [h.creatorTgid]
      rfl
    · show (if t.creatorTgid.isNone && t.creatorComm.isNone then _ else t.creatorComm) = _
      rw [h.creatorTgid, h.creatorComm]
      rfl
    · show updateMax t.cumulativeDenialCount context.cumulativeDenialCount = _
      rw [h.cumulativeDenialCount]
      exact updateMax_some hcount
    · show t.finalDenialCount = _
      rw [h.finalDenialCount, hlive]
      rfl
  | @enforced _ event hlive hlater =>
    show DescribedBy id _ (DomainState.applyEnforceDomain event t)
    rw [DomainState.applyEnforceDomain_eq]
    refine { h with enforcementEvents := ?_, anyProcessWideEnforcement := ?_ }
    · intro thread
      exact Finmap.lookup_upsert_of_view h.enforcementEvents _ (mergeEnforcement_latest hlater)
        thread
    · show (t.anyProcessWideEnforcement || event.processWide) = _
      rw [h.anyProcessWideEnforcement]
  | @freed _ event hlive hcount =>
    refine { h with
      lifecycle := rfl
      cumulativeDenialCount := ?_
      finalDenialCount := ?_
      freeTimestamp := ?_ }
    · show updateMax t.cumulativeDenialCount event.denialCount = _
      rw [h.cumulativeDenialCount]
      exact updateMax_some hcount
    · show updateMax t.finalDenialCount event.denialCount = _
      rw [h.finalDenialCount, hlive]
      rfl
    · show updateLatestTimestamp t.freeTimestamp event.timestamp = _
      rw [h.freeTimestamp, hlive]
      rfl

/-- What the record tells about the domain is right: it may be less than there is to tell, and
    the enforcement of a thread may be one that was followed by others. -/
structure AgreesWith (id : DomainId) (d : DomainObject) (t : DomainState) : Prop where
  id : t.id = id
  lifecycle : t.lifecycle = .deallocated → d.freedAt ≠ none
  creationTimestamp : ∀ x ∈ t.creationTimestamp, x = d.createdAt
  parent : ∀ x ∈ t.parent, x = DomainParent.ofId d.parent
  creatorTgid : ∀ x ∈ t.creatorTgid, x = d.creatorTgid
  creatorComm : ∀ x ∈ t.creatorComm, x = d.creatorComm
  ruleset : ∀ x ∈ t.ruleset, x = d.ruleset
  cumulativeDenialCount : ∀ x ∈ t.cumulativeDenialCount, x ≤ d.denials
  finalDenialCount : ∀ x ∈ t.finalDenialCount, d.freedAt ≠ none ∧ x = d.denials
  freeTimestamp : ∀ x ∈ t.freeTimestamp, d.freedAt = some x
  enforcementEvents : ∀ thread event, t.enforcementEvents.lookup thread = some event →
    ∃ events, d.enforced thread = some events ∧ event ∈ events.entries
  anyProcessWideEnforcement : t.anyProcessWideEnforcement = true → d.processWide = true

/-- A blank record, which is also a placeholder, tells nothing. -/
theorem agreesWith_blank (id : DomainId) (d : DomainObject) :
    d.AgreesWith id (DomainState.blank id) where
  id := rfl
  lifecycle := fun h => by cases h
  creationTimestamp := fun _ h => by cases h
  parent := fun _ h => by cases h
  creatorTgid := fun _ h => by cases h
  creatorComm := fun _ h => by cases h
  ruleset := fun _ h => by cases h
  cumulativeDenialCount := fun _ h => by cases h
  finalDenialCount := fun _ h => by cases h
  freeTimestamp := fun _ h => by cases h
  enforcementEvents := fun _ _ h => by cases h
  anyProcessWideEnforcement := fun h => by cases h

/-- A count that the domain has had keeps the record right. -/
theorem AgreesWith.raiseCount {id : DomainId} {d : DomainObject} {t : DomainState}
    (h : d.AgreesWith id t) {count : UInt64} (hle : count ≤ d.denials) :
    d.AgreesWith id (t.raiseCount count) :=
  { h with
    cumulativeDenialCount := fun x hx => by
      rcases mem_updateMax hx with rfl | hx
      · exact hle
      · exact h.cumulativeDenialCount x hx }

/-- An event that is right keeps the record right. -/
theorem AgreesWith.update {id : DomainId} {d : DomainObject} {ob : DomainObservation}
    {t : DomainState} (hconfirms : d.Confirms ob) (h : d.AgreesWith id t) :
    d.AgreesWith id (ob.update t) := by
  cases ob with
  | created event =>
    obtain ⟨hcreated, hparent, htgid, hcomm, hruleset⟩ := hconfirms
    show d.AgreesWith id (DomainState.applyCreateDomain event t)
    rw [DomainState.applyCreateDomain_eq, Function.comp_apply, DomainState.creation,
      Register.latest]
    -- A creation also says that there were no denials yet
    have hcount : d.AgreesWith id (t.raiseCount 0) := h.raiseCount UInt64.zero_le
    split
    · exact { hcount with
        creationTimestamp := fun x hx => (Option.mem_some_iff.mp hx).symm.trans hcreated.symm
        parent := fun x hx => by rw [← Option.mem_some_iff.mp hx, hparent]
        creatorTgid := fun x hx => (Option.mem_some_iff.mp hx).symm.trans htgid.symm
        creatorComm := fun x hx => (Option.mem_some_iff.mp hx).symm.trans hcomm.symm
        ruleset := fun x hx => (Option.mem_some_iff.mp hx).symm.trans hruleset.symm }
    · exact hcount
  | denied context =>
    obtain ⟨hparent, htgid, hcomm, hle⟩ := hconfirms
    show d.AgreesWith id (DomainState.applyDenial context t)
    rw [DomainState.applyDenial_eq]
    -- The provenance fills what is unknown, and changes nothing that is known
    refine { h.raiseCount hle with parent := ?_, creatorTgid := ?_, creatorComm := ?_ }
    · intro x hx
      change x ∈ (t.parent <|> some (DomainParent.ofId context.hierarchy.parentId)) at hx
      cases hknown : t.parent with
      | none =>
        rw [hknown] at hx
        rw [← Option.mem_some_iff.mp hx, hparent]
      | some parent =>
        rw [hknown] at hx
        exact h.parent x (hknown ▸ hx)
    · intro x hx
      change x ∈ (if t.creatorTgid.isNone && t.creatorComm.isNone then
        some context.hierarchy.creatorTgid else t.creatorTgid) at hx
      split at hx
      · exact (Option.mem_some_iff.mp hx).symm.trans htgid.symm
      · exact h.creatorTgid x hx
    · intro x hx
      change x ∈ (if t.creatorTgid.isNone && t.creatorComm.isNone then
        some context.hierarchy.creatorComm else t.creatorComm) at hx
      split at hx
      · exact (Option.mem_some_iff.mp hx).symm.trans hcomm.symm
      · exact h.creatorComm x hx
  | enforced event =>
    obtain ⟨⟨events, hevents, hmem⟩, hwide⟩ := hconfirms
    show d.AgreesWith id (DomainState.applyEnforceDomain event t)
    rw [DomainState.applyEnforceDomain_eq]
    refine { h with
      enforcementEvents := Finmap.forall_lookup_upsert h.enforcementEvents _ ?_ ?_
      anyProcessWideEnforcement := fun hany => ?_ }
    · exact ⟨events, hevents, hmem⟩
    · rintro current ⟨events', hevents', hmem'⟩
      simp only [DomainState.mergeEnforcement]
      -- Whichever event is kept, it has happened
      split
      · exact ⟨events, hevents, hmem⟩
      · exact ⟨events', hevents', hmem'⟩
    · rcases Bool.or_eq_true_iff.mp hany with hany | hany
      · exact h.anyProcessWideEnforcement hany
      · exact hwide hany
  | freed event =>
    obtain ⟨hfreed, hcount⟩ := hconfirms
    have hgone : d.freedAt ≠ none := by
      rw [hfreed]
      exact Option.some_ne_none _
    show d.AgreesWith id (DomainState.applyFreeDomain event t)
    rw [DomainState.applyFreeDomain_eq]
    refine { h.raiseCount hcount.ge with
      lifecycle := fun _ => hgone
      finalDenialCount := fun x hx => ?_
      freeTimestamp := fun x hx => ?_ }
    · rcases mem_updateMax hx with rfl | hx
      · exact ⟨hgone, hcount.symm⟩
      · exact h.finalDenialCount x hx
    · rcases mem_updateLatestTimestamp hx with rfl | hx
      · exact hfreed
      · exact h.freeTimestamp x hx

end DomainObject

/-! ## The whole state -/

namespace State

/-- The state has a record of every object and of nothing else, and each record tells
    everything about its object. -/
structure Describes (s : State) (o : Objects) : Prop where
  rulesets : ∀ id,
    Option.Rel (RulesetObject.DescribedBy id) (o.rulesets id) (s.rulesets.lookup id)
  domains : ∀ id, Option.Rel (DomainObject.DescribedBy id) (o.domains id) (s.domains.lookup id)

/-- The state has records of objects only, and what they tell is right. -/
structure AgreesWith (s : State) (o : Objects) : Prop where
  rulesets : ∀ id t, s.rulesets.lookup id = some t →
    ∃ r, o.rulesets id = some r ∧ r.AgreesWith id t
  domains : ∀ id t, s.domains.lookup id = some t →
    ∃ d, o.domains id = some d ∧ d.AgreesWith id t

/-- `apply` follows the objects. -/
theorem Describes.apply {s : State} {o o' : Objects} {e : Event} (hstep : o.Step e o')
    (h : s.Describes o) : (s.apply e).Describes o' where
  rulesets := fun id => by
    rw [lookup_rulesets_apply]
    exact hstep.rulesets.describes (fun _ _ _ => RulesetObject.describedBy_created)
      (fun _ _ _ _ _ => RulesetObject.DescribedBy.step) h.rulesets id
  domains := fun id => by
    -- An event also names the relatives of a domain, of which it tells nothing
    have hobserve : (s.apply e).domains.lookup id =
        observe DomainState.blank DomainObservation.update (fun id => e.observationOf id)
          (fun id => s.domains.lookup id) id := by
      rw [observe]
      by_cases hnames : e.NamesDomain id
      · rw [lookup_domains_apply_of_names s hnames]
        cases hob : e.observationOf id with
        | some ob => rfl
        | none =>
          -- A related domain exists, so that its record is not a new placeholder
          have hknown := (hstep.named id hnames).resolve_right (by simp [hob])
          obtain ⟨d, hd⟩ := Option.isSome_iff_exists.mp hknown
          have hrecord := h.domains id
          rw [hd] at hrecord
          revert hrecord
          generalize s.domains.lookup id = record
          intro hrecord
          cases hrecord with
          | some hdescribed => rfl
      · rw [lookup_domains_apply_of_not_names s hnames]
        cases hob : e.observationOf id with
        | none => rfl
        | some ob => exact absurd (Event.names_of_observationOf hob) hnames
    rw [hobserve]
    exact hstep.domains.describes (fun _ _ _ => DomainObject.describedBy_created)
      (fun _ _ _ _ _ => DomainObject.DescribedBy.step) h.domains id

/-- What happened describes what there is. -/
theorem describes_of_after {happened : List Event} {o : Objects}
    (h : Objects.After happened o) : (replay happened).Describes o := by
  induction h with
  | initial => exact ⟨fun _ => .none, fun _ => .none⟩
  | step h hstep ih =>
    rw [replay_concat]
    exact ih.apply hstep

/-- An event that is right keeps the state right, whatever order it comes in. -/
theorem AgreesWith.apply {s : State} {o : Objects} {e : Event} (hconfirms : o.Confirms e)
    (h : s.AgreesWith o) : (s.apply e).AgreesWith o where
  rulesets := fun id t ht => by
    rw [lookup_rulesets_apply, observe] at ht
    cases hpart : e.partOf id with
    | none =>
      rw [hpart] at ht
      exact h.rulesets id t ht
    | some p =>
      rw [hpart] at ht
      cases ht
      obtain ⟨r, hr, hright⟩ := hconfirms.rulesets id p hpart
      refine ⟨r, hr, .apply hright ?_⟩
      cases hlookup : s.rulesets.lookup id with
      | none => exact RulesetObject.agreesWith_blank id r
      | some t =>
        -- The record and the event are about the same object
        obtain ⟨r', hr', hagrees⟩ := h.rulesets id t hlookup
        rw [hr] at hr'
        cases hr'
        exact hagrees
  domains := fun id t ht => by
    by_cases hnames : e.NamesDomain id
    · rw [lookup_domains_apply_of_names s hnames] at ht
      cases ht
      obtain ⟨d, hd⟩ := hconfirms.named id hnames
      have hbase : d.AgreesWith id ((s.domains.lookup id).getD (DomainState.blank id)) := by
        cases hlookup : s.domains.lookup id with
        | none => exact DomainObject.agreesWith_blank id d
        | some t =>
          obtain ⟨d', hd', hagrees⟩ := h.domains id t hlookup
          rw [hd] at hd'
          cases hd'
          exact hagrees
      refine ⟨d, hd, ?_⟩
      cases hob : e.observationOf id with
      -- A domain that is only named gets a placeholder at most
      | none => exact hbase
      | some ob =>
        obtain ⟨d', hd', hright⟩ := hconfirms.domains id ob hob
        rw [hd] at hd'
        cases hd'
        exact hbase.update hright
    · rw [lookup_domains_apply_of_not_names s hnames] at ht
      exact h.domains id t ht

/-- Any part of the events, in any order, gives a state that is right about the objects. -/
theorem agreesWith_replay {events : List Event} {o : Objects}
    (h : ∀ e ∈ events, o.Confirms e) : (replay events).AgreesWith o := by
  induction events using List.reverseRecOn with
  | nil => exact ⟨fun _ _ h => (by cases h), fun _ _ h => (by cases h)⟩
  | append_singleton events e ih =>
    rw [replay_concat]
    exact (ih fun a ha => h a (List.mem_append_left _ ha)).apply (h e (by simp))

/-- The state is the objects.  When all that happened to them has been applied, in any order
    and each event any number of times, every ruleset and domain that has ever existed has
    its record, there are no other records, and each record tells the rules, versions,
    provenance, counts, enforcements and lifetimes of its object as they are. -/
theorem replay_describes {happened events : List Event} {o : Objects}
    (hafter : Objects.After happened o) (hsame : ∀ e, e ∈ events ↔ e ∈ happened) :
    (replay events).Describes o := by
  -- Real events do not contradict each other, so that their order does not matter
  have hreplay : replay events = replay happened := by
    refine List.foldl_eq_of_mem_iff hsame (fun a ha b hb s => ?_) (fun a _ s => apply_idem s a) new
    exact apply_comm hafter.coherent ((hsame a).mp ha) ((hsame b).mp hb) s
  rw [hreplay]
  exact describes_of_after hafter

end State

/-! ## A lifetime -/

/-- The path `/a`. -/
def firstName : KernelString := ⟨[47, 97], by decide⟩

/-- The path `/b`. -/
def secondName : KernelString := ⟨[47, 98], by decide⟩

/-- A ruleset from its creation to its end.  One directory gets rights twice, under two names,
    and a port gets some; a domain is made from the ruleset, enforced by a thread, denies an
    access and ends. -/
def lifetime : List Event :=
  [.createRuleset ⟨⟨10⟩, default, 0, ⟨12⟩, ⟨2⟩, ⟨0⟩⟩,
   .addRulePathBeneath ⟨⟨11⟩, default, 1, ⟨4⟩, 8, 2, .ofPath firstName.val firstName.property⟩,
   .addRulePathBeneath ⟨⟨12⟩, default, 2, ⟨8⟩, 8, 2, .ofPath secondName.val secondName.property⟩,
   .addRuleNetPort ⟨⟨13⟩, default, 3, ⟨2⟩, 443⟩,
   .createDomain ⟨⟨14⟩, default, 3, default, none, default, commandOf []⟩,
   .enforceDomain ⟨⟨15⟩, default, default, true, true, true⟩,
   .denyAccessFs ⟨⟨16⟩, ⟨⟨default, none, default, commandOf []⟩, 1, false, true⟩, ⟨1⟩, ⟨4⟩, 8, 3,
     .ofPath firstName.val firstName.property⟩,
   .freeDomain ⟨⟨17⟩, default, 1⟩,
   .freeRuleset ⟨⟨18⟩, default, 3⟩]

/-- This can happen. -/
theorem after_lifetime : ∃ o, Objects.After lifetime o := by
  have hsome : (lifetime.foldlM Objects.next .initial).isSome = true := by decide +kernel
  obtain ⟨o, ho⟩ := Option.isSome_iff_exists.mp hsome
  exact ⟨o, .of_foldlM .initial ho⟩

/-- The events are applied in the wrong order, and some of them twice. -/
theorem State.replay_describes_lifetime :
    ∃ o, Objects.After lifetime o ∧
      (State.replay (lifetime.reverse ++ lifetime.take 5)).Describes o := by
  obtain ⟨o, hafter⟩ := after_lifetime
  refine ⟨o, hafter, State.replay_describes hafter fun e => ?_⟩
  rw [List.mem_append, List.mem_reverse]
  exact ⟨fun h => h.elim id List.mem_of_mem_take, .inl⟩

end Landlock
