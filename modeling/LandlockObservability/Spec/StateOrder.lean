import LandlockObservability.Spec.StateConvergence

/-!
# The information order on reconstructed state

`State.Le s t` says that `t` knows at least what `s` knows: nothing retained has
disappeared, nothing known has become unknown, counters, versions and timestamps
have not gone back and masks have not lost a bit.  `State.apply` only goes up in
this order, from every state.
-/

namespace Landlock

/-! ## The order -/

/-- A known value stays known and does not decrease. -/
def KnownLe {α : Type} (value : α → UInt64) (a b : Option α) : Prop :=
  ∀ x, a = some x → ∃ y, b = some y ∧ value x ≤ value y

/-- A known value stays known. -/
def StaysKnown {α : Type} (a b : Option α) : Prop := a.isSome → b.isSome

/-- A mask only gains bits. -/
def MaskLe {K : AccessKind} (a b : AccessMask K) : Prop := a.bits ||| b.bits = b.bits

structure FilesystemRuleState.Le (a b : FilesystemRuleState) : Prop where
  accessRights : MaskLe a.accessRights b.accessRights
  pathnameTimestamp : timestampValue a.pathnameTimestamp ≤ timestampValue b.pathnameTimestamp

structure NetworkRuleState.Le (a b : NetworkRuleState) : Prop where
  accessRights : MaskLe a.accessRights b.accessRights

/-- A later enforcement observation of the same thread. -/
def EnforceDomainEvent.Le (a b : EnforceDomainEvent) : Prop :=
  timestampValue a.timestamp ≤ timestampValue b.timestamp

structure RulesetState.Le (a b : RulesetState) : Prop where
  lifecycle : a.lifecycle = .deallocated → b.lifecycle = .deallocated
  creationTimestamp : KnownLe timestampValue a.creationTimestamp b.creationTimestamp
  handledFs : StaysKnown a.handledFs b.handledFs
  handledNet : StaysKnown a.handledNet b.handledNet
  scopedAccess : StaysKnown a.scopedAccess b.scopedAccess
  maxObservedVersion : a.maxObservedVersion ≤ b.maxObservedVersion
  finalVersion : KnownLe (fun n => n) a.finalVersion b.finalVersion
  freeTimestamp : KnownLe timestampValue a.freeTimestamp b.freeTimestamp
  filesystemRules :
    Finmap.Grows FilesystemRuleState.Le a.filesystemRules b.filesystemRules
  networkRules : Finmap.Grows NetworkRuleState.Le a.networkRules b.networkRules

structure DomainState.Le (a b : DomainState) : Prop where
  lifecycle : a.lifecycle = .deallocated → b.lifecycle = .deallocated
  creationTimestamp : KnownLe timestampValue a.creationTimestamp b.creationTimestamp
  parent : StaysKnown a.parent b.parent
  creatorTgid : StaysKnown a.creatorTgid b.creatorTgid
  creatorComm : StaysKnown a.creatorComm b.creatorComm
  ruleset : StaysKnown a.ruleset b.ruleset
  cumulativeDenialCount : KnownLe (fun n => n) a.cumulativeDenialCount b.cumulativeDenialCount
  finalDenialCount : KnownLe (fun n => n) a.finalDenialCount b.finalDenialCount
  freeTimestamp : KnownLe timestampValue a.freeTimestamp b.freeTimestamp
  enforcementEvents :
    Finmap.Grows EnforceDomainEvent.Le a.enforcementEvents b.enforcementEvents
  anyProcessWideEnforcement :
    a.anyProcessWideEnforcement = true → b.anyProcessWideEnforcement = true

/-- `t` knows at least what `s` knows. -/
structure State.Le (s t : State) : Prop where
  rulesets : Finmap.Grows RulesetState.Le s.rulesets t.rulesets
  domains : Finmap.Grows DomainState.Le s.domains t.domains

/-! ## Reflexivity and transitivity -/

section

variable {α : Type} {value : α → UInt64} {a b c : Option α}

/-- Nothing is lost when nothing changes. -/
theorem KnownLe.refl (value : α → UInt64) (a : Option α) : KnownLe value a a :=
  fun x h => ⟨x, h, UInt64.le_refl _⟩

/-- What stays known twice stays known. -/
theorem KnownLe.trans (hab : KnownLe value a b) (hbc : KnownLe value b c) :
    KnownLe value a c := by
  intro x hx
  obtain ⟨y, hy, hxy⟩ := hab x hx
  obtain ⟨z, hz, hyz⟩ := hbc y hy
  exact ⟨z, hz, UInt64.le_trans hxy hyz⟩

/-- Nothing is forgotten when nothing changes. -/
theorem StaysKnown.refl (a : Option α) : StaysKnown a a := fun h => h

/-- What is not forgotten twice is not forgotten. -/
theorem StaysKnown.trans (hab : StaysKnown a b) (hbc : StaysKnown b c) : StaysKnown a c :=
  fun h => hbc (hab h)

end

/-- A mask is part of itself. -/
theorem MaskLe.refl {K : AccessKind} (a : AccessMask K) : MaskLe a a := UInt64.or_self

/-- Bits that stay set twice stay set. -/
theorem MaskLe.trans {K : AccessKind} {a b c : AccessMask K} (hab : MaskLe a b)
    (hbc : MaskLe b c) : MaskLe a c := by
  unfold MaskLe at *
  rw [← hbc, ← UInt64.or_assoc, hab]

/-- A rule says as much as itself. -/
theorem FilesystemRuleState.Le.refl (a : FilesystemRuleState) : a.Le a :=
  ⟨.refl _, UInt64.le_refl _⟩

/-- So does a rule for a port, -/
theorem NetworkRuleState.Le.refl (a : NetworkRuleState) : a.Le a := ⟨.refl _⟩

/-- and an enforcement. -/
theorem EnforceDomainEvent.Le.refl (a : EnforceDomainEvent) : a.Le a := UInt64.le_refl _

/-- Rules are ordered by what they say. -/
theorem FilesystemRuleState.Le.trans (a b c : FilesystemRuleState) (hab : a.Le b)
    (hbc : b.Le c) : a.Le c :=
  ⟨hab.1.trans hbc.1, UInt64.le_trans hab.2 hbc.2⟩

/-- So are rules for ports, -/
theorem NetworkRuleState.Le.trans (a b c : NetworkRuleState) (hab : a.Le b) (hbc : b.Le c) :
    a.Le c :=
  ⟨hab.1.trans hbc.1⟩

/-- and enforcements. -/
theorem EnforceDomainEvent.Le.trans (a b c : EnforceDomainEvent) (hab : a.Le b)
    (hbc : b.Le c) : a.Le c :=
  UInt64.le_trans hab hbc

/-- Every group of fields compares with itself. -/
theorem RulesetState.Le.refl (a : RulesetState) : a.Le a where
  lifecycle := fun h => h
  creationTimestamp := .refl _ _
  handledFs := .refl _
  handledNet := .refl _
  scopedAccess := .refl _
  maxObservedVersion := UInt64.le_refl _
  finalVersion := .refl _ _
  freeTimestamp := .refl _ _
  filesystemRules := .refl FilesystemRuleState.Le.refl _
  networkRules := .refl NetworkRuleState.Le.refl _

/-- The order of rulesets is the product of the orders of the fields. -/
theorem RulesetState.Le.trans (a b c : RulesetState) (hab : a.Le b) (hbc : b.Le c) :
    a.Le c where
  lifecycle := fun h => hbc.lifecycle (hab.lifecycle h)
  creationTimestamp := hab.creationTimestamp.trans hbc.creationTimestamp
  handledFs := hab.handledFs.trans hbc.handledFs
  handledNet := hab.handledNet.trans hbc.handledNet
  scopedAccess := hab.scopedAccess.trans hbc.scopedAccess
  maxObservedVersion := UInt64.le_trans hab.maxObservedVersion hbc.maxObservedVersion
  finalVersion := hab.finalVersion.trans hbc.finalVersion
  freeTimestamp := hab.freeTimestamp.trans hbc.freeTimestamp
  filesystemRules := hab.filesystemRules.trans FilesystemRuleState.Le.trans hbc.filesystemRules
  networkRules := hab.networkRules.trans NetworkRuleState.Le.trans hbc.networkRules

/-- Every group of fields compares with itself. -/
theorem DomainState.Le.refl (a : DomainState) : a.Le a where
  lifecycle := fun h => h
  creationTimestamp := .refl _ _
  parent := .refl _
  creatorTgid := .refl _
  creatorComm := .refl _
  ruleset := .refl _
  cumulativeDenialCount := .refl _ _
  finalDenialCount := .refl _ _
  freeTimestamp := .refl _ _
  enforcementEvents := .refl EnforceDomainEvent.Le.refl _
  anyProcessWideEnforcement := fun h => h

/-- The order of domains is the product of the orders of the fields. -/
theorem DomainState.Le.trans (a b c : DomainState) (hab : a.Le b) (hbc : b.Le c) :
    a.Le c where
  lifecycle := fun h => hbc.lifecycle (hab.lifecycle h)
  creationTimestamp := hab.creationTimestamp.trans hbc.creationTimestamp
  parent := hab.parent.trans hbc.parent
  creatorTgid := hab.creatorTgid.trans hbc.creatorTgid
  creatorComm := hab.creatorComm.trans hbc.creatorComm
  ruleset := hab.ruleset.trans hbc.ruleset
  cumulativeDenialCount := hab.cumulativeDenialCount.trans hbc.cumulativeDenialCount
  finalDenialCount := hab.finalDenialCount.trans hbc.finalDenialCount
  freeTimestamp := hab.freeTimestamp.trans hbc.freeTimestamp
  enforcementEvents := hab.enforcementEvents.trans EnforceDomainEvent.Le.trans
    hbc.enforcementEvents
  anyProcessWideEnforcement := fun h =>
    hbc.anyProcessWideEnforcement (hab.anyProcessWideEnforcement h)

/-! ## Record updates go up -/

/-- A maximum does not go back. -/
theorem knownLe_updateMax (current : Option UInt64) (candidate : UInt64) :
    KnownLe (fun n => n) current (updateMax current candidate) := by
  intro x hx
  rw [updateMax_eq_latest]
  exact Register.stamp_latest_mono lawful_max candidate current hx

/-- A latest timestamp does not go back. -/
private theorem knownLe_updateLatestTimestamp (current : Option KernelTimestamp)
    (candidate : KernelTimestamp) :
    KnownLe timestampValue current (updateLatestTimestamp current candidate) := by
  intro x hx
  have hstamp : current.map timestampValue = some (timestampValue x) := by rw [hx, Option.map_some]
  obtain ⟨t, ht, hle⟩ := Register.stamp_latest_mono lawful_timestamp candidate current hstamp
  obtain ⟨y, hy, rfl⟩ := Option.map_eq_some_iff.mp ht
  rw [updateLatestTimestamp_eq_latest]
  exact ⟨y, hy, hle⟩

/-- A union keeps the bits. -/
private theorem maskLe_or {K : AccessKind} (a : AccessMask K) (bits : UInt64) :
    MaskLe a ⟨a.bits ||| bits⟩ := by
  simp only [MaskLe, ← UInt64.or_assoc, UInt64.or_self]

/-- A filesystem rule keeps its rights, and its path gets no older. -/
private theorem RulesetState.le_mergeFilesystemRule (e : AddRulePathBeneathEvent)
    (rule : FilesystemRuleState) : rule.Le (mergeFilesystemRule e (some rule)) := by
  simp only [mergeFilesystemRule]
  split
  · rename_i hle
    exact ⟨maskLe_or _ _, hle⟩
  · exact ⟨maskLe_or _ _, UInt64.le_refl _⟩

/-- A network rule keeps its rights. -/
private theorem RulesetState.le_mergeNetworkRule (e : AddRuleNetPortEvent)
    (rule : NetworkRuleState) :
    rule.Le (mergeNetworkRule e (some rule)) :=
  ⟨maskLe_or _ _⟩

/-- An enforcement gives way to a later one only. -/
private theorem DomainState.le_mergeEnforcement (e current : EnforceDomainEvent) :
    current.Le (mergeEnforcement e (some current)) := by
  simp only [mergeEnforcement]
  split
  · rename_i hle
    exact hle
  · exact EnforceDomainEvent.Le.refl current

/-- A version does not go back. -/
private theorem RulesetState.le_updateVersion (version : UInt64) (s : RulesetState) :
    s.Le (s.updateVersion version) :=
  { Le.refl s with maxObservedVersion := le_max_left _ _ }

/-- Each part of a ruleset update goes up. -/
theorem RulesetState.Part.le_update (p : RulesetState.Part) (s : RulesetState) :
    s.Le (p.update s) := by
  cases p with
  | created e =>
    simp only [update, creation, Register.latest]
    split
    -- Creation facts are replaced together, by facts that are not older
    · rename_i hreplace
      refine { Le.refl s with
        creationTimestamp := ?_
        handledFs := fun _ => rfl
        handledNet := fun _ => rfl
        scopedAccess := fun _ => rfl }
      intro x hx
      simp only [hx, Option.map_some, Register.replaces_some] at hreplace
      exact ⟨e.timestamp, rfl, hreplace⟩
    · exact Le.refl s
  | filesystemRule e =>
    exact { Le.refl s with
      filesystemRules := Finmap.grows_upsert FilesystemRuleState.Le.refl _ _
        (le_mergeFilesystemRule e) }
  | networkRule e =>
    exact { Le.refl s with
      networkRules := Finmap.grows_upsert NetworkRuleState.Le.refl _ _ (le_mergeNetworkRule e) }
  | referenced e => exact Le.refl s
  | freed e =>
    exact { Le.refl s with
      lifecycle := fun _ => rfl
      freeTimestamp := knownLe_updateLatestTimestamp _ _
      finalVersion := knownLe_updateMax _ _ }

/-- The denial count does not go back. -/
private theorem DomainState.le_raiseCount (count : UInt64) (s : DomainState) :
    s.Le (s.raiseCount count) :=
  { Le.refl s with cumulativeDenialCount := knownLe_updateMax _ _ }

/-- An enforcement keeps what is known of the others. -/
private theorem DomainState.le_applyEnforceDomain (e : EnforceDomainEvent) (s : DomainState) :
    s.Le (applyEnforceDomain e s) := by
  rw [applyEnforceDomain_eq]
  exact { Le.refl s with
    anyProcessWideEnforcement := fun h => by simp [h]
    enforcementEvents := Finmap.grows_upsert EnforceDomainEvent.Le.refl _ _
      (le_mergeEnforcement e) }

/-- Each part of a domain update goes up. -/
theorem DomainState.Part.le_update (p : DomainState.Part) (s : DomainState) :
    s.Le (p.update s) := by
  cases p with
  | created e =>
    simp only [update, creation, Register.latest]
    split
    -- Creation facts are replaced together, by facts that are not older
    · rename_i hreplace
      refine { Le.refl s with
        creationTimestamp := ?_
        parent := fun _ => rfl
        creatorTgid := fun _ => rfl
        creatorComm := fun _ => rfl
        ruleset := fun _ => rfl }
      intro x hx
      simp only [hx, Option.map_some, Register.replaces_some] at hreplace
      exact ⟨e.timestamp, rfl, hreplace⟩
    · exact Le.refl s
  | inferred h =>
    -- A known parent is kept, and a known creator blocks the inference of both facts
    refine { Le.refl s with parent := ?_, creatorTgid := ?_, creatorComm := ?_ }
    · intro hs
      obtain ⟨parent, hparent⟩ := Option.isSome_iff_exists.mp hs
      simp [update, inference, hparent]
    · intro hs
      have hnone : s.creatorTgid.isNone = false := by simpa using hs
      simpa only [update, inference, hnone, Bool.false_and, Bool.false_eq_true, if_false] using hs
    · intro hs
      have hnone : s.creatorComm.isNone = false := by simpa using hs
      simpa only [update, inference, hnone, Bool.and_false, Bool.false_eq_true, if_false] using hs
  | freed e =>
    exact { Le.refl s with
      lifecycle := fun _ => rfl
      freeTimestamp := knownLe_updateLatestTimestamp _ _
      finalDenialCount := knownLe_updateMax _ _ }

/-! ## Events go up -/

namespace State

/-- The order of states is reflexive -/
theorem Le.refl (s : State) : s.Le s :=
  ⟨.refl RulesetState.Le.refl _, .refl DomainState.Le.refl _⟩

/-- and transitive. -/
theorem Le.trans {s t u : State} (hst : s.Le t) (htu : t.Le u) : s.Le u :=
  ⟨hst.rulesets.trans RulesetState.Le.trans htu.rulesets,
    hst.domains.trans DomainState.Le.trans htu.domains⟩

/-- No event loses knowledge, in any state. -/
theorem le_apply (s : State) (e : Event) : s.Le (s.apply e) := by
  rw [apply_eq_effects]
  constructor
  -- An event is a list of record updates, each of which goes up
  · refine Finmap.grows_updateEntries RulesetState.Le.refl RulesetState.Le.trans _ _ _ ?_
    intro u hu r
    obtain ⟨p, _, rfl⟩ := Event.rulesetEffects_cases hu
    exact RulesetState.Le.trans _ _ _ (RulesetState.le_updateVersion p.version r)
      (p.le_update _)
  · refine Finmap.grows_updateEntries DomainState.Le.refl DomainState.Le.trans _ _ _ ?_
    intro u hu d
    rcases Event.domainEffects_cases hu with ⟨_⟩ | ⟨_⟩ | @⟨p, i, n, _⟩
    · exact DomainState.Le.refl d
    · exact DomainState.le_applyEnforceDomain _ d
    · exact DomainState.Le.trans _ _ _ (DomainState.le_raiseCount n d) (p.le_update _)

/-- `apply` only strengthens knowledge, and applying an event again adds nothing,
    in every state. -/
theorem apply_strengthens (s : State) (e : Event) :
    s.Le (s.apply e) ∧ (s.apply e).apply e = s.apply e :=
  ⟨le_apply s e, apply_idem s e⟩

/-- A whole sequence of events only strengthens knowledge. -/
theorem le_foldl_apply (s : State) (events : List Event) : s.Le (events.foldl apply s) := by
  induction events generalizing s with
  | nil => exact Le.refl s
  | cons e events ih => exact (le_apply s e).trans (ih (s.apply e))

end State

end Landlock
