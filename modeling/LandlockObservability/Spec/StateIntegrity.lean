import LandlockObservability.Spec.StateOrder

/-!
# Integrity of reconstructed state

What holds of the state after any event sequence: entries are stored under their
own identity, relations point to entries that exist, a lifecycle is final exactly
when a free event was seen, and facts that come from one event are known together.

The conditions on single records (`RulesetState.Integrity`,
`DomainState.Integrity`) are kept by every record update.  The conditions between
records follow from what the event itself inserts and from the information order,
which keeps the entries that older relations point to.
-/

namespace Landlock

/-! ## Single records -/

/-- What holds of the ruleset stored under `id`. -/
structure RulesetState.Integrity (id : RulesetId) (r : RulesetState) : Prop where
  id_eq : r.id = id
  filesystemRules : ∀ key rule, r.filesystemRules.lookup key = some rule →
    (rule.device, rule.inode) = key
  networkRules : ∀ port rule, r.networkRules.lookup port = some rule → rule.port = port
  lifecycle_iff : r.lifecycle = .deallocated ↔ r.freeTimestamp.isSome
  final_iff : r.freeTimestamp.isSome ↔ r.finalVersion.isSome
  final_le : ∀ v, r.finalVersion = some v → v ≤ r.maxObservedVersion
  creation_iff : (r.creationTimestamp.isSome ↔ r.handledFs.isSome) ∧
    (r.creationTimestamp.isSome ↔ r.handledNet.isSome) ∧
    (r.creationTimestamp.isSome ↔ r.scopedAccess.isSome)

/-- What holds of the domain stored under `id`. -/
structure DomainState.Integrity (id : DomainId) (d : DomainState) : Prop where
  id_eq : d.id = id
  enforcementEvents : ∀ tid e, d.enforcementEvents.lookup tid = some e →
    e.enforcingTid = tid ∧ e.domainId = id
  lifecycle_iff : d.lifecycle = .deallocated ↔ d.freeTimestamp.isSome
  final_iff : d.freeTimestamp.isSome ↔ d.finalDenialCount.isSome
  final_le : ∀ n, d.finalDenialCount = some n →
    ∃ m, d.cumulativeDenialCount = some m ∧ n ≤ m
  creation_iff : d.creationTimestamp.isSome ↔ d.ruleset.isSome
  creation_known : d.creationTimestamp.isSome →
    d.parent.isSome ∧ d.creatorTgid.isSome ∧ d.creatorComm.isSome
  creator_iff : d.creatorTgid.isSome ↔ d.creatorComm.isSome
  processWide : d.anyProcessWideEnforcement = true →
    ∃ tid e, d.enforcementEvents.lookup tid = some e

/-- `update_max` holds the candidate or what was there. -/
private theorem updateMax_cases (c : Option UInt64) (n : UInt64) :
    updateMax c n = some n ∨ ∃ m, c = some m ∧ n < m ∧ updateMax c n = some m := by
  cases c with
  | none => exact .inl rfl
  | some m =>
    by_cases hle : m ≤ n
    · exact .inl (by simp [updateMax, hle])
    · exact .inr ⟨m, rfl, not_le.mp hle, by simp [updateMax, hle]⟩

/-- A maximum is known after an update, -/
theorem isSome_updateMax (c : Option UInt64) (n : UInt64) :
    (updateMax c n).isSome = true := by
  rcases updateMax_cases c n with h | ⟨m, _, _, h⟩ <;> simp [h]

/-- it is the candidate at least, -/
private theorem le_updateMax (c : Option UInt64) (n : UInt64) :
    ∃ m, updateMax c n = some m ∧ n ≤ m := by
  rcases updateMax_cases c n with h | ⟨m, _, hlt, h⟩
  · exact ⟨n, h, le_refl n⟩
  · exact ⟨m, h, le_of_lt hlt⟩

/-- and a latest timestamp is known, too. -/
private theorem isSome_updateLatestTimestamp (c : Option KernelTimestamp) (t : KernelTimestamp) :
    (updateLatestTimestamp c t).isSome = true := by
  unfold updateLatestTimestamp
  split
  · rfl
  · rename_i hall
    cases c with
    | none => simp at hall
    | some _ => rfl

namespace RulesetState.Integrity

/-- A placeholder knows nothing. -/
theorem blank (id : RulesetId) : (RulesetState.blank id).Integrity id where
  id_eq := rfl
  filesystemRules := by simp [RulesetState.blank, RulesetState.new]
  networkRules := by simp [RulesetState.blank, RulesetState.new]
  lifecycle_iff := by simp [RulesetState.blank, RulesetState.new]
  final_iff := Iff.rfl
  final_le := nofun
  creation_iff := ⟨Iff.rfl, Iff.rfl, Iff.rfl⟩

/-- A higher version contradicts nothing. -/
theorem updateVersion {id : RulesetId} {r : RulesetState} (h : r.Integrity id)
    (version : UInt64) : (r.updateVersion version).Integrity id :=
  { h with final_le := fun v hv => le_trans (h.final_le v hv) (le_max_left _ _) }

/-- An update of the ruleset that an event names keeps the record's integrity. -/
theorem update {r : RulesetState} (p : RulesetState.Part) (h : r.Integrity p.rulesetId) :
    (p.update (r.updateVersion p.version)).Integrity p.rulesetId := by
  have hv := h.updateVersion p.version
  cases p with
  | created e =>
    simp only [RulesetState.Part.update, RulesetState.creation, Register.latest]
    split
    · exact { hv with creation_iff := ⟨Iff.rfl, Iff.rfl, Iff.rfl⟩ }
    · exact hv
  | filesystemRule e =>
    refine { hv with filesystemRules := Finmap.forall_lookup_upsert hv.filesystemRules _ rfl ?_ }
    intro old hold
    simp only [RulesetState.mergeFilesystemRule]
    split <;> exact hold
  | networkRule e =>
    exact { hv with
      networkRules := Finmap.forall_lookup_upsert hv.networkRules _ rfl fun _ hold => hold }
  | referenced e => exact hv
  | freed e =>
    refine { hv with lifecycle_iff := ?_, final_iff := ?_, final_le := ?_ }
    · simp [RulesetState.Part.update, RulesetState.tombstone, isSome_updateLatestTimestamp]
    · simp [RulesetState.Part.update, RulesetState.tombstone, isSome_updateLatestTimestamp,
        isSome_updateMax]
    · -- the final version is the event's, which the update has observed, or an earlier one
      intro v hfinal
      have hfinal' : updateMax r.finalVersion e.rulesetVersion = some v := hfinal
      rcases updateMax_cases r.finalVersion e.rulesetVersion with hnew | ⟨m, hm, _, hold⟩
      · rw [hnew, Option.some.injEq] at hfinal'
        exact hfinal' ▸ le_max_right _ _
      · rw [hold, Option.some.injEq] at hfinal'
        exact hfinal' ▸ le_trans (h.final_le m hm) (le_max_left _ _)

end RulesetState.Integrity

namespace DomainState.Integrity

/-- A placeholder knows nothing. -/
theorem blank (id : DomainId) : (DomainState.blank id).Integrity id where
  id_eq := rfl
  enforcementEvents := by simp [DomainState.blank, DomainState.new]
  lifecycle_iff := by simp [DomainState.blank, DomainState.new]
  final_iff := Iff.rfl
  final_le := nofun
  creation_iff := Iff.rfl
  creation_known := nofun
  creator_iff := Iff.rfl
  processWide := nofun

/-- A higher count contradicts nothing. -/
theorem raiseCount {id : DomainId} {d : DomainState} (h : d.Integrity id) (count : UInt64) :
    (d.raiseCount count).Integrity id := by
  refine { h with final_le := ?_ }
  intro n hn
  obtain ⟨m, hm, hnm⟩ := h.final_le n hn
  obtain ⟨m', hm', hmm'⟩ := knownLe_updateMax d.cumulativeDenialCount count m hm
  exact ⟨m', hm', le_trans hnm hmm'⟩

/-- An enforcement is stored under its thread. -/
theorem applyEnforceDomain {d : DomainState} (e : EnforceDomainEvent)
    (h : d.Integrity e.domainId) :
    (DomainState.applyEnforceDomain e d).Integrity e.domainId := by
  rw [DomainState.applyEnforceDomain_eq]
  refine { h with enforcementEvents := ?_, processWide := ?_ }
  · refine Finmap.forall_lookup_upsert h.enforcementEvents _ ⟨rfl, rfl⟩ fun old hold => ?_
    simp only [DomainState.mergeEnforcement]
    split
    · exact ⟨rfl, rfl⟩
    · exact hold
  · intro _
    exact ⟨e.enforcingTid, _, Finmap.lookup_upsert_self _ _ _⟩

/-- An update of the domain that an event names keeps the record's integrity. -/
theorem update {e : Event} {p : DomainState.Part} {id : DomainId} {count : UInt64}
    {d : DomainState} (hp : p.Of e id count) (h : d.Integrity id) :
    (p.update (d.raiseCount count)).Integrity id := by
  have hd := h.raiseCount count
  cases hp with
  | created _ =>
    simp only [DomainState.Part.update, DomainState.creation, Register.latest]
    split
    · exact { hd with
        creation_iff := Iff.rfl
        creation_known := fun _ => ⟨rfl, rfl, rfl⟩
        creator_iff := Iff.rfl }
    · exact hd
  | @inferred context _ =>
    -- A creation known before has fixed all three facts, so nothing is inferred
    have hle := DomainState.Part.le_update (.inferred context.hierarchy)
      (d.raiseCount context.cumulativeDenialCount)
    refine { hd with creation_known := ?_, creator_iff := ?_ }
    · intro hcreated
      -- Known facts stay known, by the information order
      obtain ⟨hparent, htgid, hcomm⟩ := hd.creation_known hcreated
      exact ⟨hle.parent hparent, hle.creatorTgid htgid, hle.creatorComm hcomm⟩
    · simp only [DomainState.Part.update, DomainState.inference]
      split
      · simp
      · exact hd.creator_iff
  | freed _ =>
    refine { hd with lifecycle_iff := ?_, final_iff := ?_, final_le := ?_ }
    · simp [DomainState.Part.update, DomainState.tombstone, isSome_updateLatestTimestamp]
    · simp [DomainState.Part.update, DomainState.tombstone, isSome_updateLatestTimestamp,
        isSome_updateMax]
    · rename_i event _
      intro n hfinal
      have hfinal' : updateMax d.finalDenialCount event.denialCount = some n := hfinal
      rcases updateMax_cases d.finalDenialCount event.denialCount with hnew | ⟨m, hm, _, hold⟩
      · rw [hnew, Option.some.injEq] at hfinal'
        exact hfinal' ▸ le_updateMax d.cumulativeDenialCount event.denialCount
      · rw [hold, Option.some.injEq] at hfinal'
        exact hd.final_le n (hfinal' ▸ hm)

end DomainState.Integrity

/-! ## The whole state -/

/-- Referential and representation integrity. -/
structure State.Integrity (s : State) : Prop where
  rulesets : ∀ id r, s.rulesets.lookup id = some r → r.Integrity id
  domains : ∀ id d, s.domains.lookup id = some d → d.Integrity id
  parents : ∀ id d p, s.domains.lookup id = some d → d.parent = some (.domain p) →
    p ∈ s.domains
  references : ∀ id d rv, s.domains.lookup id = some d → d.ruleset = some rv →
    ∃ r, s.rulesets.lookup rv.rulesetId = some r ∧ rv.rulesetVersion ≤ r.maxObservedVersion

namespace State

/-- The empty state has nothing that could be wrong. -/
theorem Integrity.new : State.new.Integrity where
  rulesets := by simp [State.new]
  domains := by simp [State.new]
  parents := by simp [State.new]
  references := by simp [State.new]

/-- Relations of a record point to entries of `s`. -/
private structure Resolved (s : State) (d : DomainState) : Prop where
  parent : ∀ p, d.parent = some (.domain p) → p ∈ s.domains
  reference : ∀ rv, d.ruleset = some rv →
    ∃ r, s.rulesets.lookup rv.rulesetId = some r ∧ rv.rulesetVersion ≤ r.maxObservedVersion

/-- The parent an event names is an entry afterwards. -/
private theorem mem_domains_of_placeholder (s : State) (e : Event) {p : DomainId}
    (h : (p, fun state => state) ∈ e.domainEffects) : p ∈ (s.apply e).domains := by
  rw [apply_eq_effects, Finmap.mem_updateEntries]
  exact .inl ⟨_, h, rfl⟩

/-- So is the parent with an optional ID, if there is one. -/
private theorem parent_mem_of_ofId (s : State) (e : Event) {parent : Option DomainId}
    {p : DomainId} (heffects : ∀ u ∈ domainPlaceholder parent, u ∈ e.domainEffects)
    (h : DomainParent.ofId parent = .domain p) : p ∈ (s.apply e).domains := by
  cases parent with
  | none => simp [DomainParent.ofId] at h
  | some id =>
    cases h
    exact mem_domains_of_placeholder s e (heffects _ List.mem_cons_self)

/-- The effects of a denial start with the denying domain and its parent. -/
private theorem placeholder_mem_of_context {e : Event} {context : DenialContext}
    (h : e.context = some context) :
    ∀ u ∈ domainPlaceholder context.hierarchy.parentId, u ∈ e.domainEffects := by
  intro u hu
  have hmem : ∀ other, u ∈ Event.denialEffects context other := fun other =>
    List.mem_cons_of_mem _ (List.mem_append_left _ hu)
  -- The five denials are the events with a context
  cases e with
  | denyAccessFs event => cases h; exact hmem _
  | denyAccessNet event => cases h; exact hmem _
  | denyPtrace event => cases h; exact hmem _
  | denyScopeSignal event => cases h; exact hmem _
  | denyScopeAbstractUnixSocket event => cases h; exact hmem _
  | _ => simp [Event.context] at h

/-- After a `CreateDomain` event its ruleset is an entry with its version. -/
private theorem reference_of_createDomain (s : State) (event : CreateDomainEvent) :
    ∃ r, (s.apply (.createDomain event)).rulesets.lookup event.rulesetId = some r ∧
      event.rulesetVersion ≤ r.maxObservedVersion := by
  rw [apply_eq_effects]
  refine ⟨_, Finmap.lookup_updateEntry_self _ _ _ _, ?_⟩
  rw [RulesetState.applyCreateDomain_eq]
  exact le_max_right _ _

/-- A record update leaves a record resolved in the state after the event. -/
private theorem resolved_update (s : State) {e : Event}
    {u : DomainId × (DomainState → DomainState)} (hu : u ∈ e.domainEffects) {d : DomainState}
    (h : (s.apply e).Resolved d) : (s.apply e).Resolved (u.2 d) := by
  rcases Event.domainEffects_cases hu with ⟨_⟩ | ⟨_⟩ | @⟨p, i, n, hp⟩
  · exact h
  · show (s.apply e).Resolved (DomainState.applyEnforceDomain _ d)
    rw [DomainState.applyEnforceDomain_eq]
    exact ⟨h.parent, h.reference⟩
  · cases hp with
    | @created event he =>
      subst he
      simp only [Function.comp_apply, DomainState.Part.update, DomainState.creation,
        Register.latest]
      split
      · constructor
        · intro p hparent
          exact parent_mem_of_ofId s _ (fun v hv => List.mem_append_left _ hv)
            (Option.some.inj hparent)
        · intro rv hrv
          cases hrv
          exact reference_of_createDomain s event
      · exact ⟨h.parent, h.reference⟩
    -- A parent that is known stays; else it is the one of the denial
    | @inferred context hcontext =>
      refine ⟨?_, h.reference⟩
      intro p hparent
      cases hknown : d.parent with
      | some known =>
        refine h.parent p ?_
        simpa [DomainState.Part.update, DomainState.inference, DomainState.raiseCount,
          hknown] using hparent
      | none =>
        refine parent_mem_of_ofId s e (placeholder_mem_of_context hcontext) ?_
        simpa [DomainState.Part.update, DomainState.inference, DomainState.raiseCount,
          hknown] using hparent
    | freed _ => exact ⟨h.parent, h.reference⟩

/-- Relations resolved before an event are resolved after it. -/
private theorem Resolved.mono {s t : State} (hst : s.Le t) {d : DomainState}
    (h : s.Resolved d) : t.Resolved d := by
  constructor
  · intro p hp
    exact hst.domains.mem (h.parent p hp)
  · intro rv hrv
    obtain ⟨r, hr, hle⟩ := h.reference rv hrv
    obtain ⟨r', hr', hrr'⟩ := hst.rulesets _ _ hr
    exact ⟨r', hr', le_trans hle hrr'.maxObservedVersion⟩

/-- Every event keeps integrity. -/
theorem Integrity.apply {s : State} (h : s.Integrity) (e : Event) : (s.apply e).Integrity := by
  have hresolved : ∀ id d, (s.apply e).domains.lookup id = some d →
      (s.apply e).Resolved d := by
    intro id d hlookup
    rw [apply_eq_effects] at hlookup
    refine Finmap.forall_lookup_updateEntries _ _ (fun _ d => (s.apply e).Resolved d) _
      ?_ ?_ ?_ hlookup
    · intro id' d' hold
      have hs : s.Resolved d' :=
        ⟨fun p hp => h.parents id' d' p hold hp, fun rv hrv => h.references id' d' rv hold hrv⟩
      exact hs.mono (le_apply s e)
    · intro id'
      exact ⟨nofun, nofun⟩
    · intro u hu d' hd'
      exact resolved_update s hu hd'
  -- The records themselves, entry by entry
  refine ⟨?_, ?_, fun id d p hd hp => (hresolved id d hd).parent p hp,
    fun id d rv hd hrv => (hresolved id d hd).reference rv hrv⟩
  · intro id r hlookup
    rw [apply_eq_effects] at hlookup
    refine Finmap.forall_lookup_updateEntries _ _ (fun id r => r.Integrity id) _
      h.rulesets RulesetState.Integrity.blank ?_ hlookup
    intro u hu r' hr'
    obtain ⟨p, _, rfl⟩ := Event.rulesetEffects_cases hu
    exact RulesetState.Integrity.update p hr'
  · intro id d hlookup
    rw [apply_eq_effects] at hlookup
    refine Finmap.forall_lookup_updateEntries _ _ (fun id d => d.Integrity id) _
      h.domains DomainState.Integrity.blank ?_ hlookup
    intro u hu d' hd'
    rcases Event.domainEffects_cases hu with ⟨_⟩ | ⟨_⟩ | ⟨hp⟩
    · exact hd'
    · exact DomainState.Integrity.applyEnforceDomain _ hd'
    · exact DomainState.Integrity.update hp hd'

/-- Integrity holds after every event sequence. -/
theorem replay_integrity (events : List Event) : (replay events).Integrity := by
  suffices h : ∀ s : State, s.Integrity → (events.foldl State.apply s).Integrity from
    h State.new Integrity.new
  induction events with
  | nil => exact fun _ hs => hs
  | cons e events ih => exact fun s hs => ih (s.apply e) (hs.apply e)

end State

end Landlock
