import LandlockObservability.Spec.StateSummary

/-!
# What is known about a domain

The facts of a replayed domain in terms of the sequence alone: the verdict on
`no_new_privs`, where the provenance comes from, and the denial count.

## Key results

- `State.replay_enforcement`: `no_new_privs` is the weakest of the latest observations of
  each thread, and only enforcement events of the domain touch it
- `State.replay_provenance`: creator, parent and ruleset come from one event, and the
  domains of the state are those that the events name
-/

namespace Landlock

namespace DomainObservation

def enforcement? : DomainObservation → Option EnforceDomainEvent
  | enforced event => some event
  | _ => none

def creation? : DomainObservation → Option CreateDomainEvent
  | created event => some event
  | _ => none

def denial? : DomainObservation → Option DenialContext
  | denied context => some context
  | _ => none

/-- The denial count that an observation carries: none yet at the creation. -/
def denialCount? : DomainObservation → Option UInt64
  | created _ => some 0
  | denied context => some context.cumulativeDenialCount
  | freed event => some event.denialCount
  | enforced _ => none

end DomainObservation

/-- The enforcements of domain `d`, in order of arrival. -/
def enforcementsOf (d : DomainId) (events : List Event) : List EnforceDomainEvent :=
  events.filterMap fun e => (e.observationOf d).bind DomainObservation.enforcement?

/-- The creations of domain `d`, in order of arrival. -/
def creationsOf (d : DomainId) (events : List Event) : List CreateDomainEvent :=
  events.filterMap fun e => (e.observationOf d).bind DomainObservation.creation?

/-- The denials by domain `d`, in order of arrival. -/
def denialsOf (d : DomainId) (events : List Event) : List DenialContext :=
  events.filterMap fun e => (e.observationOf d).bind DomainObservation.denial?

/-- The denial counts observed of domain `d`. -/
def denialCountsOf (d : DomainId) (events : List Event) : List UInt64 :=
  events.filterMap fun e => (e.observationOf d).bind DomainObservation.denialCount?

/-! ## Enforcement -/

namespace DomainState

/-- Enforcement facts are those of the events `xs`: for each thread the last-arrived
    of its latest events, and of these the weakest. -/
structure EnforcedBy (s : DomainState) (xs : List EnforceDomainEvent) : Prop where
  noNewPrivs_eq_none : s.noNewPrivs = none ↔ xs = []
  lookup_eq_some : ∀ t e, s.enforcementEvents.lookup t = some e ↔
    Register.IsLatest (fun e => timestampValue e.timestamp)
      (xs.filter fun e => e.enforcingTid = t) e
  lookup_eq_none : ∀ t, s.enforcementEvents.lookup t = none ↔ ∀ e ∈ xs, e.enforcingTid ≠ t
  noNewPrivs_eq_true : s.noNewPrivs = some true ↔
    xs ≠ [] ∧ ∀ t e, s.enforcementEvents.lookup t = some e → e.noNewPrivs = true
  processWide : s.anyProcessWideEnforcement = true ↔ ∃ e ∈ xs, e.processWide = true

end DomainState

/-- Only an enforcement changes the enforcement facts. -/
private theorem DomainObservation.update_enforcement {o : DomainObservation}
    (h : o.enforcement? = none) (s : DomainState) :
    (o.update s).enforcementEvents = s.enforcementEvents ∧
      (o.update s).anyProcessWideEnforcement = s.anyProcessWideEnforcement := by
  cases o with
  | created event =>
    simp only [update, DomainState.applyCreateDomain_eq, Function.comp_apply,
      DomainState.creation]
    exact ⟨Register.view_latest DomainState.enforcementEvents rfl,
      Register.view_latest DomainState.anyProcessWideEnforcement rfl⟩
  | denied context =>
    simp only [update, DomainState.applyDenial_eq]
    exact ⟨rfl, rfl⟩
  | freed event => exact ⟨rfl, rfl⟩
  | enforced event => cases h

namespace State

open DomainState

/-- The map of enforcement events is filled by the enforcements of the domain. -/
private theorem enforcementEvents_domainRecord (events : List Event) (d : DomainId) :
    (domainRecord events d).enforcementEvents =
      (enforcementsOf d events).foldl
        (fun m e => m.upsert e.enforcingTid (mergeEnforcement e)) ∅ := by
  refine view_domainRecord DomainState.enforcementEvents _ _ (fun s o => ?_) events d
  cases o with
  | enforced event => exact congrArg DomainState.enforcementEvents (applyEnforceDomain_eq event s)
  | created event => exact (DomainObservation.update_enforcement (o := .created event) rfl s).1
  | denied context => exact (DomainObservation.update_enforcement (o := .denied context) rfl s).1
  | freed event => rfl

/-- The flag is set by an enforcement of the whole process. -/
private theorem processWide_domainRecord (events : List Event) (d : DomainId) :
    (domainRecord events d).anyProcessWideEnforcement =
      (enforcementsOf d events).foldl (fun b e => b || e.processWide) false := by
  refine view_domainRecord DomainState.anyProcessWideEnforcement _ _ (fun s o => ?_) events d
  cases o with
  | enforced event =>
    exact congrArg DomainState.anyProcessWideEnforcement (applyEnforceDomain_eq event s)
  | created event => exact (DomainObservation.update_enforcement (o := .created event) rfl s).2
  | denied context => exact (DomainObservation.update_enforcement (o := .denied context) rfl s).2
  | freed event => rfl

/-- The entry of a thread is what its enforcements leave behind. -/
private theorem lookup_enforcementEvents (events : List Event) (d : DomainId) (t : ThreadId) :
    (domainRecord events d).enforcementEvents.lookup t =
      Register.selected (fun e => timestampValue e.timestamp)
        ((enforcementsOf d events).filter fun e => e.enforcingTid = t) := by
  rw [enforcementEvents_domainRecord, Finmap.lookup_foldl_upsert, Finmap.lookup_empty]
  simp only [mergeEnforcement_eq_latest, Register.selected]

/-- What the enforcements of a domain leave in its record. -/
theorem enforcedBy_domainRecord (events : List Event) (d : DomainId) :
    (domainRecord events d).EnforcedBy (enforcementsOf d events) := by
  have hnone : ∀ t, (domainRecord events d).enforcementEvents.lookup t = none ↔
      ∀ e ∈ enforcementsOf d events, e.enforcingTid ≠ t := by
    intro t
    rw [lookup_enforcementEvents, Register.selected_eq_none_iff, List.filter_eq_nil_iff]
    simp
  -- Without an enforcement, `no_new_privs` is unknown
  have hempty : (domainRecord events d).enforcementEvents = ∅ ↔ enforcementsOf d events = [] := by
    rw [Finmap.eq_empty_iff]
    simp only [hnone]
    constructor
    · intro h
      exact List.eq_nil_iff_forall_not_mem.mpr fun e he => h e.enforcingTid e he rfl
    · intro h
      simp [h]
  refine ⟨?_, fun t e => ?_, hnone, ?_, ?_⟩
  · rw [← hempty]
    unfold DomainState.noNewPrivs
    split <;> simp_all
  · rw [lookup_enforcementEvents, Register.selected_eq_some_iff]
  · rw [← Finmap.all_eq_true_iff (domainRecord events d).enforcementEvents
      fun _ event => event.noNewPrivs, ne_eq, ← hempty]
    unfold DomainState.noNewPrivs
    split <;> simp_all
  · rw [processWide_domainRecord, List.foldl_or, Bool.false_or, List.any_eq_true]

/-- The record of a domain that is in the state is its entry. -/
theorem domainRecord_of_lookup {events : List Event} {d : DomainId} {s : DomainState}
    (h : (replay events).domains.lookup d = some s) : domainRecord events d = s := by
  rw [domainRecord, h, Option.getD_some]

/-- A domain that is observed is in the state. -/
private theorem mem_domains_of_observationOf {events : List Event} {d : DomainId} {e : Event}
    (he : e ∈ events) (h : (e.observationOf d).isSome) : d ∈ (replay events).domains := by
  refine (mem_domains_replay events d).mpr ⟨e, he, ?_⟩
  cases e <;> simp_all [Event.observationOf, Event.NamesDomain, Event.context,
    Option.filter_some]

/-- An event that does not enforce a domain leaves its enforcement facts alone. -/
private theorem lookup_apply_enforcement (s : State) {e : Event} {d : DomainId} {r : DomainState}
    (he : (e.observationOf d).bind DomainObservation.enforcement? = none)
    (hr : s.domains.lookup d = some r) :
    ∃ r', (s.apply e).domains.lookup d = some r' ∧
      r'.enforcementEvents = r.enforcementEvents ∧
      r'.anyProcessWideEnforcement = r.anyProcessWideEnforcement := by
  have hmem : d ∈ (s.apply e).domains := by
    rw [apply_eq_effects, Finmap.mem_updateEntries]
    exact Or.inr (Finmap.mem_iff.mpr ⟨r, hr⟩)
  obtain ⟨r', hr'⟩ := Finmap.mem_iff.mp hmem
  -- The record afterwards is the one before, with the observation
  have hrecord : r' = (e.observationOf d).elim r fun o => o.update r := by
    rw [← updatesAt_domainEffects]
    have hget := Finmap.getD_lookup_updateEntries DomainState.blank s.domains e.domainEffects d
    rw [apply_eq_effects] at hr'
    rwa [hr', hr, Option.getD_some, Option.getD_some] at hget
  refine ⟨r', hr', ?_⟩
  rw [hrecord]
  rcases hobs : e.observationOf d with _ | o
  · exact ⟨rfl, rfl⟩
  · rw [hobs, Option.bind_some] at he
    exact DomainObservation.update_enforcement he r

/-- `no_new_privs` is weakest-wins over the latest observation of each thread, and nothing
    but the enforcements of the domain changes it. -/
theorem replay_enforcement (events : List Event) (d : DomainId) :
    (enforcementsOf d events ≠ [] → d ∈ (replay events).domains) ∧
    (∀ s, (replay events).domains.lookup d = some s → s.EnforcedBy (enforcementsOf d events)) ∧
    (∀ (state : State) (e : Event) (r : DomainState),
      (e.observationOf d).bind DomainObservation.enforcement? = none →
      state.domains.lookup d = some r →
      ∃ r', (state.apply e).domains.lookup d = some r' ∧
        r'.enforcementEvents = r.enforcementEvents ∧ r'.noNewPrivs = r.noNewPrivs ∧
        r'.anyProcessWideEnforcement = r.anyProcessWideEnforcement) := by
  refine ⟨fun hne => ?_, fun s hs => ?_, fun state e r he hr => ?_⟩
  · obtain ⟨event, hevent⟩ := List.exists_mem_of_ne_nil _ hne
    obtain ⟨e, he, hobs⟩ := List.mem_filterMap.mp hevent
    obtain ⟨o, ho, _⟩ := Option.bind_eq_some_iff.mp hobs
    exact mem_domains_of_observationOf he (by rw [ho]; rfl)
  · rw [← domainRecord_of_lookup hs]
    exact enforcedBy_domainRecord events d
  · obtain ⟨r', hr', hevents, hwide⟩ := lookup_apply_enforcement state he hr
    refine ⟨r', hr', hevents, ?_, hwide⟩
    unfold DomainState.noNewPrivs
    rw [hevents]

end State

/-! ## Provenance -/

namespace DomainState

/-- All provenance facts are those of one creation. -/
structure CreatedBy (s : DomainState) (e : CreateDomainEvent) : Prop where
  creationTimestamp : s.creationTimestamp = some e.timestamp
  parent : s.parent = some (DomainParent.ofId e.parentId)
  creatorTgid : s.creatorTgid = some e.creatorTgid
  creatorComm : s.creatorComm = some e.creatorComm
  ruleset : s.ruleset = some ⟨e.rulesetId, e.rulesetVersion⟩

/-- The creation was not seen, and the other provenance facts are those of one denial, or
    all unknown. -/
structure InferredFrom (s : DomainState) (denial : Option DenialContext) : Prop where
  creationTimestamp : s.creationTimestamp = none
  ruleset : s.ruleset = none
  parent : s.parent = denial.map fun c => DomainParent.ofId c.hierarchy.parentId
  creatorTgid : s.creatorTgid = denial.map fun c => c.hierarchy.creatorTgid
  creatorComm : s.creatorComm = denial.map fun c => c.hierarchy.creatorComm

/-- Where the provenance facts come from: the given creation or, without one, the given
    denial. -/
def Provenance (s : DomainState) (creation : Option CreateDomainEvent)
    (denial : Option DenialContext) : Prop :=
  creation.elim (s.InferredFrom denial) s.CreatedBy

/-- The creation time that a register with this provenance compares with. -/
theorem Provenance.creationTimestamp {s : DomainState} {creation : Option CreateDomainEvent}
    {denial : Option DenialContext} (h : s.Provenance creation denial) :
    s.creationTimestamp = creation.map CreateDomainEvent.timestamp := by
  cases creation with
  | none => exact InferredFrom.creationTimestamp h
  | some e => exact CreatedBy.creationTimestamp h

/-- With or without a creation, the provenance is known once there is a denial. -/
theorem Provenance.known {s : DomainState} {creation : Option CreateDomainEvent}
    {denial : Option DenialContext} (h : s.Provenance creation denial) (hdenial : denial.isSome) :
    s.parent.isSome ∧ s.creatorTgid.isSome ∧ s.creatorComm.isSome := by
  cases creation with
  | some e =>
    obtain ⟨-, hparent, htgid, hcomm, -⟩ := h
    simp [hparent, htgid, hcomm]
  | none =>
    obtain ⟨-, -, hparent, htgid, hcomm⟩ := h
    simp [hparent, htgid, hcomm, hdenial]

/-- A creation replaces the provenance unless that comes from a later creation. -/
theorem Provenance.applyCreateDomain {s : DomainState} {created : Option CreateDomainEvent}
    {denial : Option DenialContext} (h : s.Provenance created denial) (event : CreateDomainEvent) :
    (applyCreateDomain event s).Provenance
      (if Register.replaces (created.map fun e => timestampValue e.timestamp)
        (timestampValue event.timestamp) then some event else created) denial := by
  have hstamp : (raiseCount 0 s).creationTimestamp.map timestampValue =
      created.map fun e => timestampValue e.timestamp := by
    have htime : (raiseCount 0 s).creationTimestamp = _ := h.creationTimestamp
    rw [htime, Option.map_map]
    rfl
  rw [applyCreateDomain_eq, Function.comp_apply, creation, Register.latest, hstamp]
  split
  · exact ⟨rfl, rfl, rfl, rfl, rfl⟩
  · cases created with
    | none => exact ⟨h.1, h.2, h.3, h.4, h.5⟩
    | some e => exact ⟨h.1, h.2, h.3, h.4, h.5⟩

/-- The first denial fills in what no creation has told; later ones fill in nothing. -/
theorem Provenance.applyDenial {s : DomainState} {created : Option CreateDomainEvent}
    {denial : Option DenialContext} (h : s.Provenance created denial) (context : DenialContext) :
    (applyDenial context s).Provenance created (denial.or (some context)) := by
  rw [applyDenial_eq]
  cases created with
  -- Without a creation, the first denial is what is known
  | none =>
    refine ⟨h.1, h.2, ?_, ?_, ?_⟩
    all_goals
      cases denial <;>
        simp [inference, raiseCount, InferredFrom.parent h, InferredFrom.creatorTgid h,
          InferredFrom.creatorComm h]
  | some e =>
    refine ⟨h.1, ?_, ?_, ?_, h.5⟩
    all_goals
      simp [inference, raiseCount, CreatedBy.parent h, CreatedBy.creatorTgid h,
        CreatedBy.creatorComm h]

/-- Freeing a domain and enforcing it say nothing about its provenance. -/
theorem Provenance.update {s : DomainState} {created : Option CreateDomainEvent}
    {denial : Option DenialContext} (h : s.Provenance created denial) {o : DomainObservation}
    (hcreation : o.creation? = none) (hdenial : o.denial? = none) :
    (o.update s).Provenance created denial := by
  cases o with
  | created event => cases hcreation
  | denied context => cases hdenial
  | freed event => cases created <;> exact ⟨h.1, h.2, h.3, h.4, h.5⟩
  | enforced event =>
    rw [DomainObservation.update, applyEnforceDomain_eq]
    cases created <;> exact ⟨h.1, h.2, h.3, h.4, h.5⟩

end DomainState

namespace State

open DomainState

/-- The provenance of a domain after a replay: what its creations leave behind or, without
    any, its first denial. -/
private theorem provenance_domainRecord (events : List Event) (d : DomainId) :
    (domainRecord events d).Provenance
      (Register.selected (fun e => timestampValue e.timestamp) (creationsOf d events))
      (denialsOf d events).head? := by
  induction events using List.reverseRecOn with
  | nil => exact ⟨rfl, rfl, rfl, rfl, rfl⟩
  | append_singleton events e ih =>
    rw [domainRecord_concat, creationsOf, denialsOf, List.filterMap_concat,
      List.filterMap_concat, ← creationsOf, ← denialsOf, List.head?_append]
    rcases e.observationOf d with _ | o
    · simpa using ih
    -- Each observation keeps the provenance in its own way
    cases o with
    | created event =>
      simp only [Option.bind_some, DomainObservation.creation?, DomainObservation.denial?,
        Option.toList_some, Option.toList_none, Register.selected_concat, List.head?_nil,
        Option.or_none, Option.elim_some]
      exact ih.applyCreateDomain event
    | denied context =>
      simp only [Option.bind_some, DomainObservation.creation?, DomainObservation.denial?,
        Option.toList_some, Option.toList_none, List.append_nil, List.head?_cons,
        Option.elim_some]
      exact ih.applyDenial context
    | freed event =>
      simpa [DomainObservation.creation?, DomainObservation.denial?] using
        ih.update (o := .freed event) rfl rfl
    | enforced event =>
      simpa [DomainObservation.creation?, DomainObservation.denial?] using
        ih.update (o := .enforced event) rfl rfl

/-- The cumulative denial count is the greatest that was observed. -/
private theorem cumulativeDenialCount_domainRecord (events : List Event) (d : DomainId) :
    (domainRecord events d).cumulativeDenialCount = (denialCountsOf d events).max? := by
  rw [← foldl_updateMax]
  refine view_domainRecord DomainState.cumulativeDenialCount _ _ (fun s o => ?_) events d
  -- Denials and the free event tell a count
  cases o with
  | created event =>
    simp only [DomainObservation.update, applyCreateDomain_eq, Function.comp_apply, creation]
    exact Register.view_latest DomainState.cumulativeDenialCount rfl
  | denied context =>
    simp only [DomainObservation.update, applyDenial_eq]
    rfl
  | freed event => rfl
  | enforced event =>
    simp only [DomainObservation.update, applyEnforceDomain_eq]
    rfl

/-- A denial leaves its domain with known provenance and at least its denial count. -/
theorem exists_domain_of_denial {events : List Event} {d : DomainId} {e : Event}
    {context : DenialContext} (he : e ∈ events)
    (hobs : e.observationOf d = some (.denied context)) :
    ∃ domain count, (replay events).domains.lookup d = some domain ∧
      domain.parent.isSome ∧ domain.creatorTgid.isSome ∧ domain.creatorComm.isSome ∧
      domain.cumulativeDenialCount = some count ∧ context.cumulativeDenialCount ≤ count := by
  obtain ⟨domain, hdomain⟩ := Finmap.mem_iff.mp
    (mem_domains_of_observationOf he (d := d) (by rw [hobs]; rfl))
  have hprovenance := provenance_domainRecord events d
  have hcount := cumulativeDenialCount_domainRecord events d
  rw [domainRecord_of_lookup hdomain] at hprovenance hcount
  have hdenial : context ∈ denialsOf d events :=
    List.mem_filterMap.mpr ⟨e, he, by rw [hobs]; rfl⟩
  -- The count of the denial is among those that the maximum is taken of
  have hcounted : context.cumulativeDenialCount ∈ denialCountsOf d events :=
    List.mem_filterMap.mpr ⟨e, he, by rw [hobs]; rfl⟩
  have hmax : (denialCountsOf d events).max? ≠ none := by
    rw [ne_eq, List.max?_eq_none_iff]
    exact List.ne_nil_of_mem hcounted
  obtain ⟨count, hsome⟩ := Option.ne_none_iff_exists'.mp hmax
  have hle := (List.max?_eq_some_iff.mp hsome).2 _ hcounted
  obtain ⟨hparent, htgid, hcomm⟩ :=
    hprovenance.known (List.isSome_head?.mpr (List.ne_nil_of_mem hdenial))
  exact ⟨domain, count, hdomain, hparent, htgid, hcomm, hcount.trans hsome, hle⟩

/-- Domain provenance comes whole from one observation: the last-arrived of the latest
    creations or, if there is none, the first denial. -/
theorem replay_provenance (events : List Event) (d : DomainId) :
    (d ∈ (replay events).domains ↔ ∃ e ∈ events, e.NamesDomain d) ∧
    ∀ s, (replay events).domains.lookup d = some s →
      (creationsOf d events ≠ [] → ∃ e,
        Register.IsLatest (fun e => timestampValue e.timestamp) (creationsOf d events) e ∧
        s.CreatedBy e) ∧
      (creationsOf d events = [] → s.InferredFrom (denialsOf d events).head?) ∧
      s.cumulativeDenialCount = (denialCountsOf d events).max? := by
  refine ⟨mem_domains_replay events d, ?_⟩
  intro s hs
  rw [← domainRecord_of_lookup hs]
  have hprovenance := provenance_domainRecord events d
  refine ⟨fun hne => ?_, fun hnil => ?_, cumulativeDenialCount_domainRecord events d⟩
  · obtain ⟨e, hlatest, hsel⟩ :=
      Register.exists_selected (fun e => timestampValue e.timestamp) hne
    rw [hsel] at hprovenance
    exact ⟨e, hlatest, hprovenance⟩
  · rw [Register.selected_eq_none_iff.mpr hnil] at hprovenance
    exact hprovenance

end State

end Landlock
