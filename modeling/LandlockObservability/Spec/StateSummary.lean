import LandlockObservability.ForStd.List
import LandlockObservability.Spec.StateConvergence

/-!
# The entries of a replayed state

After a replay, the entry of a domain has gone through the observations of that domain,
in the order of the sequence, and through nothing else; likewise the entry of a ruleset.
What one group of fields holds is then a fold over the events that concern it
(`view_domainRecord`, `view_rulesetRecord`), and which entries there are can be read off
the events (`mem_domains_replay`, `mem_rulesets_replay`).
-/

namespace Landlock

/-! ## Maxima -/

/-- Repeated `update_max` gives the maximum. -/
theorem foldl_updateMax (xs : List UInt64) : xs.foldl updateMax none = xs.max? := by
  induction xs using List.reverseRecOn with
  | nil => rfl
  | append_singleton xs x ih =>
    rw [List.foldl_append, ih, List.foldl_cons, List.foldl_nil]
    cases hmax : xs.max? with
    | none =>
      rw [List.max?_eq_none_iff.mp hmax]
      rfl
    | some m =>
      obtain ⟨hmem, hle⟩ := List.max?_eq_some_iff.mp hmax
      symm
      simp only [updateMax, Option.all_some]
      -- The new value replaces the maximum, or is below it
      split <;> rename_i hcmp <;> rw [List.max?_eq_some_iff]
      · have hmx : m ≤ x := by simpa using hcmp
        refine ⟨by simp, fun b hb => ?_⟩
        rcases List.mem_append.mp hb with hb | hb
        · exact (hle b hb).trans hmx
        · exact (List.mem_singleton.mp hb).le
      · have hxm : x ≤ m := le_of_lt (by simpa using hcmp)
        refine ⟨by simp [hmem], fun b hb => ?_⟩
        rcases List.mem_append.mp hb with hb | hb
        · exact hle b hb
        · exact (List.mem_singleton.mp hb).le.trans hxm

/-! ## Domains -/

/-- What an event can tell about a domain beyond its existence. -/
inductive DomainObservation where
  | created (event : CreateDomainEvent)
  | denied (context : DenialContext)
  | freed (event : FreeDomainEvent)
  | enforced (event : EnforceDomainEvent)

/-- The record update that `apply` makes for an observation. -/
def DomainObservation.update : DomainObservation → DomainState → DomainState
  | created event => DomainState.applyCreateDomain event
  | denied context => DomainState.applyDenial context
  | freed event => DomainState.applyFreeDomain event
  | enforced event => DomainState.applyEnforceDomain event

/-- The observation of domain `d` in an event. -/
def Event.observationOf (d : DomainId) : Event → Option DomainObservation
  | createDomain event => if event.domainId = d then some (.created event) else none
  | freeDomain event => if event.domainId = d then some (.freed event) else none
  | enforceDomain event => if event.domainId = d then some (.enforced event) else none
  | event => (event.context.filter fun c => c.hierarchy.domainId = d).map .denied

/-- A denial tells of its own domain. -/
theorem Event.observationOf_of_context {e : Event} {context : DenialContext}
    (h : e.context = some context) :
    e.observationOf context.hierarchy.domainId = some (.denied context) := by
  cases e <;> simp_all [Event.observationOf, Event.context, Option.filter_some]

/-- Whether an event names domain `d`, be it only as a relation of the domain that the
    event is about. -/
def Event.NamesDomain (d : DomainId) : Event → Prop
  | createDomain event => event.domainId = d ∨ event.parentId = some d
  | freeDomain event => event.domainId = d
  | enforceDomain event => event.domainId = d
  | denyAccessFs event =>
    event.context.hierarchy.domainId = d ∨ event.context.hierarchy.parentId = some d
  | denyAccessNet event =>
    event.context.hierarchy.domainId = d ∨ event.context.hierarchy.parentId = some d
  | denyPtrace event =>
    event.context.hierarchy.domainId = d ∨ event.context.hierarchy.parentId = some d ∨
      event.traceeDomain = .sandboxed d
  | denyScopeSignal event =>
    event.context.hierarchy.domainId = d ∨ event.context.hierarchy.parentId = some d ∨
      event.targetDomain = .sandboxed d
  | denyScopeAbstractUnixSocket event =>
    event.context.hierarchy.domainId = d ∨ event.context.hierarchy.parentId = some d ∨
      event.peerDomain = .sandboxed d
  | _ => False

/-- A placeholder changes no record. -/
@[simp] theorem updatesAt_domainPlaceholder (id : Option DomainId) (d : DomainId)
    (s : DomainState) : Finmap.updatesAt (domainPlaceholder id) d s = s := by
  cases id <;> simp [domainPlaceholder]

/-- Among the effects of an event on one domain only its observation changes the record. -/
theorem updatesAt_domainEffects (e : Event) (d : DomainId) (s : DomainState) :
    Finmap.updatesAt e.domainEffects d s = (e.observationOf d).elim s fun o => o.update s := by
  have hdenial : ∀ (context : DenialContext) (other : Option DomainId),
      Finmap.updatesAt (Event.denialEffects context other) d s =
        (((some context).filter fun c => c.hierarchy.domainId = d).map
          DomainObservation.denied).elim s fun o => o.update s := by
    intro context other
    simp only [Event.denialEffects, Finmap.updatesAt_cons, Finmap.updatesAt_append,
      updatesAt_domainPlaceholder, Option.filter_some, decide_eq_true_eq]
    split <;> rfl
  -- Placeholders change no record, so that one effect is left in each case
  cases e with
  | createDomain event =>
    simp only [Event.domainEffects, Finmap.updatesAt_append, updatesAt_domainPlaceholder,
      Finmap.updatesAt_cons, Finmap.updatesAt_nil, Event.observationOf]
    split <;> rfl
  | freeDomain event =>
    simp only [Event.domainEffects, Finmap.updatesAt_cons, Finmap.updatesAt_nil,
      Event.observationOf]
    split <;> rfl
  | enforceDomain event =>
    simp only [Event.domainEffects, Finmap.updatesAt_cons, Finmap.updatesAt_nil,
      Event.observationOf]
    split <;> rfl
  | denyAccessFs event => exact hdenial event.context _
  | denyAccessNet event => exact hdenial event.context _
  | denyPtrace event => exact hdenial event.context _
  | denyScopeSignal event => exact hdenial event.context _
  | denyScopeAbstractUnixSocket event => exact hdenial event.context _
  | _ => rfl

/-- An event has an effect on the entries of the domains that it names. -/
theorem exists_domainEffects_iff (e : Event) (d : DomainId) :
    (∃ u ∈ e.domainEffects, u.1 = d) ↔ e.NamesDomain d := by
  have hplaceholder : ∀ id : Option DomainId,
      (∃ u ∈ domainPlaceholder id, u.1 = d) ↔ id = some d := by
    intro id
    cases id <;> simp [domainPlaceholder]
  have hdenial : ∀ (context : DenialContext) (other : Option DomainId),
      (∃ u ∈ Event.denialEffects context other, u.1 = d) ↔
        context.hierarchy.domainId = d ∨ context.hierarchy.parentId = some d ∨
          other = some d := by
    intro context other
    simp only [Event.denialEffects, List.mem_cons, List.mem_append, or_and_right, exists_or,
      hplaceholder, exists_eq_left]
  have halone : ∀ context : DenialContext, (∃ u ∈ Event.denialEffects context none, u.1 = d) ↔
      context.hierarchy.domainId = d ∨ context.hierarchy.parentId = some d := by
    intro context
    rw [hdenial]
    simp
  -- Three denials name the domain of another party
  have hrelated : ∀ (context : DenialContext) (membership : DomainMembership),
      (∃ u ∈ Event.denialEffects context membership.domainId, u.1 = d) ↔
        context.hierarchy.domainId = d ∨ context.hierarchy.parentId = some d ∨
          membership = .sandboxed d := by
    intro context membership
    rw [hdenial]
    cases membership <;> simp [DomainMembership.domainId]
  cases e with
  | createDomain event =>
    simp only [Event.domainEffects, List.mem_append, or_and_right, exists_or, hplaceholder,
      List.mem_singleton, exists_eq_left, Event.NamesDomain]
    exact or_comm
  | freeDomain event => simp [Event.domainEffects, Event.NamesDomain]
  | enforceDomain event => simp [Event.domainEffects, Event.NamesDomain]
  | denyAccessFs event => exact halone event.context
  | denyAccessNet event => exact halone event.context
  | denyPtrace event => exact hrelated event.context event.traceeDomain
  | denyScopeSignal event => exact hrelated event.context event.targetDomain
  | denyScopeAbstractUnixSocket event => exact hrelated event.context event.peerDomain
  | _ => simp [Event.domainEffects, Event.context, Event.NamesDomain]

namespace State

/-- One more event. -/
theorem replay_concat (events : List Event) (e : Event) :
    replay (events ++ [e]) = (replay events).apply e := by
  simp [replay]

/-- The domains of a replayed state are those that the events name. -/
theorem mem_domains_replay (events : List Event) (d : DomainId) :
    d ∈ (replay events).domains ↔ ∃ e ∈ events, e.NamesDomain d := by
  induction events using List.reverseRecOn with
  | nil => simpa [replay, new] using Finmap.notMem_empty
  | append_singleton events e ih =>
    rw [replay_concat, apply_eq_effects, Finmap.mem_updateEntries, exists_domainEffects_iff, ih]
    simp [or_and_right, exists_or, or_comm]

/-- The entry of a domain, with the starting value of the updates if there is none. -/
def domainRecord (events : List Event) (d : DomainId) : DomainState :=
  ((replay events).domains.lookup d).getD (DomainState.blank d)

/-- One more event. -/
theorem domainRecord_concat (events : List Event) (e : Event) (d : DomainId) :
    domainRecord (events ++ [e]) d =
      (e.observationOf d).elim (domainRecord events d) fun o =>
        o.update (domainRecord events d) := by
  rw [domainRecord, replay_concat, apply_eq_effects, Finmap.getD_lookup_updateEntries,
    updatesAt_domainEffects]
  rfl

/-- The entry is the run of the observations of its domain. -/
theorem domainRecord_eq_foldl (events : List Event) (d : DomainId) :
    domainRecord events d =
      events.foldl (fun s e => (e.observationOf d).elim s fun o => o.update s)
        (DomainState.blank d) := by
  induction events using List.reverseRecOn with
  | nil => rfl
  | append_singleton events e ih =>
    rw [domainRecord_concat, List.foldl_append, ← ih]
    rfl

/-- What a view sees of a domain is the fold over the observations that concern the view. -/
theorem view_domainRecord {γ δ : Type} (view : DomainState → γ)
    (concern : DomainObservation → Option δ) (h : γ → δ → γ)
    (hstep : ∀ s o, view (o.update s) = (concern o).elim (view s) (h (view s)))
    (events : List Event) (d : DomainId) :
    view (domainRecord events d) =
      (events.filterMap fun e => (e.observationOf d).bind concern).foldl h
        (view (DomainState.blank d)) := by
  rw [domainRecord_eq_foldl]
  refine List.foldl_view (fun s e => ?_) events _
  cases e.observationOf d with
  | none => rfl
  | some o => exact hstep s o

end State

/-! ## Rulesets -/

/-- The part of ruleset `r` that an event updates. -/
def Event.partOf (r : RulesetId) : Event → Option RulesetState.Part
  | createRuleset event => if event.rulesetId = r then some (.created event) else none
  | addRulePathBeneath event =>
    if event.rulesetId = r then some (.filesystemRule event) else none
  | addRuleNetPort event => if event.rulesetId = r then some (.networkRule event) else none
  | createDomain event => if event.rulesetId = r then some (.referenced event) else none
  | freeRuleset event => if event.rulesetId = r then some (.freed event) else none
  | _ => none

/-- The record update of a part stores the version, whatever else it does. -/
def RulesetState.Part.apply (p : RulesetState.Part) (s : RulesetState) : RulesetState :=
  p.update (s.updateVersion p.version)

/-- An event has one effect on a ruleset at most. -/
theorem updatesAt_rulesetEffects (e : Event) (r : RulesetId) (s : RulesetState) :
    Finmap.updatesAt e.rulesetEffects r s = (e.partOf r).elim s fun p => p.apply s := by
  cases e with
  | createRuleset event =>
    simp only [Event.rulesetEffects, Finmap.updatesAt_cons, Finmap.updatesAt_nil, Event.partOf,
      RulesetState.applyCreateRuleset_eq]
    split <;> rfl
  | addRulePathBeneath event =>
    simp only [Event.rulesetEffects, Finmap.updatesAt_cons, Finmap.updatesAt_nil, Event.partOf,
      RulesetState.applyAddRulePathBeneath_eq]
    split <;> rfl
  | addRuleNetPort event =>
    simp only [Event.rulesetEffects, Finmap.updatesAt_cons, Finmap.updatesAt_nil, Event.partOf,
      RulesetState.applyAddRuleNetPort_eq]
    split <;> rfl
  | createDomain event =>
    simp only [Event.rulesetEffects, Finmap.updatesAt_cons, Finmap.updatesAt_nil, Event.partOf,
      RulesetState.applyCreateDomain_eq]
    split <;> rfl
  | freeRuleset event =>
    simp only [Event.rulesetEffects, Finmap.updatesAt_cons, Finmap.updatesAt_nil, Event.partOf,
      RulesetState.applyFreeRuleset_eq]
    split <;> rfl
  | _ => rfl

/-- An event has an effect on the entry of the ruleset of which it updates a part. -/
theorem exists_rulesetEffects_iff (e : Event) (r : RulesetId) :
    (∃ u ∈ e.rulesetEffects, u.1 = r) ↔ (e.partOf r).isSome := by
  cases e <;> simp [Event.rulesetEffects, Event.partOf]

namespace State

/-- The rulesets of a replayed state are those of which some event updates a part. -/
theorem mem_rulesets_replay (events : List Event) (r : RulesetId) :
    r ∈ (replay events).rulesets ↔ ∃ e ∈ events, (e.partOf r).isSome := by
  induction events using List.reverseRecOn with
  | nil => simpa [replay, new] using Finmap.notMem_empty
  | append_singleton events e ih =>
    rw [replay_concat, apply_eq_effects, Finmap.mem_updateEntries, exists_rulesetEffects_iff, ih]
    simp [or_and_right, exists_or, or_comm]

/-- The entry of a ruleset, with the starting value of the updates if there is none. -/
def rulesetRecord (events : List Event) (r : RulesetId) : RulesetState :=
  ((replay events).rulesets.lookup r).getD (RulesetState.blank r)

/-- One more event. -/
theorem rulesetRecord_concat (events : List Event) (e : Event) (r : RulesetId) :
    rulesetRecord (events ++ [e]) r =
      (e.partOf r).elim (rulesetRecord events r) fun p => p.apply (rulesetRecord events r) := by
  rw [rulesetRecord, replay_concat, apply_eq_effects, Finmap.getD_lookup_updateEntries,
    updatesAt_rulesetEffects]
  rfl

/-- The entry is the run of the updates of its ruleset. -/
theorem rulesetRecord_eq_foldl (events : List Event) (r : RulesetId) :
    rulesetRecord events r =
      events.foldl (fun s e => (e.partOf r).elim s fun p => p.apply s)
        (RulesetState.blank r) := by
  induction events using List.reverseRecOn with
  | nil => rfl
  | append_singleton events e ih =>
    rw [rulesetRecord_concat, List.foldl_append, ← ih]
    rfl

/-- What a view sees of a ruleset is the fold over the updates that concern the view. -/
theorem view_rulesetRecord {γ δ : Type} (view : RulesetState → γ)
    (concern : RulesetState.Part → Option δ) (h : γ → δ → γ)
    (hstep : ∀ s p, view (p.apply s) = (concern p).elim (view s) (h (view s)))
    (events : List Event) (r : RulesetId) :
    view (rulesetRecord events r) =
      (events.filterMap fun e => (e.partOf r).bind concern).foldl h
        (view (RulesetState.blank r)) := by
  rw [rulesetRecord_eq_foldl]
  refine List.foldl_view (fun s e => ?_) events _
  cases e.partOf r with
  | none => rfl
  | some p => exact hstep s p

end State

end Landlock
