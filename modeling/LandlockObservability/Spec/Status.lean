import LandlockObservability.Model.Details
import LandlockObservability.Spec.DomainSummary
import LandlockObservability.Spec.ObservationConsistency
import Mathlib.Data.Set.Card

/-!
# What the status line and the statistics report

The status line, the statistics tab and the details of a domain are computed from the state and
from counters that are kept along the way.  Here they are read off the events instead: which
objects the events name, which of these they do not free, how many denials there are, and which
live domain has a thread that was last seen enforcing it without `no_new_privs`.

## Key results

- `lifecycle_domainRecord`, `lifecycle_rulesetRecord`: an object is allocated until it is freed
- `lacksNoNewPrivs_iff`: when a domain is warned about
- `status_reports_events`: the status line and the warning in the details
- `statistics_report_events`: the statistics tab
-/

namespace Landlock

/-! ## Objects that the events name -/

/-- The event reports the end of domain `d`. -/
def Event.FreesDomain (d : DomainId) (e : Event) : Prop :=
  ∃ event, e = .freeDomain event ∧ event.domainId = d

/-- The event reports the end of ruleset `r`. -/
def Event.FreesRuleset (r : RulesetId) (e : Event) : Prop :=
  ∃ event, e = .freeRuleset event ∧ event.rulesetId = r

section

variable (events : List Event)

def namedDomains : Set DomainId := {d | ∃ e ∈ events, e.NamesDomain d}

/-- The domains that the events name and do not free. -/
def liveDomains : Set DomainId :=
  {d | d ∈ namedDomains events ∧ ¬ ∃ e ∈ events, e.FreesDomain d}

def namedRulesets : Set RulesetId := {r | ∃ e ∈ events, (e.partOf r).isSome}

/-- The rulesets that the events name and do not free. -/
def liveRulesets : Set RulesetId :=
  {r | r ∈ namedRulesets events ∧ ¬ ∃ e ∈ events, e.FreesRuleset r}

/-- A thread was last seen enforcing the live domain `d` without `no_new_privs`. -/
def PrivilegeGainPossible (d : DomainId) : Prop :=
  d ∈ liveDomains events ∧ ∃ tid event,
    Register.IsLatest (fun e => timestampValue e.timestamp)
      ((enforcementsOf d events).filter fun e => e.enforcingTid = tid) event ∧
    event.noNewPrivs = false

/-- The number of denials of all kinds. -/
def denialTotal : Nat := (DenialKind.all.map fun kind => denialCount kind events).sum

/-- The latest time of the events, 0 if there are none. -/
def latestTime : UInt64 := (events.map fun e => e.timestamp.nanoseconds).max?.getD 0

end

/-! ## Lifecycles -/

/-- A condition and a test of what it guards. -/
private theorem any_ite_some {α : Type} (c : Prop) [Decidable c] (a : α) (f : α → Bool) :
    (if c then some a else none).any f = (decide c && f a) := by
  split <;> simp [*]

def DomainObservation.isFree : DomainObservation → Bool
  | freed _ => true
  | _ => false

/-- The end of a domain as an observation of it. -/
private theorem Event.freesDomain_iff (d : DomainId) (e : Event) :
    e.FreesDomain d ↔ (e.observationOf d).any DomainObservation.isFree = true := by
  -- A denial is never the end of a domain
  have hdenial : ∀ context : Option DenialContext,
      ((context.filter fun c => c.hierarchy.domainId = d).map DomainObservation.denied).any
        DomainObservation.isFree = false := by
    intro context
    cases context.filter fun c => decide (c.hierarchy.domainId = d) <;> rfl
  cases e with
  | createDomain event => simp [FreesDomain, observationOf, any_ite_some, DomainObservation.isFree]
  | freeDomain event => simp [FreesDomain, observationOf, any_ite_some, DomainObservation.isFree]
  | enforceDomain event => simp [FreesDomain, observationOf, any_ite_some, DomainObservation.isFree]
  | _ => simp [FreesDomain, observationOf, hdenial]

/-- A domain ends by its end alone. -/
private theorem DomainObservation.lifecycle_update (o : DomainObservation) (s : DomainState) :
    (o.update s).lifecycle = .deallocated ↔ s.lifecycle = .deallocated ∨ o.isFree = true := by
  cases o with
  | created event =>
    -- Also a creation that comes late does not bring the domain back
    have hframe : (update (.created event) s).lifecycle = s.lifecycle := by
      simp only [update, DomainState.applyCreateDomain_eq, Function.comp_apply,
        DomainState.creation]
      exact Register.view_latest DomainState.lifecycle rfl
    simp [hframe, isFree]
  | denied context =>
    simp [update, DomainState.applyDenial_eq, DomainState.inference, DomainState.raiseCount, isFree]
  | freed event =>
    simp [update, DomainState.applyFreeDomain_eq, DomainState.tombstone, isFree]
  | enforced event =>
    simp [update, DomainState.applyEnforceDomain_eq, isFree]

def RulesetState.Part.isFree : RulesetState.Part → Bool
  | freed _ => true
  | _ => false

/-- The end of a ruleset as a part of its record. -/
private theorem Event.freesRuleset_iff (r : RulesetId) (e : Event) :
    e.FreesRuleset r ↔ (e.partOf r).any RulesetState.Part.isFree = true := by
  cases e <;> simp [FreesRuleset, partOf, RulesetState.Part.isFree, any_ite_some]

/-- A ruleset ends by its end alone. -/
private theorem RulesetState.Part.lifecycle_apply (p : RulesetState.Part) (s : RulesetState) :
    (p.apply s).lifecycle = .deallocated ↔ s.lifecycle = .deallocated ∨ p.isFree = true := by
  cases p with
  | created event =>
    have hframe : (apply (.created event) s).lifecycle = s.lifecycle := by
      simp only [apply, update, creation]
      exact Register.view_latest RulesetState.lifecycle rfl
    simp [hframe, isFree]
  | filesystemRule event => simp [apply, update, isFree, addFilesystemRule, updateVersion]
  | networkRule event => simp [apply, update, isFree, addNetworkRule, updateVersion]
  | referenced event => simp [apply, update, isFree, updateVersion]
  | freed event => simp [apply, update, isFree, tombstone]

namespace State

/-- The end of a domain is never undone. -/
theorem lifecycle_domainRecord (events : List Event) (d : DomainId) :
    (domainRecord events d).lifecycle = .deallocated ↔ ∃ e ∈ events, e.FreesDomain d := by
  induction events using List.reverseRecOn with
  | nil => simp [domainRecord, replay, new, DomainState.blank, DomainState.new]
  | append_singleton events e ih =>
    have hstep : (domainRecord (events ++ [e]) d).lifecycle = .deallocated ↔
        (domainRecord events d).lifecycle = .deallocated ∨ e.FreesDomain d := by
      rw [domainRecord_concat, Event.freesDomain_iff]
      -- An event without an observation of `d` leaves the record alone
      cases e.observationOf d with
      | none => simp
      | some o => exact o.lifecycle_update _
    rw [hstep, ih]
    simp [or_and_right, exists_or]

/-- The end of a ruleset is never undone. -/
theorem lifecycle_rulesetRecord (events : List Event) (r : RulesetId) :
    (rulesetRecord events r).lifecycle = .deallocated ↔ ∃ e ∈ events, e.FreesRuleset r := by
  induction events using List.reverseRecOn with
  | nil => simp [rulesetRecord, replay, new, RulesetState.blank, RulesetState.new]
  | append_singleton events e ih =>
    have hstep : (rulesetRecord (events ++ [e]) r).lifecycle = .deallocated ↔
        (rulesetRecord events r).lifecycle = .deallocated ∨ e.FreesRuleset r := by
      rw [rulesetRecord_concat, Event.freesRuleset_iff]
      cases e.partOf r with
      | none => simp
      | some p => exact p.lifecycle_apply _
    rw [hstep, ih]
    simp [or_and_right, exists_or]

end State

/-! ## Counts -/

section

variable {κ σ : Type} (m : Finmap fun _ : κ => σ)

/-- A map has as many entries as there are named objects. -/
private theorem card_keys_eq_ncard {named : Set κ} (h : ∀ k, k ∈ m ↔ k ∈ named) :
    m.keys.card = named.ncard := by
  have hkeys : named = m.keys := by
    ext k
    rw [Finset.mem_coe, Finmap.mem_keys, h]
  rw [hkeys, Set.ncard_coe_finset]

/-- Counting entries counts the objects that they are about. -/
private theorem countP_eq_ncard [DecidableEq κ] (p : σ → Prop) [DecidablePred p] {live : Set κ}
    (h : ∀ k, (∃ s, m.lookup k = some s ∧ p s) ↔ k ∈ live) :
    m.entries.countP (fun entry => p entry.2) = live.ncard := by
  have hfilter : live = m.keys.filter fun k => (m.lookup k).any fun s => decide (p s) := by
    ext k
    rw [← h, Finset.mem_coe, Finset.mem_filter, Finmap.mem_keys, Finmap.mem_iff]
    cases m.lookup k <;> simp
  rw [Finmap.countP_entries, hfilter, Set.ncard_coe_finset]

/-- An entry is allocated when it is there and has not been freed. -/
private theorem allocated_iff {entry : Option σ} {lifecycle : σ → LifecycleState} {freed : Prop}
    (h : ∀ s, entry = some s → (lifecycle s = .deallocated ↔ freed)) :
    (∃ s, entry = some s ∧ lifecycle s = .allocated) ↔ (∃ s, entry = some s) ∧ ¬ freed := by
  constructor
  · rintro ⟨s, hs, hlifecycle⟩
    refine ⟨⟨s, hs⟩, fun hfreed => ?_⟩
    rw [(h s hs).mpr hfreed] at hlifecycle
    cases hlifecycle
  · rintro ⟨⟨s, hs⟩, hfreed⟩
    refine ⟨s, hs, ?_⟩
    cases hlifecycle : lifecycle s with
    | allocated => rfl
    | deallocated => exact absurd ((h s hs).mp hlifecycle) hfreed

end

section

variable (events : List Event)

/-- The live domains are the allocated ones of the state. -/
private theorem allocated_domain_iff (d : DomainId) :
    (∃ domain, (State.replay events).domains.lookup d = some domain ∧
      domain.lifecycle = .allocated) ↔ d ∈ liveDomains events := by
  have hfreed : ∀ domain, (State.replay events).domains.lookup d = some domain →
      (domain.lifecycle = .deallocated ↔ ∃ e ∈ events, e.FreesDomain d) := by
    intro domain hdomain
    rw [← State.lifecycle_domainRecord, State.domainRecord_of_lookup hdomain]
  exact (allocated_iff hfreed).trans
    (and_congr_left' (Finmap.mem_iff.symm.trans (State.mem_domains_replay events d)))

/-- The live rulesets are the allocated ones of the state. -/
private theorem allocated_ruleset_iff (r : RulesetId) :
    (∃ ruleset, (State.replay events).rulesets.lookup r = some ruleset ∧
      ruleset.lifecycle = .allocated) ↔ r ∈ liveRulesets events := by
  have hfreed : ∀ ruleset, (State.replay events).rulesets.lookup r = some ruleset →
      (ruleset.lifecycle = .deallocated ↔ ∃ e ∈ events, e.FreesRuleset r) := by
    intro ruleset hruleset
    rw [← State.lifecycle_rulesetRecord, State.rulesetRecord, hruleset, Option.getD_some]
  exact (allocated_iff hfreed).trans
    (and_congr_left' (Finmap.mem_iff.symm.trans (State.mem_rulesets_replay events r)))

/-- One more event is one more denial, or none. -/
private theorem denialTotal_concat (e : Event) :
    denialTotal (events ++ [e]) =
      denialTotal events + if (ObservationModel.countOf e).isSome then 1 else 0 := by
  simp only [denialTotal, DenialKind.all, List.map_cons, List.map_nil, List.sum_cons,
    List.sum_nil, denialCount_concat]
  cases ObservationModel.countOf e with
  | none => simp
  | some kind => cases kind <;> simp <;> omega

end

/-! ## Privilege gain -/

/-- The flag is missing if some thread was last seen without it. -/
private theorem DomainState.EnforcedBy.noNewPrivs_eq_false {s : DomainState}
    {xs : List EnforceDomainEvent} (h : s.EnforcedBy xs) :
    s.noNewPrivs = some false ↔ ∃ tid event,
      Register.IsLatest (fun e => timestampValue e.timestamp)
        (xs.filter fun e => e.enforcingTid = tid) event ∧ event.noNewPrivs = false := by
  constructor
  · intro hfalse
    -- If every latest event had the flag, the domain would have it
    by_contra hall
    have hsome : xs ≠ [] := by
      intro hnil
      rw [h.noNewPrivs_eq_none.mpr hnil] at hfalse
      cases hfalse
    have htrue : s.noNewPrivs = some true := by
      refine h.noNewPrivs_eq_true.mpr ⟨hsome, fun tid event hevent => ?_⟩
      by_contra hmissing
      exact hall ⟨tid, event, (h.lookup_eq_some tid event).mp hevent, by simpa using hmissing⟩
    rw [htrue] at hfalse
    cases hfalse
  · rintro ⟨tid, event, hlatest, hmissing⟩
    have hevent := (h.lookup_eq_some tid event).mpr hlatest
    cases hvalue : s.noNewPrivs with
    | none =>
      -- Then the thread was never seen
      have hnone := (h.lookup_eq_none tid).mpr (by simp [h.noNewPrivs_eq_none.mp hvalue])
      rw [hnone] at hevent
      cases hevent
    | some value =>
      cases value with
      | false => rfl
      | true =>
        have hset := (h.noNewPrivs_eq_true.mp hvalue).2 tid event hevent
        rw [hmissing] at hset
        cases hset

/-- Both warnings are about domains whose latest observations allow a privilege gain. -/
theorem lacksNoNewPrivs_iff (events : List Event) (d : DomainId) :
    (∃ domain, (State.replay events).domains.lookup d = some domain ∧
      Tui.lacksNoNewPrivs domain = true) ↔ PrivilegeGainPossible events d := by
  rw [PrivilegeGainPossible, ← allocated_domain_iff]
  constructor
  · rintro ⟨domain, hdomain, hlacks⟩
    simp only [Tui.lacksNoNewPrivs, decide_eq_true_eq] at hlacks
    have henforced := State.enforcedBy_domainRecord events d
    rw [State.domainRecord_of_lookup hdomain] at henforced
    exact ⟨⟨domain, hdomain, hlacks.1⟩, henforced.noNewPrivs_eq_false.mp hlacks.2⟩
  · rintro ⟨⟨domain, hdomain, hlifecycle⟩, hlatest⟩
    have henforced := State.enforcedBy_domainRecord events d
    rw [State.domainRecord_of_lookup hdomain] at henforced
    exact ⟨domain, hdomain,
      decide_eq_true ⟨hlifecycle, henforced.noNewPrivs_eq_false.mpr hlatest⟩⟩

/-! ## The interactive model -/

namespace ObservationModel

variable (steps : List (IterOrder DenialKey AggregatedDenial × Event))

/-- The counter of the model is the number of denials, up to the largest number. -/
private theorem total_observeAll :
    (observeAll steps).stats.total.toNat =
      min (denialTotal (steps.map Prod.snd)) (2 ^ 64 - 1) := by
  induction steps using List.reverseRecOn with
  | nil => rfl
  | append_singleton steps step ih =>
    rw [observeAll_concat, List.map_append, List.map_cons, List.map_nil, denialTotal_concat]
    simp only [observe]
    cases countOf step.2 with
    | none => simpa using ih
    | some kind =>
      -- A saturated sum is the sum, cut off
      simp only [toNat_saturatingCount, ih, Option.isSome_some, if_true]
      omega

/-- The model keeps the latest time. -/
private theorem latestSeen_observeAll :
    (observeAll steps).latestSeen.nanoseconds = latestTime (steps.map Prod.snd) := by
  rw [latestTime, ← foldl_updateMax]
  induction steps using List.reverseRecOn with
  | nil => rfl
  | append_singleton steps step ih =>
    rw [observeAll_concat, List.map_append, List.map_append, List.foldl_append, observe, ih,
      List.map_cons, List.map_nil, List.map_cons, List.map_nil, List.foldl_cons, List.foldl_nil,
      updateMax]
    cases ((steps.map Prod.snd).map fun e => e.timestamp.nanoseconds).foldl updateMax none with
    | none => simp
    | some latest =>
      simp only [Option.getD_some, Option.all_some, ge_iff_le, decide_eq_true_eq]
      split
      · simp [*]
      · simp [le_of_not_ge, *]

/-- The model has one entry for each named domain. -/
private theorem domainCount_observeAll :
    (observeAll steps).state.domainCount = (namedDomains (steps.map Prod.snd)).ncard := by
  rw [observeAll_state]
  exact card_keys_eq_ncard _ fun d => State.mem_domains_replay _ d

/-- It counts the live ones. -/
private theorem allocatedDomains_observeAll :
    (observeAll steps).allocatedDomains = (liveDomains (steps.map Prod.snd)).ncard := by
  rw [allocatedDomains, observeAll_state]
  exact countP_eq_ncard _ (fun domain : DomainState => domain.lifecycle = .allocated)
    (allocated_domain_iff _)

/-- It has one entry for each named ruleset. -/
private theorem rulesetCount_observeAll :
    (observeAll steps).state.rulesets.keys.card =
      (namedRulesets (steps.map Prod.snd)).ncard := by
  rw [observeAll_state]
  exact card_keys_eq_ncard _ fun r => State.mem_rulesets_replay _ r

/-- It counts the live ones. -/
private theorem allocatedRulesets_observeAll :
    (observeAll steps).allocatedRulesets = (liveRulesets (steps.map Prod.snd)).ncard := by
  rw [allocatedRulesets, observeAll_state]
  exact countP_eq_ncard _ (fun ruleset : RulesetState => ruleset.lifecycle = .allocated)
    (allocated_ruleset_iff _)

end ObservationModel

/-! ## What is shown -/

namespace Tui

/-- The warning in the details of a domain. -/
def privilegeGainField : Field :=
  ⟨"no_new_privs: ", "WARNING: missing no_new_privs means privilege gain is possible", .hot⟩

/-- The details of a domain warn when its record says so. -/
private theorem mem_domainFields_iff (d : DomainId) (domain : DomainState) :
    privilegeGainField ∈ domainFields d domain ↔ lacksNoNewPrivs domain = true := by
  have hfield : privilegeGainField = noNewPrivsField domain ↔ lacksNoNewPrivs domain = true := by
    unfold noNewPrivsField lacksNoNewPrivs
    cases domain.lifecycle <;> cases domain.noNewPrivs with
      | none => simp [privilegeGainField]
      | some value => cases value <;> simp [privilegeGainField]
  -- The other field that may follow is not a warning
  have hother : privilegeGainField ∉
      if (domainRuleset domain).isSome then [⟨"", "[Enter] View ruleset", .unknown⟩] else [] := by
    split <;> simp [privilegeGainField]
  rw [domainFields, List.mem_append, or_iff_left hother, ← hfield]
  simp [privilegeGainField]

/-- Both rows of a domain show these details. -/
private theorem mem_detailFields_iff (u : Unicode) (orders : RuleOrders) (model : ObservationModel)
    (d : DomainId) {row : RowKind} (hrow : row = .domain d ∨ row = .denialDomain d) :
    privilegeGainField ∈ detailFields u orders model (some row) ↔
      ∃ domain, model.state.domains.lookup d = some domain ∧ lacksNoNewPrivs domain = true := by
  have hfields : detailFields u orders model (some row) =
      (model.state.domains.lookup d).elim [] (domainFields d) := by
    rcases hrow with rfl | rfl <;> rfl
  rw [hfields]
  cases model.state.domains.lookup d with
  | none => simp
  | some domain => simp [mem_domainFields_iff]

/-- The traversal finds a domain to warn about if there is one. -/
private theorem any_lacksNoNewPrivs_iff (order : IterOrder DomainId DomainState) (state : State) :
    ((order.toList state.domains).any fun entry => lacksNoNewPrivs entry.2) = true ↔
      ∃ d domain, state.domains.lookup d = some domain ∧ lacksNoNewPrivs domain = true := by
  simp [List.any_eq_true, order.mem_toList]

open Classical in
/-- The status line and the details of a domain say what the events say, whatever the traversal
    orders: how many domains the events name and how many of these they do not free, how many
    denials there were, and whether a live domain allows a privilege gain.  The details of a
    domain warn about it exactly when the domain is one of those. -/
theorem status_reports_events (steps : List (IterOrder DenialKey AggregatedDenial × Event))
    (order : IterOrder DomainId DomainState) (app : App) (u : Unicode) (orders : RuleOrders) :
    statusLine order app (ObservationModel.observeAll steps) =
      " " ++ decimal (namedDomains (steps.map Prod.snd)).ncard ++ " domains (" ++
        decimal (liveDomains (steps.map Prod.snd)).ncard ++ " allocated) | " ++
        decimal (min (denialTotal (steps.map Prod.snd)) (2 ^ 64 - 1)) ++ " denials" ++
        (if app.paused then " | PAUSED" else "") ++
        (if ∃ d, PrivilegeGainPossible (steps.map Prod.snd) d then
          " | WARNING: missing no_new_privs means privilege gain is possible"
        else
          "") ++
        app.collectorWarning.elim "" (fun warning => " | COLLECTOR WARNING: " ++ warning) ∧
    ∀ d,
      (privilegeGainField ∈
          detailFields u orders (ObservationModel.observeAll steps) (some (.domain d)) ↔
        PrivilegeGainPossible (steps.map Prod.snd) d) ∧
      (privilegeGainField ∈
          detailFields u orders (ObservationModel.observeAll steps) (some (.denialDomain d)) ↔
        PrivilegeGainPossible (steps.map Prod.snd) d) := by
  have hstate := ObservationModel.observeAll_state steps
  constructor
  · have hwarning : ((order.toList (ObservationModel.observeAll steps).state.domains).any
        fun entry => lacksNoNewPrivs entry.2) = true ↔
        ∃ d, PrivilegeGainPossible (steps.map Prod.snd) d := by
      rw [any_lacksNoNewPrivs_iff, hstate]
      exact exists_congr fun d => lacksNoNewPrivs_iff _ d
    rw [statusLine, ObservationModel.domainCount_observeAll,
      ObservationModel.allocatedDomains_observeAll, ObservationModel.total_observeAll,
      if_congr hwarning rfl rfl]
  · intro d
    rw [mem_detailFields_iff u orders _ d (.inl rfl), mem_detailFields_iff u orders _ d (.inr rfl),
      hstate, lacksNoNewPrivs_iff]
    exact ⟨Iff.rfl, Iff.rfl⟩

/-- The statistics tab counts the denials of each kind and in total, the named and the live
    objects, and shows the latest timestamp. -/
theorem statistics_report_events (steps : List (IterOrder DenialKey AggregatedDenial × Event)) :
    statsLines (ObservationModel.observeAll steps) =
      ["Observed denials: " ++ decimal (min (denialTotal (steps.map Prod.snd)) (2 ^ 64 - 1))] ++
      DenialKind.all.map (fun kind => "  " ++ statsLabel kind ++ ": " ++
        decimal (min (denialCount kind (steps.map Prod.snd)) (2 ^ 64 - 1))) ++
      ["",
       "Domains: " ++ decimal (liveDomains (steps.map Prod.snd)).ncard ++ " allocated / " ++
         decimal (namedDomains (steps.map Prod.snd)).ncard ++ " observed",
       "Rulesets: " ++ decimal (liveRulesets (steps.map Prod.snd)).ncard ++ " allocated / " ++
         decimal (namedRulesets (steps.map Prod.snd)).ncard ++ " observed",
       "Latest event: " ++ decimal (latestTime (steps.map Prod.snd)).toNat ++ "ns"] := by
  simp only [statsLines, ObservationModel.total_observeAll, ObservationModel.byKind_observeAll,
    ObservationModel.domainCount_observeAll, ObservationModel.allocatedDomains_observeAll,
    ObservationModel.rulesetCount_observeAll, ObservationModel.allocatedRulesets_observeAll,
    ObservationModel.latestSeen_observeAll]

end Tui

end Landlock
