import LandlockObservability.Spec.StateSummary

/-!
# Where the timestamps of the state come from

Every timestamp in a replayed state was carried by one of the events.

- `State.exists_event_of_ruleset_stores`, `State.exists_event_of_domain_stores`
-/

namespace Landlock

/-- A latest timestamp is the candidate or was there. -/
private theorem updateLatestTimestamp_eq_some {current : Option KernelTimestamp}
    {candidate time : KernelTimestamp} (h : updateLatestTimestamp current candidate = some time) :
    current = some time ∨ candidate = time := by
  unfold updateLatestTimestamp at h
  split at h
  · exact Or.inr (Option.some.inj h)
  · exact Or.inl h

/-! ## Rulesets -/

namespace RulesetState

/-- Whether `time` is one of the timestamps in the record. -/
def Stores (s : RulesetState) (time : KernelTimestamp) : Prop :=
  s.creationTimestamp = some time ∨ s.freeTimestamp = some time ∨
    ∃ target rule, s.filesystemRules.lookup target = some rule ∧ rule.pathnameTimestamp = time

/-- The time of a path is the one of the event or was there. -/
private theorem pathnameTimestamp_mergeFilesystemRule (event : AddRulePathBeneathEvent)
    (rule : Option FilesystemRuleState) :
    (mergeFilesystemRule event rule).pathnameTimestamp = event.timestamp ∨
      ∃ old, rule = some old ∧
        (mergeFilesystemRule event rule).pathnameTimestamp = old.pathnameTimestamp := by
  cases rule with
  | none => exact Or.inl rfl
  | some old =>
    simp only [mergeFilesystemRule]
    split
    · exact Or.inl rfl
    · exact Or.inr ⟨old, rfl, rfl⟩

/-- An update brings in no timestamp but that of its event. -/
private theorem stores_apply {p : Part} {s : RulesetState} {time : KernelTimestamp}
    (h : (p.apply s).Stores time) : s.Stores time ∨ p.event.timestamp = time := by
  cases p with
  | created event =>
    simp only [Part.apply, Part.update, creation, Register.latest] at h
    -- A creation older than the stored one writes nothing
    split at h
    · rcases h with h | h
      · exact Or.inr (Option.some.inj h)
      · exact Or.inl (Or.inr h)
    · exact Or.inl h
  | filesystemRule event =>
    rcases h with h | h | ⟨target, rule, hlookup, rfl⟩
    · exact Or.inl (Or.inl h)
    · exact Or.inl (Or.inr (Or.inl h))
    · -- the rule of the event, or one that it does not touch
      by_cases htarget : target = (event.device, event.inode)
      · subst htarget
        obtain rfl := Option.some.inj ((Finmap.lookup_upsert_self _ _ _).symm.trans hlookup)
        rcases pathnameTimestamp_mergeFilesystemRule event
          (s.filesystemRules.lookup (event.device, event.inode)) with hnew | ⟨old, hold, heq⟩
        · exact Or.inr hnew.symm
        · exact Or.inl (Or.inr (Or.inr ⟨_, old, hold, heq.symm⟩))
      · have hsame := (Finmap.lookup_upsert_of_ne s.filesystemRules (mergeFilesystemRule event)
          htarget).symm.trans hlookup
        exact Or.inl (Or.inr (Or.inr ⟨target, rule, hsame, rfl⟩))
  | networkRule event => exact Or.inl h
  | referenced event => exact Or.inl h
  | freed event =>
    rcases h with h | h | h
    · exact Or.inl (Or.inl h)
    · rcases updateLatestTimestamp_eq_some h with h | h
      · exact Or.inl (Or.inr (Or.inl h))
      · exact Or.inr h
    · exact Or.inl (Or.inr (Or.inr h))

end RulesetState

/-! ## Domains -/

/-- The timestamp that an observation adds to the record; a denial adds none. -/
def DomainObservation.time? : DomainObservation → Option KernelTimestamp
  | created event => some event.timestamp
  | denied _ => none
  | freed event => some event.timestamp
  | enforced event => some event.timestamp

/-- An observation has the time of its event. -/
private theorem Event.time?_of_observationOf {d : DomainId} {e : Event} {o : DomainObservation}
    {time : KernelTimestamp} (h : e.observationOf d = some o) (ho : o.time? = some time) :
    e.timestamp = time := by
  cases e with
  | createDomain event =>
    simp only [Event.observationOf, Option.ite_none_right_eq_some, Option.some.injEq] at h
    obtain ⟨-, rfl⟩ := h
    exact Option.some.inj ho
  | freeDomain event =>
    simp only [Event.observationOf, Option.ite_none_right_eq_some, Option.some.injEq] at h
    obtain ⟨-, rfl⟩ := h
    exact Option.some.inj ho
  | enforceDomain event =>
    simp only [Event.observationOf, Option.ite_none_right_eq_some, Option.some.injEq] at h
    obtain ⟨-, rfl⟩ := h
    exact Option.some.inj ho
  -- A denial stores no time in the domain
  | _ =>
    simp only [Event.observationOf, Option.map_eq_some_iff] at h
    obtain ⟨context, -, rfl⟩ := h
    cases ho

namespace DomainState

/-- Whether `time` is one of the timestamps in the record. -/
def Stores (s : DomainState) (time : KernelTimestamp) : Prop :=
  s.creationTimestamp = some time ∨ s.freeTimestamp = some time ∨
    ∃ t event, s.enforcementEvents.lookup t = some event ∧ event.timestamp = time

/-- An enforcement is the one of the event or was there. -/
private theorem mergeEnforcement_cases (event : EnforceDomainEvent)
    (current : Option EnforceDomainEvent) :
    mergeEnforcement event current = event ∨ current = some (mergeEnforcement event current) := by
  cases current with
  | none => exact Or.inl rfl
  | some old =>
    simp only [mergeEnforcement]
    split
    · exact Or.inl rfl
    · exact Or.inr rfl

/-- An update brings in no timestamp but that of its observation. -/
private theorem stores_update {o : DomainObservation} {s : DomainState} {time : KernelTimestamp}
    (h : (o.update s).Stores time) : s.Stores time ∨ o.time? = some time := by
  cases o with
  | created event =>
    simp only [DomainObservation.update, applyCreateDomain_eq, Function.comp_apply, creation,
      Register.latest] at h
    split at h
    · rcases h with h | h
      · exact Or.inr h
      · exact Or.inl (Or.inr h)
    · exact Or.inl h
  | denied context =>
    simp only [DomainObservation.update, applyDenial_eq] at h
    exact Or.inl h
  | freed event =>
    rcases h with h | h | h
    · exact Or.inl (Or.inl h)
    · rcases updateLatestTimestamp_eq_some h with h | h
      · exact Or.inl (Or.inr (Or.inl h))
      · exact Or.inr (congrArg some h)
    · exact Or.inl (Or.inr (Or.inr h))
  | enforced event =>
    simp only [DomainObservation.update, applyEnforceDomain_eq] at h
    rcases h with h | h | ⟨t, stored, hlookup, rfl⟩
    · exact Or.inl (Or.inl h)
    · exact Or.inl (Or.inr (Or.inl h))
    · -- the thread of the event, or one that it does not touch
      by_cases ht : t = event.enforcingTid
      · subst ht
        rw [Finmap.lookup_upsert_self, Option.some.injEq] at hlookup
        subst hlookup
        rcases mergeEnforcement_cases event (s.enforcementEvents.lookup event.enforcingTid)
          with hnew | hold
        · exact Or.inr (congrArg (fun e => some (EnforceDomainEvent.timestamp e)) hnew.symm)
        · exact Or.inl (Or.inr (Or.inr ⟨_, _, hold, rfl⟩))
      · rw [Finmap.lookup_upsert_of_ne _ _ ht] at hlookup
        exact Or.inl (Or.inr (Or.inr ⟨t, stored, hlookup, rfl⟩))

end DomainState

/-! ## Whole sequences -/

/-- A part of an event knows the event. -/
private theorem Event.event_of_partOf {r : RulesetId} {e : Event} {p : RulesetState.Part}
    (h : e.partOf r = some p) : p.event = e := by
  cases e <;> simp only [Event.partOf, Option.ite_none_right_eq_some, Option.some.injEq,
    reduceCtorEq] at h
  all_goals
    obtain ⟨-, rfl⟩ := h
    rfl

namespace State

/-- A time in the record of a ruleset is the one of an event. -/
theorem exists_event_of_ruleset_stores {events : List Event} {r : RulesetId}
    {time : KernelTimestamp} (h : (rulesetRecord events r).Stores time) :
    ∃ e ∈ events, e.timestamp = time := by
  rw [rulesetRecord_eq_foldl] at h
  refine List.exists_mem_of_foldl (P := fun s => RulesetState.Stores s time) ?_ ?_ h
  · intro s e hstores
    cases hpart : e.partOf r with
    | none =>
      rw [hpart] at hstores
      exact Or.inl hstores
    | some p =>
      rw [hpart] at hstores
      rw [← Event.event_of_partOf hpart]
      exact RulesetState.stores_apply hstores
  · rintro (h | h | ⟨target, rule, hlookup, -⟩)
    · cases h
    · cases h
    · cases (Finmap.lookup_empty target).symm.trans hlookup

/-- A time in the record of a domain is the one of an event. -/
theorem exists_event_of_domain_stores {events : List Event} {d : DomainId}
    {time : KernelTimestamp} (h : (domainRecord events d).Stores time) :
    ∃ e ∈ events, e.timestamp = time := by
  rw [domainRecord_eq_foldl] at h
  refine List.exists_mem_of_foldl (P := fun s => DomainState.Stores s time) ?_ ?_ h
  · intro s e hstores
    cases hobs : e.observationOf d with
    | none =>
      rw [hobs] at hstores
      exact Or.inl hstores
    | some o =>
      rw [hobs] at hstores
      exact (DomainState.stores_update hstores).imp_right (Event.time?_of_observationOf hobs)
  · rintro (h | h | ⟨t, event, hlookup, -⟩)
    · cases h
    · cases h
    · cases (Finmap.lookup_empty t).symm.trans hlookup

end State

end Landlock
