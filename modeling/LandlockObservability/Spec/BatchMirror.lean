import LandlockObservability.ForStd.ChangeLog
import LandlockObservability.Spec.BatchFootprint
import LandlockObservability.Spec.BatchRecords

/-!
# Batch mode mirrors the state

A reader of batch mode that keeps the last record about each domain and each ruleset has
the reconstructed state.  What `process` writes about one object is exactly the changed
record of that object (`filter_isDomainRecord_process`, `filter_isDropRecord_process`),
so the log of records follows the state by the rules of `ChangeLog`.

* `process_records`: the parts of what one event writes.
* `Mirrored.process`: one event keeps the log and the state together.
* `processAll_mirrors`: what holds after every event sequence.
-/

namespace Landlock

/-- What a reader of batch mode knows of one domain. -/
def domainText (state : State) (id : DomainId) : Option String :=
  (state.domain id).map formatDomain

/-- What a reader of batch mode knows of one ruleset: its line once it is deallocated. -/
def dropText (state : State) (id : RulesetId) : Option String :=
  (deallocatedRulesetIdentity state id).map formatDropRuleset

namespace Batch

/-! ## The parts of what one event writes -/

/-- The `DOMAIN` records of one event. -/
def domainRecords (batch : Batch) (event : Event) : List String :=
  (affectedDomainIds event).filterMap fun id =>
    changedRecord (domainView batch.state id) (domainView (batch.state.apply event) id)

/-- The `DENIAL` record of one event. -/
def denialRecord (order : IterOrder DenialKey AggregatedDenial) (batch : Batch)
    (event : Event) : Option String :=
  (DenialKind.fromEvent event).bind fun kind =>
    (batch.denials.observeEntry order event).2.bind (formatDenial kind)

/-- Everything that one event writes before its `STATS` record. -/
def changeRecords (order : IterOrder DenialKey AggregatedDenial) (batch : Batch)
    (event : Event) : List String :=
  batch.domainRecords event ++ (dropRecord batch.state (batch.state.apply event) event).toList ++
    (batch.denialRecord order event).toList

section OneEvent

variable (order : IterOrder DenialKey AggregatedDenial) (batch : Batch) (event : Event)

/-- The loop writes the changed record of each domain that it looks at. -/
private theorem domainChanges_snd (before after : State) (ids : List DomainId)
    (allocated : Nat) : (domainChanges before after ids allocated).2 =
      ids.filterMap fun id => changedRecord (domainView before id) (domainView after id) := by
  have hfold := List.foldl_collect
    (fun allocated id => countAllocated (domainView before id) (domainView after id) allocated)
    (fun id => changedRecord (domainView before id) (domainView after id)) ids allocated []
  exact congrArg Prod.snd hfold

/-- The counters that a `STATS` record shows follow whatever was written, and also stand
    alone when they changed. -/
theorem process_records :
    (batch.process order event).2 = batch.changeRecords order event ++
      if batch.changeRecords order event ≠ [] ∨
          (batch.allocatedDomains, batch.state.domainCount) ≠
            ((batch.process order event).1.allocatedDomains,
              (batch.process order event).1.state.domainCount) then
        [formatStats (batch.process order event).1.allocatedDomains
          (batch.process order event).1.state.domainCount (batch.process order event).1.stats]
      else [] := by
  unfold changeRecords domainRecords denialRecord
  rw [← domainChanges_snd _ _ _ batch.allocatedDomains]
  unfold process
  cases DenialKind.fromEvent event <;> rfl

/-- The comparison of `process` is the one of the lines. -/
private theorem changedRecord_domainView (before after : State) (id : DomainId) :
    changedRecord (domainView before id) (domainView after id) =
      if domainText after id = domainText before id then none else domainText after id := by
  have hfst : ∀ state, (domainView state id).map Prod.fst = domainText state id := by
    intro state
    rw [domainView, Option.map_map]
    rfl
  rw [changedRecord, hfst, hfst, ite_not]

/-- These records are of one kind, -/
private theorem recordTag_domainRecords {record : String}
    (h : record ∈ batch.domainRecords event) : recordTag record = ['D', 'O'] := by
  obtain ⟨id, -, hrecord⟩ := List.mem_filterMap.mp h
  rw [changedRecord_domainView] at hrecord
  split at hrecord
  · cases hrecord
  · obtain ⟨domain, -, rfl⟩ := Option.map_eq_some_iff.mp hrecord
    exact recordTag_formatDomain domain

/-- The line of a deallocated ruleset is about that ruleset. -/
private theorem deallocatedRulesetIdentity_rulesetId {state : State} {id : RulesetId}
    {version : RulesetVersion} (h : deallocatedRulesetIdentity state id = some version) :
    version.rulesetId = id := by
  unfold deallocatedRulesetIdentity at h
  split at h
  · cases h
  · split at h
    · cases h
    · obtain ⟨final, -, rfl⟩ := Option.map_eq_some_iff.mp h
      rfl

/-- A `DROP_RULESET` record is about the ruleset that the event frees. -/
theorem dropRecord_eq_some {before after : State} {event : Event} {record : String}
    (h : dropRecord before after event = some record) :
    ∃ (free : FreeRulesetEvent) (version : RulesetVersion), event = .freeRuleset free ∧
      version.rulesetId = free.rulesetId ∧ record = formatDropRuleset version := by
  cases event with
  | freeRuleset free =>
    simp only [dropRecord] at h
    split at h
    · obtain ⟨version, hversion, rfl⟩ := Option.map_eq_some_iff.mp h
      exact ⟨free, version, rfl, deallocatedRulesetIdentity_rulesetId hversion, rfl⟩
    · cases h
  | _ => cases h

/-- those of a dropped ruleset of another, -/
private theorem recordTag_dropRecord {before after : State} {record : String}
    (h : record ∈ (dropRecord before after event).toList) : recordTag record = ['D', 'R'] := by
  rw [Option.mem_toList] at h
  obtain ⟨_, version, -, -, rfl⟩ := dropRecord_eq_some h
  exact recordTag_formatDropRuleset version

/-- and those of a denial of a third. -/
private theorem isDenialRecord_denialRecord {record : String}
    (h : record ∈ (batch.denialRecord order event).toList) : isDenialRecord record = true := by
  rw [Option.mem_toList] at h
  obtain ⟨kind, -, h⟩ := Option.bind_eq_some_iff.mp h
  obtain ⟨entry, -, h⟩ := Option.bind_eq_some_iff.mp h
  exact isDenialRecord_formatDenial h

/-- A denial is aggregated, and the entry shows it as its latest event. -/
private theorem isSome_denialRecord :
    (batch.denialRecord order event).isSome = (DenialKind.fromEvent event).isSome := by
  unfold denialRecord
  cases hkind : DenialKind.fromEvent event with
  | none => rfl
  | some kind =>
    -- The three functions know the same five kinds of denials
    obtain ⟨facts, hfacts⟩ : ∃ facts, denialFacts event = some facts := by
      cases event <;> first | exact ⟨_, rfl⟩ | cases hkind
    obtain ⟨fields, hfields⟩ : ∃ fields, denialFields event = some fields := by
      cases event <;> first | exact ⟨_, rfl⟩ | cases hkind
    obtain ⟨entry, hentry, hlatest⟩ :=
      DenialAggregator.observeEntry_latestEvent order batch.denials hfacts
    rw [Option.bind_some, hentry, Option.bind_some, formatDenial, hlatest, hfields]
    rfl

/-- The `STATS` record of one event, if there is one. -/
private theorem process_statsRecords : ∃ records,
    (batch.process order event).2 = batch.changeRecords order event ++ records ∧
      ∀ record ∈ records, isStatsRecord record = true := by
  refine ⟨_, process_records order batch event, ?_⟩
  intro record hrecord
  split at hrecord
  · rw [List.mem_singleton.mp hrecord]
    exact isStatsRecord_formatStats _ _ _
  · cases hrecord

end OneEvent

/-- Records of one kind are none of another kind. -/
private theorem filter_eq_nil_of_tag {p : String → Bool} {records : List String}
    {tag tag' : List Char} (hp : ∀ record, p record = true → recordTag record = tag)
    (hrecords : ∀ record ∈ records, recordTag record = tag') (hne : tag' ≠ tag) :
    records.filter p = [] := by
  rw [List.filter_eq_nil_iff]
  intro record hrecord htrue
  exact hne ((hrecords record hrecord).symm.trans (hp record htrue))

section Filters

variable (order : IterOrder DenialKey AggregatedDenial) (batch : Batch) (event : Event)

/-- Of everything that one event writes, a kind of record picks its own part. -/
private theorem filter_process {p : String → Bool} {tag : List Char}
    (hp : ∀ record, p record = true → recordTag record = tag) (hstats : tag ≠ ['S', 'T']) :
    (batch.process order event).2.filter p =
      (if tag = ['D', 'O'] then (batch.domainRecords event).filter p else []) ++
      (if tag = ['D', 'R'] then
        (dropRecord batch.state (batch.state.apply event) event).toList.filter p else []) ++
      (if tag = ['D', 'E'] then (batch.denialRecord order event).toList.filter p else []) := by
  obtain ⟨records, hrecords, htag⟩ := process_statsRecords order batch event
  -- The parts are of one kind each, and all but one are filtered out
  have hnil : records.filter p = [] :=
    filter_eq_nil_of_tag hp (fun r hr => recordTag_of_isStatsRecord (htag r hr)) hstats.symm
  rw [hrecords, List.filter_append, hnil, List.append_nil, changeRecords, List.filter_append,
    List.filter_append]
  congr 1
  · congr 1
    · split
      · rfl
      · rename_i hne
        exact filter_eq_nil_of_tag hp (fun _ hr => recordTag_domainRecords batch event hr)
          (Ne.symm hne)
    · split
      · rfl
      · rename_i hne
        exact filter_eq_nil_of_tag hp (fun _ hr => recordTag_dropRecord event hr) (Ne.symm hne)
  · split
    · rfl
    · rename_i hne
      exact filter_eq_nil_of_tag hp (fun _ hr => recordTag_of_isDenialRecord
        (isDenialRecord_denialRecord order batch event hr)) (Ne.symm hne)

/-- What one event writes about one domain is its line, if that changed. -/
theorem filter_isDomainRecord_process (hintegrity : batch.state.Integrity) (id : DomainId) :
    (batch.process order event).2.filter (isDomainRecord id) =
      if domainText (batch.state.apply event) id = domainText batch.state id then []
      else (domainText (batch.state.apply event) id).toList := by
  have hafter := hintegrity.apply event
  -- An entry of the state has the identity it is stored under
  have hfor : ∀ id' ∈ affectedDomainIds event, ∀ record,
      changedRecord (domainView batch.state id') (domainView (batch.state.apply event) id') =
        some record → isDomainRecord id record = decide (id' = id) := by
    intro id' _ record hrecord
    rw [changedRecord_domainView] at hrecord
    split at hrecord
    · cases hrecord
    · obtain ⟨domain, hdomain, rfl⟩ := Option.map_eq_some_iff.mp hrecord
      rw [isDomainRecord_formatDomain, (hafter.domains id' domain hdomain).id_eq]
  rw [filter_process order batch event (fun _ => recordTag_of_isDomainRecord) (by decide)]
  simp only [↓reduceIte, List.cons.injEq, Char.reduceEq, and_true, and_false, List.append_nil]
  rw [domainRecords, ChangeLog.filter_filterMap (nodup_affectedDomainIds event) id hfor,
    changedRecord_domainView]
  by_cases hmem : id ∈ affectedDomainIds event
  · rw [if_pos hmem]
    split <;> rfl
  · -- a domain that `process` does not look at did not change
    have hsame := State.domain_apply_of_notMem batch.state (mt mem_affectedDomainIds.mpr hmem)
    have htext : domainText (batch.state.apply event) id = domainText batch.state id :=
      congrArg (Option.map formatDomain) hsame
    rw [if_neg hmem, if_pos htext]

/-- The comparison of identities in `process` is the one of the lines. -/
private theorem dropText_eq_iff (before after : State) (id : RulesetId) :
    dropText after id = dropText before id ↔
      deallocatedRulesetIdentity after id = deallocatedRulesetIdentity before id := by
  refine ⟨fun htext => ?_, congrArg (Option.map formatDropRuleset)⟩
  unfold dropText at htext
  cases hafter : deallocatedRulesetIdentity after id with
  | none =>
    rw [hafter, Option.map_none, eq_comm, Option.map_eq_none_iff] at htext
    exact htext.symm
  | some current =>
    rw [hafter, Option.map_some, eq_comm] at htext
    obtain ⟨previous, hbefore, hformat⟩ := Option.map_eq_some_iff.mp htext
    have hid : previous.rulesetId = current.rulesetId :=
      (deallocatedRulesetIdentity_rulesetId hbefore).trans
        (deallocatedRulesetIdentity_rulesetId hafter).symm
    rw [hbefore, formatDropRuleset_inj hid hformat]

/-- What is written about the ruleset that an event frees. -/
private theorem filter_dropRecord_self (before after : State) (free : FreeRulesetEvent) :
    (dropRecord before after (.freeRuleset free)).toList.filter (isDropRecord free.rulesetId) =
      if dropText after free.rulesetId = dropText before free.rulesetId then []
      else (dropText after free.rulesetId).toList := by
  simp only [dropRecord, dropText_eq_iff, ne_eq, ite_not]
  split
  · rfl
  · unfold dropText
    cases hafter : deallocatedRulesetIdentity after free.rulesetId with
    | none => rfl
    | some version =>
      have hself : isDropRecord free.rulesetId (formatDropRuleset version) = true := by
        simp [isDropRecord_formatDropRuleset, deallocatedRulesetIdentity_rulesetId hafter]
      exact List.filter_cons_of_pos hself

/-- What one event writes about one ruleset is its line, if that changed. -/
theorem filter_isDropRecord_process (id : RulesetId) :
    (batch.process order event).2.filter (isDropRecord id) =
      if dropText (batch.state.apply event) id = dropText batch.state id then []
      else (dropText (batch.state.apply event) id).toList := by
  rw [filter_process order batch event (fun _ => recordTag_of_isDropRecord) (by decide)]
  simp only [↓reduceIte, List.cons.injEq, Char.reduceEq, and_true, and_false, List.append_nil,
    List.nil_append]
  by_cases hfree : ∃ free, event = .freeRuleset free ∧ free.rulesetId = id
  · obtain ⟨free, rfl, rfl⟩ := hfree
    exact filter_dropRecord_self batch.state _ free
  · have hsame := State.deallocatedRulesetIdentity_apply batch.state
      (fun free hfreed hid => hfree ⟨free, hfreed, hid⟩)
    have htext : dropText (batch.state.apply event) id = dropText batch.state id :=
      congrArg (Option.map formatDropRuleset) hsame
    -- The ruleset kept its text, since another one was freed or none was
    rw [if_pos htext, List.filter_eq_nil_iff]
    -- A record that is there is about another ruleset
    intro record hrecord htrue
    rw [Option.mem_toList] at hrecord
    obtain ⟨free, version, hevent, hversion, rfl⟩ := dropRecord_eq_some hrecord
    rw [isDropRecord_formatDropRuleset, decide_eq_true_iff, hversion] at htrue
    exact hfree ⟨free, hevent, htrue⟩

/-- Among the records of an event, only the one of its denial is a `DENIAL` record. -/
theorem filter_isDenialRecord_process_eq :
    (batch.process order event).2.filter isDenialRecord =
      (batch.denialRecord order event).toList := by
  rw [filter_process order batch event (fun _ => recordTag_of_isDenialRecord) (by decide)]
  simp only [↓reduceIte, List.cons.injEq, Char.reduceEq, and_true, and_false, List.nil_append]
  exact List.filter_eq_self.mpr fun _ => isDenialRecord_denialRecord order batch event

/-- Batch mode writes a record for each denial, and for nothing else. -/
private theorem filter_isDenialRecord_process :
    ((batch.process order event).2.filter isDenialRecord).length =
      if (DenialKind.fromEvent event).isSome then 1 else 0 := by
  rw [filter_isDenialRecord_process_eq, ← isSome_denialRecord order batch event]
  cases batch.denialRecord order event <;> rfl

/-- No record before the last one has the counters. -/
private theorem not_isStatsRecord_changeRecords {record : String}
    (h : record ∈ batch.changeRecords order event) : ¬ isStatsRecord record = true := by
  intro hstats
  have htag := recordTag_of_isStatsRecord hstats
  unfold changeRecords at h
  rw [List.mem_append, List.mem_append] at h
  rcases h with (h | h) | h
  · rw [recordTag_domainRecords batch event h] at htag
    simp at htag
  · rw [recordTag_dropRecord event h] at htag
    simp at htag
  · rw [recordTag_of_isDenialRecord (isDenialRecord_denialRecord order batch event h)] at htag
    simp at htag

/-- The counters of a batch, as its `STATS` record shows them. -/
def counters (batch : Batch) : Nat × Nat × Stats :=
  (batch.allocatedDomains, batch.state.domainCount, batch.stats)

/-- An event writes nothing and changes no counter, or its last record is the only one
    with the counters. -/
private theorem process_records_cases :
    ((batch.process order event).2 = [] ∧ (batch.process order event).1.counters = batch.counters) ∨
    (batch.process order event).2 = batch.changeRecords order event ++
      [formatStats (batch.process order event).1.allocatedDomains
        (batch.process order event).1.state.domainCount (batch.process order event).1.stats] := by
  rw [process_records]
  split
  · exact .inr rfl
  · rename_i hsilent
    obtain ⟨hnil, hcounters⟩ := not_or.mp hsilent
    rw [not_not] at hnil hcounters
    left
    refine ⟨by rw [hnil, List.append_nil], ?_⟩
    -- Without a denial the counts of denials stay
    have hdenial : (batch.denialRecord order event).toList = [] :=
      (List.append_eq_nil_iff.mp hnil).2
    have hkind : DenialKind.fromEvent event = none := by
      have hsome := isSome_denialRecord order batch event
      rw [Option.toList_eq_nil_iff.mp hdenial] at hsome
      simpa using hsome.symm
    have hstats : (batch.process order event).1.stats = batch.stats := by
      unfold process
      rw [hkind]
    obtain ⟨hallocated, htotal⟩ := Prod.mk.inj hcounters
    rw [counters, counters, hstats, ← hallocated, ← htotal]

end Filters

/-! ## Whole sequences -/

/-- The last counters that were written, with all of them zero before the first. -/
def CountersShown (batch : Batch) (written : List String) : Prop :=
  match (written.filter isStatsRecord).getLast? with
  | some record =>
    record = formatStats batch.allocatedDomains batch.state.domainCount batch.stats
  | none => batch.allocatedDomains = 0 ∧ batch.state.domainCount = 0 ∧ batch.stats = .zero

/-- What a reader has who keeps the last record of each kind and object. -/
structure Mirrored (batch : Batch) (written : List String) : Prop where
  /-- The last record about a domain of the state is its current line. -/
  domain : ∀ id domain, batch.state.domain id = some domain →
    (written.filter (isDomainRecord id)).getLast? = some (formatDomain domain)
  /-- There is no record about a domain that the state does not have. -/
  noDomain : ∀ id, batch.state.domain id = none → written.filter (isDomainRecord id) = []
  /-- The last record about a deallocated ruleset shows its final version. -/
  drop : ∀ id ruleset, batch.state.ruleset id = some ruleset →
    ruleset.lifecycle = .deallocated → ∃ version, ruleset.finalVersion = some version ∧
      (written.filter (isDropRecord id)).getLast? = some (formatDropRuleset ⟨id, version⟩)
  /-- There is no record about another ruleset. -/
  noDrop : ∀ id, (∀ ruleset, batch.state.ruleset id = some ruleset →
    ruleset.lifecycle ≠ .deallocated) → written.filter (isDropRecord id) = []
  /-- A record about a domain differs from the one before. -/
  domainChanges : ∀ id, (written.filter (isDomainRecord id)).IsChain (· ≠ ·)
  /-- A record about a ruleset differs from the one before. -/
  dropChanges : ∀ id, (written.filter (isDropRecord id)).IsChain (· ≠ ·)
  /-- The last counters are the current ones. -/
  stats : CountersShown batch written

/-- What one call of `process` writes. -/
structure WellFormed (event : Event) (records : List String) : Prop where
  /-- One record for a denial, and none for another event. -/
  denial : (records.filter isDenialRecord).length =
    if (DenialKind.fromEvent event).isSome then 1 else 0
  /-- Nothing, or records of which the last one and only that has the counters. -/
  stats : records = [] ∨ ∃ changes counters, records = changes ++ [counters] ∧
    isStatsRecord counters = true ∧ ∀ record ∈ changes, isStatsRecord record = false

/-- What one event writes is well formed. -/
private theorem wellFormed_process (order : IterOrder DenialKey AggregatedDenial)
    (batch : Batch) (event : Event) : WellFormed event (batch.process order event).2 where
  denial := filter_isDenialRecord_process order batch event
  stats := by
    rcases process_records_cases order batch event with ⟨hnil, -⟩ | hrecords
    · exact .inl hnil
    · exact .inr ⟨_, _, hrecords, isStatsRecord_formatStats _ _ _, fun record hrecord =>
        Bool.eq_false_iff.mpr (not_isStatsRecord_changeRecords order batch event hrecord)⟩

/-- What every event keeps: the log of records mirrors the texts of the state. -/
private structure Follows (batch : Batch) (written : List String) : Prop where
  integrity : batch.state.Integrity
  domains : ChangeLog.Mirrors isDomainRecord written (domainText batch.state)
  drops : ChangeLog.Mirrors isDropRecord written (dropText batch.state)
  stats : CountersShown batch written

/-- At the start nothing is written and nothing is known. -/
private theorem follows_new : Follows new [] where
  integrity := State.Integrity.new
  domains := ChangeLog.mirrors_nil _
  drops := ChangeLog.mirrors_nil _
  stats := ⟨rfl, rfl, rfl⟩

section Step

variable {batch : Batch} {written : List String}
  (order : IterOrder DenialKey AggregatedDenial) (event : Event)

/-- One event leaves the counters that were written last right. -/
private theorem CountersShown.process (h : CountersShown batch written) :
    CountersShown (batch.process order event).1 (written ++ (batch.process order event).2) := by
  rcases process_records_cases order batch event with ⟨hnil, hcounters⟩ | hrecords
  · obtain ⟨hallocated, hrest⟩ := Prod.mk.inj hcounters
    obtain ⟨htotal, hstats⟩ := Prod.mk.inj hrest
    unfold CountersShown
    rw [hnil, List.append_nil, hallocated, htotal, hstats]
    exact h
  · -- the event's own counters are the last ones
    unfold CountersShown
    rw [hrecords, ← List.append_assoc, List.filter_append,
      List.filter_cons_of_pos (isStatsRecord_formatStats _ _ _), List.filter_nil,
      List.getLast?_concat]

/-- A ruleset that was dropped stays dropped. -/
private theorem dropText_apply_eq_none (state : State) {id : RulesetId}
    (h : dropText (state.apply event) id = none) : dropText state id = none := by
  unfold dropText at h ⊢
  rw [Option.map_eq_none_iff] at h ⊢
  by_cases hfree : ∃ free, event = .freeRuleset free ∧ free.rulesetId = id
  · obtain ⟨free, rfl, rfl⟩ := hfree
    exact absurd h (State.deallocatedRulesetIdentity_freeRuleset state free)
  · rw [← State.deallocatedRulesetIdentity_apply state
      (fun free hfreed hid => hfree ⟨free, hfreed, hid⟩)]
    exact h

/-- A domain that was known stays known. -/
private theorem domainText_apply_eq_none (state : State) {id : DomainId}
    (h : domainText (state.apply event) id = none) : domainText state id = none := by
  unfold domainText at h ⊢
  rw [Option.map_eq_none_iff] at h ⊢
  exact State.domain_apply_eq_none state h

/-- One event keeps the log and the state together. -/
private theorem Follows.process (h : Follows batch written) :
    Follows (batch.process order event).1 (written ++ (batch.process order event).2) where
  integrity := h.integrity.apply event
  domains := h.domains.append (filter_isDomainRecord_process order batch event h.integrity)
    fun _ => domainText_apply_eq_none event batch.state
  drops := h.drops.append (filter_isDropRecord_process order batch event)
    fun _ => dropText_apply_eq_none event batch.state
  stats := h.stats.process order event

end Step

/-- The log mirrors the state after every event sequence. -/
private theorem follows_processAll
    (steps : List (IterOrder DenialKey AggregatedDenial × Event)) :
    Follows (processAll steps).1 (processAll steps).2 := by
  induction steps using List.reverseRecOn with
  | nil => exact follows_new
  | append_singleton steps step ih =>
    rw [processAll_concat]
    exact ih.process step.1 step.2

/-- What the log mirrors, for a reader. -/
private theorem Follows.mirrored {batch : Batch} {written : List String}
    (h : Follows batch written) : Mirrored batch written := by
  have hdomain : ∀ id, (written.filter (isDomainRecord id)).getLast? =
      (batch.state.domain id).map formatDomain := h.domains.last
  have hdrop : ∀ id, (written.filter (isDropRecord id)).getLast? =
      (deallocatedRulesetIdentity batch.state id).map formatDropRuleset := h.drops.last
  -- The texts of the log are those of records of the state
  refine ⟨?_, ?_, ?_, ?_, h.domains.changes, h.drops.changes, h.stats⟩
  · intro id domain hlookup
    rw [hdomain, hlookup, Option.map_some]
  · intro id hlookup
    rw [← List.getLast?_eq_none_iff, hdomain, hlookup, Option.map_none]
  · intro id ruleset hlookup hlifecycle
    have hintegrity := h.integrity.rulesets id ruleset hlookup
    obtain ⟨version, hversion⟩ := Option.isSome_iff_exists.mp
      (hintegrity.final_iff.mp (hintegrity.lifecycle_iff.mp hlifecycle))
    refine ⟨version, hversion, ?_⟩
    rw [hdrop, deallocatedRulesetIdentity, hlookup]
    simp [hlifecycle, hversion]
  · intro id hother
    rw [← List.getLast?_eq_none_iff, hdrop, Option.map_eq_none_iff, deallocatedRulesetIdentity]
    split
    · rfl
    · rename_i ruleset hlookup
      rw [if_pos (hother ruleset hlookup)]

/-- After every sequence of events, the last records mirror the state and the counters,
    and one more event writes one record for a denial and ends with its counters. -/
theorem processAll_mirrors (steps : List (IterOrder DenialKey AggregatedDenial × Event)) :
    Mirrored (processAll steps).1 (processAll steps).2 ∧
      ∀ order event, WellFormed event ((processAll steps).1.process order event).2 := by
  refine ⟨(follows_processAll steps).mirrored, fun order event => ?_⟩
  exact wellFormed_process order _ event

end Batch

end Landlock
