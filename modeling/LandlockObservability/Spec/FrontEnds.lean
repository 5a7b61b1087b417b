import LandlockObservability.Model.Observation
import LandlockObservability.Spec.AggregateRefines
import LandlockObservability.Spec.BatchFootprint
import Mathlib.Order.Interval.Finset.Nat

/-!
# The two front ends agree

Batch mode and the interactive mode keep the same state, the same denials and the same
counters.  Batch mode adjusts its number of allocated domains by what one event did to the
domains that it names; the interactive mode counts all domains.  The two numbers are equal
because the named domains are all that change, and no one is looked at twice.

## Key results

- `Batch.allocated_domainChanges`: the counter after each domain that the loop looked at
- `front_ends_agree`: what both front ends have after every event sequence
-/

namespace Landlock

/-! ## Allocated domains -/

namespace State

/-- The allocated domains. -/
def allocatedIds (state : State) : Finset DomainId :=
  state.domains.keys.filter fun id =>
    (state.domains.lookup id).any fun domain => domain.lifecycle = .allocated

/-- A domain is allocated if its record says so. -/
private theorem mem_allocatedIds {state : State} {id : DomainId} :
    id ∈ state.allocatedIds ↔ ∃ domain, state.domain id = some domain ∧
      domain.lifecycle = .allocated := by
  rw [allocatedIds, Finset.mem_filter, Finmap.mem_keys, domain]
  cases hlookup : state.domains.lookup id with
  | none => simp
  | some domain =>
    have hmem : id ∈ state.domains := Finmap.mem_iff.mpr ⟨domain, hlookup⟩
    simp [hmem]

end State

/-- There are fewer domain IDs than values of `usize`, since the small ones are not used. -/
private theorem card_domainIds_lt (ids : Finset DomainId) : ids.card < usizeMax := by
  -- The IDs start at 2 ^ 32
  have hmaps : ∀ id ∈ ids, id.value.toNat ∈ Finset.Ico (2 ^ 32) (2 ^ 64) := by
    intro id _
    have hmin : minLandlockId.toNat ≤ id.value.toNat := id.minLe
    have hlt : id.value.toNat < 2 ^ 64 := id.value.toNat_lt
    rw [Finset.mem_Ico]
    exact ⟨hmin, hlt⟩
  have hinj : Set.InjOn (fun id : DomainId => id.value.toNat) ids := by
    intro a _ b _ hab
    cases a
    cases b
    cases UInt64.toNat.inj hab
    rfl
  have hcard := Finset.card_le_card_of_injOn _ hmaps hinj
  rw [Nat.card_Ico] at hcard
  have hmax : usizeMax = 2 ^ 64 - 1 := rfl
  omega

namespace Batch

/-- Whether the arithmetic of the counter saturates at one domain. -/
def Saturates (previous current : Option (String × Bool)) (allocated : Nat) : Prop :=
  match previous.map Prod.snd, current with
  | some true, some (_, false) => allocated = 0
  | some false, some (_, true) => allocated = usizeMax
  | none, some (_, true) => allocated = usizeMax
  | _, _ => False

/-- The allocated domains, with the domains of `done` as they are after the event and the
    others as they are before it. -/
def allocatedSince (before after : State) (done : List DomainId) : Finset DomainId :=
  (before.allocatedIds \ done.toFinset) ∪ (after.allocatedIds ∩ done.toFinset)

section

variable (before after : State) {done : List DomainId} {id : DomainId}

/-- Looking at a domain that is allocated afterwards counts it, -/
private theorem allocatedSince_concat_of_mem (h : id ∈ after.allocatedIds) :
    allocatedSince before after (done ++ [id]) = insert id (allocatedSince before after done) := by
  ext x
  simp only [allocatedSince, Finset.mem_union, Finset.mem_sdiff, Finset.mem_inter,
    List.mem_toFinset, List.mem_append, List.mem_singleton, Finset.mem_insert]
  grind

/-- and looking at another one does not. -/
private theorem allocatedSince_concat_of_notMem (h : id ∉ after.allocatedIds) :
    allocatedSince before after (done ++ [id]) = (allocatedSince before after done).erase id := by
  ext x
  simp only [allocatedSince, Finset.mem_union, Finset.mem_sdiff, Finset.mem_inter,
    List.mem_toFinset, List.mem_append, List.mem_singleton, Finset.mem_erase]
  grind

/-- A domain that was not looked at yet is as it was before. -/
private theorem mem_allocatedSince_of_notMem (h : id ∉ done) :
    id ∈ allocatedSince before after done ↔ id ∈ before.allocatedIds := by
  simp [allocatedSince, h]

/-- What the loop sees of a domain tells whether it is allocated. -/
private theorem map_snd_domainView (state : State) (id : DomainId) :
    (domainView state id).map Prod.snd =
      (state.domain id).map fun _ => decide (id ∈ state.allocatedIds) := by
  unfold domainView
  cases hdomain : state.domain id with
  | none => rfl
  | some domain => simp [State.mem_allocatedIds, hdomain]

/-- One domain that is looked at: the counter stays the number of allocated domains, and its
    arithmetic does not saturate. -/
private theorem countAllocated_card (hid : id ∉ done) (hafter : (after.domain id).isSome) :
    ¬ Saturates (domainView before id) (domainView after id)
        (allocatedSince before after done).card ∧
      countAllocated (domainView before id) (domainView after id)
        (allocatedSince before after done).card =
        (allocatedSince before after (done ++ [id])).card := by
  obtain ⟨domain, hdomain⟩ := Option.isSome_iff_exists.mp hafter
  have hcurrent : domainView after id =
      some (formatDomain domain, decide (id ∈ after.allocatedIds)) := by
    simp [domainView, State.mem_allocatedIds, hdomain]
  have hprevious := map_snd_domainView before id
  have hold := mem_allocatedSince_of_notMem before after hid
  have hlt := card_domainIds_lt (allocatedSince before after done)
  unfold Saturates countAllocated
  rw [hprevious, hcurrent]
  -- Four cases: allocated or not before the event, and after it
  by_cases hwas : id ∈ before.allocatedIds
  · obtain ⟨previous, hbefore, -⟩ := State.mem_allocatedIds.mp hwas
    have hmem : id ∈ allocatedSince before after done := hold.mpr hwas
    rw [hbefore]
    by_cases hnow : id ∈ after.allocatedIds
    · rw [allocatedSince_concat_of_mem before after hnow, Finset.insert_eq_of_mem hmem]
      simp [hwas, hnow]
    · -- a freed domain is one of those that were counted
      rw [allocatedSince_concat_of_notMem before after hnow, Finset.card_erase_of_mem hmem]
      have hpos : 0 < (allocatedSince before after done).card := Finset.card_pos.mpr ⟨id, hmem⟩
      simp only [hwas, hnow, Option.map_some, decide_true, decide_false]
      exact ⟨by omega, trivial⟩
  · have hnotMem : id ∉ allocatedSince before after done := fun h => hwas (hold.mp h)
    by_cases hnow : id ∈ after.allocatedIds
    · rw [allocatedSince_concat_of_mem before after hnow, Finset.card_insert_of_notMem hnotMem]
      cases before.domain id <;>
        simp only [hwas, hnow, Option.map_none, Option.map_some, decide_true, decide_false] <;>
        exact ⟨by omega, by omega⟩
    · rw [allocatedSince_concat_of_notMem before after hnow, Finset.erase_eq_of_notMem hnotMem]
      cases before.domain id <;> simp [hwas, hnow]

/-- The counter after the domains of `done`. -/
theorem allocated_domainChanges (hdone : done.Nodup)
    (hafter : ∀ id ∈ done, (after.domain id).isSome) :
    (domainChanges before after done before.allocatedIds.card).1 =
      (allocatedSince before after done).card := by
  induction done using List.reverseRecOn with
  | nil => simp [domainChanges, allocatedSince]
  | append_singleton done id ih =>
    rw [List.nodup_append] at hdone
    have hid : id ∉ done := fun h => hdone.2.2 id h id (by simp) rfl
    have hcount := ih hdone.1 fun x hx => hafter x (by simp [hx])
    rw [← (countAllocated_card before after hid (hafter id (by simp))).2, ← hcount]
    simp [domainChanges, List.foldl_append]

/-- After all domains that an event names, the counter is that of the new state. -/
private theorem allocatedSince_affectedDomainIds (state : State) (event : Event) :
    allocatedSince state (state.apply event) (affectedDomainIds event) =
      (state.apply event).allocatedIds := by
  ext id
  simp only [allocatedSince, Finset.mem_union, Finset.mem_sdiff, Finset.mem_inter,
    List.mem_toFinset]
  by_cases hid : id ∈ affectedDomainIds event
  · simp [hid]
  · -- the other domains did not change
    have hsame : (state.apply event).domain id = state.domain id :=
      state.domain_apply_of_notMem fun h => hid (mem_affectedDomainIds.mpr h)
    simp [hid, State.mem_allocatedIds, hsame]

end

/-! ## One event -/

section

variable (order : IterOrder DenialKey AggregatedDenial) (batch : Batch) (event : Event)

/-- Batch mode applies the event to its state. -/
private theorem process_state : (batch.process order event).1.state = batch.state.apply event := by
  unfold process
  cases DenialKind.fromEvent event <;> rfl

/-- The counter is the one that the loop returns. -/
private theorem process_allocatedDomains :
    (batch.process order event).1.allocatedDomains =
      (domainChanges batch.state (batch.state.apply event) (affectedDomainIds event)
        batch.allocatedDomains).1 := by
  unfold process
  cases DenialKind.fromEvent event <;> rfl

/-- The statistics count the kind of a denial. -/
private theorem process_stats :
    (batch.process order event).1.stats =
      (DenialKind.fromEvent event).elim batch.stats batch.stats.observe := by
  unfold process
  cases DenialKind.fromEvent event <;> rfl

/-- Batch mode asks for the kind first, but the aggregator ignores other events anyway. -/
private theorem process_denials :
    (batch.process order event).1.denials = batch.denials.observe order event := by
  unfold process DenialAggregator.observe
  cases event <;> rfl

end

/-- Batch mode keeps the denials of the events. -/
private theorem processAll_denials (steps : List (IterOrder DenialKey AggregatedDenial × Event)) :
    (processAll steps).1.denials = DenialAggregator.new.observeAll steps := by
  induction steps using List.reverseRecOn with
  | nil => rfl
  | append_singleton steps step ih =>
    rw [processAll_concat, process_denials, ih]
    simp [DenialAggregator.observeAll]

end Batch

namespace ObservationModel

/-- One more event. -/
theorem observeAll_concat (steps : List (IterOrder DenialKey AggregatedDenial × Event))
    (step : IterOrder DenialKey AggregatedDenial × Event) :
    observeAll (steps ++ [step]) = (observeAll steps).observe step.1 step.2 := by
  simp [observeAll]

/-- The interactive mode keeps the denials of the events. -/
theorem observeAll_denials (steps : List (IterOrder DenialKey AggregatedDenial × Event)) :
    (observeAll steps).denials = DenialAggregator.new.observeAll steps := by
  induction steps using List.reverseRecOn with
  | nil => rfl
  | append_singleton steps step ih =>
    rw [observeAll_concat]
    simp [observe, ih, DenialAggregator.observeAll]

/-- The interactive mode counts the allocated domains. -/
private theorem allocatedDomains_eq (model : ObservationModel) :
    model.allocatedDomains = model.state.allocatedIds.card :=
  Finmap.countP_entries model.state.domains fun domain => domain.lifecycle = .allocated

end ObservationModel

/-! ## Whole sequences -/

/-- What the front ends have in common apart from the denials. -/
structure Agrees (batch : Batch) (model : ObservationModel) : Prop where
  state : batch.state = model.state
  total : batch.stats.totalDenials = model.stats.total
  kinds : batch.stats.denials = model.stats.byKind
  allocated : batch.allocatedDomains = model.state.allocatedIds.card

/-- One event keeps the front ends together. -/
theorem Agrees.step {batch : Batch} {model : ObservationModel} (h : Agrees batch model)
    (order order' : IterOrder DenialKey AggregatedDenial) (event : Event) :
    Agrees (batch.process order event).1 (model.observe order' event) where
  state := by
    rw [Batch.process_state, h.state]
    rfl
  -- Both count the same five kinds of denials
  total := by
    rw [Batch.process_stats]
    have htotal := h.total
    cases event <;> simp [DenialKind.fromEvent, ObservationModel.observe,
      ObservationModel.countOf, Stats.observe, htotal]
  kinds := by
    rw [Batch.process_stats]
    have hkinds := h.kinds
    funext kind
    cases event <;> simp [DenialKind.fromEvent, ObservationModel.observe,
      ObservationModel.countOf, Stats.observe, Function.update_apply, hkinds] <;> grind
  allocated := by
    have hcount := Batch.allocated_domainChanges model.state (model.state.apply event)
      (nodup_affectedDomainIds event) fun id hid =>
        model.state.isSome_domain_apply (mem_affectedDomainIds.mp hid)
    rw [Batch.process_allocatedDomains, h.allocated, h.state, hcount,
      Batch.allocatedSince_affectedDomainIds]
    rfl

/-- So does a sequence of events. -/
private theorem agrees_run
    (steps : List (IterOrder DenialKey AggregatedDenial × IterOrder DenialKey AggregatedDenial ×
      Event)) :
    Agrees (Batch.processAll (steps.map fun s => (s.1, s.2.2))).1
      (ObservationModel.observeAll (steps.map Prod.snd)) := by
  induction steps using List.reverseRecOn with
  | nil => exact ⟨rfl, rfl, rfl, rfl⟩
  | append_singleton steps step ih =>
    rw [List.map_append, List.map_append, List.map_cons, List.map_cons, List.map_nil,
      List.map_nil, Batch.processAll_concat, ObservationModel.observeAll_concat]
    exact ih.step _ _ _

/-- The two front ends agree after every event sequence, whatever the traversal orders of
    their denial tables, and the arithmetic of batch mode's counter never saturates. -/
theorem front_ends_agree
    (steps : List (IterOrder DenialKey AggregatedDenial × IterOrder DenialKey AggregatedDenial ×
      Event)) :
    let batch := (Batch.processAll (steps.map fun s => (s.1, s.2.2))).1
    let model := ObservationModel.observeAll (steps.map Prod.snd)
    batch.state = model.state ∧ batch.denials = model.denials ∧
    batch.stats.totalDenials = model.stats.total ∧ batch.stats.denials = model.stats.byKind ∧
    batch.allocatedDomains = model.allocatedDomains ∧
    ∀ event done id rest, affectedDomainIds event = done ++ id :: rest →
      ¬ Batch.Saturates (Batch.domainView batch.state id)
        (Batch.domainView (batch.state.apply event) id)
        (Batch.domainChanges batch.state (batch.state.apply event) done
          batch.allocatedDomains).1 := by
  intro batch model
  have hagrees : Agrees batch model := agrees_run steps
  refine ⟨hagrees.state, ?_, hagrees.total, hagrees.kinds, ?_, ?_⟩
  · rw [Batch.processAll_denials, ObservationModel.observeAll_denials]
    exact DenialAggregator.observeAll_order _ _ _ (by simp [Function.comp_def])
  · rw [ObservationModel.allocatedDomains_eq, hagrees.allocated]
  · intro event done id rest hids
    have hnodup : (done ++ id :: rest).Nodup := hids ▸ nodup_affectedDomainIds event
    have hafter : ∀ x ∈ done ++ id :: rest, ((batch.state.apply event).domain x).isSome :=
      fun x hx => batch.state.isSome_domain_apply (mem_affectedDomainIds.mp (hids ▸ hx))
    have hid : id ∉ done := fun h =>
      (List.nodup_append.mp hnodup).2.2 id h id List.mem_cons_self rfl
    have hcount := Batch.allocated_domainChanges batch.state (batch.state.apply event)
      (List.nodup_append.mp hnodup).1 fun x hx => hafter x (List.mem_append_left _ hx)
    have hallocated : batch.allocatedDomains = batch.state.allocatedIds.card := by
      rw [hagrees.allocated, hagrees.state]
    -- The loop has counted the domains of `done`, and comes to `id` for the first time
    rw [hallocated, hcount]
    exact (Batch.countAllocated_card _ _ hid (hafter id (by simp))).1

end Landlock
