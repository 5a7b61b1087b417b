import LandlockObservability.Spec.Reconstruction

/-!
# Reconstruction behind the collector

Tracepoints fire, their programs submit records if the ring buffer has room, the worker decodes
them and the channel may have no room for them.  The consumer's state is made of what arrives.

* `State.Within`: what a state tells, another one tells too, as it is or as it has become
* `State.AgreesWith.within`: a state that is right is within one that tells everything
* `System.received_knowledge`: losses make the consumer's state incomplete, but never wrong
* `System.received_reconstruction`: it is right about the objects at all times, and describes an
  earlier moment of them as long as no loss is reported
-/

namespace Landlock

/-! ## Less, but not different -/

/-- What is known on the left is known on the right, and it is the same. -/
def KnownIn {α : Type} (a b : Option α) : Prop := ∀ x ∈ a, b = some x

/-- The rule has these rights, and this is its name or was it earlier. -/
structure FilesystemRuleState.Within (rule rule' : FilesystemRuleState) : Prop where
  device : rule.device = rule'.device
  inode : rule.inode = rule'.inode
  accessRights : MaskLe rule.accessRights rule'.accessRights
  pathname : timestampValue rule.pathnameTimestamp < timestampValue rule'.pathnameTimestamp ∨
    (rule.pathnameTimestamp, rule.pathname) = (rule'.pathnameTimestamp, rule'.pathname)

structure NetworkRuleState.Within (rule rule' : NetworkRuleState) : Prop where
  port : rule.port = rule'.port
  accessRights : MaskLe rule.accessRights rule'.accessRights

/-- This is the enforcement, or an earlier one. -/
def EnforceDomainEvent.Within (event event' : EnforceDomainEvent) : Prop :=
  timestampValue event.timestamp < timestampValue event'.timestamp ∨ event = event'

/-- Whatever the first record tells, the second one tells too: facts that do not change are the
    same, and versions, rights and names are as they are or as they were earlier. -/
structure RulesetState.Within (t t' : RulesetState) : Prop where
  id : t.id = t'.id
  lifecycle : t.lifecycle = .deallocated → t'.lifecycle = .deallocated
  creationTimestamp : KnownIn t.creationTimestamp t'.creationTimestamp
  handledFs : KnownIn t.handledFs t'.handledFs
  handledNet : KnownIn t.handledNet t'.handledNet
  scopedAccess : KnownIn t.scopedAccess t'.scopedAccess
  maxObservedVersion : t.maxObservedVersion ≤ t'.maxObservedVersion
  finalVersion : KnownIn t.finalVersion t'.finalVersion
  freeTimestamp : KnownIn t.freeTimestamp t'.freeTimestamp
  filesystemRules : Finmap.Grows FilesystemRuleState.Within t.filesystemRules t'.filesystemRules
  networkRules : Finmap.Grows NetworkRuleState.Within t.networkRules t'.networkRules

/-- Whatever the first record tells, the second one tells too: facts that do not change are the
    same, and counts and enforcements are as they are or as they were earlier. -/
structure DomainState.Within (t t' : DomainState) : Prop where
  id : t.id = t'.id
  lifecycle : t.lifecycle = .deallocated → t'.lifecycle = .deallocated
  creationTimestamp : KnownIn t.creationTimestamp t'.creationTimestamp
  parent : KnownIn t.parent t'.parent
  creatorTgid : KnownIn t.creatorTgid t'.creatorTgid
  creatorComm : KnownIn t.creatorComm t'.creatorComm
  ruleset : KnownIn t.ruleset t'.ruleset
  cumulativeDenialCount : ∀ count ∈ t.cumulativeDenialCount,
    ∃ count', t'.cumulativeDenialCount = some count' ∧ count ≤ count'
  finalDenialCount : KnownIn t.finalDenialCount t'.finalDenialCount
  freeTimestamp : KnownIn t.freeTimestamp t'.freeTimestamp
  enforcementEvents : Finmap.Grows EnforceDomainEvent.Within t.enforcementEvents
    t'.enforcementEvents
  anyProcessWideEnforcement :
    t.anyProcessWideEnforcement = true → t'.anyProcessWideEnforcement = true

/-- Every record of the first state is in the second one, which tells at least as much. -/
structure State.Within (s s' : State) : Prop where
  rulesets : Finmap.Grows RulesetState.Within s.rulesets s'.rulesets
  domains : Finmap.Grows DomainState.Within s.domains s'.domains

/-- A fact that is right is the one that is described. -/
private theorem KnownIn.of_eq {α : Type} {a b : Option α} {x : α} (h : ∀ y ∈ a, y = x)
    (hb : b = some x) : KnownIn a b := fun y hy => by
  rw [h y hy, hb]

/-- A name that a rule has had is its name, or an earlier one. -/
private theorem FilesystemRule.within_record {rule : FilesystemRule} {target : UInt32 × UInt64}
    {state : FilesystemRuleState} (htarget : (state.device, state.inode) = target)
    (haccess : MaskLe state.accessRights rule.access)
    (hname : (state.pathnameTimestamp, state.pathname) ∈ rule.names.entries) :
    state.Within (rule.record target) := by
  subst htarget
  refine ⟨rfl, rfl, haccess, ?_⟩
  rcases lt_or_eq_of_le (rule.names.time_le_latest hname) with hlt | heq
  · exact .inl hlt
  · exact .inr (rule.names.eq_of_time_eq hname rule.names.latest_mem heq)

/-- A record that is right is within the one that tells everything. -/
theorem RulesetObject.AgreesWith.within {id : RulesetId} {r : RulesetObject} {t t' : RulesetState}
    (h : r.AgreesWith id t) (h' : r.DescribedBy id t') : t.Within t' where
  id := h.id.trans h'.id.symm
  lifecycle := fun hgone => by
    obtain ⟨freedAt, hfreed⟩ := Option.ne_none_iff_exists'.mp (h.lifecycle hgone)
    rw [h'.lifecycle, hfreed]
    rfl
  creationTimestamp := .of_eq h.creationTimestamp h'.creationTimestamp
  handledFs := .of_eq h.handledFs h'.handledFs
  handledNet := .of_eq h.handledNet h'.handledNet
  scopedAccess := .of_eq h.scopedAccess h'.scopedAccess
  maxObservedVersion := h.maxObservedVersion.trans h'.maxObservedVersion.ge
  -- A final version is known of a freed ruleset only
  finalVersion := fun version hversion => by
    obtain ⟨hgone, rfl⟩ := h.finalVersion version hversion
    obtain ⟨freedAt, hfreed⟩ := Option.ne_none_iff_exists'.mp hgone
    rw [h'.finalVersion, hfreed]
    rfl
  freeTimestamp := fun x hx => h'.freeTimestamp.trans (h.freeTimestamp x hx)
  filesystemRules := fun target state hstate => by
    obtain ⟨htarget, rule, hrule, haccess, hname⟩ := h.filesystemRules target state hstate
    refine ⟨rule.record target, ?_, FilesystemRule.within_record htarget haccess hname⟩
    rw [h'.filesystemRules, hrule]
    rfl
  networkRules := fun port state hstate => by
    obtain ⟨hport, access, haccess, hle⟩ := h.networkRules port state hstate
    refine ⟨⟨port, access⟩, ?_, hport, hle⟩
    rw [h'.networkRules, haccess]
    rfl

/-- A record that is right is within the one that tells everything. -/
theorem DomainObject.AgreesWith.within {id : DomainId} {d : DomainObject} {t t' : DomainState}
    (h : d.AgreesWith id t) (h' : d.DescribedBy id t') : t.Within t' where
  id := h.id.trans h'.id.symm
  lifecycle := fun hgone => by
    obtain ⟨freedAt, hfreed⟩ := Option.ne_none_iff_exists'.mp (h.lifecycle hgone)
    rw [h'.lifecycle, hfreed]
    rfl
  creationTimestamp := .of_eq h.creationTimestamp h'.creationTimestamp
  parent := .of_eq h.parent h'.parent
  creatorTgid := .of_eq h.creatorTgid h'.creatorTgid
  creatorComm := .of_eq h.creatorComm h'.creatorComm
  ruleset := .of_eq h.ruleset h'.ruleset
  cumulativeDenialCount := fun count hcount =>
    ⟨d.denials, h'.cumulativeDenialCount, h.cumulativeDenialCount count hcount⟩
  finalDenialCount := fun count hcount => by
    obtain ⟨hgone, rfl⟩ := h.finalDenialCount count hcount
    obtain ⟨freedAt, hfreed⟩ := Option.ne_none_iff_exists'.mp hgone
    rw [h'.finalDenialCount, hfreed]
    rfl
  freeTimestamp := fun x hx => h'.freeTimestamp.trans (h.freeTimestamp x hx)
  enforcementEvents := fun thread event hevent => by
    obtain ⟨events, hevents, hmem⟩ := h.enforcementEvents thread event hevent
    refine ⟨events.latest, ?_, ?_⟩
    · rw [h'.enforcementEvents, hevents]
      rfl
    -- Another enforcement of the thread that is known is an earlier one
    · rcases lt_or_eq_of_le (events.time_le_latest hmem) with hlt | heq
      · exact .inl hlt
      · exact .inr (events.eq_of_time_eq hmem events.latest_mem heq)
  anyProcessWideEnforcement := fun hwide =>
    h'.anyProcessWideEnforcement.trans (h.anyProcessWideEnforcement hwide)

/-- A state that is right is within one that tells everything. -/
theorem State.AgreesWith.within {s s' : State} {o : Objects} (h : s.AgreesWith o)
    (h' : s'.Describes o) : s.Within s' where
  rulesets := fun id t ht => by
    obtain ⟨r, hr, hagrees⟩ := h.rulesets id t ht
    have hrecord := h'.rulesets id
    rw [hr] at hrecord
    generalize hlookup : s'.rulesets.lookup id = record at hrecord
    -- An object that exists has a record in the full state
    cases hrecord with
    | some hdescribed => exact ⟨_, rfl, hagrees.within hdescribed⟩
  domains := fun id t ht => by
    obtain ⟨d, hd, hagrees⟩ := h.domains id t ht
    have hrecord := h'.domains id
    rw [hd] at hrecord
    generalize hlookup : s'.domains.lookup id = record at hrecord
    cases hrecord with
    | some hdescribed => exact ⟨_, rfl, hagrees.within hdescribed⟩

/-! ## Behind the collector -/

namespace System

open scoped List

variable {en : Endian} {s : System} {os : List Observation}

/-- The received events are the results without the errors. -/
private theorem receivedEvents_eq_filterMap (os : List Observation) :
    receivedEvents os = (receivedResults os).filterMap Except.toOption := by
  rw [receivedEvents, receivedResults, List.filterMap_filterMap]
  refine List.filterMap_congr fun o _ => ?_
  cases o with
  | returned origin result => cases result <;> rfl
  | _ => rfl

/-- As long as only events are received, they are the first of those that were sampled. -/
private theorem receivedEvents_prefix {eventCapacity : ℕ+} {actions : List Action}
    (hrun : run en eventCapacity actions = some (s, os))
    (hevents : ∀ result ∈ receivedResults os, ∃ event, result = .ok event) :
    receivedEvents os <+: decodedEvents en actions := by
  rw [receivedEvents_eq_filterMap, ← filterMap_deliveryOf]
  exact (received_without_gap hrun hevents).filterMap Except.toOption

/-- The events that the tracepoints show which have fired. -/
def firedEvents (en : Endian) (calls : List (Invocation × Tracepoint)) : List Event :=
  calls.filterMap fun call => (call.2.shown en call.1).bind Except.toOption

/-- What the samples of the programs decode to, one program at a time. -/
private theorem decodedEvents_of_handle {actions : List Action}
    {calls : List (Invocation × Tracepoint)}
    (hsamples : samples actions = calls.flatMap fun call => call.2.handle en call.1) :
    decodedEvents en actions =
      calls.flatMap fun call =>
        if call.1.room then ((call.2.shown en call.1).bind Except.toOption).toList else [] := by
  rw [decodedEvents, hsamples, List.filterMap_flatMap]
  refine List.flatMap_congr fun call _ => ?_
  have hdecodes := congrArg (List.filterMap Except.toOption)
    (Tracepoint.handle_decodes en call.1 call.2)
  rw [List.filterMap_map] at hdecodes
  refine hdecodes.trans ?_
  split
  · cases call.2.shown en call.1 with
    | none => rfl
    | some result => cases result <;> rfl
  · rfl

/-- Losses never mislead.  For every interleaving of the kernel's records with the worker and
    the consumer, the received events are some of the submitted ones in their order.  When these
    have happened to the objects, the state of the received ones tells nothing that the state of
    all of them does not tell: what does not change is the same, and what changes is as it is or
    as it was earlier. -/
theorem received_knowledge {eventCapacity : ℕ+} {actions : List Action} {events : List Event}
    (hrun : run en eventCapacity actions = some (s, os))
    (hsamples : samples actions = events.map (Producer.encode en)) :
    receivedEvents os <+ events ∧ ∀ o, Objects.After events o →
      (State.replay (receivedEvents os)).Within (State.replay events) := by
  have hsublist := receivedEvents_sublist hrun
  rw [decodedEvents_of_encode hsamples] at hsublist
  refine ⟨hsublist, fun o hafter => ?_⟩
  have hagrees := State.agreesWith_replay fun e he => hafter.confirms e (hsublist.subset he)
  exact hagrees.within (State.describes_of_after hafter)

/-- A channel of capacity 1 omits the second of two records, in which a domain is made. -/
theorem received_knowledge_omitted :
    ∃ s os o first second,
      run .little 1 (twoSampleRun (Producer.encode .little first)
        (Producer.encode .little second)) = some (s, os) ∧
      .omitted ∈ os ∧ receivedEvents os = [first] ∧ Objects.After [first, second] o ∧
      (State.replay [first]).Within (State.replay [first, second]) := by
  let first : Event := .createRuleset ⟨⟨10⟩, default, 0, ⟨12⟩, ⟨2⟩, ⟨0⟩⟩
  let second : Event := .createDomain ⟨⟨14⟩, default, 0, default, none, default, default⟩
  have hrun : ∀ data data', ∃ s, run .little 1 (twoSampleRun data data') = some (s,
      [.accepted (deliveryOf .little data), .omitted,
        .returned .deliveries (deliveryOf .little data)]) :=
    fun _ _ => ⟨_, rfl⟩
  obtain ⟨s, hrun⟩ := hrun (Producer.encode .little first) (Producer.encode .little second)
  rw [deliveryOf_encode] at hrun
  -- The two events happen to real objects
  have hsome : ([first, second].foldlM Objects.next .initial).isSome = true := by decide +kernel
  obtain ⟨o, ho⟩ := Option.isSome_iff_exists.mp hsome
  have hafter : Objects.After [first, second] o := .of_foldlM .initial ho
  exact ⟨s, _, o, first, second, hrun, List.mem_cons_of_mem _ List.mem_cons_self, rfl, hafter,
    (received_knowledge hrun rfl).2 o hafter⟩

/-- From the kernel to the consumer.  Tracepoints fire, their programs submit records if the
    ring buffer has room, the worker decodes them and the channel may have no room for them.
    Whatever was lost on the way and however the three run, the state of the received events is
    right about the objects.  If every program had room and the consumer has received events
    only, then its state is exactly the objects as they were at the last received event. -/
theorem received_reconstruction {eventCapacity : ℕ+} {actions : List Action}
    {calls : List (Invocation × Tracepoint)} {happened : List Event} {o : Objects}
    (hrun : run en eventCapacity actions = some (s, os))
    (hsamples : samples actions = calls.flatMap fun call => call.2.handle en call.1)
    (hfired : firedEvents en calls ⊆ happened) (hafter : Objects.After happened o) :
    (State.replay (receivedEvents os)).AgreesWith o ∧
      ((∀ call ∈ calls, call.1.room = true) → firedEvents en calls = happened →
        (∀ result ∈ receivedResults os, ∃ event, result = .ok event) →
        ∃ rest o', happened = receivedEvents os ++ rest ∧
          Objects.After (receivedEvents os) o' ∧
          (State.replay (receivedEvents os)).Describes o') := by
  refine ⟨?_, ?_⟩
  · -- every received event is what some tracepoint showed
    refine State.agreesWith_replay fun e he => hafter.confirms e (hfired ?_)
    have hdecoded := (receivedEvents_sublist hrun).subset he
    rw [decodedEvents_of_handle hsamples] at hdecoded
    obtain ⟨call, hcall, hshown⟩ := List.mem_flatMap.mp hdecoded
    refine List.mem_filterMap.mpr ⟨call, hcall, ?_⟩
    split at hshown
    · exact Option.mem_toList.mp hshown
    · exact absurd hshown List.not_mem_nil
  · intro hroom hall hevents
    -- Without a loss in the ring buffer, the samples are what happened
    have hdecoded : decodedEvents en actions = happened := by
      rw [decodedEvents_of_handle hsamples, ← hall, firedEvents, List.filterMap_eq_flatMap_toList]
      refine List.flatMap_congr fun call hcall => ?_
      rw [if_pos (hroom call hcall)]
    obtain ⟨rest, hrest⟩ := hdecoded ▸ receivedEvents_prefix hrun hevents
    rw [← hrest] at hafter
    obtain ⟨o', ho'⟩ := hafter.of_append
    exact ⟨rest, o', hrest.symm, ho', State.describes_of_after ho'⟩

/-- The ruleset of `lifetime` at a version. -/
def lifetimeRuleset (version : UInt64) : KernelRuleset := ⟨4294967296, version, 12, 2, 0⟩

/-- The domain of `lifetime` after some denials. -/
def lifetimeDomain (denials : UInt64) : Producer.KernelHierarchy :=
  ⟨4294967296, denials, none, some (some 1, [])⟩

/-- The tracepoints of `lifetime`, in a task with the ID 1. -/
def lifetimeCalls : List (Invocation × Tracepoint) :=
  let call (time : UInt64) : Invocation := ⟨true, time, 4294967297, []⟩
  [(call 10, .createRuleset (lifetimeRuleset 0)),
   (call 11, .addRulePathBeneath (lifetimeRuleset 1) 4 8 2 (some firstName)),
   (call 12, .addRulePathBeneath (lifetimeRuleset 2) 8 8 2 (some secondName)),
   (call 13, .addRuleNetPort (lifetimeRuleset 3) 2 443),
   (call 14, .createDomain (lifetimeDomain 0) (lifetimeRuleset 3)),
   (call 15, .enforceDomain (lifetimeDomain 0) true true true),
   (call 16, .denyAccessFs (lifetimeDomain 1) false true ⟨4, 1⟩ 8 (some 3) (some firstName)),
   (call 17, .freeDomain (lifetimeDomain 1)),
   (call 18, .freeRuleset (lifetimeRuleset 3))]

/-- The calls fire the tracepoints of a lifetime. -/
private theorem firedEvents_lifetimeCalls : firedEvents .little lifetimeCalls = lifetime := rfl

/-- All programs submit their record, and a prompt consumer receives all of them. -/
theorem received_reconstruction_lifetime :
    ∃ s os o, run .little 1 (promptRun (lifetimeCalls.flatMap fun call =>
        call.2.handle .little call.1)) = some (s, os) ∧
      receivedEvents os = lifetime ∧ Objects.After lifetime o ∧
      (State.replay (receivedEvents os)).AgreesWith o ∧
      ∃ o', Objects.After (receivedEvents os) o' ∧
        (State.replay (receivedEvents os)).Describes o' := by
  obtain ⟨s, os, hrun, hresults⟩ := run_promptRun .little
    (lifetimeCalls.flatMap fun call => call.2.handle .little call.1)
  -- The records decode to the events
  have hdecode : (lifetimeCalls.flatMap fun call => call.2.handle .little call.1).map
      (Wire.decode .little) = lifetime.map .ok := by
    rw [List.map_flatMap]
    simp only [Tracepoint.handle_decodes]
    rfl
  have hevents : receivedResults os = lifetime.map .ok := by
    have hdelivery := congrArg (List.map (Except.mapError CollectorReceiveError.malformedSample))
      hdecode
    rw [List.map_map, List.map_map] at hdelivery
    exact hresults.trans hdelivery
  have hreceived : receivedEvents os = lifetime := by
    rw [receivedEvents_eq_filterMap, hevents]
    rfl
  obtain ⟨o, hafter⟩ := after_lifetime
  obtain ⟨hagrees, hdescribes⟩ := received_reconstruction hrun (samples_promptRun _)
    (fun _ h => firedEvents_lifetimeCalls ▸ h) hafter
  obtain ⟨-, o', -, ho', hdescribed⟩ := hdescribes (by decide) firedEvents_lifetimeCalls
    fun result hresult => by
      rw [hevents] at hresult
      obtain ⟨event, -, rfl⟩ := List.mem_map.mp hresult
      exact ⟨event, rfl⟩
  exact ⟨s, os, o, hrun, hreceived, hafter, hagrees, o', ho', hdescribed⟩

end System

end Landlock
