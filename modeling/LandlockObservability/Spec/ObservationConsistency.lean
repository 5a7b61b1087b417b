import LandlockObservability.Spec.DomainSummary
import LandlockObservability.Spec.FrontEnds
import LandlockObservability.Spec.StateTimes
import Mathlib.Algebra.BigOperators.Group.Finset.Basic
import Mathlib.Algebra.Order.BigOperators.Group.List
import Mathlib.Algebra.Order.Group.Nat

/-!
# The parts of the interactive model fit together

The state never forgets and the denial table does.  What the denial view reads of both
still fits: a retained denial is one of the observed events, so that the state knows its
domain, and the counters bound what is retained.

## Key results

- `Reference.sum_run_le`, `Reference.sum_run_eq`: the retained denials of one kind are
  observed ones, and all of them as long as no key had to go
- `ObservationModel.observeAll_consistent`: what holds after every event sequence
-/

namespace Landlock

/-- The kind of the denials that share a key. -/
def DenialKey.kind : DenialKey → DenialKind
  | filesystem _ => .fs
  | network _ => .net
  | ptrace _ => .ptrace
  | signal _ => .signal
  | abstractUnixSocket _ => .abstractUnix

/-- The key of a denial. -/
def Event.denialKey (e : Event) : Option DenialKey := (denialFacts e).map Prod.fst

/-- The denial keys of a sequence. -/
def observedKeys (events : List Event) : Finset DenialKey :=
  (events.filterMap Event.denialKey).toFinset

/-- The statistics count a denial under the kind of its key. -/
private theorem countOf_eq_kind (e : Event) :
    ObservationModel.countOf e = e.denialKey.map DenialKey.kind := by
  cases e <;> rfl

/-- The number of denials of one kind. -/
def denialCount (kind : DenialKind) (events : List Event) : Nat :=
  events.countP fun e => ObservationModel.countOf e = some kind

/-- One more event. -/
theorem denialCount_concat (kind : DenialKind) (events : List Event) (e : Event) :
    denialCount kind (events ++ [e]) =
      denialCount kind events + if ObservationModel.countOf e = some kind then 1 else 0 := by
  simp [denialCount, List.countP_append, List.countP_cons]

/-! ## The reference table -/

namespace Reference

/-- The reference table after a sequence. -/
def run (c : Nat) (events : List Event) : Reference := events.foldl (observe c) []

/-- One more event. -/
private theorem run_concat (c : Nat) (events : List Event) (e : Event) :
    run c (events ++ [e]) = (run c events).observe c e := by
  simp [run]

/-- The denials that an entry stands for, if they are of the given kind. -/
def weight (kind : DenialKind) (p : DenialKey × History) : Nat :=
  if p.1.kind = kind then p.2.count else 0

/-- Recording an event makes an entry heavier by one. -/
private theorem weight_record (kind : DenialKind) (key : DenialKey) (e : Event)
    (h : Option History) :
    weight kind (key, History.record e h) =
      h.elim 0 (fun h => weight kind (key, h)) + if key.kind = kind then 1 else 0 := by
  unfold weight
  cases h with
  | none => simp [History.record, History.count]
  | some h => split <;> simp [History.record, History.count]

/-- What an observation does to the table, by its key. -/
private theorem observe_of_denialKey (c : Nat) (t : Reference) {e : Event} {key : DenialKey}
    (h : e.denialKey = some key) : t.observe c e = Lru.touch c key (History.record e) t := by
  obtain ⟨facts, hfacts, rfl⟩ := Option.map_eq_some_iff.mp h
  rw [observe, hfacts]

/-- Other events leave the table alone. -/
private theorem observe_of_denialKey_none (c : Nat) (t : Reference) {e : Event}
    (h : e.denialKey = none) : t.observe c e = t := by
  rw [observe, Option.map_eq_none_iff.mp h]

/-- The table has one entry for each key. -/
private theorem nodup_run (c : Nat) (events : List Event) :
    ((run c events).map Prod.fst).Nodup := by
  induction events using List.reverseRecOn with
  | nil => exact List.nodup_nil
  | append_singleton events e ih =>
    rw [run_concat]
    cases hkey : e.denialKey with
    | none => rwa [observe_of_denialKey_none c _ hkey]
    | some key =>
      rw [observe_of_denialKey c _ hkey]
      exact Lru.nodup_touch ih

/-- A history is made of observed events. -/
private theorem history_subset_run (c : Nat) (events : List Event) :
    ∀ p ∈ run c events, p.2.latest ∈ events ∧ ∀ e ∈ p.2.earlier, e ∈ events := by
  induction events using List.reverseRecOn with
  | nil => exact fun p hp => absurd hp List.not_mem_nil
  | append_singleton events e ih =>
    have hold : ∀ p ∈ run c events,
        p.2.latest ∈ events ++ [e] ∧ ∀ x ∈ p.2.earlier, x ∈ events ++ [e] :=
      fun p hp => ⟨List.mem_append_left _ (ih p hp).1,
        fun x hx => List.mem_append_left _ ((ih p hp).2 x hx)⟩
    rw [run_concat]
    cases hkey : e.denialKey with
    | none =>
      rw [observe_of_denialKey_none c _ hkey]
      exact hold
    | some key =>
      rw [observe_of_denialKey c _ hkey]
      -- A new history, or an old one with the event in front
      refine Lru.forall_mem_touch hold fun o ho => ?_
      cases o with
      | none => exact ⟨by simp [History.record], fun x hx => absurd hx List.not_mem_nil⟩
      | some h =>
        obtain ⟨hlatest, hearlier⟩ := ho h rfl
        refine ⟨by simp [History.record], fun x hx => ?_⟩
        rcases List.mem_cons.mp hx with rfl | hx
        · exact hlatest
        · exact hearlier x hx

/-- Retained denials of one kind were observed. -/
theorem sum_run_le (c : Nat) (kind : DenialKind) (events : List Event) :
    ((run c events).map (weight kind)).sum ≤ denialCount kind events := by
  induction events using List.reverseRecOn with
  | nil => exact Nat.zero_le _
  | append_singleton events e ih =>
    rw [run_concat, denialCount_concat, countOf_eq_kind]
    cases hkey : e.denialKey with
    | none =>
      rw [observe_of_denialKey_none c _ hkey]
      omega
    | some key =>
      rw [observe_of_denialKey c _ hkey]
      have hsum := Lru.sum_touch_le (c := c) (nodup_run c events) (weight_record kind key e)
      simp only [Option.map_some, Option.some.injEq]
      omega

/-- One more event adds its key. -/
private theorem observedKeys_concat (events : List Event) (e : Event) :
    observedKeys (events ++ [e]) = observedKeys events ∪ e.denialKey.toList.toFinset := by
  rw [observedKeys, List.filterMap_concat, List.toFinset_append, ← observedKeys]

/-- A key that is new makes the number of keys grow, so that there was room for it. -/
private theorem room_of_observedKeys {c : Nat} {events : List Event} {e : Event}
    {key : DenialKey}
    (hsame : ((run c events).map Prod.fst).toFinset = observedKeys events)
    (hkey : e.denialKey = some key) (hkeys : (observedKeys (events ++ [e])).card ≤ c) :
    key ∈ (run c events).map Prod.fst ∨ (run c events).length < c := by
  by_cases hmem : key ∈ (run c events).map Prod.fst
  · exact Or.inl hmem
  · right
    have hlength : (run c events).length = (observedKeys events).card := by
      rw [← hsame, List.toFinset_card_of_nodup (nodup_run c events), List.length_map]
    have hnew : key ∉ observedKeys events := by
      rw [← hsame]
      simpa using hmem
    have hcard : (observedKeys events ∪ {key}).card = (observedKeys events).card + 1 := by
      rw [Finset.union_comm, ← Finset.insert_eq, Finset.card_insert_of_notMem hnew]
    rw [observedKeys_concat, hkey] at hkeys
    simp only [Option.toList_some, List.toFinset_cons, List.toFinset_nil,
      insert_empty_eq] at hkeys
    omega

/-- As long as there is room for all keys, none goes, and every denial of one kind is
    retained. -/
theorem sum_run_eq (c : Nat) (kind : DenialKind) (events : List Event)
    (hkeys : (observedKeys events).card ≤ c) :
    ((run c events).map Prod.fst).toFinset = observedKeys events ∧
      ((run c events).map (weight kind)).sum = denialCount kind events := by
  induction events using List.reverseRecOn with
  | nil => exact ⟨rfl, rfl⟩
  | append_singleton events e ih =>
    have hsub : observedKeys events ⊆ observedKeys (events ++ [e]) := by
      rw [observedKeys_concat]
      exact Finset.subset_union_left
    obtain ⟨hsame, hsum⟩ := ih ((Finset.card_le_card hsub).trans hkeys)
    rw [run_concat, denialCount_concat, countOf_eq_kind, observedKeys_concat, ← hsame, ← hsum]
    cases hkey : e.denialKey with
    | none =>
      rw [observe_of_denialKey_none c _ hkey]
      simp
    | some key =>
      rw [observe_of_denialKey c _ hkey]
      -- No key goes, because there is room for all of them
      have hroom := room_of_observedKeys hsame hkey hkeys
      refine ⟨?_, ?_⟩
      · ext j
        simp only [List.mem_toFinset, Lru.mem_keys_touch hroom, Finset.mem_union,
          Option.toList_some, List.mem_singleton]
        exact or_comm
      · rw [Lru.sum_touch_eq (nodup_run c events) (weight_record kind key e) hroom]
        simp

end Reference

/-! ## Retained denials -/

namespace DenialAggregator

/-- The sum of the occurrence counts of the entries of one kind. -/
def occurrences (a : DenialAggregator) (kind : DenialKind) : Nat :=
  ∑ key ∈ a.entries.keys with key.kind = kind,
    (a.entries.lookup key).elim 0 fun entry => entry.occurrenceCount.toNat

/-- The occurrence counts are those of the reference, up to saturation. -/
private theorem Inv.occurrences_eq {a : DenialAggregator} {l : List (DenialKey × AggregatedDenial)}
    {t : Reference} (h : a.Inv l t) (kind : DenialKind) :
    a.occurrences kind =
      (t.map fun p => if p.1.kind = kind then min p.2.count (2 ^ 64 - 1) else 0).sum := by
  have hkeys : a.entries.keys = (l.map Prod.fst).toFinset := by
    ext key
    rw [Finmap.mem_keys, h.recency.mem_iff, List.mem_toFinset]
  -- By the recency list, and from there by the reference
  have hentries : ((l.map Prod.fst).map fun key => if key.kind = kind then
      (a.entries.lookup key).elim 0 fun entry => entry.occurrenceCount.toNat else 0) =
      l.map fun p => if p.1.kind = kind then p.2.occurrenceCount.toNat else 0 := by
    rw [List.map_map]
    refine List.map_congr_left fun p hp => ?_
    rw [Function.comp_apply, (h.recency.lookup_iff p.1 p.2).mpr hp, Option.elim_some]
  have hrelated : (l.map fun p => if p.1.kind = kind then p.2.occurrenceCount.toNat else 0) =
      t.map fun p => if p.1.kind = kind then min p.2.count (2 ^ 64 - 1) else 0 := by
    rw [← List.forall₂_eq_eq_eq, List.forall₂_map_left_iff, List.forall₂_map_right_iff]
    refine h.related.imp fun p q hpq => ?_
    rw [hpq.1, hpq.2.count]
  rw [occurrences, Finset.sum_filter, hkeys, List.sum_toFinset _ h.recency.nodup, hentries,
    hrelated]

end DenialAggregator

namespace ObservationModel

/-- The state of the model is the replay of the events. -/
theorem observeAll_state (steps : List (IterOrder DenialKey AggregatedDenial × Event)) :
    (observeAll steps).state = State.replay (steps.map Prod.snd) := by
  induction steps using List.reverseRecOn with
  | nil => rfl
  | append_singleton steps step ih =>
    rw [observeAll_concat, List.map_append, List.map_cons, List.map_nil, State.replay_concat,
      ← ih]
    rfl

/-- No event is later than the latest one. -/
private theorem le_latestSeen (steps : List (IterOrder DenialKey AggregatedDenial × Event)) :
    ∀ e ∈ steps.map Prod.snd,
      e.timestamp.nanoseconds ≤ (observeAll steps).latestSeen.nanoseconds := by
  induction steps using List.reverseRecOn with
  | nil => exact fun e he => absurd he List.not_mem_nil
  | append_singleton steps step ih =>
    intro e he
    rw [observeAll_concat]
    rw [List.map_append, List.mem_append] at he
    rcases he with he | he
    · exact (ih e he).trans (le_max_left _ _)
    · rw [List.map_cons, List.map_nil, List.mem_singleton] at he
      subst he
      exact le_max_right _ _

/-- A counter stops at its maximum. -/
theorem toNat_saturatingCount (n : UInt64) :
    (saturatingCount n).toNat = min (n.toNat + 1) (2 ^ 64 - 1) := by
  have hlt : min (n.toNat + 1) (2 ^ 64 - 1) < UInt64.size := by
    have : UInt64.size = 2 ^ 64 := rfl
    omega
  exact UInt64.toNat_ofNat_of_lt' hlt

/-- A counter is the number of denials of its kind, up to saturation. -/
theorem byKind_observeAll (steps : List (IterOrder DenialKey AggregatedDenial × Event))
    (kind : DenialKind) :
    ((observeAll steps).stats.byKind kind).toNat =
      min (denialCount kind (steps.map Prod.snd)) (2 ^ 64 - 1) := by
  induction steps using List.reverseRecOn with
  | nil => rfl
  | append_singleton steps step ih =>
    rw [observeAll_concat, List.map_append, List.map_cons, List.map_nil, denialCount_concat]
    simp only [observe]
    cases hcount : countOf step.2 with
    | none => simpa using ih
    | some other =>
      -- One counter goes up, the others stay
      by_cases hother : kind = other
      · subst hother
        simp only [Function.update_self, toNat_saturatingCount, ih, if_true]
        omega
      · simp only [Function.update_of_ne hother, ih, Option.some.injEq, Ne.symm hother, if_false]
        omega

/-- Whether `time` is one of the timestamps that the model keeps. -/
def Stores (model : ObservationModel) (time : KernelTimestamp) : Prop :=
  (∃ key entry, model.denial key = some entry ∧ (entry.firstTimestamp = time ∨
    entry.latestTimestamp = time ∨ entry.latestEvent.timestamp = time)) ∨
  (∃ id ruleset, model.state.ruleset id = some ruleset ∧ ruleset.Stores time) ∨
  ∃ id domain, model.state.domain id = some domain ∧ domain.Stores time

/-- The state knows the domain of the denial, and how often it denied at least. -/
def KnowsDomain (model : ObservationModel) (entry : AggregatedDenial) : Prop :=
  ∃ context domain count, entry.latestEvent.context = some context ∧
    context.hierarchy.domainId = entry.key.domainId ∧
    model.state.domain entry.key.domainId = some domain ∧
    domain.parent.isSome ∧ domain.creatorTgid.isSome ∧ domain.creatorComm.isSome ∧
    domain.cumulativeDenialCount = some count ∧ context.cumulativeDenialCount ≤ count

section

variable (steps : List (IterOrder DenialKey AggregatedDenial × Event))

/-- The table of the model follows the reference over the observed events. -/
private theorem exists_inv :
    (observeAll steps).denials.capacity = DenialAggregator.defaultCapacity ∧
    ∃ l, (observeAll steps).denials.Inv l
      (Reference.run (observeAll steps).denials.capacity.value (steps.map Prod.snd)) := by
  obtain ⟨hcapacity, l, hinv⟩ :=
    (DenialAggregator.Inv.withCapacity DenialAggregator.defaultCapacity).observeAll steps
  rw [observeAll_denials]
  refine ⟨hcapacity, l, ?_⟩
  rw [DenialAggregator.new, hcapacity]
  exact hinv

/-- A retained denial stands for observed events. -/
theorem exists_history {key : DenialKey} {entry : AggregatedDenial}
    (h : (observeAll steps).denial key = some entry) :
    ∃ history : History, entry.Describes key history ∧ history.latest ∈ steps.map Prod.snd ∧
      history.first ∈ steps.map Prod.snd := by
  obtain ⟨-, l, hinv⟩ := exists_inv steps
  have hrefines := hinv.refines
  obtain ⟨p, hp, rfl⟩ := List.mem_map.mp ((hrefines.keys key).mp (Finmap.mem_iff.mpr ⟨entry, h⟩))
  obtain ⟨entry', hlookup, hdescribes⟩ := hrefines.entries p.1 p.2 hp
  obtain rfl : entry' = entry := Option.some.inj (hlookup.symm.trans h)
  obtain ⟨hlatest, hearlier⟩ := Reference.history_subset_run _ _ p hp
  refine ⟨p.2, hdescribes, hlatest, ?_⟩
  -- The first event is the oldest of the earlier ones, or the only one
  unfold History.first
  rcases List.eq_nil_or_concat p.2.earlier with hnil | ⟨init, last, hconcat⟩
  · rwa [hnil]
  · rw [hconcat, List.concat_eq_append] at hearlier ⊢
    simpa using hearlier last (by simp)

/-- The state knows the domain of a retained denial. -/
theorem knowsDomain {key : DenialKey} {entry : AggregatedDenial}
    (h : (observeAll steps).denial key = some entry) :
    (observeAll steps).KnowsDomain entry := by
  obtain ⟨history, hdescribes, hlatest, -⟩ := exists_history steps h
  have hfacts := hdescribes.facts
  obtain ⟨context, hcontext, hdomain⟩ : ∃ context, history.latest.context = some context ∧
      context.hierarchy.domainId = key.domainId := by
    cases hevent : history.latest <;> rw [hevent] at hfacts <;>
      simp only [denialFacts, Option.some.injEq, Prod.mk.injEq, reduceCtorEq] at hfacts
    all_goals
      obtain ⟨rfl, -⟩ := hfacts
      exact ⟨_, rfl, rfl⟩
  -- The latest event of the history was observed, and tells of the domain
  have hobserved : history.latest.observationOf key.domainId = some (.denied context) :=
    hdomain ▸ Event.observationOf_of_context hcontext
  obtain ⟨domain, count, hlookup, hparent, htgid, hcomm, hcount, hle⟩ :=
    State.exists_domain_of_denial hlatest hobserved
  refine ⟨context, domain, count, ?_, ?_, ?_, hparent, htgid, hcomm, hcount, hle⟩
  · rw [hdescribes.event, hcontext]
  · rw [hdescribes.key_eq, hdomain]
  · rw [hdescribes.key_eq, observeAll_state]
    exact hlookup

/-- Every timestamp that the model keeps was carried by an observed event. -/
private theorem exists_event_of_stores {time : KernelTimestamp}
    (h : (observeAll steps).Stores time) :
    ∃ e ∈ steps.map Prod.snd, e.timestamp = time := by
  rcases h with ⟨key, entry, hentry, htime⟩ | ⟨id, ruleset, hruleset, hstores⟩ |
    ⟨id, domain, hdomain, hstores⟩
  · obtain ⟨history, hdescribes, hlatest, hfirst⟩ := exists_history steps hentry
    rw [hdescribes.first, hdescribes.latest, hdescribes.event] at htime
    rcases htime with htime | htime | htime
    · exact ⟨history.first, hfirst, htime⟩
    · exact ⟨history.latest, hlatest, htime⟩
    · exact ⟨history.latest, hlatest, htime⟩
  · rw [observeAll_state] at hruleset
    apply State.exists_event_of_ruleset_stores (r := id)
    rw [State.rulesetRecord]
    rwa [show (State.replay _).rulesets.lookup id = some ruleset from hruleset]
  · rw [observeAll_state] at hdomain
    apply State.exists_event_of_domain_stores (d := id)
    rwa [State.domainRecord_of_lookup hdomain]

/-- What is retained of one kind is bounded by the counter of the kind, and is all of it as
    long as no key had to go. -/
private theorem occurrences_byKind (kind : DenialKind)
    (hcounter : ((observeAll steps).stats.byKind kind).toNat < 2 ^ 64 - 1) :
    (observeAll steps).denials.occurrences kind ≤
        ((observeAll steps).stats.byKind kind).toNat ∧
      ((observedKeys (steps.map Prod.snd)).card ≤ (observeAll steps).denials.capacity.value →
        (observeAll steps).denials.occurrences kind =
          ((observeAll steps).stats.byKind kind).toNat) := by
  obtain ⟨-, l, hinv⟩ := exists_inv steps
  have hcount := byKind_observeAll steps kind
  have hsum := Reference.sum_run_le (observeAll steps).denials.capacity.value kind
    (steps.map Prod.snd)
  generalize hrun : Reference.run (observeAll steps).denials.capacity.value
    (steps.map Prod.snd) = t at hinv hsum
  -- No history of this kind is long enough for its entry to saturate
  have hexact : ∀ p ∈ t, (if p.1.kind = kind then min p.2.count (2 ^ 64 - 1) else 0) =
      Reference.weight kind p := by
    intro p hp
    have hle : Reference.weight kind p ≤ (t.map (Reference.weight kind)).sum :=
      List.single_le_sum (fun _ _ => Nat.zero_le _) _ (List.mem_map_of_mem hp)
    by_cases hkind : p.1.kind = kind
    · have hweight : Reference.weight kind p = p.2.count := if_pos hkind
      rw [if_pos hkind, hweight]
      omega
    · rw [if_neg hkind, Reference.weight, if_neg hkind]
  have hoccurrences : (observeAll steps).denials.occurrences kind =
      (t.map (Reference.weight kind)).sum := by
    rw [hinv.occurrences_eq, List.map_congr_left hexact]
  rw [hoccurrences]
  refine ⟨by omega, fun hkeys => ?_⟩
  have heq := (Reference.sum_run_eq _ kind _ hkeys).2
  rw [hrun] at heq
  omega

/-- State and aggregator stay consistent with each other in every reachable model. -/
theorem observeAll_consistent :
    (∀ key entry, (observeAll steps).denial key = some entry →
      (observeAll steps).KnowsDomain entry) ∧
    (∀ time, (observeAll steps).Stores time →
      time.nanoseconds ≤ (observeAll steps).latestSeen.nanoseconds) ∧
    ∀ kind, ((observeAll steps).stats.byKind kind).toNat < 2 ^ 64 - 1 →
      (observeAll steps).denials.occurrences kind ≤
          ((observeAll steps).stats.byKind kind).toNat ∧
      ((observedKeys (steps.map Prod.snd)).card ≤ (observeAll steps).denials.capacity.value →
        (observeAll steps).denials.occurrences kind =
          ((observeAll steps).stats.byKind kind).toNat) := by
  refine ⟨fun key entry h => knowsDomain steps h, fun time h => ?_,
    fun kind h => occurrences_byKind steps kind h⟩
  obtain ⟨e, he, rfl⟩ := exists_event_of_stores steps h
  exact le_latestSeen steps e he

end

end ObservationModel

end Landlock
