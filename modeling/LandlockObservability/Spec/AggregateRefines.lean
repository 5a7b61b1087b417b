import LandlockObservability.Model.Aggregate

/-!
# The aggregator is an LRU table

The reference is a list of keys, most recently observed first, with the denials
that matched each key since it was last inserted (`Reference`).  A matched key
moves to the front, and a new key takes the place of the last one when the list is
full.  `DenialAggregator` refines it for every capacity and every event sequence.

What carries the proof is that sequence numbers are distinct and at most the
counter (`Recency` with `Inv.bounded`).  Observations keep it, since they use a new
largest number, and so does the numbering from one at the counter limit, since it
follows the old order.

## Key results

- `Inv.nextIngestionSequence`: the next number is above all numbers in use
- `Inv.observe`: an observation is a step of the reference
- `observeAll_refines`: the refinement over whole event sequences
- `observeAll_order`: the order of traversals does not show in the entries
-/

namespace Landlock

/-! ## The reference -/

/-- The denials that matched a key since it was inserted. -/
structure History where
  latest : Event
  /-- The denials before the latest one, newest first. -/
  earlier : List Event

namespace History

def count (h : History) : Nat := h.earlier.length + 1

/-- The denial that inserted the key. -/
def first (h : History) : Event := h.earlier.getLastD h.latest

/-- A history with one more denial. -/
def record (event : Event) : Option History → History
  | none => ⟨event, []⟩
  | some h => ⟨event, h.latest :: h.earlier⟩

end History

/-- The reference table, most recently observed key first. -/
abbrev Reference := List (DenialKey × History)

/-- An observation in a reference table of capacity `c`. -/
def Reference.observe (c : Nat) (t : Reference) (event : Event) : Reference :=
  match denialFacts event with
  | none => t
  | some (key, _, _) => Lru.touch c key (History.record event) t

/-- What an entry says about its key and the key's history. -/
structure AggregatedDenial.Describes (entry : AggregatedDenial) (key : DenialKey)
    (h : History) : Prop where
  key_eq : entry.key = key
  count : entry.occurrenceCount.toNat = min h.count (2 ^ 64 - 1)
  first : entry.firstTimestamp = h.first.timestamp
  latest : entry.latestTimestamp = h.latest.timestamp
  event : entry.latestEvent = h.latest
  facts : denialFacts h.latest = some (key, entry.sameExec, entry.logged)
  matching : ∀ e ∈ h.earlier, ∃ flags, denialFacts e = some (key, flags)

/-- The retained entries are those of the reference table. -/
structure DenialAggregator.Refines (a : DenialAggregator) (t : Reference) : Prop where
  keys : ∀ k, k ∈ a.entries ↔ k ∈ t.map Prod.fst
  nodup : (t.map Prod.fst).Nodup
  len_eq : a.len = t.length
  len_le : a.len ≤ a.capacity.value
  entries : ∀ k h, (k, h) ∈ t → ∃ entry, a.entries.lookup k = some entry ∧ entry.Describes k h

namespace DenialAggregator

/-- The sequence number of an entry is its stamp. -/
abbrev stamp : AggregatedDenial → Nat := AggregatedDenial.lastObservedSequence

/-- The entry of a key and the key's history. -/
def Related (p : DenialKey × AggregatedDenial) (q : DenialKey × History) : Prop :=
  p.1 = q.1 ∧ p.2.Describes q.1 q.2

/-- The table in the order of its sequence numbers is the reference, and no number is
    above the counter. -/
structure Inv (a : DenialAggregator) (l : List (DenialKey × AggregatedDenial))
    (t : Reference) : Prop where
  recency : Recency stamp a.entries l
  related : List.Forall₂ Related l t
  bounded : ∀ p ∈ l, stamp p.2 ≤ a.ingestionSequence
  counter : a.ingestionSequence ≤ u128Max
  length_le : l.length ≤ a.capacity.value

/-- An empty table refines the empty list. -/
theorem Inv.withCapacity (c : Capacity) : (DenialAggregator.withCapacity c).Inv [] [] where
  recency := .empty
  related := .nil
  bounded := fun _ hp => absurd hp List.not_mem_nil
  counter := Nat.zero_le _
  length_le := Nat.zero_le _

/-- Both have the same keys, in the same order. -/
private theorem Inv.map_fst {a : DenialAggregator} {l : List (DenialKey × AggregatedDenial)}
    {t : Reference} (h : a.Inv l t) : l.map Prod.fst = t.map Prod.fst :=
  Lru.map_fst_eq_of_forall₂ (fun hpq => hpq.1) h.related

/-- What the invariant says of the entries. -/
theorem Inv.refines {a : DenialAggregator} {l : List (DenialKey × AggregatedDenial)}
    {t : Reference} (h : a.Inv l t) : a.Refines t where
  keys := fun k => by rw [h.recency.mem_iff, h.map_fst]
  nodup := h.map_fst ▸ h.recency.nodup
  len_eq := h.recency.card_keys.trans h.related.length_eq
  len_le := by
    rw [len, h.recency.card_keys]
    exact h.length_le
  entries := by
    intro k history hmem
    -- The entry at the same place of the list
    obtain ⟨i, hi, hget⟩ := List.getElem_of_mem hmem
    have hil : i < l.length := h.related.length_eq ▸ hi
    have hrel := List.Forall₂.get h.related hil hi
    rw [List.get_eq_getElem, List.get_eq_getElem, hget] at hrel
    refine ⟨l[i].2, ?_, hrel.2⟩
    rw [h.recency.lookup_iff]
    have hpair : (k, l[i].2) = l[i] := Prod.ext hrel.1.symm rfl
    rw [hpair]
    exact List.getElem_mem hil

/-! ## Sequence numbers -/

/-- Numbering entries from `n` on does not saturate below the counter limit. -/
private theorem renumber_eq (ps : List (DenialKey × AggregatedDenial))
    (m : HashMap DenialKey AggregatedDenial) (n : Nat) (hn : n + ps.length ≤ u128Max) :
    renumber ps (m, n) =
      ((Recency.stampFrom (fun n e => { e with lastObservedSequence := n }) n ps).foldl
        (fun m p => m.insert p.1 p.2) m, n + ps.length) := by
  induction ps generalizing m n with
  | nil => rfl
  | cons p ps ih =>
    rw [List.length_cons] at hn
    have hincr : saturatingIncrement n = n + 1 := by
      unfold saturatingIncrement
      omega
    rw [renumber, hincr, ih _ _ (by omega), Recency.stampFrom, List.foldl_cons,
      List.length_cons]
    simp only [Prod.mk.injEq, true_and]
    omega

/-- New sequence numbers do not change what an entry says. -/
private theorem related_stampFrom (n : Nat) {ps : List (DenialKey × AggregatedDenial)}
    {ts : Reference}
    (h : List.Forall₂ Related ps ts) :
    List.Forall₂ Related
      (Recency.stampFrom (fun n e => { e with lastObservedSequence := n }) n ps) ts := by
  induction h generalizing n with
  | nil => exact .nil
  | cons hpq _ ih =>
    refine .cons ⟨hpq.1, ?_⟩ (ih (n + 1))
    exact { hpq.2 with }

section

variable {a : DenialAggregator} {l : List (DenialKey × AggregatedDenial)} {t : Reference}
  (order : IterOrder DenialKey AggregatedDenial)

/-- Compaction keeps the table in order, and leaves room above its numbers. -/
theorem Inv.compact (h : a.Inv l t) :
    ∃ l', (a.compact order).Inv l' t ∧ (a.compact order).ingestionSequence < u128Max := by
  have hlen : l.length < 2 ^ 64 := lt_of_le_of_lt h.length_le a.capacity.lt
  have hmax : u128Max = 2 ^ 128 - 1 := rfl
  have hsort := h.recency.mergeSort_toList order
  have hrenumber := renumber_eq l.reverse a.entries 0 (by rw [List.length_reverse]; omega)
  rw [List.length_reverse, Nat.zero_add] at hrenumber
  have hset : ∀ (n : Nat) (e : AggregatedDenial),
      stamp { e with lastObservedSequence := n } = n := fun _ _ => rfl
  -- The entries are numbered in the order of their old numbers
  have hcompact : a.compact order = { a with
      entries := (Recency.stampFrom (fun n e => { e with lastObservedSequence := n }) 0
        l.reverse).foldl (fun m p => m.insert p.1 p.2) a.entries
      ingestionSequence := l.length } := by
    rw [DenialAggregator.compact]
    simp only [stamp] at hsort
    rw [hsort, hrenumber]
  rw [hcompact]
  -- No number exceeds the number of entries
  refine ⟨_, ⟨h.recency.restamp hset, ?_, ?_, ?_, ?_⟩, ?_⟩
  · have hreverse := related_stampFrom 0 (List.rel_reverse h.related)
    have := List.rel_reverse hreverse
    rwa [List.reverse_reverse] at this
  · intro p hp
    have := Recency.stamp_stampFrom_le hset 0 l.reverse p (List.mem_reverse.mp hp)
    rw [List.length_reverse, Nat.zero_add] at this
    exact this
  · show l.length ≤ u128Max
    omega
  · have hkeys : ∀ (n : Nat) (ps : List (DenialKey × AggregatedDenial)),
        (Recency.stampFrom (fun n e => { e with lastObservedSequence := n }) n ps).length =
          ps.length := by
      intro n ps
      have := congrArg List.length (Recency.map_fst_stampFrom
        (fun n (e : AggregatedDenial) => { e with lastObservedSequence := n }) n ps)
      rwa [List.length_map, List.length_map] at this
    rw [List.length_reverse, hkeys, List.length_reverse]
    exact h.length_le
  · show l.length < u128Max
    omega

/-- The next sequence number is above all numbers in use. -/
theorem Inv.nextIngestionSequence (h : a.Inv l t) :
    ∃ l', (a.nextIngestionSequence order).Inv l' t ∧
      ∀ p ∈ l', stamp p.2 < (a.nextIngestionSequence order).ingestionSequence := by
  -- Before the increment there is room, either way
  have hroom : ∃ (a' : DenialAggregator) (l' : _), a.nextIngestionSequence order =
      { a' with ingestionSequence := saturatingIncrement a'.ingestionSequence } ∧
      a'.Inv l' t ∧ a'.ingestionSequence < u128Max := by
    by_cases hfull : a.ingestionSequence = u128Max
    · obtain ⟨l', hinv, hlt⟩ := h.compact order
      exact ⟨a.compact order, l', by rw [DenialAggregator.nextIngestionSequence, if_pos hfull],
        hinv, hlt⟩
    · have hlt := lt_of_le_of_ne h.counter hfull
      exact ⟨a, l, by rw [DenialAggregator.nextIngestionSequence, if_neg hfull], h, hlt⟩
  obtain ⟨a', l', heq, hinv, hlt⟩ := hroom
  have hincr : saturatingIncrement a'.ingestionSequence = a'.ingestionSequence + 1 := by
    unfold saturatingIncrement
    omega
  rw [heq, hincr]
  refine ⟨l', ⟨hinv.recency, hinv.related, ?_, hlt, hinv.length_le⟩, ?_⟩
  · intro p hp
    exact Nat.le_succ_of_le (hinv.bounded p hp)
  · intro p hp
    exact Nat.lt_succ_of_le (hinv.bounded p hp)

/-- Compaction does not change the capacity. -/
private theorem capacity_nextIngestionSequence :
    (a.nextIngestionSequence order).capacity = a.capacity := by
  unfold DenialAggregator.nextIngestionSequence
  split <;> rfl

/-! ## Observations -/

/-- One more denial of a key that is there. -/
private theorem describes_hit {entry : AggregatedDenial} {key : DenialKey} {h : History}
    (hd : entry.Describes key h) {event : Event} {sameExec logged : Bool}
    (hfacts : denialFacts event = some (key, sameExec, logged)) (sequence : Nat) :
    (hit event sameExec logged sequence entry).Describes key (History.record event (some h)) where
  key_eq := hd.key_eq
  count := by
    have hcount := hd.count
    have hlt : min (entry.occurrenceCount.toNat + 1) (2 ^ 64 - 1) < UInt64.size := by
      have : UInt64.size = 2 ^ 64 := rfl
      omega
    show (UInt64.ofNat (min (entry.occurrenceCount.toNat + 1) (2 ^ 64 - 1))).toNat =
      min (h.earlier.length + 1 + 1) (2 ^ 64 - 1)
    rw [UInt64.toNat_ofNat_of_lt' hlt, hcount, History.count]
    omega
  first := by
    rw [show (hit event sameExec logged sequence entry).firstTimestamp = entry.firstTimestamp
      from rfl, hd.first]
    -- The oldest denial of the longer history is that of the shorter one
    cases hearlier : h.earlier with
    | nil => simp [History.first, History.record, hearlier]
    | cons e es =>
      have hlast : (e :: es).getLast? = some ((e :: es).getLast (List.cons_ne_nil e es)) :=
        List.getLast?_eq_some_getLast (List.cons_ne_nil e es)
      simp [History.first, History.record, hearlier, hlast]
  latest := rfl
  event := rfl
  facts := hfacts
  matching := by
    intro e he
    rcases List.mem_cons.mp he with rfl | he
    · exact ⟨_, hd.facts⟩
    · exact hd.matching e he

/-- A new entry describes its first denial. -/
private theorem describes_fresh {event : Event} {key : DenialKey} {sameExec logged : Bool}
    (hfacts : denialFacts event = some (key, sameExec, logged)) (sequence : Nat) :
    (fresh event key sameExec logged sequence).Describes key (History.record event none) where
  key_eq := rfl
  count := rfl
  first := rfl
  latest := rfl
  event := rfl
  facts := hfacts
  matching := fun _ he => absurd he List.not_mem_nil

/-- Inserting the entry of a new key where there is room. -/
private theorem Inv.insert_fresh {m : HashMap DenialKey AggregatedDenial} {t : Reference}
    (hrec : Recency stamp m l) (hrel : List.Forall₂ Related l t)
    (hlt : ∀ p ∈ l, stamp p.2 < a.ingestionSequence) (hcounter : a.ingestionSequence ≤ u128Max)
    (hroom : l.length < a.capacity.value) {key : DenialKey} (hkey : key ∉ l.map Prod.fst)
    {event : Event} {sameExec logged : Bool}
    (hfacts : denialFacts event = some (key, sameExec, logged)) :
    Inv { a with
        entries := Finmap.insert key (fresh event key sameExec logged a.ingestionSequence) m }
      ((key, fresh event key sameExec logged a.ingestionSequence) :: l)
      ((key, History.record event none) :: t) := by
  have hfilter : (l.filter fun p => p.1 ≠ key) = l := by
    rw [List.filter_eq_self]
    intro p hp
    exact decide_eq_true fun heq => hkey (heq ▸ List.mem_map_of_mem hp)
  refine ⟨?_, .cons ⟨rfl, describes_fresh hfacts _⟩ hrel, ?_, hcounter, hroom⟩
  · have := hrec.insert (k := key)
      (x := fresh event key sameExec logged a.ingestionSequence) hlt
    rwa [hfilter] at this
  · intro p hp
    rcases List.mem_cons.mp hp with rfl | hp
    · exact Nat.le_refl _
    · exact Nat.le_of_lt (hlt p hp)

/-- The entry of a key describes the history that the reference has for it. -/
private theorem Inv.describes_of_lookup (h : a.Inv l t) {key : DenialKey}
    {entry : AggregatedDenial} (hlookup : a.entries.lookup key = some entry) :
    ∃ history, t.lookup key = some history ∧ entry.Describes key history := by
  have hmem := (h.recency.lookup_iff key entry).mp hlookup
  obtain ⟨i, hi, hget⟩ := List.getElem_of_mem hmem
  have hit : i < t.length := h.related.length_eq ▸ hi
  have hrel := List.Forall₂.get h.related hi hit
  rw [List.get_eq_getElem, List.get_eq_getElem, hget] at hrel
  have hkey : (key, t[i].2) = t[i] := Prod.ext hrel.1 rfl
  refine ⟨t[i].2, Lru.lookup_eq_some_of_mem h.refines.nodup (hkey ▸ List.getElem_mem hit), ?_⟩
  have hdescribes := hrel.2
  rwa [← show key = t[i].1 from hrel.1] at hdescribes

/-- Replacing the entry of a key that is there moves the key to the front. -/
private theorem Inv.insert_hit (h : a.Inv l t) (hlt : ∀ p ∈ l, stamp p.2 < a.ingestionSequence)
    {key : DenialKey} {entry : AggregatedDenial} (hlookup : a.entries.lookup key = some entry)
    {event : Event} {sameExec logged : Bool}
    (hfacts : denialFacts event = some (key, sameExec, logged)) :
    Inv { a with
        entries := Finmap.insert key (hit event sameExec logged a.ingestionSequence entry)
          a.entries }
      ((key, hit event sameExec logged a.ingestionSequence entry) :: l.filter fun p => p.1 ≠ key)
      (Lru.touch a.capacity.value key (History.record event) t) := by
  obtain ⟨history, hhistory, hdescribes⟩ := h.describes_of_lookup hlookup
  -- The key itself is filtered out, so that the list does not grow
  have hshort : (l.filter fun p => p.1 ≠ key).length < l.length := by
    rw [List.length_filter_lt_length_iff_exists]
    exact ⟨(key, entry), (h.recency.lookup_iff key entry).mp hlookup, by simp⟩
  rw [Lru.touch, hhistory]
  refine ⟨h.recency.insert hlt, ?_, ?_, h.counter, ?_⟩
  · exact .cons ⟨rfl, describes_hit hdescribes hfacts _⟩
      (Lru.forall₂_filter (fun hpq => hpq.1) h.related key)
  · intro p hp
    rcases List.mem_cons.mp hp with rfl | hp
    · exact Nat.le_refl _
    · exact h.bounded p (List.mem_of_mem_filter hp)
  · have hle := h.length_le
    rw [List.length_cons]
    show _ ≤ a.capacity.value
    omega

/-- A full table loses the last key of the list to a new one. -/
private theorem Inv.replace_last {p : DenialKey × AggregatedDenial} (h : a.Inv (l ++ [p]) t)
    (hlt : ∀ q ∈ l ++ [p], stamp q.2 < a.ingestionSequence) {key : DenialKey}
    (hkey : key ∉ l.map Prod.fst) {event : Event} {sameExec logged : Bool}
    (hfacts : denialFacts event = some (key, sameExec, logged)) :
    Inv { a with
        entries := Finmap.insert key (fresh event key sameExec logged a.ingestionSequence)
          (a.entries.erase p.1) }
      ((key, fresh event key sameExec logged a.ingestionSequence) :: l)
      ((key, History.record event none) :: t.dropLast) := by
  have hlength : (l ++ [p]).length = t.length := h.related.length_eq
  have hrel : List.Forall₂ Related l t.dropLast := by
    have htake := List.forall₂_take l.length h.related
    rw [List.take_left] at htake
    rwa [List.dropLast_eq_take, ← hlength, List.length_append, List.length_singleton,
      Nat.add_sub_cancel]
  have hroom : l.length < a.capacity.value := by
    have hle := h.length_le
    rw [List.length_append, List.length_singleton] at hle
    omega
  exact Inv.insert_fresh h.recency.erase_last hrel
    (fun q hq => hlt q (List.mem_append_left _ hq)) h.counter hroom hkey hfacts

/-- What `observe_entry` does to a table in order: a denial is a step of the
    reference, and its entry is returned. -/
theorem Inv.observeEntry (h : a.Inv l t) {event : Event} {key : DenialKey}
    {sameExec logged : Bool} (hfacts : denialFacts event = some (key, sameExec, logged)) :
    ∃ l' entry, (a.observeEntry order event).1.Inv l'
        (Lru.touch a.capacity.value key (History.record event) t) ∧
      (a.observeEntry order event).2 = some entry ∧
      (a.observeEntry order event).1.entries.lookup key = some entry := by
  obtain ⟨l', hinv, hlt⟩ := h.nextIngestionSequence order
  have hcapacity := capacity_nextIngestionSequence order (a := a)
  have hlength : l'.length = t.length := hinv.related.length_eq
  rw [DenialAggregator.observeEntry, hfacts]
  simp only
  generalize a.nextIngestionSequence order = b at hinv hlt hcapacity
  rw [← hcapacity]
  cases hlookup : b.entries.lookup key with
  | some entry =>
    exact ⟨_, _, hinv.insert_hit hlt hlookup hfacts, rfl, Finmap.lookup_insert _⟩
  | none =>
    have hkey : key ∉ l'.map Prod.fst := by
      rw [← hinv.recency.mem_iff, ← Finmap.lookup_eq_none]
      exact hlookup
    have hnone : t.lookup key = none :=
      Lru.lookup_eq_none_of_notMem (hinv.map_fst ▸ hkey)
    rw [Lru.touch, hnone]
    simp only [len, hinv.recency.card_keys, ← hlength]
    by_cases hfull : b.capacity.value ≤ l'.length
    · -- a miss in a full table: the last key of the list goes
      rw [if_pos hfull, if_pos hfull]
      have hpos := b.capacity.pos
      obtain ⟨l₀, p, rfl⟩ : ∃ l₀ p, l' = l₀ ++ [p] :=
        ⟨_, _, (List.dropLast_append_getLast (List.ne_nil_of_length_pos (by omega))).symm⟩
      rw [hinv.recency.argmin_toList order]
      rw [List.map_append, List.mem_append, not_or] at hkey
      have herased : (b.entries.erase p.1).lookup key = none := by
        rw [Finmap.lookup_eq_none, hinv.recency.erase_last.mem_iff]
        exact hkey.1
      simp only [herased, Option.getD_none]
      exact ⟨_, _, hinv.replace_last hlt hkey.1 hfacts, rfl, Finmap.lookup_insert _⟩
    · -- a miss with room left
      rw [if_neg hfull, if_neg hfull]
      simp only [Option.getD_none]
      exact ⟨_, _, Inv.insert_fresh hinv.recency hinv.related hlt hinv.counter
        (Nat.lt_of_not_le hfull) hkey hfacts, rfl, Finmap.lookup_insert _⟩

/-- An observation does not change the capacity. -/
private theorem capacity_observe (event : Event) :
    (a.observe order event).capacity = a.capacity := by
  have hnext := capacity_nextIngestionSequence order (a := a)
  unfold DenialAggregator.observe DenialAggregator.observeEntry
  split
  · rfl
  · dsimp only
    split
    · exact hnext
    · split
      · split <;> exact hnext
      · exact hnext

/-- An observation is a step of the reference. -/
theorem Inv.observe (h : a.Inv l t) (event : Event) :
    ∃ l', (a.observe order event).Inv l' (t.observe a.capacity.value event) := by
  cases hfacts : denialFacts event with
  | none =>
    rw [DenialAggregator.observe, DenialAggregator.observeEntry, Reference.observe, hfacts]
    exact ⟨l, h⟩
  | some facts =>
    obtain ⟨key, sameExec, logged⟩ := facts
    obtain ⟨l', _, hinv, _, _⟩ := h.observeEntry order hfacts
    rw [Reference.observe, hfacts]
    exact ⟨l', hinv⟩

end

/-- The table stays in order over every event sequence. -/
theorem Inv.observeAll {a : DenialAggregator} {l : List (DenialKey × AggregatedDenial)}
    {t : Reference} (h : a.Inv l t)
    (steps : List (IterOrder DenialKey AggregatedDenial × Event)) :
    (a.observeAll steps).capacity = a.capacity ∧ ∃ l', (a.observeAll steps).Inv l'
      ((steps.map Prod.snd).foldl (Reference.observe a.capacity.value) t) := by
  induction steps generalizing a l t with
  | nil => exact ⟨rfl, l, h⟩
  | cons step steps ih =>
    obtain ⟨l', hinv⟩ := h.observe step.1 step.2
    have hcapacity := capacity_observe step.1 step.2 (a := a)
    obtain ⟨hcap, l'', hinv'⟩ := ih hinv
    rw [hcapacity] at hcap hinv'
    exact ⟨hcap, l'', hinv'⟩

/-- The aggregator refines the reference table: for every capacity and every sequence
    of events, whatever the traversal orders, the retained entries are those of the
    reference, and the next denial returns its updated entry while any other event
    returns nothing and changes nothing. -/
theorem observeAll_refines (capacity : Capacity)
    (steps : List (IterOrder DenialKey AggregatedDenial × Event)) :
    ((withCapacity capacity).observeAll steps).Refines
        ((steps.map Prod.snd).foldl (Reference.observe capacity.value) []) ∧
      ∀ (order : IterOrder DenialKey AggregatedDenial) (event : Event),
        match denialFacts event with
        | none => ((withCapacity capacity).observeAll steps).observeEntry order event =
            ((withCapacity capacity).observeAll steps, none)
        | some (key, _, _) => ∃ entry,
            (((withCapacity capacity).observeAll steps).observeEntry order event).2 =
              some entry ∧
            (((withCapacity capacity).observeAll steps).observeEntry order event).1.entries.lookup
              key = some entry := by
  obtain ⟨_, l, hinv⟩ := (Inv.withCapacity capacity).observeAll steps
  refine ⟨hinv.refines, fun order event => ?_⟩
  cases hfacts : denialFacts event with
  | none => rw [DenialAggregator.observeEntry, hfacts]
  | some facts =>
    obtain ⟨key, sameExec, logged⟩ := facts
    obtain ⟨_, entry, _, hsome, hlookup⟩ := hinv.observeEntry order hfacts
    exact ⟨entry, hsome, hlookup⟩

/-! ## Traversal orders

Sequence numbers are distinct, so that neither sorting by them nor looking for the
smallest one depends on the order of the traversal. -/

section

variable {a : DenialAggregator} {l : List (DenialKey × AggregatedDenial)} {t : Reference}
  (order order' : IterOrder DenialKey AggregatedDenial)

/-- The next number does not depend on the order of traversal. -/
private theorem Inv.nextIngestionSequence_order (h : a.Inv l t) :
    a.nextIngestionSequence order = a.nextIngestionSequence order' := by
  have hcompact : a.compact order = a.compact order' := by
    have hsort := h.recency.mergeSort_toList order
    have hsort' := h.recency.mergeSort_toList order'
    simp only [stamp] at hsort hsort'
    rw [DenialAggregator.compact, DenialAggregator.compact, hsort, hsort']
  rw [DenialAggregator.nextIngestionSequence, DenialAggregator.nextIngestionSequence, hcompact]

/-- Nor does an observation. -/
private theorem Inv.observeEntry_order (h : a.Inv l t) (event : Event) :
    a.observeEntry order event = a.observeEntry order' event := by
  obtain ⟨l', hinv, _⟩ := h.nextIngestionSequence order
  have hnext := h.nextIngestionSequence_order order order'
  unfold DenialAggregator.observeEntry
  rw [← hnext]
  generalize a.nextIngestionSequence order = b at hinv
  cases denialFacts event with
  | none => rfl
  | some facts =>
    dsimp only
    cases b.entries.lookup facts.1 with
    | some entry => rfl
    | none =>
      dsimp only
      by_cases hfull : b.capacity.value ≤ b.len
      · -- a full table is not empty, and its last key is the one that goes
        have hpos := b.capacity.pos
        have hlen : b.len = l'.length := hinv.recency.card_keys
        obtain ⟨l₀, p, rfl⟩ : ∃ l₀ p, l' = l₀ ++ [p] :=
          ⟨_, _, (List.dropLast_append_getLast (List.ne_nil_of_length_pos (by omega))).symm⟩
        rw [if_pos hfull, if_pos hfull, hinv.recency.argmin_toList order,
          hinv.recency.argmin_toList order']
      · rw [if_neg hfull, if_neg hfull]

end

/-- The entries do not depend on the traversal orders. -/
theorem observeAll_order (capacity : Capacity)
    (steps steps' : List (IterOrder DenialKey AggregatedDenial × Event))
    (hevents : steps.map Prod.snd = steps'.map Prod.snd) :
    (withCapacity capacity).observeAll steps = (withCapacity capacity).observeAll steps' := by
  -- From any table that refines a list
  have hrun : ∀ (a : DenialAggregator) (l : _) (t : _), a.Inv l t →
      a.observeAll steps = a.observeAll steps' := by
    induction steps generalizing steps' with
    | nil =>
      intro a l t _
      rw [List.map_nil, eq_comm, List.map_eq_nil_iff] at hevents
      rw [hevents]
    | cons step steps ih =>
      intro a l t h
      cases steps' with
      | nil => simp at hevents
      | cons step' steps' =>
        rw [List.map_cons, List.map_cons, List.cons.injEq] at hevents
        obtain ⟨hevent, hrest⟩ := hevents
        have hstep : a.observe step.1 step.2 = a.observe step'.1 step'.2 := by
          rw [DenialAggregator.observe, DenialAggregator.observe, hevent,
            h.observeEntry_order step.1 step'.1]
        obtain ⟨l', hinv⟩ := h.observe step.1 step.2
        show (a.observe step.1 step.2).observeAll steps =
          (a.observe step'.1 step'.2).observeAll steps'
        rw [← hstep]
        exact ih steps' hrest _ _ _ hinv
  exact hrun _ _ _ (Inv.withCapacity capacity)

end DenialAggregator

end Landlock
