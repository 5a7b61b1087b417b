import Mathlib.Data.Finset.Basic
import Mathlib.Data.List.Nodup
import Mathlib.Data.Set.Card
import Mathlib.Logic.Relation

/-!
# Listing a hierarchy in tree order

A hierarchy gives every node at most one parent; the parents of broken data can form a cycle.
A walk lists the nodes with a stack of pending entries and skips the nodes that it has listed
before.  Each entry has a trail, one bit for each level, which says whether the entry of that
level is the last child.

`Inv` is what the steps of a walk preserve.  A walk starts from a node without a parent, or
from a node below which (in the order of the nodes) everything is listed.  For this reason the
children that were listed before their parent are the first ones of the parent's children, and
skipping them does not change which child is the last one.
-/

/-- Nodes with at most one parent each. -/
structure Hierarchy (α : Type*) [Preorder α] where
  nodes : Finset α
  parent : α → Option α
  children : α → List α
  mem_children : ∀ p c, c ∈ children p ↔ c ∈ nodes ∧ parent c = some p
  sorted : ∀ p, (children p).Pairwise (· < ·)

namespace Hierarchy

variable {α : Type*} [Preorder α] (h : Hierarchy α)

/-- No node is listed twice among the children of a node. -/
theorem nodup_children (p : α) : (h.children p).Nodup := (h.sorted p).imp ne_of_lt

/-! ## Ancestors -/

/-- The nodes above a node. -/
def ancestors (a : α) : Set α := {b | Relation.TransGen (fun c p => h.parent c = some p) a b}

/-- No node is above itself. -/
def Acyclic : Prop := ∀ a, a ∉ h.ancestors a

variable {h} {a p : α}

/-- Nothing is above a node without a parent. -/
private theorem ancestors_of_none (ha : h.parent a = none) : h.ancestors a = ∅ := by
  rw [Set.eq_empty_iff_forall_notMem]
  intro b hb
  obtain ⟨c, hc, _⟩ := Relation.TransGen.head'_iff.mp hb
  rw [ha] at hc
  cases hc

/-- Above a node are its parent and what is above that. -/
private theorem ancestors_of_some (ha : h.parent a = some p) :
    h.ancestors a = insert p (h.ancestors p) := by
  ext b
  constructor
  · intro hb
    -- A node has one parent, so that the first step upwards is known
    obtain ⟨c, hc, hcb⟩ := Relation.TransGen.head'_iff.mp hb
    obtain rfl : c = p := Option.some.inj (hc.symm.trans ha)
    rcases Relation.reflTransGen_iff_eq_or_transGen.mp hcb with rfl | hcb
    · exact Set.mem_insert _ _
    · exact Set.mem_insert_of_mem _ hcb
  · rintro (rfl | hb)
    · exact Relation.TransGen.single ha
    · exact Relation.TransGen.head ha hb

variable (hnodes : ∀ c p, h.parent c = some p → p ∈ h.nodes)
include hnodes

/-- Only nodes of the hierarchy are above a node. -/
private theorem finite_ancestors (a : α) : (h.ancestors a).Finite := by
  refine h.nodes.finite_toSet.subset fun b hb => ?_
  obtain ⟨c, _, hc⟩ := Relation.TransGen.tail'_iff.mp hb
  exact hnodes c b hc

/-- Without cycles a node has one ancestor more than its parent. -/
private theorem ncard_ancestors (hacyclic : h.Acyclic) (ha : h.parent a = some p) :
    (h.ancestors a).ncard = (h.ancestors p).ncard + 1 := by
  rw [ancestors_of_some ha,
    Set.ncard_insert_of_notMem (hacyclic p) (finite_ancestors hnodes p)]

end Hierarchy

/-! ## Walks -/

namespace TreeWalk

variable {α : Type*}

/-- A node and its trail. -/
abbrev Entry (α : Type*) := α × List Bool

/-- The entries that wait, the next one first, and the entries that are listed. -/
structure Walk (α : Type*) where
  pending : List (Entry α)
  output : List (Entry α)

/-- The nodes of a list of entries. -/
abbrev ids (entries : List (Entry α)) : List α := entries.map Prod.fst

/-- The nodes of a list of entries, the first one taken off. -/
theorem ids_cons (e : Entry α) (entries : List (Entry α)) :
    ids (e :: entries) = e.1 :: ids entries := rfl

/-- The nodes after one more entry is listed. -/
theorem mem_ids_concat {entries : List (Entry α)} {e : Entry α} {a : α} :
    a ∈ ids (entries ++ [e]) ↔ a ∈ ids entries ∨ a = e.1 := by
  simp [ids]

/-- The last entry of a level. -/
def lastAt (n : Nat) (entries : List (Entry α)) : Option (Entry α) :=
  (entries.filter fun e => e.2.length = n).getLast?

/-- The last entry of a level is an entry of that level. -/
private theorem mem_of_lastAt {n : Nat} {entries : List (Entry α)} {e : Entry α}
    (he : lastAt n entries = some e) : e ∈ entries ∧ e.2.length = n := by
  have hmem := List.mem_of_getLast? he
  rw [List.mem_filter, decide_eq_true_eq] at hmem
  exact hmem

@[simp] theorem lastAt_concat_self (entries : List (Entry α)) (e : Entry α) :
    lastAt e.2.length (entries ++ [e]) = some e := by
  simp [lastAt]

/-- An entry of another level does not change it. -/
private theorem lastAt_concat_of_ne {n : Nat} (entries : List (Entry α)) {e : Entry α}
    (hn : e.2.length ≠ n) : lastAt n (entries ++ [e]) = lastAt n entries := by
  simp [lastAt, hn]

variable [Preorder α] [DecidableEq α] (h : Hierarchy α)

/-- The entries of the children of an entry; the last child gets the bit. -/
def childEntries (e : Entry α) : List (Entry α) :=
  (h.children e.1).map fun c => (c, e.2 ++ [decide ((h.children e.1).getLast? = some c)])

/-- A step of a walk takes the next entry.  A node that is listed is skipped; another one is
    listed, and its children are next. -/
inductive Step : Walk α → Walk α → Prop where
  | skip {e : Entry α} {pending output : List (Entry α)} (he : e.1 ∈ ids output) :
      Step ⟨e :: pending, output⟩ ⟨pending, output⟩
  | visit {e : Entry α} {pending output : List (Entry α)} (he : e.1 ∉ ids output) :
      Step ⟨e :: pending, output⟩ ⟨childEntries h e ++ pending, output ++ [e]⟩

/-- The listed entries below the root level whose parent is `p`. -/
def shown (p : α) (entries : List (Entry α)) : List (Entry α) :=
  entries.filter fun e => 1 < e.2.length ∧ h.parent e.1 = some p

/-- An entry belongs under the last entry of the level above. -/
def Hangs (before : List (Entry α)) (e : Entry α) : Prop :=
  ∃ p t, lastAt (e.2.length - 1) before = some (p, t) ∧ h.parent e.1 = some p ∧
    e.2 = t ++ [decide ((h.children p).getLast? = some e.1)]

/-- Every node before `a` is listed. -/
def Low (output : List (Entry α)) (a : α) : Prop := ∀ b ∈ h.nodes, b < a → b ∈ ids output

/-- A node from which a walk may start. -/
def MayStart (output : List (Entry α)) (a : α) : Prop := h.parent a = none ∨ Low h output a

/-- The pending entries are a start, or they belong under listed entries, deeper ones first. -/
def Waiting (output pending : List (Entry α)) : Prop :=
  (∃ a b, pending = [(a, [b])] ∧ MayStart h output a) ∨
    (∀ e ∈ pending, 1 < e.2.length ∧ Hangs h output e) ∧
      pending.Pairwise fun e e' => e'.2.length ≤ e.2.length

/-- What the steps of a walk preserve. -/
structure Inv (w : Walk α) : Prop where
  nodup : (ids w.output).Nodup
  placed : ∀ before e after, w.output = before ++ e :: after → 1 < e.2.length → Hangs h before e
  waiting : Waiting h w.output w.pending
  /-- A node listed before its parent was a start. -/
  early : ∀ c ∈ ids w.output, ∀ p, h.parent c = some p → p ∈ ids w.output ∨ Low h w.output c
  /-- Of the children of a listed node some were listed earlier, then some are listed under
      it, and the rest is pending. -/
  split : ∀ p ∈ ids w.output, ∃ earlier, (∀ c ∈ earlier, c ∈ ids w.output) ∧
    h.children p = earlier ++ ids (shown h p w.output) ++ ids (shown h p w.pending)
  /-- The pending children that will be skipped come first, -/
  skipped : ∀ p, (ids (shown h p w.pending)).Pairwise
    fun c d => d ∈ ids w.output → c ∈ ids w.output
  /-- and none of them comes after a child that is listed under its parent. -/
  listed : ∀ p, shown h p w.output ≠ [] → ∀ c ∈ ids (shown h p w.pending), c ∉ ids w.output

variable {h} {e : Entry α} {p : α} {pending output : List (Entry α)} {w w' : Walk α}

omit [DecidableEq α] in
/-- Listing more keeps the nodes before `a` listed. -/
theorem Low.concat {a : α} (hlow : Low h output a) : Low h (output ++ [e]) a :=
  fun b hb hlt => mem_ids_concat.mpr (.inl (hlow b hb hlt))

/-- An entry that belongs under another one has its parent listed. -/
private theorem Hangs.exists_parent (hangs : Hangs h output e) :
    ∃ p ∈ ids output, h.parent e.1 = some p := by
  obtain ⟨p, t, hlast, hp, _⟩ := hangs
  exact ⟨p, List.mem_map_of_mem (mem_of_lastAt hlast).1, hp⟩

/-- That parent is the parent of the hierarchy. -/
private theorem Hangs.mem_ids (hangs : Hangs h output e) (hp : h.parent e.1 = some p) :
    p ∈ ids output := by
  obtain ⟨q, hq, hparent⟩ := hangs.exists_parent
  rwa [Option.some.inj (hp.symm.trans hparent)]

/-! ### What is shown under a node -/

/-- What is shown under a node, of two lists of entries. -/
private theorem shown_append (entries entries' : List (Entry α)) :
    shown h p (entries ++ entries') = shown h p entries ++ shown h p entries' :=
  List.filter_append ..

/-- A child below the root level is shown, -/
private theorem shown_cons_of_pos (hlen : 1 < e.2.length) (hp : h.parent e.1 = some p)
    (entries : List (Entry α)) : shown h p (e :: entries) = e :: shown h p entries :=
  List.filter_cons_of_pos (by simp [hlen, hp])

/-- and another entry is not. -/
private theorem shown_cons_of_neg (he : ¬ (1 < e.2.length ∧ h.parent e.1 = some p))
    (entries : List (Entry α)) : shown h p (e :: entries) = shown h p entries :=
  List.filter_cons_of_neg (by simpa using he)

/-- What it is to be shown under a node. -/
private theorem mem_shown {entries : List (Entry α)} :
    e ∈ shown h p entries ↔ e ∈ entries ∧ 1 < e.2.length ∧ h.parent e.1 = some p := by
  rw [shown, List.mem_filter, decide_eq_true_eq]

/-- Nothing is shown under a node that no entry has as its parent. -/
private theorem shown_eq_nil {entries : List (Entry α)}
    (hp : ∀ e ∈ entries, 1 < e.2.length → h.parent e.1 ≠ some p) : shown h p entries = [] := by
  rw [shown, List.filter_eq_nil_iff]
  intro e he
  rw [decide_eq_true_eq]
  exact fun ⟨hlen, hparent⟩ => hp e he hlen hparent

@[simp] theorem ids_childEntries (e : Entry α) : ids (childEntries h e) = h.children e.1 := by
  simp [ids, childEntries, Function.comp_def]

/-- The parent and the trail of the entry of a child. -/
private theorem mem_childEntries {c : Entry α} (hc : c ∈ childEntries h e) :
    h.parent c.1 = some e.1 ∧ c.2 = e.2 ++ [decide ((h.children e.1).getLast? = some c.1)] := by
  obtain ⟨a, ha, rfl⟩ := List.mem_map.mp hc
  exact ⟨((h.mem_children e.1 a).mp ha).2, rfl⟩

/-- Children are one level deeper. -/
theorem length_of_mem_childEntries {c : Entry α} (hc : c ∈ childEntries h e) :
    c.2.length = e.2.length + 1 := by
  rw [(mem_childEntries hc).2, List.length_append, List.length_singleton]

/-- All entries of the children of a node are shown under it, -/
private theorem shown_childEntries_self (hlen : 0 < e.2.length) :
    shown h e.1 (childEntries h e) = childEntries h e := by
  rw [shown, List.filter_eq_self]
  intro c hc
  have hlength := length_of_mem_childEntries hc
  rw [decide_eq_true_eq]
  exact ⟨by omega, (mem_childEntries hc).1⟩

/-- and none of them under another node. -/
private theorem shown_childEntries_of_ne (hp : e.1 ≠ p) : shown h p (childEntries h e) = [] := by
  refine shown_eq_nil fun c hc _ hparent => hp ?_
  exact Option.some.inj ((mem_childEntries hc).1.symm.trans hparent)

/-! ### The invariant -/

namespace Inv

/-- Every pending entry has a level. -/
private theorem waiting_length_pos (hinv : Inv h w) (he : e ∈ w.pending) : 0 < e.2.length := by
  rcases hinv.waiting with ⟨a, b, hpending, _⟩ | ⟨hangs, _⟩
  · rw [hpending, List.mem_singleton] at he
    rw [he]
    exact Nat.one_pos
  · exact Nat.lt_of_succ_lt (hangs e he).1

/-- A pending entry below the root level has its parent listed. -/
private theorem hangs_of_pending (hinv : Inv h w) (he : e ∈ w.pending) (hlen : 1 < e.2.length) :
    Hangs h w.output e := by
  rcases hinv.waiting with ⟨a, b, hpending, _⟩ | ⟨hangs, _⟩
  · rw [hpending, List.mem_singleton] at he
    rw [he] at hlen
    exact absurd hlen (lt_irrefl 1)
  · exact (hangs e he).2

/-- Entries behind another one are below the root level. -/
private theorem hangs_of_cons (hinv : Inv h ⟨e :: pending, output⟩) {e' : Entry α}
    (he' : e' ∈ pending) :
    1 < e.2.length ∧ 1 < e'.2.length ∧ Hangs h output e' ∧ e'.2.length ≤ e.2.length := by
  rcases hinv.waiting with ⟨a, b, hpending, _⟩ | ⟨hangs, hlength⟩
  · obtain ⟨_, rfl⟩ := List.cons.inj hpending
    exact absurd he' List.not_mem_nil
  · obtain ⟨hlen', hangs'⟩ := hangs e' (List.mem_cons_of_mem e he')
    exact ⟨(hangs e List.mem_cons_self).1, hlen', hangs', (List.pairwise_cons.mp hlength).1 e' he'⟩

/-- A child that is next has its parent listed, or was a start. -/
private theorem early_next (hinv : Inv h ⟨e :: pending, output⟩) (hp : h.parent e.1 = some p) :
    p ∈ ids output ∨ Low h output e.1 := by
  rcases hinv.waiting with ⟨a, b, hpending, hstart⟩ | ⟨hangs, _⟩
  · obtain ⟨rfl, _⟩ := List.cons.inj hpending
    exact .inr (hstart.resolve_left fun hnone => by rw [hnone] at hp; cases hp)
  · exact .inl ((hangs e List.mem_cons_self).2.mem_ids hp)

/-- What is shown in the list or waits under a node has that node listed. -/
private theorem mem_ids_of_shown (hinv : Inv h w) {e : Entry α} (he : e ∈ shown h p w.output) :
    p ∈ ids w.output := by
  obtain ⟨hmem, hlen, hp⟩ := mem_shown.mp he
  obtain ⟨before, after, hsplit⟩ := List.append_of_mem hmem
  have hmem' := (hinv.placed before e after hsplit hlen).mem_ids hp
  rw [hsplit, ids, List.map_append]
  exact List.mem_append_left _ hmem'

/-! #### Skipping a listed node -/

/-- Skipping a listed node keeps the invariant. -/
theorem skip (hinv : Inv h ⟨e :: pending, output⟩) (he : e.1 ∈ ids output) :
    Inv h ⟨pending, output⟩ where
  nodup := hinv.nodup
  placed := hinv.placed
  waiting := by
    rcases hinv.waiting with ⟨a, b, hpending, _⟩ | ⟨hangs, hlength⟩
    · obtain ⟨_, rfl⟩ := List.cons.inj hpending
      exact .inr ⟨nofun, List.Pairwise.nil⟩
    · exact .inr ⟨fun e' he' => hangs e' (List.mem_cons_of_mem e he'), hlength.of_cons⟩
  early := hinv.early
  split := by
    intro p hp
    obtain ⟨earlier, hearlier, hsplit⟩ := hinv.split p hp
    by_cases hchild : 1 < e.2.length ∧ h.parent e.1 = some p
    · -- nothing is listed under `p` yet, so that the node joins the earlier ones
      have hnone : shown h p output = [] := by
        by_contra hsome
        refine hinv.listed p hsome e.1 ?_ he
        rw [shown_cons_of_pos hchild.1 hchild.2]
        exact List.mem_cons_self
      rw [shown_cons_of_pos hchild.1 hchild.2] at hsplit
      refine ⟨earlier ++ [e.1], ?_, by rw [hsplit]; simp [hnone]⟩
      intro c hc
      rcases List.mem_append.mp hc with hc | hc
      · exact hearlier c hc
      · rwa [List.mem_singleton.mp hc]
    -- The skipped entry was not pending under `p`
    · rw [shown_cons_of_neg hchild] at hsplit
      exact ⟨earlier, hearlier, hsplit⟩
  skipped := by
    intro p
    refine (hinv.skipped p).sublist (List.Sublist.map _ ?_)
    exact (List.sublist_cons_self e pending).filter _
  listed := by
    intro p hp c hc
    refine hinv.listed p hp c ((List.Sublist.map _ ?_).subset hc)
    exact (List.sublist_cons_self e pending).filter _

/-! #### Listing a node -/

section Visit

variable (hinv : Inv h ⟨e :: pending, output⟩) (he : e.1 ∉ ids output)
include hinv he

/-- Nothing is shown under a node before it is listed. -/
private theorem shown_self_eq_nil :
    shown h e.1 (output ++ [e]) = [] ∧ shown h e.1 pending = [] := by
  refine ⟨?_, ?_⟩
  · refine shown_eq_nil fun e' he' hlen hp => he ?_
    rcases List.mem_append.mp he' with hmem | hmem
    · exact hinv.mem_ids_of_shown (mem_shown.mpr ⟨hmem, hlen, hp⟩)
    · obtain rfl := List.mem_singleton.mp hmem
      exact (hinv.hangs_of_pending List.mem_cons_self hlen).mem_ids hp
  · refine shown_eq_nil fun e' he' hlen hp => he ?_
    exact (hinv.hangs_of_cons he').2.2.1.mem_ids hp

/-- When a node is listed, its children are what is pending under it. -/
private theorem shown_pending_self :
    ids (shown h e.1 (childEntries h e ++ pending)) = h.children e.1 := by
  rw [shown_append, shown_childEntries_self (hinv.waiting_length_pos List.mem_cons_self),
    (hinv.shown_self_eq_nil he).2, List.append_nil, ids_childEntries]

omit hinv he in
/-- Nothing changes in what is pending under another node. -/
private theorem shown_pending_of_ne (hp : e.1 ≠ p) :
    shown h p (childEntries h e ++ pending) = shown h p pending := by
  rw [shown_append, shown_childEntries_of_ne hp, List.nil_append]

omit hinv he in
/-- Listing an entry shows it under its parent. -/
private theorem shown_next :
    ids (shown h p (output ++ [e])) ++ ids (shown h p pending) =
      ids (shown h p output) ++ ids (shown h p (e :: pending)) := by
  rw [shown_append]
  by_cases hchild : 1 < e.2.length ∧ h.parent e.1 = some p
  · rw [shown_cons_of_pos hchild.1 hchild.2, shown_cons_of_pos hchild.1 hchild.2]
    simp [shown]
  · rw [shown_cons_of_neg hchild, shown_cons_of_neg hchild]
    simp [shown]

omit he in
/-- The node is not pending a second time. -/
private theorem notMem_shown_pending (p : α) : e.1 ∉ ids (shown h p pending) := by
  intro hmem
  obtain ⟨e', he', heq⟩ := List.mem_map.mp hmem
  obtain ⟨hpending, hlen', hp'⟩ := mem_shown.mp he'
  obtain ⟨hlen, _, hangs, _⟩ := hinv.hangs_of_cons hpending
  have hp : h.parent e.1 = some p := heq ▸ hp'
  obtain ⟨earlier, _, hsplit⟩ := hinv.split p (hangs.mem_ids hp')
  rw [shown_cons_of_pos hlen hp] at hsplit
  -- Otherwise the node would be among the children of `p` twice
  have hnodup := h.nodup_children p
  rw [hsplit, ids_cons] at hnodup
  exact (List.nodup_cons.mp (List.nodup_append.mp hnodup).2.1).1 hmem

omit he in
/-- The entry that is listed belongs where it is put. -/
private theorem visit_placed (before : List (Entry α)) (e' : Entry α) (after : List (Entry α))
    (hsplit : output ++ [e] = before ++ e' :: after) (hlen : 1 < e'.2.length) :
    Hangs h before e' := by
  rcases List.eq_nil_or_concat after with rfl | ⟨after', last, rfl⟩
  · obtain ⟨rfl, heq⟩ := List.append_inj' hsplit rfl
    obtain rfl := List.singleton_inj.mp heq
    exact hinv.hangs_of_pending List.mem_cons_self hlen
  · rw [List.concat_eq_append, ← List.cons_append, ← List.append_assoc] at hsplit
    exact hinv.placed before e' after' (List.append_inj' hsplit rfl).1 hlen

omit he in
/-- The pending entries still belong under listed ones, deeper ones first. -/
private theorem visit_waiting : Waiting h (output ++ [e]) (childEntries h e ++ pending) := by
  have hpos := hinv.waiting_length_pos List.mem_cons_self
  refine .inr ⟨?_, ?_⟩
  · intro e' he'
    rcases List.mem_append.mp he' with hmem | hmem
    · -- a child hangs under the entry that was listed now
      have hlength := length_of_mem_childEntries hmem
      obtain ⟨hp, htrail⟩ := mem_childEntries hmem
      refine ⟨by omega, e.1, e.2, ?_, hp, htrail⟩
      rw [hlength, Nat.add_sub_cancel]
      exact lastAt_concat_self output e
    · -- the others are not deeper than that entry, so their parents are still the last ones
      obtain ⟨_, hlen', ⟨q, t, hlast, hq, htrail⟩, hle⟩ := hinv.hangs_of_cons hmem
      refine ⟨hlen', q, t, ?_, hq, htrail⟩
      rwa [lastAt_concat_of_ne output (by omega)]
  -- The children are one level below the entry, and what waited is not deeper than it
  · rw [List.pairwise_append]
    refine ⟨?_, ?_, ?_⟩
    · refine List.pairwise_of_forall_mem_list fun c hc c' hc' => ?_
      rw [length_of_mem_childEntries hc, length_of_mem_childEntries hc']
    · rcases hinv.waiting with ⟨a, b, hpending, _⟩ | ⟨_, hlength⟩
      · rw [(List.cons.inj hpending).2]
        exact List.Pairwise.nil
      · exact hlength.of_cons
    · intro c hc e' he'
      have hlength := length_of_mem_childEntries hc
      have hle := (hinv.hangs_of_cons he').2.2.2
      omega

/-- Of the children of a node that is listed now, the first ones are listed. -/
private theorem visit_skipped_self :
    (h.children e.1).Pairwise fun c d => d ∈ ids (output ++ [e]) → c ∈ ids (output ++ [e]) := by
  refine (h.sorted e.1).imp_of_mem fun {c d} hc hd hlt hlisted => ?_
  obtain ⟨hnode, _⟩ := (h.mem_children e.1 c).mp hc
  obtain ⟨_, hp⟩ := (h.mem_children e.1 d).mp hd
  -- A child that was listed before its parent was a start, and what is before it is listed
  have hlow : Low h output d := by
    rcases mem_ids_concat.mp hlisted with hlisted | heq
    · exact (hinv.early d hlisted e.1 hp).resolve_left he
    · -- the node is its own parent
      rw [heq] at hp ⊢
      exact (hinv.early_next hp).resolve_left he
  exact mem_ids_concat.mpr (.inl (hlow c hnode hlt))

/-- Listing a node keeps the invariant. -/
theorem visit : Inv h ⟨childEntries h e ++ pending, output ++ [e]⟩ where
  nodup := by
    rw [ids, List.map_append, List.nodup_append]
    refine ⟨hinv.nodup, List.nodup_singleton _, ?_⟩
    rintro a ha b hb rfl
    exact he (List.mem_singleton.mp hb ▸ ha)
  placed := hinv.visit_placed
  waiting := hinv.visit_waiting
  early := by
    intro c hc p hp
    rcases mem_ids_concat.mp hc with hc | rfl
    · exact (hinv.early c hc p hp).imp (fun hmem => mem_ids_concat.mpr (.inl hmem)) Low.concat
    · exact (hinv.early_next hp).imp (fun hmem => mem_ids_concat.mpr (.inl hmem)) Low.concat
  split := by
    intro p hp
    by_cases hself : e.1 = p
    -- Everything below a node that is listed now is pending
    · subst hself
      refine ⟨[], nofun, ?_⟩
      rw [hinv.shown_pending_self he, (hinv.shown_self_eq_nil he).1]
      rfl
    -- The node moves from the pending children of its parent to the listed ones
    · have hlisted := (mem_ids_concat.mp hp).resolve_right (Ne.symm hself)
      obtain ⟨earlier, hearlier, hsplit⟩ := hinv.split p hlisted
      refine ⟨earlier, fun c hc => mem_ids_concat.mpr (.inl (hearlier c hc)), ?_⟩
      rw [shown_pending_of_ne hself, List.append_assoc, shown_next, ← List.append_assoc]
      exact hsplit
  skipped := by
    intro p
    by_cases hself : e.1 = p
    · subst hself
      rw [hinv.shown_pending_self he]
      exact hinv.visit_skipped_self he
    · rw [shown_pending_of_ne hself]
      have hold := (hinv.skipped p).sublist
        (((List.sublist_cons_self e pending).filter _).map Prod.fst)
      refine hold.imp_of_mem fun {c d} _ hd hcd hlisted => ?_
      rcases mem_ids_concat.mp hlisted with hlisted | rfl
      · exact mem_ids_concat.mpr (.inl (hcd hlisted))
      · exact absurd hd (hinv.notMem_shown_pending p)
  listed := by
    intro p hp c hc hlisted
    by_cases hself : e.1 = p
    · exact hp (hself ▸ (hinv.shown_self_eq_nil he).1)
    · rw [shown_pending_of_ne hself] at hc
      have hlisted' : c ∈ ids output := by
        rcases mem_ids_concat.mp hlisted with hmem | rfl
        · exact hmem
        · exact absurd hc (hinv.notMem_shown_pending p)
      by_cases hchild : 1 < e.2.length ∧ h.parent e.1 = some p
      · -- the node was pending before `c` and was not listed
        have hskipped := hinv.skipped p
        rw [shown_cons_of_pos hchild.1 hchild.2, ids_cons, List.pairwise_cons] at hskipped
        exact he (hskipped.1 c hc hlisted')
      · rw [shown_append, shown_cons_of_neg hchild] at hp
        refine hinv.listed p (by simpa [shown] using hp) c ?_ hlisted'
        rwa [shown_cons_of_neg hchild]

end Visit

/-- A step keeps the invariant, whichever it is, -/
theorem step (hinv : Inv h w) (hstep : Step h w w') : Inv h w' := by
  cases hstep with
  | skip he => exact hinv.skip he
  | visit he => exact hinv.visit he

/-- and so does a run. -/
theorem run (hinv : Inv h w) (hrun : Relation.ReflTransGen (Step h) w w') : Inv h w' := by
  induction hrun with
  | refl => exact hinv
  | tail _ hstep ih => exact ih.step hstep

/-- An empty list is where walks begin. -/
theorem empty : Inv h ⟨[], []⟩ where
  nodup := List.nodup_nil
  placed := by simp
  waiting := .inr ⟨nofun, List.Pairwise.nil⟩
  early := nofun
  split := nofun
  skipped := fun _ => List.Pairwise.nil
  listed := fun _ hne => absurd rfl hne

/-- A walk may start from a node without a parent, or when everything before it is listed. -/
theorem start (hinv : Inv h ⟨[], output⟩) {a : α} (b : Bool) (ha : MayStart h output a) :
    Inv h ⟨[(a, [b])], output⟩ where
  nodup := hinv.nodup
  placed := hinv.placed
  waiting := .inl ⟨a, b, rfl, ha⟩
  early := hinv.early
  split := hinv.split
  skipped := fun _ => List.Pairwise.nil
  listed := fun _ _ => nofun

/-! #### When nothing is pending -/

section Done

variable (hinv : Inv h ⟨[], output⟩)
include hinv

/-- When nothing is pending, the children of a listed node are listed. -/
theorem closed {c : α} (hp : p ∈ ids output) (hc : c ∈ h.children p) : c ∈ ids output := by
  obtain ⟨earlier, hearlier, hsplit⟩ := hinv.split p hp
  rw [hsplit] at hc
  simp only [List.mem_append] at hc
  rcases hc with (hc | hc) | hc
  · exact hearlier c hc
  · exact (List.filter_sublist.map Prod.fst).subset hc
  · exact absurd hc List.not_mem_nil

/-- The children that are shown under a node are its last ones. -/
private theorem suffix_children (hp : p ∈ ids output) :
    ids (shown h p output) <:+ h.children p := by
  obtain ⟨earlier, _, hsplit⟩ := hinv.split p hp
  rw [hsplit]
  exact ⟨earlier, (List.append_nil _).symm⟩

/-- The children that are shown under a node are in order. -/
theorem sorted_shown (p : α) : (ids (shown h p output)).Pairwise (· < ·) := by
  by_cases hp : p ∈ ids output
  · exact (h.sorted p).sublist (hinv.suffix_children hp).sublist
  · have hnone : shown h p output = [] := by
      by_contra hne
      obtain ⟨e, he⟩ := List.exists_mem_of_ne_nil _ hne
      exact hp (hinv.mem_ids_of_shown he)
    rw [hnone]
    exact List.Pairwise.nil

/-- The bit of a child is set if it is the last one that is shown under its parent. -/
theorem last_bit (he : e ∈ shown h p output) :
    e.2.getLast? = some true ↔ (shown h p output).getLast? = some e := by
  obtain ⟨hmem, hlen, hp⟩ := mem_shown.mp he
  obtain ⟨before, after, hout⟩ := List.append_of_mem hmem
  obtain ⟨q, t, _, hq, htrail⟩ := hinv.placed before e after hout hlen
  obtain rfl : p = q := Option.some.inj (hp.symm.trans hq)
  -- The bit was set from the children of the hierarchy, skipped ones included
  have hbit : e.2.getLast? = some true ↔ (h.children p).getLast? = some e.1 := by
    rw [htrail]
    simp
  -- The last child is the last one shown, and its entry is the one with its node
  obtain ⟨earlier, hsplit⟩ := hinv.suffix_children (hinv.mem_ids_of_shown he)
  have hlast : (h.children p).getLast? = (shown h p output).getLast?.map Prod.fst := by
    rw [← hsplit, List.getLast?_append_of_ne_nil, List.getLast?_map]
    rw [ids, ne_eq, List.map_eq_nil_iff]
    exact List.ne_nil_of_mem he
  have hinj := List.inj_on_of_nodup_map ((hinv.sorted_shown p).imp ne_of_lt)
  rw [hbit, hlast, Option.map_eq_some_iff]
  constructor
  · rintro ⟨e', he', heq⟩
    rw [he', hinj (List.mem_of_getLast? he') he heq]
  · exact fun h' => ⟨e, h', rfl⟩

/-- Without cycles, if the nodes without a parent are listed, everything is. -/
theorem complete (hnodes : ∀ c p, h.parent c = some p → p ∈ h.nodes) (hacyclic : h.Acyclic)
    (hroots : ∀ a ∈ h.nodes, h.parent a = none → a ∈ ids output) (a : α) (ha : a ∈ h.nodes) :
    a ∈ ids output := by
  -- By induction on the number of ancestors
  induction hn : (h.ancestors a).ncard using Nat.strong_induction_on generalizing a with
  | _ n ih =>
    cases hp : h.parent a with
    | none => exact hroots a ha hp
    | some p =>
      have hcard := Hierarchy.ncard_ancestors hnodes hacyclic hp
      refine hinv.closed (ih _ (by omega) p (hnodes a p hp) rfl) ?_
      exact (h.mem_children p a).mpr ⟨ha, hp⟩

/-- Without cycles the length of a trail is the depth of the node, if only nodes without a
    parent are at the root level. -/
theorem length_trail (hnodes : ∀ c p, h.parent c = some p → p ∈ h.nodes)
    (hacyclic : h.Acyclic)
    (hroots : ∀ e ∈ output, e.2 ≠ [] ∧ (e.2.length = 1 → h.parent e.1 = none))
    (before : List (Entry α)) (e : Entry α) (after : List (Entry α))
    (hout : output = before ++ e :: after) :
    e.2.length = 1 + (h.ancestors e.1).ncard := by
  -- By induction on the place in the list: a parent is listed before its children
  induction hn : before.length using Nat.strong_induction_on generalizing before e after with
  | _ n ih =>
    obtain ⟨hne, hroot⟩ := hroots e (hout ▸ by simp)
    have hpos := List.length_pos_iff.mpr hne
    by_cases hlen : 1 < e.2.length
    · obtain ⟨p, t, hlast, hp, htrail⟩ := hinv.placed before e after hout hlen
      obtain ⟨hmem, hlength⟩ := mem_of_lastAt hlast
      obtain ⟨before', after', rfl⟩ := List.append_of_mem hmem
      have hparent := ih before'.length (by simp at hn; omega) before' (p, t)
        (after' ++ e :: after) (by rw [hout]; simp) rfl
      have hcard := Hierarchy.ncard_ancestors hnodes hacyclic hp
      simp only at hparent hlength
      omega
    · rw [Hierarchy.ancestors_of_none (hroot (by omega)), Set.ncard_empty]
      omega

end Done

end Inv

/-! ### Entries -/

/-- The entries that wait or are listed, after a step. -/
theorem Step.entries (hstep : Step h w w') :
    (∀ a ∈ ids (w.pending ++ w.output), a ∈ ids (w'.pending ++ w'.output)) ∧
      ∀ c ∈ w'.pending ++ w'.output, c ∈ w.pending ++ w.output ∨
        ∃ e ∈ w.pending ++ w.output, c ∈ childEntries h e := by
  cases hstep with
  | @skip e pending output he =>
    refine ⟨fun a ha => ?_, fun c hc => .inl (List.mem_cons_of_mem e hc)⟩
    rw [List.cons_append, ids_cons, List.mem_cons] at ha
    rcases ha with rfl | ha
    · rw [ids, List.map_append]
      exact List.mem_append_right _ he
    · exact ha
  -- The node moves from the pending entries to the list
  | @visit e pending output he =>
    refine ⟨fun a ha => ?_, fun c hc => ?_⟩
    · simp only [ids, List.map_append, List.mem_append, List.map_cons, List.mem_cons] at ha ⊢
      tauto
    · simp only [List.mem_append, List.mem_cons, List.not_mem_nil, or_false] at hc ⊢
      rcases hc with (hc | hc) | hc | hc
      · exact .inr ⟨e, .inl (.inl rfl), hc⟩
      · exact .inl (.inl (.inr hc))
      · exact .inl (.inr hc)
      · exact .inl (.inl (.inl hc))

/-- Nothing that waits is lost. -/
theorem mem_ids_of_run (hrun : Relation.ReflTransGen (Step h) w w') {a : α}
    (ha : a ∈ ids (w.pending ++ w.output)) : a ∈ ids (w'.pending ++ w'.output) := by
  induction hrun with
  | refl => exact ha
  | tail _ hstep ih => exact hstep.entries.1 a ih

/-- What the children of an entry inherit holds of all entries, if it held at the start. -/
theorem forall_entries_of_run {P : Entry α → Prop}
    (hchild : ∀ e, P e → ∀ c ∈ childEntries h e, P c)
    (hrun : Relation.ReflTransGen (Step h) w w') (hP : ∀ e ∈ w.pending ++ w.output, P e) :
    ∀ e ∈ w'.pending ++ w'.output, P e := by
  induction hrun with
  | refl => exact hP
  | tail _ hstep ih =>
    intro c hc
    rcases hstep.entries.2 c hc with hold | ⟨e, he, hce⟩
    · exact ih c hold
    · exact hchild e (ih e he) c hce

end TreeWalk
