import Mathlib.Data.List.Dedup
import Mathlib.Data.List.Perm.Basic
import Mathlib.Logic.Function.Conjugate

/-!
# Left folds

A left fold whose steps can be exchanged and repeated without effect sees neither
the order nor the number of occurrences of the elements of its list.  Steps that are
compositions inherit both conditions from their parts.

A view of the folded state that each element either leaves alone or changes by itself
is the fold of the elements that concern it (`foldl_view`), and what a fold has beyond its
start came in with an element (`exists_mem_of_foldl`).
-/

namespace Function

/-- Two updates that share a commuting second part commute when their first parts
    do. -/
theorem commute_comp_comp {σ ι : Type*} {p q : σ → σ} {u : ι → σ → σ}
    (huu : ∀ i j, Function.Commute (u i) (u j)) (hpu : ∀ i, Function.Commute p (u i))
    (hqu : ∀ i, Function.Commute q (u i)) (hpq : Function.Commute p q) (i j : ι) :
    Function.Commute (p ∘ u i) (q ∘ u j) :=
  Function.Commute.comp_left (Function.Commute.comp_right hpq (hpu j))
    (Function.Commute.comp_right (hqu i).symm (huu i j))

/-- A composition of commuting idempotent updates is idempotent. -/
theorem idem_comp {σ : Type*} {p u : σ → σ} (hpu : Function.Commute p u)
    (hp : ∀ s, p (p s) = p s) (hu : ∀ s, u (u s) = u s) (s : σ) :
    (p ∘ u) ((p ∘ u) s) = (p ∘ u) s := by
  simp only [Function.comp_apply]
  rw [← hpu (u s), hu, hp]

end Function

namespace List

variable {α β : Type*} {f : β → α → β}

/-- What a view sees of a fold is the fold over the elements that concern the view. -/
theorem foldl_view {γ δ : Type*} {view : β → γ} {concern : α → Option δ} {h : γ → δ → γ}
    (hstep : ∀ s a, view (f s a) = (concern a).elim (view s) (h (view s))) (l : List α) (s : β) :
    view (l.foldl f s) = (l.filterMap concern).foldl h (view s) := by
  induction l generalizing s with
  | nil => rfl
  | cons a l ih =>
    rw [foldl_cons, ih, hstep]
    cases hc : concern a with
    | none => rw [filterMap_cons_none hc]; rfl
    | some x => rw [filterMap_cons_some hc]; rfl

/-- What a fold has that its start did not have came in with some element. -/
theorem exists_mem_of_foldl {P : β → Prop} {Q : α → Prop}
    (hstep : ∀ s a, P (f s a) → P s ∨ Q a) {l : List α} {s : β} (hs : ¬ P s)
    (h : P (l.foldl f s)) : ∃ a ∈ l, Q a := by
  induction l generalizing s with
  | nil => exact absurd h hs
  | cons a l ih =>
    by_cases ha : P (f s a)
    · exact ⟨a, mem_cons_self, (hstep s a ha).resolve_left hs⟩
    · obtain ⟨b, hb, hQ⟩ := ih ha h
      exact ⟨b, mem_cons_of_mem a hb, hQ⟩

/-- Elements already folded in can be folded in again without effect. -/
private theorem foldl_absorb (l : List α) {x : α} (hx : x ∈ l)
    (hcomm : ∀ a ∈ l, ∀ b ∈ l, ∀ s, f (f s a) b = f (f s b) a)
    (hidem : ∀ a ∈ l, ∀ s, f (f s a) a = f s a) (s : β) :
    l.foldl f (f s x) = l.foldl f s := by
  induction l generalizing s with
  | nil => simp at hx
  | cons a l ih =>
    simp only [foldl_cons]
    rcases mem_cons.mp hx with rfl | hx'
    · rw [hidem x mem_cons_self]
    · rw [hcomm x (mem_cons_of_mem a hx') a mem_cons_self]
      exact ih hx' (fun b hb c hc => hcomm b (mem_cons_of_mem a hb) c (mem_cons_of_mem a hc))
        (fun b hb => hidem b (mem_cons_of_mem a hb)) _

/-- Removing repetitions does not change the fold. -/
private theorem foldl_dedup [DecidableEq α] (l : List α)
    (hcomm : ∀ a ∈ l, ∀ b ∈ l, ∀ s, f (f s a) b = f (f s b) a)
    (hidem : ∀ a ∈ l, ∀ s, f (f s a) a = f s a) (s : β) :
    l.dedup.foldl f s = l.foldl f s := by
  induction l generalizing s with
  | nil => rfl
  | cons a l ih =>
    have hcomm' : ∀ b ∈ l, ∀ c ∈ l, ∀ s, f (f s b) c = f (f s c) b :=
      fun b hb c hc => hcomm b (mem_cons_of_mem a hb) c (mem_cons_of_mem a hc)
    have hidem' : ∀ b ∈ l, ∀ s, f (f s b) b = f s b :=
      fun b hb => hidem b (mem_cons_of_mem a hb)
    by_cases ha : a ∈ l
    · rw [dedup_cons_of_mem ha, ih hcomm' hidem', foldl_cons,
        foldl_absorb l ha hcomm' hidem']
    · rw [dedup_cons_of_notMem ha, foldl_cons, foldl_cons, ih hcomm' hidem']

/-- Lists with the same elements fold to the same result. -/
theorem foldl_eq_of_mem_iff [DecidableEq α] {l₁ l₂ : List α} (hmem : ∀ a, a ∈ l₁ ↔ a ∈ l₂)
    (hcomm : ∀ a ∈ l₁, ∀ b ∈ l₁, ∀ s, f (f s a) b = f (f s b) a)
    (hidem : ∀ a ∈ l₁, ∀ s, f (f s a) a = f s a) (s : β) :
    l₁.foldl f s = l₂.foldl f s := by
  have hcomm₂ : ∀ a ∈ l₂, ∀ b ∈ l₂, ∀ s, f (f s a) b = f (f s b) a :=
    fun a ha b hb => hcomm a ((hmem a).mpr ha) b ((hmem b).mpr hb)
  have hidem₂ : ∀ a ∈ l₂, ∀ s, f (f s a) a = f s a :=
    fun a ha => hidem a ((hmem a).mpr ha)
  have hperm : l₁.dedup.Perm l₂.dedup :=
    (perm_ext_iff_of_nodup (nodup_dedup l₁) (nodup_dedup l₂)).mpr fun a => by
      rw [mem_dedup, mem_dedup, hmem a]
  rw [← foldl_dedup l₁ hcomm hidem, ← foldl_dedup l₂ hcomm₂ hidem₂]
  exact hperm.foldl_eq' (fun a ha b hb z =>
    hcomm a (mem_dedup.mp ha) b (mem_dedup.mp hb) z) s

end List
