import Mathlib.Data.List.Nodup
import Mathlib.Logic.Function.Iterate

/-!
# A cursor in a list of items

Items are shown one below the other, each on one or more lines (`Stretched`), and some lines
belong to no item that can be chosen.  A cursor is on one of the items or on none.  `down` and
`up` move it by one item and stop at the ends; from nowhere they enter the list at its start and
at its end.
-/

namespace Cursor

/-! ## Moves -/

/-- The next item of `n`. -/
def down (n : Nat) : Option Nat → Option Nat
  | none => if n = 0 then none else some 0
  | some i => some (min (i + 1) (n - 1))

/-- The previous item of `n`. -/
def up (n : Nat) : Option Nat → Option Nat
  | none => if n = 0 then none else some (n - 1)
  | some i => some (i - 1)

/-- A cursor that is on no item or on one of the `n` items. -/
def Valid (n : Nat) (cursor : Option Nat) : Prop := ∀ i, cursor = some i → i < n

variable {n i : Nat} {cursor : Option Nat}

/-- Moving down stays in the list, -/
theorem Valid.down (h : Valid n cursor) : Valid n (down n cursor) := by
  intro i hi
  cases cursor with
  | none =>
    rw [Cursor.down] at hi
    split at hi
    · cases hi
    · cases hi
      omega
  | some j =>
    have hj := h j rfl
    cases hi
    omega

/-- and so does moving up. -/
theorem Valid.up (h : Valid n cursor) : Valid n (up n cursor) := by
  intro i hi
  cases cursor with
  | none =>
    rw [Cursor.up] at hi
    split at hi
    · cases hi
    · cases hi
      omega
  | some j =>
    have hj := h j rfl
    cases hi
    omega

/-- In a list with items, moving down selects one, -/
theorem exists_down (hn : 0 < n) (cursor : Option Nat) : ∃ i, down n cursor = some i := by
  cases cursor with
  | none => exact ⟨0, if_neg (Nat.ne_of_gt hn)⟩
  | some i => exact ⟨_, rfl⟩

/-- and so does moving up. -/
theorem exists_up (hn : 0 < n) (cursor : Option Nat) : ∃ i, up n cursor = some i := by
  cases cursor with
  | none => exact ⟨n - 1, if_neg (Nat.ne_of_gt hn)⟩
  | some i => exact ⟨_, rfl⟩

/-- Going up undoes going down, except at the last item. -/
theorem up_down (h : i + 1 < n) : up n (down n (some i)) = some i := by
  simp only [down, up]
  congr 1
  omega

/-- Going down undoes going up, except at the first item. -/
theorem down_up (hi : i < n) (h : 0 < i) : down n (up n (some i)) = some i := by
  simp only [down, up]
  congr 1
  omega

/-- Going down `k` times from nowhere reaches the `k`-th item, or the last one. -/
theorem iterate_down (hn : 0 < n) (k : Nat) :
    (down n)^[k + 1] none = some (min k (n - 1)) := by
  induction k with
  | zero => simp [down, Nat.ne_of_gt hn]
  | succ k ih =>
    rw [Function.iterate_succ_apply', ih, down]
    congr 1
    omega

/-- Going up `k` times from nowhere reaches the `k`-th item from the end, or the first one. -/
theorem iterate_up (hn : 0 < n) (k : Nat) : (up n)^[k + 1] none = some (n - 1 - k) := by
  induction k with
  | zero => simp [up, Nat.ne_of_gt hn]
  | succ k ih =>
    rw [Function.iterate_succ_apply', ih, up]
    congr 1

/-! ## Lines -/

section Lines

variable {α : Type*}

/-- Each element is repeated on one or more lines. -/
inductive Stretched : List α → List α → Prop where
  | nil : Stretched [] []
  | cons (a : α) (k : Nat) {items lines : List α} :
      Stretched items lines → Stretched (a :: items) (List.replicate (k + 1) a ++ lines)

/-- The lines are those of the items. -/
theorem Stretched.mem_iff {items lines : List α} (h : Stretched items lines) {a : α} :
    a ∈ lines ↔ a ∈ items := by
  induction h with
  | nil => rfl
  | cons b k h ih =>
    rw [List.mem_append, List.mem_replicate, List.mem_cons, ih]
    simp

variable [DecidableEq α] (choosable : α → Bool)

/-- One line of the loop that collects the items: a choosable line that differs from the item
    before it is a new item. -/
def collect (items : List (Nat × α)) (line : α × Nat) : List (Nat × α) :=
  if choosable line.1 && items.getLast?.all (fun previous => previous.2 ≠ line.1) then
    items ++ [(line.2, line.1)]
  else
    items

variable {choosable}

/-- Lines of an item that was just collected, and lines of no item, change nothing. -/
private theorem foldl_collect_replicate {items : List (Nat × α)} {a : α}
    (h : choosable a = false ∨ ∃ i, items.getLast? = some (i, a)) (k start : Nat) :
    ((List.replicate k a).zipIdx start).foldl (collect choosable) items = items := by
  induction k generalizing start with
  | zero => rfl
  | succ k ih =>
    rw [List.replicate_succ, List.zipIdx_cons, List.foldl_cons]
    have hskip : collect choosable items (a, start) = items := by
      rw [collect, if_neg]
      rcases h with h | ⟨i, hi⟩
      · simp [h]
      · simp [hi]
    rw [hskip, ih]

/-- The loop finds the choosable items, if none of them occurs twice. -/
theorem map_foldl_collect {items lines : List α} (h : Stretched items lines)
    (collected : List (Nat × α)) (start : Nat)
    (hnodup : (collected.map Prod.snd ++ items.filter choosable).Nodup) :
    ((lines.zipIdx start).foldl (collect choosable) collected).map Prod.snd =
      collected.map Prod.snd ++ items.filter choosable := by
  induction h generalizing collected start with
  | nil => simp
  | @cons a k items lines h ih =>
    rw [List.zipIdx_append, List.foldl_append]
    cases ha : choosable a with
    | false =>
      rw [foldl_collect_replicate (.inl ha), List.filter_cons_of_neg (by simp [ha])]
      rw [List.filter_cons_of_neg (by simp [ha])] at hnodup
      exact ih _ _ hnodup
    | true =>
      rw [List.filter_cons_of_pos ha] at hnodup ⊢
      -- The first line is a new item, the others repeat it
      have hnew : collect choosable collected (a, start) = collected ++ [(start, a)] := by
        rw [collect, if_pos]
        simp only [ha, Bool.true_and, Option.all_eq_true, decide_eq_true_eq]
        intro previous hprevious heq
        have hmem : a ∈ collected.map Prod.snd :=
          List.mem_map.mpr ⟨previous, List.mem_of_getLast? hprevious, heq⟩
        exact (List.nodup_append.mp hnodup).2.2 a hmem a List.mem_cons_self rfl
      rw [List.replicate_succ, List.zipIdx_cons, List.foldl_cons, hnew,
        foldl_collect_replicate (.inr ⟨start, by simp⟩)]
      have hmap : (collected ++ [(start, a)]).map Prod.snd ++ items.filter choosable =
          collected.map Prod.snd ++ a :: items.filter choosable := by simp
      rw [← hmap]
      exact ih _ _ (hmap ▸ hnodup)

end Lines

end Cursor
