import Mathlib.Data.Option.Basic

/-!
# Objects that change under labels

A population of objects is a partial function from keys.  A label concerns some of the keys,
and a transition changes the objects at these keys, each by the part of the label that is its
own; all other objects stay as they are.

An observer keeps a record for every object it has heard of and updates the record with the
parts of the labels.  What holds between one object and its record, and is kept by one
transition, holds for the whole population: `Moves.describes`.

Transitions that can be computed object by object can be computed for the population:
`moves_of_advance`.
-/

namespace ObjectStore

variable {κ ο ρ π : Type*}

/-- Every object with a part in the label makes a transition, and all others stay. -/
def Moves (becomes : Option ο → π → ο → Prop) (label : κ → Option π)
    (before after : κ → Option ο) : Prop :=
  ∀ k, (label k).elim (after k = before k) fun p => ∃ x, after k = some x ∧ becomes (before k) p x

variable {becomes : Option ο → π → ο → Prop} {label : κ → Option π}
  {before after : κ → Option ο} {k : κ}

/-- What an event is about makes its transition. -/
theorem Moves.of_part (h : Moves becomes label before after) {p : π} (hk : label k = some p) :
    ∃ x, after k = some x ∧ becomes (before k) p x := by
  have hmove := h k
  rw [hk] at hmove
  exact hmove

/-- Nothing else changes. -/
private theorem Moves.of_none (h : Moves becomes label before after) (hk : label k = none) :
    after k = before k := by
  have hmove := h k
  rw [hk] at hmove
  exact hmove

/-- An object goes on existing, as what a transition can make of it. -/
theorem Moves.persists {r : ο → ο → Prop} (hrefl : ∀ x, r x x)
    (hstep : ∀ x p y, becomes (some x) p y → r x y) (h : Moves becomes label before after)
    {x : ο} (hx : before k = some x) : ∃ y, after k = some y ∧ r x y := by
  cases hk : label k with
  | none => exact ⟨x, (h.of_none hk).trans hx, hrefl x⟩
  | some p =>
    obtain ⟨y, hy, hbecomes⟩ := h.of_part hk
    rw [hx] at hbecomes
    exact ⟨y, hy, hstep x p y hbecomes⟩

/-! ## Computing -/

/-- The objects after a label whose parts are at some of the keys, if all of these objects can
    make their transition. -/
def advance [DecidableEq κ] (next : Option ο → π → Option ο) (label : κ → Option π)
    (before : κ → Option ο) : List κ → Option (κ → Option ο)
  | [] => some before
  | k :: keys =>
    (advance next label before keys).bind fun after =>
      (label k).elim (some after) fun p =>
        (next (before k) p).map fun x => Function.update after k (some x)

/-- The keys with a part have made their transition, and the others are as before. -/
private theorem advance_spec [DecidableEq κ] {next : Option ο → π → Option ο} {keys : List κ}
    (h : advance next label before keys = some after) (k : κ) :
    (label k).elim (after k = before k) fun p =>
      if k ∈ keys then ∃ x, after k = some x ∧ next (before k) p = some x
      else after k = before k := by
  induction keys generalizing after with
  | nil =>
    cases h
    cases label k <;> rfl
  | cons k₀ keys ih =>
    obtain ⟨between, hkeys, hlabel⟩ := Option.bind_eq_some_iff.mp h
    have hbetween := ih hkeys
    cases hk₀ : label k₀ with
    | none =>
      rw [hk₀] at hlabel
      cases hlabel
      cases hk : label k with
      | none =>
        rw [hk] at hbetween
        exact hbetween
      | some p =>
        -- The new key has no part, so that it is not this one
        have hne : k ≠ k₀ := by
          rintro rfl
          rw [hk] at hk₀
          cases hk₀
        rw [hk] at hbetween
        simpa only [Option.elim_some, List.mem_cons, hne, false_or] using hbetween
    | some p₀ =>
      rw [hk₀] at hlabel
      obtain ⟨x, hx, rfl⟩ := Option.map_eq_some_iff.mp hlabel
      by_cases hne : k = k₀
      · subst hne
        rw [hk₀]
        simpa using hx
      · cases hk : label k with
        | none =>
          rw [hk] at hbetween
          exact (Function.update_of_ne hne ..).trans hbetween
        | some p =>
          rw [hk] at hbetween
          simpa only [Option.elim_some, List.mem_cons, hne, false_or,
            Function.update_of_ne hne] using hbetween

/-- What was computed is a transition, if no key with a part was left out. -/
theorem moves_of_advance [DecidableEq κ] {next : Option ο → π → Option ο} {keys : List κ}
    (hnext : ∀ x p y, next x p = some y → becomes x p y)
    (hkeys : ∀ k, (label k).isSome → k ∈ keys)
    (h : advance next label before keys = some after) : Moves becomes label before after := by
  intro k
  have hspec := advance_spec h k
  cases hk : label k with
  | none =>
    rw [hk] at hspec
    exact hspec
  | some p =>
    rw [hk, Option.elim_some, if_pos (hkeys k (by rw [hk]; rfl))] at hspec
    obtain ⟨x, hx, hbecomes⟩ := hspec
    exact ⟨x, hx, hnext _ _ _ hbecomes⟩

/-! ## Observers -/

/-- The records after a label: the parts are applied, starting from a blank record where
    there was none. -/
def observe (blank : κ → ρ) (apply : π → ρ → ρ) (label : κ → Option π) (records : κ → Option ρ)
    (k : κ) : Option ρ :=
  (label k).elim (records k) fun p => some (apply p ((records k).getD (blank k)))

/-- A relation of single objects with their records that every transition keeps is kept for
    the whole population. -/
theorem Moves.describes {blank : κ → ρ} {apply : π → ρ → ρ} {describes : κ → ο → ρ → Prop}
    (hfirst : ∀ k p y, becomes none p y → describes k y (apply p (blank k)))
    (hstep : ∀ k x p y t, becomes (some x) p y → describes k x t → describes k y (apply p t))
    (h : Moves becomes label before after) {records : κ → Option ρ}
    (hrecords : ∀ k, Option.Rel (describes k) (before k) (records k)) (k : κ) :
    Option.Rel (describes k) (after k) (observe blank apply label records k) := by
  unfold observe
  cases hk : label k with
  | none =>
    rw [h.of_none hk]
    exact hrecords k
  | some p =>
    obtain ⟨y, hy, hbecomes⟩ := h.of_part hk
    rw [hy]
    refine .some ?_
    have hrecord := hrecords k
    -- The object and its record are there together or not at all
    revert hbecomes hrecord
    generalize before k = object
    generalize records k = record
    intro hbecomes hrecord
    cases hrecord with
    | none => exact hfirst k p y hbecomes
    | some hx => exact hstep k _ p y _ hbecomes hx

end ObjectStore
