import Mathlib.Logic.Basic
import Mathlib.Logic.Function.Defs

/-!
# Computations that check their input

When a chain of `Except` computations succeeds, and which errors it can end with.
`Decides E P x` says both at once: `x` succeeds exactly when `P` holds, and
otherwise ends with an error of `E`.  It is closed under the monad operations, so
the conditions checked along a chain are collected one by one.
-/

namespace Except

universe u v

variable {ε : Type u} {α β : Type v}

/-- A chain goes on after a success. -/
theorem ok_bind (a : α) (f : α → Except ε β) : (Except.ok a >>= f) = f a := rfl

/-- A chain succeeds if both parts do. -/
theorem bind_eq_ok_iff {x : Except ε α} {f : α → Except ε β} {b : β} :
    (x >>= f) = .ok b ↔ ∃ a, x = .ok a ∧ f a = .ok b := by
  cases x <;> simp [bind, Except.bind]

/-- It fails with the error of the part that fails. -/
theorem bind_eq_error_iff {x : Except ε α} {f : α → Except ε β} {e : ε} :
    (x >>= f) = .error e ↔ x = .error e ∨ ∃ a, x = .ok a ∧ f a = .error e := by
  cases x <;> simp [bind, Except.bind]

/-- A mapped result comes from a result. -/
theorem map_eq_ok_iff {x : Except ε α} {f : α → β} {b : β} :
    f <$> x = .ok b ↔ ∃ a, x = .ok a ∧ f a = b := by
  cases x <;> simp [Functor.map, Except.map]

/-- An injective wrapper of a result is returned exactly when the result is. -/
theorem map_eq_ok_iff_of_injective {x : Except ε α} {f : α → β} (hf : Function.Injective f)
    {a : α} : f <$> x = .ok (f a) ↔ x = .ok a := by
  rw [map_eq_ok_iff]
  constructor
  · rintro ⟨b, hb, hab⟩
    exact hf hab ▸ hb
  · exact fun hx => ⟨a, hx, rfl⟩

/-- Changing the errors keeps the results. -/
theorem mapError_eq_ok_iff {ε' : Type*} {x : Except ε α} {f : ε → ε'} {a : α} :
    x.mapError f = .ok a ↔ x = .ok a := by
  constructor
  · intro h
    cases x with
    | ok b => exact congrArg Except.ok (Except.ok.inj h)
    | error e => cases h
  · rintro rfl
    rfl

/-- A mapped error comes from an error. -/
theorem mapError_eq_error_iff {ε' : Type*} {x : Except ε α} {f : ε → ε'} {e : ε'} :
    x.mapError f = .error e ↔ ∃ e', x = .error e' ∧ f e' = e := by
  constructor
  · intro h
    cases x with
    | ok b => cases h
    | error e' => exact ⟨e', rfl, Except.error.inj h⟩
  · rintro ⟨e', rfl, rfl⟩
    rfl

/-- What is returned is the result. -/
theorem pure_eq_ok_iff {a b : α} : (pure a : Except ε α) = .ok b ↔ a = b := by
  simp [pure, Except.pure]

/-- The rule for loops: what every step that succeeds keeps of the state and of the elements that
    were taken holds after a loop that succeeds. -/
theorem foldlM_invariant {f : β → α → Except ε β} {I : List α → β → Prop}
    (hstep : ∀ done s a t, I done s → f s a = .ok t → I (done ++ [a]) t) {l : List α} {s t : β}
    (hs : I [] s) (h : l.foldlM f s = .ok t) : I l t := by
  -- From any state, with the elements that were taken before
  suffices hrun : ∀ (l done : List α) (s : β), I done s → l.foldlM f s = .ok t →
      I (done ++ l) t from hrun l [] s hs h
  intro l
  induction l with
  | nil =>
    intro done s hs h
    rw [List.foldlM_nil, pure_eq_ok_iff] at h
    rw [List.append_nil]
    exact h ▸ hs
  | cons a l ih =>
    intro done s hs h
    rw [List.foldlM_cons] at h
    obtain ⟨s', hs', h⟩ := bind_eq_ok_iff.mp h
    rw [← List.singleton_append, ← List.append_assoc]
    exact ih _ _ (hstep done s a s' hs hs') h

/-- A traversal that succeeds has a result for each element. -/
theorem map_eq_map_of_mapM {γ : Type*} {f : α → Except ε β} {view : β → γ} {view' : α → γ}
    (hf : ∀ a b, f a = .ok b → view b = view' a) {l : List α} {l' : List β}
    (h : l.mapM f = .ok l') : l'.map view = l.map view' := by
  induction l generalizing l' with
  | nil =>
    rw [List.mapM_nil, pure_eq_ok_iff] at h
    subst h
    rfl
  | cons a l ih =>
    rw [List.mapM_cons] at h
    obtain ⟨b, hb, h⟩ := bind_eq_ok_iff.mp h
    obtain ⟨bs, hbs, h⟩ := bind_eq_ok_iff.mp h
    rw [pure_eq_ok_iff] at h
    subst h
    rw [List.map_cons, List.map_cons, hf a b hb, ih hbs]

/-- `x` succeeds exactly when `P` holds, and fails with errors of `E` only. -/
structure Decides (E : ε → Prop) (P : Prop) (x : Except ε α) : Prop where
  ok_iff : (∃ a, x = .ok a) ↔ P
  error : ∀ e, x = .error e → E e

namespace Decides

variable {E : ε → Prop} {P Q : Prop} {x : Except ε α}

/-- Nothing is checked. -/
protected theorem pure (a : α) : Decides E True (pure a : Except ε α) where
  ok_iff := ⟨fun _ => trivial, fun _ => ⟨a, rfl⟩⟩
  error := nofun

/-- A computation is what its result says. -/
theorem of_cases (hok : ∀ a, x = .ok a → P) (herror : ∀ e, x = .error e → ¬P ∧ E e) :
    Decides E P x where
  ok_iff := by
    constructor
    · rintro ⟨a, ha⟩
      exact hok a ha
    · intro hP
      cases hx : x with
      | ok a => exact ⟨a, rfl⟩
      | error e => exact absurd hP (herror e hx).1
  error := fun e he => (herror e he).2

/-- The condition can be stated in another way. -/
protected theorem congr (h : Decides E P x) (hPQ : P ↔ Q) : Decides E Q x where
  ok_iff := h.ok_iff.trans hPQ
  error := h.error

/-- The conditions of a chain are those of its parts. -/
protected theorem bind {f : α → Except ε β} (h : Decides E P x)
    (hf : ∀ a, Decides E Q (f a)) : Decides E (P ∧ Q) (x >>= f) where
  ok_iff := by
    rw [← h.ok_iff]
    constructor
    · rintro ⟨b, hb⟩
      obtain ⟨a, ha, hfa⟩ := bind_eq_ok_iff.mp hb
      exact ⟨⟨a, ha⟩, (hf a).ok_iff.mp ⟨b, hfa⟩⟩
    · rintro ⟨⟨a, ha⟩, hQ⟩
      obtain ⟨b, hb⟩ := (hf a).ok_iff.mpr hQ
      exact ⟨b, bind_eq_ok_iff.mpr ⟨a, ha, hb⟩⟩
  error := by
    intro e he
    cases hx : x with
    | error e' =>
      rw [hx] at he
      cases he
      exact h.error e hx
    | ok a =>
      rw [hx] at he
      exact (hf a).error e he

/-- What is done with the result checks nothing. -/
protected theorem map (h : Decides E P x) (f : α → β) : Decides E P (f <$> x) where
  ok_iff := by
    rw [← h.ok_iff]
    constructor
    · rintro ⟨b, hb⟩
      obtain ⟨a, ha, _⟩ := map_eq_ok_iff.mp hb
      exact ⟨a, ha⟩
    · rintro ⟨a, ha⟩
      exact ⟨f a, map_eq_ok_iff.mpr ⟨a, ha, rfl⟩⟩
  error := by
    intro e he
    cases hx : x with
    | error e' =>
      rw [hx] at he
      cases he
      exact h.error e hx
    | ok a =>
      rw [hx] at he
      cases he

end Decides

end Except
