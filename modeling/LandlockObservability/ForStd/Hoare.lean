import Mathlib.Data.List.Basic

/-!
# Pre- and postconditions of fallible programs

A program that may fail and has changed its state by then is an `EStateM`.  `Triple`
states what holds after it: `Q` when it returns, `E` when it fails.  The rules follow
how programs are put together.  `Mirrors` compares a program with one over less state.
-/

namespace Hoare

variable {ε ε' σ τ α β : Type}

/-- From a state with `P`, a program that returns ends with `Q`, and one that fails ends
    with `E`. -/
def Triple (P : σ → Prop) (m : EStateM ε σ α) (Q : α → σ → Prop) (E : ε → σ → Prop) : Prop :=
  ∀ s, P s → match m s with
    | .ok a s' => Q a s'
    | .error e s' => E e s'

variable {P P' : σ → Prop} {Q Q' : α → σ → Prop} {E E' : ε → σ → Prop} {m : EStateM ε σ α}

/-- What a triple says about a program that returned. -/
theorem Triple.of_ok (h : Triple P m Q E) {s s' : σ} {a : α} (hP : P s) (hm : m s = .ok a s') :
    Q a s' := by
  have hs := h s hP
  rwa [hm] at hs

/-- What a triple says about a program that failed. -/
theorem Triple.of_error (h : Triple P m Q E) {s s' : σ} {e : ε} (hP : P s)
    (hm : m s = .error e s') : E e s' := by
  have hs := h s hP
  rwa [hm] at hs

/-- A triple from what each of the two outcomes gives. -/
theorem Triple.intro (hok : ∀ s a s', P s → m s = .ok a s' → Q a s')
    (herror : ∀ s e s', P s → m s = .error e s' → E e s') : Triple P m Q E := by
  intro s hP
  cases hm : m s with
  | ok a s' => exact hok s a s' hP hm
  | error e s' => exact herror s e s' hP hm

/-- Returning changes nothing. -/
theorem Triple.pure {a : α} (h : ∀ s, P s → Q a s) : Triple P (Pure.pure a : EStateM ε σ α) Q E :=
  h

/-- Failing changes nothing. -/
theorem Triple.throw {e : ε} (h : ∀ s, P s → E e s) :
    Triple P (MonadExcept.throw e : EStateM ε σ α) Q E :=
  h

/-- Reading gives the state. -/
theorem Triple.get : Triple P (MonadState.get : EStateM ε σ σ) (fun a s => P s ∧ a = s) E :=
  fun _ hs => ⟨hs, rfl⟩

/-- Every program is correct when nothing is asked of it. -/
theorem Triple.trivial : Triple P m (fun _ _ => True) (fun _ _ => True) :=
  Triple.intro (fun _ _ _ _ _ => True.intro) (fun _ _ _ _ _ => True.intro)

/-- The rule of consequence. -/
theorem Triple.weaken (h : Triple P m Q E) (hP : ∀ s, P' s → P s) (hQ : ∀ a s, Q a s → Q' a s)
    (hE : ∀ e s, E e s → E' e s) : Triple P' m Q' E' :=
  Triple.intro (fun _ _ _ hs hm => hQ _ _ (h.of_ok (hP _ hs) hm))
    (fun _ _ _ hs hm => hE _ _ (h.of_error (hP _ hs) hm))

/-- A program that cannot fail meets every condition on failures. -/
theorem Triple.infallible (h : Triple P m Q fun _ _ => False) : Triple P m Q E :=
  h.weaken (fun _ => id) (fun _ _ => id) fun _ _ => False.elim

/-- A part of the precondition that is not about the state is a hypothesis. -/
theorem Triple.assume {p : Prop} (h : p → Triple P m Q E) : Triple (fun s => P s ∧ p) m Q E :=
  fun s hs => h hs.2 s hs.1

/-- The rule of composition. -/
theorem Triple.bind {f : α → EStateM ε σ β} {R : β → σ → Prop} (hm : Triple P m Q E)
    (hf : ∀ a, Triple (Q a) (f a) R E) : Triple P (m >>= f) R E := by
  intro s hP
  show match EStateM.bind m f s with
    | .ok b s' => R b s'
    | .error e s' => E e s'
  unfold EStateM.bind
  cases hs : m s with
  | ok a s' => exact hf a s' (hm.of_ok hP hs)
  | error e s' => exact hm.of_error hP hs

/-- The rule for a loop over a list: `I done` holds before an element when those in `done` have
    been handled, and `B done a` describes a failure at the element `a`. -/
theorem Triple.forM {f : β → EStateM ε σ PUnit} {I : List β → σ → Prop}
    {B : List β → β → ε → σ → Prop}
    (hf : ∀ done a, Triple (I done) (f a) (fun _ => I (done ++ [a])) (B done a))
    (done as : List β) :
    Triple (I done) (as.forM f) (fun _ => I (done ++ as)) fun e s =>
      ∃ handled a rest, as = handled ++ a :: rest ∧ B (done ++ handled) a e s := by
  induction as generalizing done with
  | nil => exact .pure fun s hs => by rwa [List.append_nil]
  | cons a as ih =>
    -- The first element fails, or the rest of the loop starts behind it
    refine ((hf done a).weaken (fun _ => id) (fun _ _ => id) fun e s hs => ?_).bind fun _ => ?_
    · exact ⟨[], a, as, rfl, by rwa [List.append_nil]⟩
    · refine (ih (done ++ [a])).weaken (fun _ => id) (fun _ s hs => ?_) ?_
      · rwa [List.append_cons]
      · rintro e s ⟨handled, b, rest, rfl, hs⟩
        exact ⟨a :: handled, b, rest, rfl, by rwa [← List.append_cons] at hs⟩

/-- Changing the error does not change when a program fails. -/
theorem Triple.adaptExcept {g : ε → ε'} {E : ε' → σ → Prop}
    (h : Triple P m Q fun e => E (g e)) : Triple P (EStateM.adaptExcept g m) Q E := by
  intro s hP
  unfold EStateM.adaptExcept
  cases hs : m s with
  | ok a s' => exact h.of_ok hP hs
  | error e s' => exact h.of_error hP hs

/-! ## Programs over more state -/

/-- An outcome with less state. -/
def mapState (view : σ → τ) : EStateM.Result ε σ α → EStateM.Result ε τ α
  | .ok a s => .ok a (view s)
  | .error e s => .error e (view s)

/-- Through `view`, the program `m` is `m'`. -/
def Mirrors (view : σ → τ) (m : EStateM ε σ α) (m' : EStateM ε τ α) : Prop :=
  ∀ s, mapState view (m s) = m' (view s)

variable {view : σ → τ} {m' : EStateM ε τ α}

/-- Returning is the same with less state. -/
theorem Mirrors.pure {a : α} :
    Mirrors view (Pure.pure a : EStateM ε σ α) (Pure.pure a : EStateM ε τ α) :=
  fun _ => rfl

/-- So is failing. -/
theorem Mirrors.throw {e : ε} :
    Mirrors view (MonadExcept.throw e : EStateM ε σ α) (MonadExcept.throw e : EStateM ε τ α) :=
  fun _ => rfl

/-- Programs are compared part by part. -/
theorem Mirrors.bind {f : α → EStateM ε σ β} {f' : α → EStateM ε τ β} (hm : Mirrors view m m')
    (hf : ∀ a, Mirrors view (f a) (f' a)) : Mirrors view (m >>= f) (m' >>= f') := by
  intro s
  show mapState view (EStateM.bind m f s) = EStateM.bind m' f' (view s)
  unfold EStateM.bind
  rw [← hm s]
  cases m s with
  | ok a s' => exact hf a s'
  | error e s' => rfl

/-- The two programs may continue with what each of them sees. -/
theorem Mirrors.get_bind {f : σ → EStateM ε σ β} {f' : τ → EStateM ε τ β}
    (h : ∀ s, Mirrors view (f s) (f' (view s))) :
    Mirrors view (MonadState.get >>= f) (MonadState.get >>= f') :=
  fun s => h s s

/-- A change of the error is the same on both sides. -/
theorem Mirrors.adaptExcept {g : ε → ε'} (hm : Mirrors view m m') :
    Mirrors view (EStateM.adaptExcept g m) (EStateM.adaptExcept g m') := by
  intro s
  unfold EStateM.adaptExcept
  rw [← hm s]
  cases m s with
  | ok a s' => rfl
  | error e s' => rfl

end Hoare
