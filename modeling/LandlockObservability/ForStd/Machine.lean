import Mathlib.Data.List.Basic

/-!
# Runs of a machine

A machine takes actions, one after the other; an action may be impossible in a state,
and a step makes observations.  `run` is a whole sequence of actions with everything
observed on the way.  What one step preserves of the state and of the observations
made so far, a run preserves.
-/

namespace Machine

variable {σ α ω : Type*}

/-- The state after the actions, and what was observed, if all of them are possible. -/
def run (step : σ → α → Option (σ × List ω)) : σ → List α → Option (σ × List ω)
  | s, [] => some (s, [])
  | s, a :: as =>
    match step s a with
    | none => none
    | some (s', os) => (run step s' as).map fun r => (r.1, os ++ r.2)

variable {step : σ → α → Option (σ × List ω)}

/-- A run with at least one action starts with a step. -/
private theorem run_cons_eq_some {s t : σ} {a : α} {as : List α} {os : List ω}
    (h : run step s (a :: as) = some (t, os)) :
    ∃ s' os₁ os₂, step s a = some (s', os₁) ∧ run step s' as = some (t, os₂) ∧
      os = os₁ ++ os₂ := by
  rw [run] at h
  cases hstep : step s a with
  | none =>
    rw [hstep] at h
    cases h
  | some r =>
    obtain ⟨s', os₁⟩ := r
    rw [hstep] at h
    obtain ⟨⟨t', os₂⟩, hrun, heq⟩ := Option.map_eq_some_iff.mp h
    cases heq
    exact ⟨s', os₁, os₂, rfl, hrun, rfl⟩

/-- One run after another. -/
theorem run_append {s t u : σ} {as bs : List α} {os os' : List ω}
    (h : run step s as = some (t, os)) (h' : run step t bs = some (u, os')) :
    run step s (as ++ bs) = some (u, os ++ os') := by
  induction as generalizing s os with
  | nil =>
    cases h
    exact h'
  | cons a as ih =>
    obtain ⟨s', os₁, os₂, hstep, hrun, rfl⟩ := run_cons_eq_some h
    rw [List.cons_append, run, hstep]
    simp only [ih hrun, Option.map_some, List.append_assoc]

/-- Every step of a sequence of actions meets a condition on the state before it. -/
def Along (step : σ → α → Option (σ × List ω)) (C : σ → α → Prop) : σ → List α → Prop
  | _, [] => True
  | s, a :: as =>
    C s a ∧ match step s a with
      | none => True
      | some (s', _) => Along step C s' as

instance decidableAlong {C : σ → α → Prop} [∀ s a, Decidable (C s a)] :
    ∀ s as, Decidable (Along step C s as)
  | _, [] => isTrue trivial
  | s, a :: as =>
    haveI : Decidable (match step s a with
        | none => True
        | some (s', _) => Along step C s' as) :=
      match step s a with
      | none => isTrue trivial
      | some (s', _) => decidableAlong s' as
    inferInstanceAs (Decidable (C s a ∧ _))

/-- A condition on the actions alone. -/
theorem along_of_forall {C : α → Prop} (s : σ) {as : List α} (h : ∀ a ∈ as, C a) :
    Along step (fun _ a => C a) s as := by
  induction as generalizing s with
  | nil => trivial
  | cons a as ih =>
    obtain ⟨hhead, htail⟩ := List.forall_mem_cons.mp h
    refine ⟨hhead, ?_⟩
    split
    · trivial
    · exact ih _ htail

/-- Nothing is asked of the actions. -/
theorem along_true (s : σ) (as : List α) : Along step (fun _ _ => True) s as :=
  along_of_forall s fun _ _ => trivial

/-- The rule for invariants: `I s h` relates a state to everything observed before.
    `C` is what is assumed of the single steps. -/
theorem run_invariant {C : σ → α → Prop} {I : σ → List ω → Prop}
    (hstep : ∀ s h a s' os, I s h → C s a → step s a = some (s', os) → I s' (h ++ os))
    {s t : σ} {as : List α} {h os : List ω} (hI : I s h) (hC : Along step C s as)
    (hrun : run step s as = some (t, os)) : I t (h ++ os) := by
  induction as generalizing s h os with
  | nil =>
    cases hrun
    rwa [List.append_nil]
  | cons a as ih =>
    obtain ⟨s', os₁, os₂, hs', hrun', rfl⟩ := run_cons_eq_some hrun
    obtain ⟨hCa, hCas⟩ := hC
    rw [hs'] at hCas
    rw [← List.append_assoc]
    exact ih (hstep s h a s' os₁ hI hCa hs') hCas hrun'

/-- The rule for invariants that also speak about the actions taken so far. -/
theorem run_invariant_actions {I : σ → List α → List ω → Prop}
    (hstep : ∀ s as h a s' os, I s as h → step s a = some (s', os) → I s' (as ++ [a]) (h ++ os))
    {s t : σ} {as bs : List α} {h os : List ω} (hI : I s as h)
    (hrun : run step s bs = some (t, os)) : I t (as ++ bs) (h ++ os) := by
  induction bs generalizing s as h os with
  | nil =>
    cases hrun
    rwa [List.append_nil, List.append_nil]
  | cons b bs ih =>
    obtain ⟨s', os₁, os₂, hs', hrun', rfl⟩ := run_cons_eq_some hrun
    rw [← List.append_assoc, List.append_cons]
    exact ih (hstep s as h b s' os₁ hI hs') hrun'

/-- The rule for bounds: where counted actions lower a rank and no action raises it, the
    rank bounds how many counted actions a run has. -/
theorem run_countP_le {I : σ → Prop} (rank : σ → Nat) (counted : α → Bool)
    (hstep : ∀ s a s' os, I s → step s a = some (s', os) →
      I s' ∧ rank s' + (counted a).toNat ≤ rank s)
    {s t : σ} {as : List α} {os : List ω} (hI : I s) (hrun : run step s as = some (t, os)) :
    rank t + as.countP counted ≤ rank s := by
  induction as generalizing s os with
  | nil =>
    cases hrun
    exact Nat.le_refl _
  | cons a as ih =>
    obtain ⟨s', os₁, os₂, hs', hrun', rfl⟩ := run_cons_eq_some hrun
    obtain ⟨hI', hrank⟩ := hstep s a s' os₁ hI hs'
    have hrest := ih hI' hrun'
    -- A counted action lowers the rank by one at least
    cases hcounted : counted a with
    | true =>
      rw [hcounted, Bool.toNat_true] at hrank
      rw [List.countP_cons_of_pos hcounted]
      omega
    | false =>
      rw [hcounted, Bool.toNat_false] at hrank
      rw [List.countP_cons_of_neg (by simp [hcounted])]
      omega

/-! ## Notes -/

section Notes

variable {γ : Type*} (note : σ → α → List γ)

/-- A machine that also notes something about its steps, before what they show. -/
def annotate (step : σ → α → Option (σ × List ω)) (s : σ) (a : α) :
    Option (σ × List (ω ⊕ γ)) :=
  (step s a).map fun r => (r.1, (note s a).map .inr ++ r.2.map .inl)

/-- A step with notes is a step. -/
theorem annotate_eq_some {s s' : σ} {a : α} {h : List (ω ⊕ γ)}
    (hstep : annotate note step s a = some (s', h)) :
    ∃ os, step s a = some (s', os) ∧ h = (note s a).map .inr ++ os.map .inl := by
  obtain ⟨⟨t, os⟩, hs, heq⟩ := Option.map_eq_some_iff.mp hstep
  cases heq
  exact ⟨os, hs, rfl⟩

/-- Without its notes, a run is a run of the machine. -/
theorem run_annotate (s : σ) (as : List α) :
    (run (annotate note step) s as).map (fun r => (r.1, r.2.filterMap Sum.getLeft?)) =
      run step s as := by
  induction as generalizing s with
  | nil => rfl
  | cons a as ih =>
    rw [run, run, annotate]
    cases step s a with
    | none => rfl
    | some r =>
      obtain ⟨s', os⟩ := r
      -- The notes are on the other side of the sum
      have hnotes : ((note s a).map Sum.inr ++ os.map Sum.inl).filterMap
          (Sum.getLeft? : ω ⊕ γ → Option ω) = os := by
        rw [List.filterMap_append, List.filterMap_map, List.filterMap_map]
        simp [Function.comp_def]
      show Option.map _ (Option.map _ (run (annotate note step) s' as)) =
        (run step s' as).map fun t => (t.1, os ++ t.2)
      rw [← ih, Option.map_map, Option.map_map]
      congr 1
      funext t
      simp only [Function.comp_apply]
      rw [List.filterMap_append, hnotes]

end Notes

end Machine
