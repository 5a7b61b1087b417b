import Mathlib.Data.Sum.Basic

/-!
# Loops that may not return

A loop takes rounds until one of them returns.  `run` gives it a number of rounds; `After` says
where it is while it is still running.  What every round keeps holds while the loop runs, and a
loop returns if and only if it does not run on for ever.
-/

namespace Loop

variable {σ ρ : Type*}

/-- What the loop returns, if it does so within a number of rounds. -/
def run (step : σ → σ ⊕ ρ) : Nat → σ → Option ρ
  | 0, _ => none
  | rounds + 1, s =>
    match step s with
    | .inl s' => run step rounds s'
    | .inr r => some r

variable {step : σ → σ ⊕ ρ}

/-- The loop that started in `s` runs on after some rounds and is in the last state. -/
inductive After (step : σ → σ ⊕ ρ) (s : σ) : Nat → σ → Prop where
  | start : After step s 0 s
  | next {rounds : Nat} {t u : σ} :
      After step s rounds t → step t = .inl u → After step s (rounds + 1) u

/-- The rule for invariants. -/
theorem After.invariant {I : Nat → σ → Prop}
    (hstep : ∀ rounds t u, I rounds t → step t = .inl u → I (rounds + 1) u) {s t : σ}
    {rounds : Nat} (h : After step s rounds t) (hs : I 0 s) : I rounds t := by
  induction h with
  | start => exact hs
  | next _ hu ih => exact hstep _ _ _ ih hu

/-- The first round of several. -/
private theorem After.of_step {s s' t : σ} {rounds : Nat} (hs : step s = .inl s')
    (h : After step s' rounds t) : After step s (rounds + 1) t := by
  induction h with
  | start => exact .next .start hs
  | next _ hu ih => exact .next ih hu

/-- A loop returns in a round that it reaches. -/
theorem exists_after_of_run {s : σ} {rounds : Nat} {r : ρ} (h : run step rounds s = some r) :
    ∃ before < rounds, ∃ t, After step s before t ∧ step t = .inr r := by
  induction rounds generalizing s with
  | zero => cases h
  | succ rounds ih =>
    rw [run] at h
    cases hs : step s with
    | inl s' =>
      rw [hs] at h
      obtain ⟨before, hlt, t, ht, hr⟩ := ih h
      exact ⟨before + 1, Nat.succ_lt_succ hlt, t, ht.of_step hs, hr⟩
    | inr r' =>
      rw [hs] at h
      cases h
      exact ⟨0, Nat.succ_pos rounds, s, .start, hs⟩

/-- A loop that has not returned runs on. -/
theorem exists_after_of_run_eq_none {s : σ} {rounds : Nat} (h : run step rounds s = none) :
    ∃ t, After step s rounds t := by
  induction rounds generalizing s with
  | zero => exact ⟨s, .start⟩
  | succ rounds ih =>
    rw [run] at h
    cases hs : step s with
    | inl s' =>
      rw [hs] at h
      obtain ⟨t, ht⟩ := ih h
      exact ⟨t, ht.of_step hs⟩
    | inr r =>
      rw [hs] at h
      cases h

end Loop
