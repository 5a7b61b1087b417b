import Mathlib.Data.List.Chain
import Mathlib.Data.List.Nodup

/-!
# Logs of changes

A log holds records about keys.  It mirrors a view of the keys when the last record
about a key is what the view says, with no record about a key that the view does not
have.  A log that gets exactly the changed records of each step keeps mirroring.
-/

namespace ChangeLog

variable {κ ρ : Type*}

/-- The last record about each key is the key's view, and a record is only written when
    it differs from the one before. -/
structure Mirrors (isFor : κ → ρ → Bool) (log : List ρ) (view : κ → Option ρ) : Prop where
  last : ∀ k, (log.filter (isFor k)).getLast? = view k
  changes : ∀ k, (log.filter (isFor k)).IsChain (· ≠ ·)

variable {isFor : κ → ρ → Bool} {log new : List ρ} {view view' : κ → Option ρ}

/-- An empty log tells nothing. -/
theorem mirrors_nil (isFor : κ → ρ → Bool) : Mirrors isFor [] fun _ => none :=
  ⟨fun _ => rfl, fun _ => List.IsChain.nil⟩

/-- A step that writes the changed views and never loses a key. -/
theorem Mirrors.append [DecidableEq ρ] (h : Mirrors isFor log view)
    (hnew : ∀ k, new.filter (isFor k) = if view' k = view k then [] else (view' k).toList)
    (hkeep : ∀ k, view' k = none → view k = none) : Mirrors isFor (log ++ new) view' := by
  have hstep : ∀ k, ((log ++ new).filter (isFor k)).getLast? = view' k ∧
      ((log ++ new).filter (isFor k)).IsChain (· ≠ ·) := by
    intro k
    rw [List.filter_append, hnew k]
    by_cases hsame : view' k = view k
    · rw [if_pos hsame, List.append_nil, hsame]
      exact ⟨h.last k, h.changes k⟩
    · rw [if_neg hsame]
      cases hview : view' k with
      | none => exact absurd (hview.trans (hkeep k hview).symm) hsame
      | some record =>
        refine ⟨List.getLast?_concat, ?_⟩
        -- The record before is the old view, and the new one is another
        refine List.isChain_append.mpr ⟨h.changes k, List.isChain_singleton record, ?_⟩
        intro old hold other hother
        rw [h.last k] at hold
        cases hother
        intro heq
        rw [hview, heq.symm] at hsame
        exact hsame hold.symm
  exact ⟨fun k => (hstep k).1, fun k => (hstep k).2⟩

/-- What a loop over keys writes about one key. -/
theorem filter_filterMap {f : κ → Option ρ} {keys : List κ} (hnodup : keys.Nodup) (k : κ)
    [DecidableEq κ] (hfor : ∀ k' ∈ keys, ∀ record, f k' = some record →
      isFor k record = decide (k' = k)) :
    (keys.filterMap f).filter (isFor k) = if k ∈ keys then (f k).toList else [] := by
  induction keys with
  | nil => rfl
  | cons k' keys ih =>
    obtain ⟨hnotMem, hrest⟩ := List.nodup_cons.mp hnodup
    have ih := ih hrest fun k'' hk'' => hfor k'' (List.mem_cons_of_mem _ hk'')
    have hhead := hfor k' List.mem_cons_self
    -- Each key is looked at once
    by_cases heq : k' = k
    · subst heq
      rw [if_pos List.mem_cons_self]
      rw [if_neg hnotMem] at ih
      cases hf : f k' with
      | none => rw [List.filterMap_cons_none hf, ih]; rfl
      | some record =>
        have htrue : isFor k' record = true := by simpa using hhead record hf
        rw [List.filterMap_cons_some hf, List.filter_cons_of_pos htrue, ih]
        rfl
    · have hmem : k ∈ k' :: keys ↔ k ∈ keys := by simp [Ne.symm heq]
      simp only [hmem]
      cases hf : f k' with
      | none => rw [List.filterMap_cons_none hf, ih]
      | some record =>
        have hfalse : ¬ isFor k record = true := by
          rw [hhead record hf]
          simpa using heq
        rw [List.filterMap_cons_some hf, List.filter_cons_of_neg hfalse, ih]

end ChangeLog
