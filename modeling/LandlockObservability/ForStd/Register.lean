import Mathlib.Order.Lattice
import Mathlib.Logic.Function.Conjugate
import Mathlib.Data.List.Induction

/-!
# Latest-wins registers

A register keeps a value together with the time it was written at.  A write of a
time at least as late as the stored one replaces the value; an older write is
ignored.  Two such writes can be exchanged as soon as writes of equal time agree,
and repeating a write changes nothing.

The register may be part of a larger state: `stamp` reads its time and `write`
replaces it, and everything else about the state is left open.

A list of writes leaves behind one of them, the last of those with the greatest time:
`IsLatest` says which one it is, `selected` computes it, and `foldl_latest` is the run of
a register over the list.
-/

/-- `UInt64` with the order of the core library. -/
instance UInt64.linearOrder : LinearOrder UInt64 where
  le_refl := UInt64.le_refl
  le_trans := fun _ _ _ => UInt64.le_trans
  le_antisymm := fun _ _ => UInt64.le_antisymm
  le_total := UInt64.le_total
  lt_iff_le_not_ge := fun a b => by
    rw [UInt64.not_le]
    exact ⟨fun h => ⟨UInt64.le_of_lt h, h⟩, fun h => h.2⟩
  toDecidableLE := inferInstance
  toDecidableEq := inferInstance
  toDecidableLT := inferInstance
  toMin := inferInstance
  toMax := inferInstance
  min_def := fun _ _ => rfl
  max_def := fun _ _ => rfl

namespace Register

variable {σ ε τ : Type*} [LinearOrder τ]

/-- Whether a write at time `t` replaces what was stored at time `current`. -/
def replaces (current : Option τ) (t : τ) : Bool :=
  current.all fun c => decide (c ≤ t)

/-- Write `e` unless the register holds something later. -/
def latest (stamp : σ → Option τ) (time : ε → τ) (write : ε → σ → σ) (e : ε) (s : σ) : σ :=
  if replaces (stamp s) (time e) then write e s else s

@[simp] theorem replaces_none (t : τ) : replaces none t = true := rfl

@[simp] theorem replaces_some (c t : τ) : replaces (some c) t = true ↔ c ≤ t := by
  simp [replaces]

/-- What `latest` needs of `write`: it stores its own time, and nothing of an
    earlier write survives it. -/
structure Lawful (stamp : σ → Option τ) (time : ε → τ) (write : ε → σ → σ) : Prop where
  stamp_write : ∀ e s, stamp (write e s) = some (time e)
  write_write : ∀ e e' s, write e (write e' s) = write e s

section

variable {stamp : σ → Option τ} {time : ε → τ} {write : ε → σ → σ}

/-- Two writes after one another leave the later one, and either if their times
    are equal and they write the same. -/
private theorem latest_latest_of_le (hw : Lawful stamp time write) {a b : ε}
    (hab : time a ≤ time b) (heq : time a = time b → ∀ s, write a s = write b s) (s : σ) :
    latest stamp time write a (latest stamp time write b s) =
      latest stamp time write b (latest stamp time write a s) := by
  by_cases hb : replaces (stamp s) (time b) = true
  · -- `b` is written last on both sides
    have hright : latest stamp time write b (latest stamp time write a s) = write b s := by
      by_cases ha : replaces (stamp s) (time a) = true
      · simp only [latest, ha, if_true, hw.stamp_write, replaces_some, hab, hw.write_write]
      · simp only [latest, ha, if_false, hb, if_true, Bool.false_eq_true]
    rw [hright]
    simp only [latest, hb, if_true, hw.stamp_write, replaces_some]
    split
    · rename_i hba
      rw [hw.write_write, heq (le_antisymm hab hba)]
    · rfl
  · -- something later than both is stored
    cases hs : stamp s with
    | none => simp [hs] at hb
    | some c =>
      simp only [hs, replaces_some, not_le] at hb
      have ha : ¬ c ≤ time a := not_le.mpr (lt_of_le_of_lt hab hb)
      simp [latest, hs, not_le.mpr hb, ha]

/-- Writes can be exchanged when writes of equal time agree. -/
theorem latest_comm (hw : Lawful stamp time write) {a b : ε}
    (heq : time a = time b → ∀ s, write a s = write b s) :
    Function.Commute (latest stamp time write a) (latest stamp time write b) := by
  intro s
  rcases le_total (time a) (time b) with hab | hba
  · exact latest_latest_of_le hw hab heq s
  · exact (latest_latest_of_le hw hba (fun h s => (heq h.symm s).symm) s).symm

/-- A function that neither sees nor touches the register can be exchanged with a
    write to it. -/
theorem latest_comm_of_frame {g : σ → σ} (e : ε) (hstamp : ∀ s, stamp (g s) = stamp s)
    (hwrite : ∀ s, write e (g s) = g (write e s)) :
    Function.Commute (latest stamp time write e) g := by
  intro s
  simp only [latest, hstamp, hwrite]
  split <;> rfl

/-- A view that a write does not change does not see the register. -/
theorem view_latest {γ : Type*} (view : σ → γ) {e : ε} {s : σ}
    (hwrite : view (write e s) = view s) : view (latest stamp time write e s) = view s := by
  unfold latest
  split
  · exact hwrite
  · rfl

/-- A view of the register with its time is a register. -/
theorem map_latest {γ : Type*} (view : σ → γ) {stamp' : γ → Option τ} {write' : ε → γ → γ}
    {e : ε} {s : σ} (hstamp : stamp s = stamp' (view s))
    (hwrite : view (write e s) = write' e (view s)) :
    view (latest stamp time write e s) = latest stamp' time write' e (view s) := by
  unfold latest
  rw [hstamp]
  split
  · exact hwrite
  · rfl

/-- Repeating a write changes nothing. -/
theorem latest_idem (hw : Lawful stamp time write) (e : ε) (s : σ) :
    latest stamp time write e (latest stamp time write e s) = latest stamp time write e s := by
  by_cases he : replaces (stamp s) (time e) = true
  · simp [latest, he, hw.stamp_write, hw.write_write]
  · simp [latest, he]

/-- The stored time never goes back. -/
theorem stamp_latest_mono (hw : Lawful stamp time write) (e : ε) (s : σ) {c : τ}
    (hc : stamp s = some c) :
    ∃ t, stamp (latest stamp time write e s) = some t ∧ c ≤ t := by
  by_cases he : replaces (stamp s) (time e) = true
  · have hle : c ≤ time e := by rwa [hc, replaces_some] at he
    exact ⟨time e, by simp [latest, he, hw.stamp_write], hle⟩
  · exact ⟨c, by rw [latest, if_neg he, hc], le_refl c⟩

end

/-! ## Lists of writes -/

/-- `e` is what the writes `xs` leave behind: nothing before it is later, and all that
    follows is earlier. -/
def IsLatest (time : ε → τ) (xs : List ε) (e : ε) : Prop :=
  ∃ before after, xs = before ++ e :: after ∧
    (∀ b ∈ before, time b ≤ time e) ∧ ∀ a ∈ after, time a < time e

/-- The last of the writes with the greatest time. -/
def selected (time : ε → τ) (xs : List ε) : Option ε :=
  xs.foldl (fun s e => latest (Option.map time) time (fun e _ => some e) e s) none

section

variable {time : ε → τ} {xs : List ε} {e x : ε}

/-- The latest write is one of the writes, -/
theorem IsLatest.mem (h : IsLatest time xs e) : e ∈ xs := by
  obtain ⟨before, after, rfl, _, _⟩ := h
  simp

/-- and none is later. -/
theorem IsLatest.le (h : IsLatest time xs e) : ∀ x ∈ xs, time x ≤ time e := by
  obtain ⟨before, after, rfl, hbefore, hafter⟩ := h
  intro x hx
  rcases List.mem_append.mp hx with hx | hx
  · exact hbefore x hx
  · rcases List.mem_cons.mp hx with rfl | hx
    · exact le_rfl
    · exact (hafter x hx).le

/-- One more write is left behind itself, or something strictly later is. -/
private theorem isLatest_concat :
    IsLatest time (xs ++ [x]) e ↔
      (e = x ∧ ∀ b ∈ xs, time b ≤ time x) ∨ (IsLatest time xs e ∧ time x < time e) := by
  constructor
  · rintro ⟨before, after, heq, hbefore, hafter⟩
    -- The last write is the latest one, or comes behind it
    rcases List.eq_nil_or_concat after with rfl | ⟨init, last, rfl⟩
    · obtain ⟨rfl, hlast⟩ := List.append_inj' heq rfl
      obtain rfl : x = e := by simpa using hlast
      exact Or.inl ⟨rfl, hbefore⟩
    · rw [List.concat_eq_append] at heq hafter
      rw [← List.cons_append, ← List.append_assoc] at heq
      obtain ⟨rfl, hlast⟩ := List.append_inj' heq rfl
      obtain rfl : x = last := by simpa using hlast
      exact Or.inr ⟨⟨before, init, rfl, hbefore, fun a ha => hafter a (by simp [ha])⟩,
        hafter x (by simp)⟩
  · rintro (⟨rfl, hle⟩ | ⟨⟨before, after, rfl, hbefore, hafter⟩, hlt⟩)
    · exact ⟨xs, [], rfl, hle, by simp⟩
    · refine ⟨before, after ++ [x], by simp, hbefore, ?_⟩
      intro a ha
      rcases List.mem_append.mp ha with ha | ha
      · exact hafter a ha
      · rw [List.mem_singleton.mp ha]
        exact hlt

/-- One more write. -/
theorem selected_concat (xs : List ε) (x : ε) :
    selected time (xs ++ [x]) =
      if replaces ((selected time xs).map time) (time x) then some x else selected time xs := by
  simp only [selected, List.foldl_append, List.foldl_cons, List.foldl_nil, latest]

/-- Only without a write nothing is left. -/
theorem selected_eq_none_iff : selected time xs = none ↔ xs = [] := by
  rcases List.eq_nil_or_concat xs with rfl | ⟨init, last, rfl⟩
  · simp [selected]
  · rw [List.concat_eq_append, selected_concat]
    cases hsel : selected time init with
    | none => simp
    | some s => split <;> simp

/-- `selected` computes the write that is left behind. -/
theorem selected_eq_some_iff : selected time xs = some e ↔ IsLatest time xs e := by
  induction xs using List.reverseRecOn generalizing e with
  | nil => simp [selected, IsLatest]
  | append_singleton xs x ih =>
    rw [selected_concat, isLatest_concat]
    cases hsel : selected time xs with
    | none =>
      obtain rfl := selected_eq_none_iff.mp hsel
      simp [IsLatest, eq_comm]
    | some s =>
      have hs : IsLatest time xs s := ih.mp hsel
      simp only [Option.map_some, replaces_some]
      split
      · rename_i hle
        -- Nothing of the old writes is strictly later than the new one
        have hbound : ∀ b ∈ xs, time b ≤ time x := fun b hb => (hs.le b hb).trans hle
        rw [Option.some.injEq]
        constructor
        · rintro rfl
          exact Or.inl ⟨rfl, hbound⟩
        · rintro (⟨rfl, _⟩ | ⟨hlatest, hlt⟩)
          · rfl
          · exact absurd (hbound e hlatest.mem) (not_le.mpr hlt)
      · rename_i hnot
        rw [← hsel, ih]
        constructor
        · intro hlatest
          obtain rfl : s = e := Option.some.inj (hsel.symm.trans (ih.mpr hlatest))
          exact Or.inr ⟨hlatest, not_le.mp hnot⟩
        · rintro (⟨rfl, hle⟩ | ⟨hlatest, _⟩)
          · exact absurd (hle s hs.mem) hnot
          · exact hlatest

variable (time) in
/-- Of some writes one is left behind. -/
theorem exists_selected (h : xs ≠ []) : ∃ e, IsLatest time xs e ∧ selected time xs = some e := by
  cases hsel : selected time xs with
  | none => exact absurd (selected_eq_none_iff.mp hsel) h
  | some e => exact ⟨e, selected_eq_some_iff.mp hsel, rfl⟩

/-- A register that is empty at first holds the selected write after a run. -/
theorem foldl_latest {stamp : σ → Option τ} {write : ε → σ → σ}
    (hw : Lawful stamp time write) {s : σ} (hs : stamp s = none) (xs : List ε) :
    xs.foldl (fun s e => latest stamp time write e s) s =
      (selected time xs).elim s fun e => write e s := by
  induction xs using List.reverseRecOn with
  | nil => rfl
  | append_singleton xs x ih =>
    rw [List.foldl_append, List.foldl_cons, List.foldl_nil, ih, selected_concat]
    cases hsel : selected time xs with
    | none => simp [latest, hs]
    | some e =>
      simp only [Option.elim_some, latest, hw.stamp_write, Option.map_some, hw.write_write]
      split <;> rfl

end

end Register
