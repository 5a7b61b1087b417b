import Mathlib.Data.List.Basic

/-!
# A queue that reports losses

The abstract queue behind a bounded buffer whose writer never waits.  An item is
accepted or omitted; omissions are not counted, but one notice stands before the next
accepted item.  The reader takes what is in the queue, oldest first.

`taken_append_contents` says what the reader can have seen: exactly a first part of the stream
that the writer's outcomes determine, with the rest still in the queue.  By `leading_of_stream`,
a reader that has not seen a notice has not missed anything.
-/

/-- What the reader has not taken yet, and whether something was omitted since. -/
structure LossyQueue (ρ : Type*) where
  contents : List ρ
  omitted : Bool

namespace LossyQueue

variable {ρ : Type*}

/-- What happens to a lossy queue. -/
inductive Op (ρ : Type*) where
  | accept (item : ρ)
  | skip
  | take (item : ρ)

/-- What an accepted item adds to the stream. -/
def entry (notice : ρ) (omitted : Bool) (item : ρ) : List ρ :=
  if omitted then [notice, item] else [item]

def empty : LossyQueue ρ := ⟨[], false⟩

/-- Taking is possible only for the oldest item. -/
def step [DecidableEq ρ] (notice : ρ) (q : LossyQueue ρ) : Op ρ → Option (LossyQueue ρ)
  | .accept item => some ⟨q.contents ++ entry notice q.omitted item, false⟩
  | .skip => some { q with omitted := true }
  | .take item =>
    match q.contents with
    | [] => none
    | first :: contents => if first = item then some { q with contents } else none

/-- The stream that the writer's outcomes determine. -/
def stream (notice : ρ) : Bool → List (Op ρ) → List ρ
  | _, [] => []
  | omitted, .accept item :: ops => entry notice omitted item ++ stream notice false ops
  | _, .skip :: ops => stream notice true ops
  | omitted, .take _ :: ops => stream notice omitted ops

/-- What the reader has taken. -/
def taken : List (Op ρ) → List ρ
  | [] => []
  | .take item :: ops => item :: taken ops
  | .accept _ :: ops => taken ops
  | .skip :: ops => taken ops

/-- What was accepted before the first omission. -/
def leading : List (Op ρ) → List ρ
  | [] => []
  | .accept item :: ops => item :: leading ops
  | .skip :: _ => []
  | .take _ :: ops => leading ops

variable {notice : ρ}

/-- After an omission, the stream goes on with a notice. -/
private theorem nil_of_stream_true {items : List ρ} {ops : List (Op ρ)} (hnotice : notice ∉ items)
    (h : items <+: stream notice true ops) : items = [] := by
  induction ops with
  | nil => exact List.prefix_nil.mp h
  | cons op ops ih =>
    cases op with
    | accept item =>
      cases items with
      | nil => rfl
      | cons first rest =>
        simp only [stream, entry, if_true, List.cons_append, List.cons_prefix_cons] at h
        exact absurd (h.1 ▸ List.mem_cons_self) hnotice
    | skip => exact ih h
    | take item => exact ih h

/-- A first part of the stream that has no notice has no gap either. -/
theorem leading_of_stream {items : List ρ} {ops : List (Op ρ)} (hnotice : notice ∉ items)
    (h : items <+: stream notice false ops) : items <+: leading ops := by
  induction ops generalizing items with
  | nil => exact h
  | cons op ops ih =>
    cases op with
    | accept item =>
      cases items with
      | nil => exact List.nil_prefix
      | cons first rest =>
        simp only [stream, entry, Bool.false_eq_true, if_false, List.cons_append,
          List.nil_append, List.cons_prefix_cons] at h
        rw [leading, List.cons_prefix_cons]
        exact ⟨h.1, ih (fun hmem => hnotice (List.mem_cons_of_mem _ hmem)) h.2⟩
    | skip =>
      rw [nil_of_stream_true hnotice h]
      exact List.nil_prefix
    | take item => exact ih hnotice h

variable [DecidableEq ρ]

/-- Nothing is lost, doubled or reordered: taken and remaining items are the stream. -/
theorem taken_append_contents {q q' : LossyQueue ρ} {ops : List (Op ρ)}
    (h : ops.foldlM (step notice) q = some q') :
    taken ops ++ q'.contents = q.contents ++ stream notice q.omitted ops := by
  induction ops generalizing q with
  | nil =>
    cases h
    rw [taken, stream, List.nil_append, List.append_nil]
  | cons op ops ih =>
    obtain ⟨q₁, hstep, hrest⟩ := Option.bind_eq_some_iff.mp h
    have hrest := ih hrest
    cases op with
    | accept item =>
      cases hstep
      rw [taken, stream, hrest, List.append_assoc]
    | skip =>
      cases hstep
      rw [taken, stream, hrest]
    | take item =>
      obtain ⟨contents, omitted⟩ := q
      cases contents with
      | nil => cases hstep
      | cons first contents =>
        change (if first = item then some (⟨contents, omitted⟩ : LossyQueue ρ) else none) =
          some q₁ at hstep
        obtain ⟨hfirst, hq₁⟩ := Option.ite_none_right_eq_some.mp hstep
        cases hq₁
        rw [taken, stream, hfirst, List.cons_append, hrest, List.cons_append]

end LossyQueue
