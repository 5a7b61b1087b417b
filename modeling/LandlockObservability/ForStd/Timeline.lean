import Mathlib.Data.Option.Basic
import Mathlib.Order.Defs.PartialOrder

/-!
# Timelines

The values that something has had, newest first.  Each came strictly later than those before it,
so that a timeline holds at most one value of each time.

* `Timeline.extend`: one more value
* `Timeline.time_le_latest`, `Timeline.eq_of_time_eq`: what the order gives
-/

/-- Values that came one after the other. -/
structure Timeline {α κ : Type*} [Preorder κ] (time : α → κ) where
  latest : α
  earlier : List α
  sorted : (latest :: earlier).Pairwise fun a b => time b < time a

namespace Timeline

variable {α κ : Type*} [Preorder κ] {time : α → κ}

/-- All values. -/
def entries (h : Timeline time) : List α := h.latest :: h.earlier

/-- The latest entry is one of the entries. -/
theorem latest_mem (h : Timeline time) : h.latest ∈ h.entries := List.mem_cons_self

/-- No value is newer than the latest. -/
theorem time_le_latest (h : Timeline time) {a : α} (ha : a ∈ h.entries) :
    time a ≤ time h.latest := by
  rcases List.mem_cons.mp ha with rfl | hearlier
  · exact le_rfl
  · exact le_of_lt ((List.pairwise_cons.mp h.sorted).1 a hearlier)

/-- Entries of one time are one entry. -/
private theorem eq_of_sorted {values : List α}
    (h : values.Pairwise fun a b => time b < time a) {a b : α} (ha : a ∈ values)
    (hb : b ∈ values) (htime : time a = time b) : a = b := by
  induction values with
  | nil => cases ha
  | cons first rest ih =>
    obtain ⟨hfirst, hrest⟩ := List.pairwise_cons.mp h
    -- The first value is later than all others
    rcases List.mem_cons.mp ha with rfl | harest <;> rcases List.mem_cons.mp hb with rfl | hbrest
    · rfl
    · exact absurd htime (ne_of_gt (hfirst b hbrest))
    · exact absurd htime (ne_of_lt (hfirst a harest))
    · exact ih hrest harest hbrest

/-- The time tells the value. -/
theorem eq_of_time_eq (h : Timeline time) {a b : α} (ha : a ∈ h.entries) (hb : b ∈ h.entries)
    (htime : time a = time b) : a = b :=
  eq_of_sorted h.sorted ha hb htime

/-- The values of what may have none yet. -/
def log : Option (Timeline time) → List α
  | none => []
  | some h => h.entries

/-- A later entry can be put in front. -/
private theorem sorted_cons (h : Option (Timeline time)) {a : α}
    (hlater : ∀ x ∈ h, time x.latest < time a) :
    (a :: log h).Pairwise fun a b => time b < time a := by
  cases h with
  | none => exact List.pairwise_singleton _ _
  | some x =>
    refine List.pairwise_cons.mpr ⟨fun b hb => ?_, x.sorted⟩
    exact lt_of_le_of_lt (x.time_le_latest hb) (hlater x rfl)

/-- A value that comes after all others. -/
def extend (h : Option (Timeline time)) (a : α) (hlater : ∀ x ∈ h, time x.latest < time a) :
    Timeline time :=
  ⟨a, log h, sorted_cons h hlater⟩

/-- Nothing is forgotten. -/
theorem entries_subset_extend {before : Option (Timeline time)} {h : Timeline time} {a : α}
    (hlater : ∀ x ∈ before, time x.latest < time a) (hbefore : before = some h) :
    h.entries ⊆ (extend before a hlater).entries := by
  subst hbefore
  exact fun _ hb => List.mem_cons_of_mem _ hb

end Timeline
