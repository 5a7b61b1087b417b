import LandlockObservability.ForStd.Bytes

/-!
# Layout of C structures

The offsets a C compiler gives the members of a structure (natural alignment), and
records built by storing bytes into members.  Members never overlap, so a record
filled member by member holds what was stored in each of them.

## Key results

- `pairwise_place`: the members of a structure follow each other without overlap
- `hasAt_fill`: a filled record holds, in every member, the bytes stored there
-/

namespace Layout

/-- The member types that occur in the structures: unsigned words, and arrays of bytes. -/
inductive CType where
  | u8
  | u32
  | u64
  | array (length : Nat)
  deriving DecidableEq, Repr

namespace CType

def size : CType → Nat
  | u8 => 1
  | u32 => 4
  | u64 => 8
  | array length => length

/-- A word is aligned to its size, an array to its elements. -/
def align : CType → Nat
  | u8 => 1
  | u32 => 4
  | u64 => 8
  | array _ => 1

/-- Every type has an alignment. -/
private theorem align_pos (t : CType) : 0 < t.align := by
  cases t <;> exact Nat.succ_pos _

end CType

/-- The first multiple of `align` that is not below `pos`. -/
def alignUp (pos align : Nat) : Nat := (pos + (align - 1)) / align * align

/-- Rounding up does not go down. -/
private theorem le_alignUp {align : Nat} (pos : Nat) (h : 0 < align) : pos ≤ alignUp pos align := by
  have hmod := Nat.div_add_mod (pos + (align - 1)) align
  have hlt := Nat.mod_lt (pos + (align - 1)) h
  rw [Nat.mul_comm] at hmod
  unfold alignUp
  omega

/-- A member at its place in the structure. -/
structure Slot (ι : Type*) where
  name : ι
  offset : Nat
  size : Nat
  deriving DecidableEq, Repr

variable {ι : Type*}

/-- The members `ms` placed one after the other from `pos` on. -/
def place : Nat → List (ι × CType) → List (Slot ι)
  | _, [] => []
  | pos, m :: ms =>
    ⟨m.1, alignUp pos m.2.align, m.2.size⟩ :: place (alignUp pos m.2.align + m.2.size) ms

/-- The first free offset after the members `ms` placed from `pos` on. -/
def endOf : Nat → List (ι × CType) → Nat
  | pos, [] => pos
  | pos, m :: ms => endOf (alignUp pos m.2.align + m.2.size) ms

/-- No member starts before the place it is given. -/
private theorem le_offset_of_mem_place {pos : Nat} {ms : List (ι × CType)} {s : Slot ι}
    (h : s ∈ place pos ms) : pos ≤ s.offset := by
  induction ms generalizing pos with
  | nil => simp [place] at h
  | cons m ms ih =>
    have hpos := le_alignUp pos m.2.align_pos
    rcases List.mem_cons.mp h with rfl | h
    · exact hpos
    · have := ih h
      omega

/-- The members of a structure follow each other without overlap. -/
theorem pairwise_place (pos : Nat) (ms : List (ι × CType)) :
    (place pos ms).Pairwise fun s t => s.offset + s.size ≤ t.offset := by
  induction ms generalizing pos with
  | nil => exact List.Pairwise.nil
  | cons m ms ih => exact List.Pairwise.cons (fun s hs => le_offset_of_mem_place hs) (ih _)

/-- Members take no negative space. -/
private theorem le_endOf (pos : Nat) (ms : List (ι × CType)) : pos ≤ endOf pos ms := by
  induction ms generalizing pos with
  | nil => exact le_refl pos
  | cons m ms ih =>
    have hpos := le_alignUp pos m.2.align_pos
    have hend := ih (alignUp pos m.2.align + m.2.size)
    simp only [endOf]
    omega

/-- Every member ends inside the structure. -/
private theorem offset_add_size_le_endOf {pos : Nat} {ms : List (ι × CType)} {s : Slot ι}
    (h : s ∈ place pos ms) : s.offset + s.size ≤ endOf pos ms := by
  induction ms generalizing pos with
  | nil => simp [place] at h
  | cons m ms ih =>
    rcases List.mem_cons.mp h with rfl | h
    · exact le_endOf _ _
    · exact ih h

variable [DecidableEq ι]

/-- The place of the member `name`. -/
def slotOf (slots : List (Slot ι)) (name : ι) : Option (Slot ι) :=
  slots.find? fun s => s.name = name

/-- A member has a place, of the size of its type. -/
theorem exists_slotOf_place {name : ι} {ms : List (ι × CType)} (pos : Nat)
    (h : name ∈ ms.map Prod.fst) :
    ∃ s, slotOf (place pos ms) name = some s ∧ ∃ m ∈ ms, m.1 = name ∧ s.size = m.2.size := by
  induction ms generalizing pos with
  | nil => exact absurd h List.not_mem_nil
  | cons m ms ih =>
    rw [place, slotOf, List.find?_cons]
    by_cases hname : m.1 = name
    · simp only [hname, decide_true]
      exact ⟨_, rfl, m, List.mem_cons_self, hname, rfl⟩
    · have htail := (List.mem_cons.mp h).resolve_left (Ne.symm hname)
      obtain ⟨s, hs, m', hm', hsize⟩ := ih (alignUp pos m.2.align + m.2.size) htail
      simp only [hname, decide_false]
      exact ⟨s, hs, m', List.mem_cons_of_mem _ hm', hsize⟩

/-- Stores `bytes` into the member `name`. -/
def assign (slots : List (Slot ι)) (record : List UInt8) (a : ι × List UInt8) : List UInt8 :=
  match slotOf slots a.1 with
  | some s => Bytes.store record s.offset a.2
  | none => record

/-- Stores into several members, one after the other. -/
def fill (slots : List (Slot ι)) (record : List UInt8) (as : List (ι × List UInt8)) :
    List UInt8 :=
  as.foldl (assign slots) record

/-- The bytes stored into a member fit it. -/
def Fits (slots : List (Slot ι)) (a : ι × List UInt8) : Prop :=
  ∃ s, slotOf slots a.1 = some s ∧ a.2.length ≤ s.size

section Fill

variable {pos : Nat} {ms : List (ι × CType)} {record : List UInt8}

/-- A slot is found by its name. -/
private theorem slotOf_name {slots : List (Slot ι)} {name : ι} {s : Slot ι}
    (h : slotOf slots name = some s) : s.name = name := by
  simpa using List.find?_some h

/-- Members with different names are apart. -/
private theorem slotOf_disjoint {a b : ι} {s t : Slot ι} (hne : a ≠ b)
    (hs : slotOf (place pos ms) a = some s) (ht : slotOf (place pos ms) b = some t) :
    s.offset + s.size ≤ t.offset ∨ t.offset + t.size ≤ s.offset := by
  have hst : s ≠ t := by
    rintro rfl
    exact hne ((slotOf_name hs).symm.trans (slotOf_name ht))
  -- The placement relation is not symmetric, so pass to its symmetric closure
  have hpair : (place pos ms).Pairwise fun s t =>
      s.offset + s.size ≤ t.offset ∨ t.offset + t.size ≤ s.offset :=
    (pairwise_place pos ms).imp .inl
  have : Std.Symm fun s t : Slot ι =>
      s.offset + s.size ≤ t.offset ∨ t.offset + t.size ≤ s.offset := ⟨fun _ _ h => h.symm⟩
  exact hpair.forall (List.mem_of_find?_eq_some hs) (List.mem_of_find?_eq_some ht) hst

/-- What fits into a member fits into the record. -/
private theorem fits_bound {a : ι × List UInt8} (hend : endOf pos ms ≤ record.length)
    {s : Slot ι} (hs : slotOf (place pos ms) a.1 = some s) (hlen : a.2.length ≤ s.size) :
    s.offset + a.2.length ≤ record.length := by
  have := offset_add_size_le_endOf (List.mem_of_find?_eq_some hs)
  omega

/-- Storing into a member keeps the length of a record, -/
private theorem length_assign {a : ι × List UInt8} (hend : endOf pos ms ≤ record.length)
    (ha : Fits (place pos ms) a) :
    (assign (place pos ms) record a).length = record.length := by
  obtain ⟨s, hs, hlen⟩ := ha
  rw [assign, hs]
  exact Bytes.length_store (fits_bound hend hs hlen)

/-- and so does storing into many. -/
theorem length_fill {as : List (ι × List UInt8)} (hend : endOf pos ms ≤ record.length)
    (has : ∀ a ∈ as, Fits (place pos ms) a) :
    (fill (place pos ms) record as).length = record.length := by
  induction as generalizing record with
  | nil => rfl
  | cons a as ih =>
    have hlen := length_assign hend (has a List.mem_cons_self)
    rw [fill, List.foldl_cons, ← hlen]
    exact ih (by omega) fun b hb => has b (List.mem_cons_of_mem _ hb)

/-- A member that is not stored into keeps its bytes. -/
private theorem hasAt_fill_of_notMem {as : List (ι × List UInt8)} {name : ι} {s : Slot ι}
    {bytes : List UInt8} (hend : endOf pos ms ≤ record.length)
    (has : ∀ a ∈ as, Fits (place pos ms) a) (hname : name ∉ as.map Prod.fst)
    (hs : slotOf (place pos ms) name = some s) (hlen : bytes.length ≤ s.size)
    (h : Bytes.HasAt record s.offset bytes) :
    Bytes.HasAt (fill (place pos ms) record as) s.offset bytes := by
  induction as generalizing record with
  | nil => exact h
  | cons a as ih =>
    rw [List.map_cons, List.mem_cons, not_or] at hname
    have ha := has a List.mem_cons_self
    refine ih (by rw [length_assign hend ha]; exact hend)
      (fun b hb => has b (List.mem_cons_of_mem _ hb)) hname.2 ?_
    obtain ⟨t, ht, hfit⟩ := ha
    rw [assign, ht]
    refine Bytes.hasAt_store_of_disjoint (fits_bound hend ht hfit) ?_ h
    rcases slotOf_disjoint hname.1 hs ht with hst | hst <;> omega

/-- A filled record holds, in every member, the bytes stored there. -/
theorem hasAt_fill {as : List (ι × List UInt8)} (hend : endOf pos ms ≤ record.length)
    (has : ∀ a ∈ as, Fits (place pos ms) a) (hnodup : (as.map Prod.fst).Nodup)
    {a : ι × List UInt8} (ha : a ∈ as) {s : Slot ι}
    (hs : slotOf (place pos ms) a.1 = some s) :
    Bytes.HasAt (fill (place pos ms) record as) s.offset a.2 := by
  induction as generalizing record with
  | nil => simp at ha
  | cons b as ih =>
    rw [List.map_cons, List.nodup_cons] at hnodup
    have hb := has b List.mem_cons_self
    have htail : ∀ c ∈ as, Fits (place pos ms) c := fun c hc => has c (List.mem_cons_of_mem _ hc)
    have hend' : endOf pos ms ≤ (assign (place pos ms) record b).length := by
      rw [length_assign hend hb]
      exact hend
    -- What is stored first is not overwritten later, since no name occurs twice
    rcases List.mem_cons.mp ha with rfl | ha
    · obtain ⟨t, ht, hfit⟩ := hb
      obtain rfl : t = s := Option.some.inj (ht.symm.trans hs)
      rw [fill, List.foldl_cons]
      refine hasAt_fill_of_notMem hend' htail hnodup.1 hs hfit ?_
      rw [assign, ht]
      have := fits_bound hend ht hfit
      exact Bytes.hasAt_store_self (by omega)
    · exact ih hend' htail hnodup.2 ha

end Fill

end Layout
