import Mathlib.Data.List.Nodup
import Mathlib.Data.Nat.Bitwise

/-!
# Masks with named bits

A 64-bit mask against a table of single bits: the part of the mask that the table covers is
the union of the entries that the mask has, and the mask is made of that part and the rest.
-/

namespace Mask

variable {ν : Type*} {m x y : UInt64} {i : Nat}

/-- One bit of a mask. -/
def bit (x : UInt64) (i : Nat) : Bool := x.toBitVec.getLsbD i

/-- A mask is its bits. -/
theorem ext (h : ∀ i < 64, bit x i = bit y i) : x = y :=
  UInt64.toBitVec_inj.mp (BitVec.eq_of_getLsbD_eq h)

@[simp] theorem bit_zero : bit 0 i = false := BitVec.getLsbD_zero

@[simp] theorem bit_and : bit (x &&& y) i = (bit x i && bit y i) := by
  rw [bit, UInt64.toBitVec_and, BitVec.getLsbD_and]
  rfl

@[simp] theorem bit_or : bit (x ||| y) i = (bit x i || bit y i) := by
  rw [bit, UInt64.toBitVec_or, BitVec.getLsbD_or]
  rfl

/-- The bits of a complement. -/
private theorem bit_not (h : i < 64) : bit (~~~x) i = !bit x i := by
  rw [bit, UInt64.toBitVec_not, BitVec.getLsbD_not, decide_eq_true h, Bool.true_and]
  rfl

/-- The covered part and the rest have no bit in common, -/
theorem and_disjoint (m x : UInt64) : (m &&& x) &&& (m &&& ~~~x) = 0 := by
  apply ext
  intro i hi
  cases hx : bit x i <;> simp [bit_not hi, hx]

/-- and make up the mask. -/
theorem and_union (m x : UInt64) : (m &&& x) ||| (m &&& ~~~x) = m := by
  apply ext
  intro i hi
  cases hx : bit x i <;> simp [bit_not hi, hx]

/-- A mask of one bit. -/
def IsSingle (x : UInt64) : Prop := ∃ k < 64, x.toNat = 2 ^ k

/-- A shifted one is a power of two. -/
theorem toNat_shiftLeft {k : UInt64} (h : k < 64) : (1 <<< k : UInt64).toNat = 2 ^ k.toNat := by
  have hk : k.toNat < 64 := h
  have hpow : 2 ^ k.toNat < 2 ^ 64 := Nat.pow_lt_pow_right (by decide) hk
  rw [UInt64.toNat_shiftLeft, Nat.mod_eq_of_lt hk, UInt64.toNat_one, Nat.one_shiftLeft,
    Nat.mod_eq_of_lt hpow]

/-- It is a mask of one bit. -/
theorem isSingle_shiftLeft {k : UInt64} (h : k < 64) : IsSingle (1 <<< k) :=
  ⟨k.toNat, h, toNat_shiftLeft h⟩

/-- The bit of such a mask. -/
theorem bit_of_toNat_eq {k : Nat} (h : x.toNat = 2 ^ k) : bit x i = decide (k = i) := by
  change x.toNat.testBit i = _
  rw [h, Nat.testBit_two_pow]

/-- A mask has a single bit where their intersection is not empty. -/
theorem and_ne_zero_iff {k : Nat} (h : x.toNat = 2 ^ k) :
    m &&& x ≠ 0 ↔ bit m k = true := by
  -- The intersection has no other bit
  have hand : ∀ i, bit (m &&& x) i = (bit m i && decide (k = i)) := by
    intro i
    rw [bit_and, bit_of_toNat_eq h]
  constructor
  · intro hne
    by_contra hbit
    refine hne (ext fun i _ => ?_)
    rw [hand, bit_zero]
    by_cases hki : k = i
    · subst hki
      simpa using hbit
    · simp [hki]
  · intro hbit hzero
    have hself := hand k
    rw [hzero, bit_zero, hbit] at hself
    simp at hself

/-- A mask has one of two bits. -/
theorem and_or_ne_zero : m &&& (x ||| y) ≠ 0 ↔ m &&& x ≠ 0 ∨ m &&& y ≠ 0 := by
  have hdistrib : m &&& (x ||| y) = (m &&& x) ||| (m &&& y) := by
    apply ext
    intro i _
    simp [Bool.and_or_distrib_left]
  rw [hdistrib, Ne, UInt64.or_eq_zero_iff, not_and_or]

/-! ## Tables -/

/-- The bits of all entries. -/
def union (entries : List (UInt64 × ν)) : UInt64 :=
  entries.foldl (fun bits entry => bits ||| entry.1) 0

/-- The bits of a union, from any start. -/
private theorem bit_foldl (entries : List (UInt64 × ν)) (x : UInt64) :
    bit (entries.foldl (fun bits entry => bits ||| entry.1) x) i =
      (bit x i || entries.any fun entry => bit entry.1 i) := by
  induction entries generalizing x with
  | nil => simp
  | cons entry entries ih => rw [List.foldl_cons, ih, bit_or, List.any_cons, Bool.or_assoc]

/-- The bits of all entries. -/
private theorem bit_union (entries : List (UInt64 × ν)) :
    bit (union entries) i = entries.any fun entry => bit entry.1 i := by
  rw [union, bit_foldl, bit_zero, Bool.false_or]

/-- The entries of a table that a mask has. -/
def present (m : UInt64) (table : List (UInt64 × ν)) : List (UInt64 × ν) :=
  table.filter fun entry => m &&& entry.1 != 0

/-- The entries that a mask has cover what the table covers of it. -/
theorem union_present {table : List (UInt64 × ν)} (h : ∀ entry ∈ table, IsSingle entry.1) :
    union (present m table) = m &&& union table := by
  apply ext
  intro i _
  rw [bit_union, bit_and, bit_union, Bool.eq_iff_iff, Bool.and_eq_true, List.any_eq_true,
    List.any_eq_true]
  -- An entry that has a bit is the entry of that bit, since it has no other
  constructor
  · rintro ⟨entry, hentry, hbit⟩
    obtain ⟨hmem, hpresent⟩ := List.mem_filter.mp hentry
    obtain ⟨k, -, hvalue⟩ := h entry hmem
    rw [bne_iff_ne, and_ne_zero_iff hvalue] at hpresent
    have hki : k = i := by simpa [bit_of_toNat_eq hvalue] using hbit
    exact ⟨hki ▸ hpresent, entry, hmem, hbit⟩
  · rintro ⟨hm, entry, hmem, hbit⟩
    obtain ⟨k, -, hvalue⟩ := h entry hmem
    have hki : k = i := by simpa [bit_of_toNat_eq hvalue] using hbit
    refine ⟨entry, List.mem_filter.mpr ⟨hmem, ?_⟩, hbit⟩
    rw [bne_iff_ne, and_ne_zero_iff hvalue, hki]
    exact hm

/-- In a table without repeated names the names that a mask has determine the entries. -/
theorem present_eq_of_names {m m' : UInt64} {table : List (UInt64 × ν)}
    (h : (table.map Prod.snd).Nodup)
    (hnames : (present m table).map Prod.snd = (present m' table).map Prod.snd) :
    present m table = present m' table := by
  have hinj := List.inj_on_of_nodup_map h
  apply List.filter_congr
  intro entry hentry
  -- A name is present exactly if the bits of its entry are
  have hmem : ∀ m, entry.2 ∈ (present m table).map Prod.snd ↔ (m &&& entry.1 != 0) = true := by
    intro m
    constructor
    · intro hname
      obtain ⟨other, hother, heq⟩ := List.mem_map.mp hname
      obtain ⟨htable, hpresent⟩ := List.mem_filter.mp hother
      rwa [hinj htable hentry heq] at hpresent
    · intro hpresent
      exact List.mem_map_of_mem (List.mem_filter.mpr ⟨hentry, hpresent⟩)
  rw [Bool.eq_iff_iff, ← hmem, ← hmem, hnames]

end Mask
