import Mathlib.Data.Nat.Digits.Lemmas

/-!
# Byte strings as memory

Fixed-width words as byte strings of either byte order, what a byte string holds at
an offset (`HasAt`), and stores into one (`store`).
-/

/-- The byte order of a machine word. -/
inductive Endian where
  | little
  | big
  deriving DecidableEq, Repr

namespace Bytes

/-! ## Words -/

/-- The `width` low-order bytes of `v`, least significant first. -/
def leBytes : Nat → Nat → List UInt8
  | 0, _ => []
  | width + 1, v => UInt8.ofNat (v % 256) :: leBytes width (v / 256)

/-- The value of bytes, least significant first. -/
def ofLeBytes (bytes : List UInt8) : Nat :=
  Nat.ofDigits 256 (bytes.map UInt8.toNat)

/-- `v` as a word of `width` bytes. -/
def ofWord (en : Endian) (width v : Nat) : List UInt8 :=
  match en with
  | .little => leBytes width v
  | .big => (leBytes width v).reverse

/-- The value of the word made of `bytes`. -/
def toWord (en : Endian) (bytes : List UInt8) : Nat :=
  match en with
  | .little => ofLeBytes bytes
  | .big => ofLeBytes bytes.reverse

@[simp] theorem length_leBytes (width v : Nat) : (leBytes width v).length = width := by
  induction width generalizing v with
  | zero => rfl
  | succ width ih => simp [leBytes, ih]

@[simp] theorem length_ofWord (en : Endian) (width v : Nat) :
    (ofWord en width v).length = width := by
  cases en <;> simp [ofWord]

/-- The first byte counts once, the others 256 times. -/
private theorem ofLeBytes_cons (b : UInt8) (bytes : List UInt8) :
    ofLeBytes (b :: bytes) = b.toNat + 256 * ofLeBytes bytes := by
  simp [ofLeBytes, Nat.ofDigits_cons]

/-- Bytes have a value below their power. -/
private theorem ofLeBytes_lt (bytes : List UInt8) : ofLeBytes bytes < 256 ^ bytes.length := by
  have hlt : ∀ x ∈ bytes.map UInt8.toNat, x < 256 := by
    intro x hx
    obtain ⟨b, _, rfl⟩ := List.mem_map.mp hx
    exact b.toNat_lt
  simpa [ofLeBytes] using Nat.ofDigits_lt_base_pow_length (by decide) hlt

/-- Bytes are those of their value. -/
private theorem leBytes_ofLeBytes (bytes : List UInt8) :
    leBytes bytes.length (ofLeBytes bytes) = bytes := by
  induction bytes with
  | nil => rfl
  | cons b bytes ih =>
    have hb := b.toNat_lt
    have hmod : (b.toNat + 256 * ofLeBytes bytes) % 256 = b.toNat := by omega
    have hdiv : (b.toNat + 256 * ofLeBytes bytes) / 256 = ofLeBytes bytes := by omega
    rw [ofLeBytes_cons, List.length_cons, leBytes, hmod, hdiv, ih, UInt8.ofNat_toNat]

/-- A value that fits is that of its bytes. -/
private theorem ofLeBytes_leBytes (width : Nat) {v : Nat} (hv : v < 256 ^ width) :
    ofLeBytes (leBytes width v) = v := by
  induction width generalizing v with
  | zero =>
    have : v = 0 := by simpa using hv
    subst this
    rfl
  | succ width ih =>
    have hdiv : v / 256 < 256 ^ width := by
      rw [Nat.pow_succ] at hv
      exact Nat.div_lt_of_lt_mul (by rwa [Nat.mul_comm])
    have hbyte : (UInt8.ofNat (v % 256)).toNat = v % 256 := by simp
    rw [leBytes, ofLeBytes_cons, ih hdiv, hbyte]
    omega

/-- A word has a value below its power, in both byte orders. -/
theorem toWord_lt (en : Endian) (bytes : List UInt8) :
    toWord en bytes < 256 ^ bytes.length := by
  cases en with
  | little => exact ofLeBytes_lt bytes
  | big => simpa [toWord] using ofLeBytes_lt bytes.reverse

/-- Bytes are a word exactly when the word's value is theirs. -/
theorem toWord_eq_iff (en : Endian) {bytes : List UInt8} {v : Nat}
    (hv : v < 256 ^ bytes.length) :
    toWord en bytes = v ↔ bytes = ofWord en bytes.length v := by
  constructor
  · rintro rfl
    -- The big-endian word is the little-endian one of the reversed bytes
    cases en with
    | little => exact (leBytes_ofLeBytes bytes).symm
    | big =>
      have := leBytes_ofLeBytes bytes.reverse
      rw [List.length_reverse] at this
      rw [toWord, ofWord, this, List.reverse_reverse]
  · intro h
    rw [h]
    cases en with
    | little => exact ofLeBytes_leBytes _ hv
    | big => simpa [toWord, ofWord] using ofLeBytes_leBytes _ hv

/-! ## Contents at an offset -/

/-- `d` holds the bytes `bs` from offset `o` on. -/
def HasAt (d : List UInt8) (o : Nat) (bs : List UInt8) : Prop := bs <+: d.drop o

instance (d : List UInt8) (o : Nat) (bs : List UInt8) : Decidable (HasAt d o bs) :=
  inferInstanceAs (Decidable (bs <+: d.drop o))

/-- The `n` bytes of `d` from offset `o` on. -/
def slice (d : List UInt8) (o n : Nat) : List UInt8 := (d.drop o).take n

/-- A slice inside a byte string has its length. -/
theorem length_slice {d : List UInt8} {o n : Nat} (h : o + n ≤ d.length) :
    (slice d o n).length = n := by
  rw [slice, List.length_take, List.length_drop]
  omega

/-- What is held at an offset, byte by byte. -/
private theorem hasAt_iff_getElem? {d : List UInt8} {o : Nat} {bs : List UInt8} :
    HasAt d o bs ↔ ∀ i (h : i < bs.length), d[o + i]? = some bs[i] := by
  simp only [HasAt, List.prefix_iff_getElem?, List.getElem?_drop]

/-- A byte at an offset. -/
theorem hasAt_singleton {d : List UInt8} {o : Nat} {b : UInt8} :
    HasAt d o [b] ↔ d[o]? = some b := by
  simp [hasAt_iff_getElem?]

/-- What is held at an offset is the slice there. -/
theorem hasAt_iff_slice {d : List UInt8} {o : Nat} {bs : List UInt8} :
    HasAt d o bs ↔ slice d o bs.length = bs :=
  List.prefix_iff_eq_take.trans eq_comm

/-- What is read off `n` bytes at an offset is held there. -/
theorem hasAt_of_prefix_slice {d : List UInt8} {o n : Nat} {bs : List UInt8}
    (h : bs <+: slice d o n) : HasAt d o bs := by
  have htake : slice d o n <+: d.drop o := List.take_prefix n (d.drop o)
  exact h.trans htake

/-- What is held at an offset is read off the bytes there. -/
theorem prefix_slice_of_hasAt {d : List UInt8} {o n : Nat} {bs : List UInt8}
    (h : HasAt d o bs) (hn : bs.length ≤ n) : bs <+: slice d o n :=
  List.prefix_take_iff.mpr ⟨h, hn⟩

/-- With some bytes their start is held. -/
theorem HasAt.mono {d : List UInt8} {o : Nat} {bs cs : List UInt8} (h : HasAt d o cs)
    (hbs : bs <+: cs) : HasAt d o bs :=
  List.IsPrefix.trans hbs h

/-- Only the bytes in its range decide what is held at an offset. -/
theorem HasAt.congr {d d' : List UInt8} {o : Nat} {bs : List UInt8} (h : HasAt d o bs)
    (hd : ∀ i, o ≤ i → i < o + bs.length → d[i]? = d'[i]?) : HasAt d' o bs := by
  rw [hasAt_iff_getElem?] at h ⊢
  intro i hi
  rw [← h i hi, hd (o + i) (by omega) (by omega)]

/-- Byte strings that hold the same bytes agree on their range. -/
theorem HasAt.getElem?_eq {d d' : List UInt8} {o i : Nat} {bs : List UInt8} (h : HasAt d o bs)
    (h' : HasAt d' o bs) (hi : o ≤ i) (hi' : i < o + bs.length) : d[i]? = d'[i]? := by
  obtain ⟨j, rfl⟩ := Nat.exists_eq_add_of_le hi
  have hj : j < bs.length := by omega
  rw [hasAt_iff_getElem?.mp h j hj, hasAt_iff_getElem?.mp h' j hj]

/-! ## NUL-terminated strings -/

/-- The bytes before the first NUL, all of them when there is none. -/
def untilNul (value : List UInt8) : List UInt8 := value.take (value.findIdx (· == 0))

/-- The first byte ends the string, or belongs to it. -/
private theorem untilNul_cons (b : UInt8) (value : List UInt8) :
    untilNul (b :: value) = if b = 0 then [] else b :: untilNul value := by
  unfold untilNul
  rw [List.findIdx_cons]
  by_cases hb : b = 0
  · simp [hb]
  · have hbeq : (b == 0) = false := beq_false_of_ne hb
    simp [hb, hbeq]

/-- There is no NUL before the first NUL. -/
theorem zero_notMem_untilNul (value : List UInt8) : (0 : UInt8) ∉ untilNul value := by
  induction value with
  | nil => simp [untilNul]
  | cons b value ih =>
    rw [untilNul_cons]
    split
    · exact List.not_mem_nil
    · rename_i hb
      rw [List.mem_cons, not_or]
      exact ⟨fun h => hb h.symm, ih⟩

/-- A string is not longer than its bytes. -/
theorem length_untilNul_le (value : List UInt8) : (untilNul value).length ≤ value.length := by
  rw [untilNul, List.length_take]
  omega

/-- It is shorter exactly if there is a NUL. -/
theorem length_untilNul_lt_iff {value : List UInt8} :
    (untilNul value).length < value.length ↔ (0 : UInt8) ∈ value := by
  rw [untilNul, List.length_take]
  have hmem : value.findIdx (· == 0) < value.length ↔ ∃ x ∈ value, (x == 0) = true :=
    List.findIdx_lt_length
  constructor
  · intro h
    obtain ⟨x, hx, h0⟩ := hmem.mp (by omega)
    exact eq_of_beq h0 ▸ hx
  · intro h
    have := hmem.mpr ⟨0, h, rfl⟩
    omega

/-- A string read up to its first NUL is `bs`: either a NUL follows `bs`, or `bs` is
    all there is. -/
theorem untilNul_eq_iff {value bs : List UInt8} (hbs : (0 : UInt8) ∉ bs) :
    untilNul value = bs ↔ bs ++ [0] <+: value ∨ bs = value := by
  induction value generalizing bs with
  | nil =>
    cases bs <;> simp [untilNul]
  | cons b value ih =>
    rw [untilNul_cons]
    cases bs with
    | nil =>
      by_cases hb : b = 0
      · simp [hb]
      · simp [hb, Ne.symm hb]
    -- The first bytes are compared: a NUL ends the string here, and `bs` has none
    | cons c bs =>
      rw [List.mem_cons, not_or] at hbs
      by_cases hb : b = 0
      · subst hb
        simp [Ne.symm hbs.1]
      · simp only [hb, if_false, List.cons.injEq, ih hbs.2, List.cons_append,
          List.cons_prefix_cons]
        constructor
        · rintro ⟨rfl, h⟩
          exact h.imp (⟨rfl, ·⟩) (⟨rfl, ·⟩)
        · rintro (⟨rfl, h⟩ | ⟨rfl, h⟩)
          · exact ⟨rfl, .inl h⟩
          · exact ⟨rfl, .inr h⟩

/-! ## Stores -/

/-- `d` with the bytes `bs` stored at offset `o`. -/
def store (d : List UInt8) (o : Nat) (bs : List UInt8) : List UInt8 :=
  d.take o ++ bs ++ d.drop (o + bs.length)

section Store

variable {d bs : List UInt8} {o : Nat}

/-- A store does not change the length. -/
theorem length_store (h : o + bs.length ≤ d.length) : (store d o bs).length = d.length := by
  simp only [store, List.length_append, List.length_take, List.length_drop]
  omega

/-- What was stored is held. -/
theorem hasAt_store_self (h : o ≤ d.length) : HasAt (store d o bs) o bs := by
  have hlen : (d.take o).length = o := by
    rw [List.length_take]
    omega
  rw [HasAt, store, List.append_assoc, List.drop_append_of_le_length (by omega),
    List.drop_of_length_le (by omega), List.nil_append]
  exact List.prefix_append _ _

/-- A store leaves the bytes outside its range as they are. -/
private theorem getElem?_store_of_outside (h : o + bs.length ≤ d.length) {i : Nat}
    (hi : i < o ∨ o + bs.length ≤ i) : (store d o bs)[i]? = d[i]? := by
  have hlen : (d.take o).length = o := by
    rw [List.length_take]
    omega
  rw [store, List.append_assoc]
  rcases hi with hi | hi
  · rw [List.getElem?_append_left (by omega), List.getElem?_take_of_lt hi]
  · rw [List.getElem?_append_right (by omega), hlen, List.getElem?_append_right (by omega),
      List.getElem?_drop]
    congr 1
    omega

/-- What is held elsewhere stays. -/
theorem hasAt_store_of_disjoint {p : Nat} {cs : List UInt8} (h : o + bs.length ≤ d.length)
    (hdisj : p + cs.length ≤ o ∨ o + bs.length ≤ p) (hcs : HasAt d p cs) :
    HasAt (store d o bs) p cs := by
  refine hcs.congr fun i hi hi' => ?_
  rw [getElem?_store_of_outside h]
  omega

end Store

end Bytes
