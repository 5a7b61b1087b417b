import LandlockObservability.ForStd.Except
import LandlockObservability.Model.Producer

/-!
# Fields of a record

What each field reader of the decoder does on a record of the right length: which
bytes give which value, which bytes it rejects, and with which errors.  Inside a
record no read is out of range, so the words can be read by total functions
(`u64`, `u32`) and only the checks on their values remain.
-/

namespace Landlock.Wire

open Bytes Except

/-! ## Words and slices -/

/-- The 64-bit word at an offset of a record. -/
def u64 (en : Endian) (data : List UInt8) (offset : Nat) : UInt64 :=
  UInt64.ofNat (toWord en (slice data offset 8))

/-- The 32-bit word at an offset of a record. -/
def u32 (en : Endian) (data : List UInt8) (offset : Nat) : UInt32 :=
  UInt32.ofNat (toWord en (slice data offset 4))

section Words

variable {data : List UInt8} (hd : data.length = recordSize)
include hd

/-- A slice inside a record is read. -/
theorem sliceAt_eq {offset size : Nat} (h : offset + size ≤ recordSize) (field : String) :
    sliceAt data offset size field = .ok (slice data offset size) := by
  have hlt : offset + size < 2 ^ 64 := lt_of_le_of_lt h (by decide)
  rw [sliceAt, if_pos hlt, if_pos (hd ▸ h)]

/-- So is an array. -/
private theorem bytes_eq {offset size : Nat} (h : offset + size ≤ recordSize) (field : String) :
    bytes size data offset field = .ok (slice data offset size) := by
  have hlen : (slice data offset size).length = size := length_slice (hd ▸ h)
  rw [bytes, sliceAt_eq hd h]
  exact if_pos hlen

/-- A word inside a record is read. -/
theorem u64At_eq (en : Endian) {offset : Nat} (h : offset + 8 ≤ recordSize) (field : String) :
    u64At en data offset field = .ok (u64 en data offset) := by
  rw [u64At, bytes_eq hd h]
  rfl

/-- So is a word of four bytes. -/
theorem u32At_eq (en : Endian) {offset : Nat} (h : offset + 4 ≤ recordSize) (field : String) :
    u32At en data offset field = .ok (u32 en data offset) := by
  rw [u32At, bytes_eq hd h]
  rfl

/-- The number of a word that was read. -/
theorem toNat_u64 (en : Endian) {offset : Nat} (h : offset + 8 ≤ recordSize) :
    (u64 en data offset).toNat = toWord en (slice data offset 8) := by
  have hlt := toWord_lt en (slice data offset 8)
  rw [length_slice (hd ▸ h)] at hlt
  exact UInt64.toNat_ofNat_of_lt hlt

/-- The number of a word of four bytes that was read. -/
theorem toNat_u32 (en : Endian) {offset : Nat} (h : offset + 4 ≤ recordSize) :
    (u32 en data offset).toNat = toWord en (slice data offset 4) := by
  have hlt := toWord_lt en (slice data offset 4)
  rw [length_slice (hd ▸ h)] at hlt
  exact UInt32.toNat_ofNat_of_lt hlt

/-- The word at an offset is `v` exactly when the bytes of `v` are there. -/
theorem u64_eq_iff (en : Endian) {offset : Nat} (h : offset + 8 ≤ recordSize) {v : UInt64} :
    u64 en data offset = v ↔ HasAt data offset (ofWord en 8 v.toNat) := by
  have hlen : (slice data offset 8).length = 8 := length_slice (hd ▸ h)
  have hv : v.toNat < 256 ^ (slice data offset 8).length := by
    rw [hlen]
    exact v.toNat_lt
  rw [← UInt64.toNat_inj, toNat_u64 hd en h, toWord_eq_iff en hv, hlen, hasAt_iff_slice,
    length_ofWord]

/-- So it is with a word of four bytes. -/
theorem u32_eq_iff (en : Endian) {offset : Nat} (h : offset + 4 ≤ recordSize) {v : UInt32} :
    u32 en data offset = v ↔ HasAt data offset (ofWord en 4 v.toNat) := by
  have hlen : (slice data offset 4).length = 4 := length_slice (hd ▸ h)
  have hv : v.toNat < 256 ^ (slice data offset 4).length := by
    rw [hlen]
    exact v.toNat_lt
  rw [← UInt32.toNat_inj, toNat_u32 hd en h, toWord_eq_iff en hv, hlen, hasAt_iff_slice,
    length_ofWord]

end Words

/-! ## Identities -/

/-- An ID is not zero, so that zero can stand for none. -/
private theorem landlockId_ne_zero {K : LandlockIdKind} (i : LandlockId K) : i.value ≠ 0 := by
  intro h0
  exact absurd (h0 ▸ i.minLe) (by decide)

/-- The number of which an ID is made. -/
theorem id_eq_ok_iff {K : LandlockIdKind} {value : UInt64} {field : String}
    {i : LandlockId K} : id value field = .ok i ↔ value = i.value := by
  rw [id, mapError_eq_ok_iff, LandlockId.new]
  constructor
  · intro h
    split at h
    · cases h
      rfl
    · cases h
  · rintro rfl
    rw [dif_pos ⟨landlockId_ne_zero i, i.minLe⟩]

/-- The number of which a process or thread is made. -/
theorem taskId_eq_ok_iff {K : TaskIdKind} {value : UInt32} {field : String} {i : TaskId K} :
    taskId value field = .ok i ↔ value = i.value := by
  rw [taskId, mapError_eq_ok_iff, TaskId.new]
  constructor
  · intro h
    split at h
    · cases h
      rfl
    · cases h
  · rintro rfl
    rw [dif_pos i.nonzero]

/-- The number of a parent is the one that is stored for it. -/
theorem parent_eq_ok_iff {value : UInt64} {field : String} {p : Option DomainId} :
    parent value field = .ok p ↔ value = Producer.optionalId p := by
  unfold parent
  split
  · rename_i h0
    subst h0
    cases p with
    | none => simp [Producer.optionalId]
    | some i => simp [Producer.optionalId, (landlockId_ne_zero i).symm]
  · rename_i h0
    show some <$> id value field = .ok p ↔ _
    rw [map_eq_ok_iff]
    cases p with
    | none => simp [Producer.optionalId, h0]
    | some i => simp [Producer.optionalId, id_eq_ok_iff]

/-- So is the number of the other party's domain. -/
theorem domainMembership_eq_ok_iff {value : UInt64} {field : String} {m : DomainMembership} :
    domainMembership value field = .ok m ↔ value = Producer.membershipId m := by
  unfold domainMembership
  split
  · rename_i h0
    subst h0
    cases m with
    | unsandboxed => simp [Producer.membershipId]
    | sandboxed i => simp [Producer.membershipId, (landlockId_ne_zero i).symm]
  · rename_i h0
    show DomainMembership.sandboxed <$> id value field = .ok m ↔ _
    rw [map_eq_ok_iff]
    cases m with
    | unsandboxed => simp [Producer.membershipId, h0]
    | sandboxed i => simp [Producer.membershipId, id_eq_ok_iff]

/-- The number of a process that may be unknown. -/
theorem optionalProcessId_eq_iff {value : UInt32} {p : Option ProcessId} :
    optionalProcessId value = p ↔ value = Producer.optionalPid p := by
  unfold optionalProcessId TaskId.new
  split
  · rename_i h0
    cases p with
    | none => simp [Except.toOption, Producer.optionalPid, h0]
    | some i =>
      rcases i with ⟨v, hv⟩
      simp [Except.toOption, Producer.optionalPid]
  · rename_i h0
    rw [not_not] at h0
    subst h0
    cases p with
    | none => simp [Except.toOption, Producer.optionalPid]
    | some i => simp [Except.toOption, Producer.optionalPid, i.nonzero.symm]

/-! ## Booleans -/

/-- A flag is read where its byte is. -/
theorem booleanAt_eq_ok_iff {data : List UInt8} {offset : Nat} {field : String} {b : Bool} :
    booleanAt data offset field = .ok b ↔ HasAt data offset (Producer.boolean b) := by
  have hat : HasAt data offset (Producer.boolean b) ↔
      data[offset]? = some (if b then 1 else 0) := by
    cases b <;> exact hasAt_singleton
  rw [hat, booleanAt]
  -- A byte outside the record, zero, one, or another
  cases data[offset]? with
  | none => simp
  | some value =>
    by_cases h0 : value = 0
    · subst h0
      cases b <;> simp
    · by_cases h1 : value = 1
      · subst h1
        cases b <;> simp
      · cases b <;> simp [h0, h1]

/-! ## Captured bytes -/

/-- `CapturedBytes.new` keeps the bytes and the flag it accepts. -/
theorem new_eq_ok_iff {K : CapturedBytesOrigin} {bs : List UInt8} {omitted : Bool}
    {c : CapturedBytes K} :
    CapturedBytes.new bs omitted = .ok c ↔ bs = c.bytes ∧ omitted = c.bytesOmitted := by
  constructor
  · intro h
    unfold CapturedBytes.new at h
    split_ifs at h <;> cases h <;> exact ⟨rfl, rfl⟩
  · rintro ⟨rfl, rfl⟩
    -- The invariant of the value is what the checks ask for
    have hnul : ¬(K.allowsNul = false ∧ (0 : UInt8) ∈ c.bytes) := fun h => c.nulFree h.1 h.2
    have hlen : ¬c.bytes.length > K.maximumLen := Nat.not_lt.mpr c.lengthLe
    unfold CapturedBytes.new
    rw [dif_neg hnul, dif_neg hlen]
    by_cases homitted : c.bytesOmitted = true
    · obtain ⟨hpolicy, hfull⟩ := c.omission homitted
      rw [dif_pos homitted, dif_neg (by simp [hpolicy]), dif_neg (not_not.mpr hfull)]
    · rw [dif_neg homitted]

/-- The error of `CapturedBytes.new` says which check failed. -/
theorem new_error_cases {K : CapturedBytesOrigin} {bs : List UInt8} {omitted : Bool}
    {e : CapturedBytesError} (h : CapturedBytes.new (K := K) bs omitted = .error e) :
    (K.allowsNul = false ∧ (0 : UInt8) ∈ bs) ∨
      (K.maximumLen < bs.length ∧ e = .tooLong bs.length K.maximumLen) ∨
      (omitted = true ∧ K.omissionPolicy = .notSupported) ∨
      (omitted = true ∧ bs.length ≠ K.maximumLen ∧
        e = .omissionRequiresFullCapacity bs.length K.maximumLen) := by
  unfold CapturedBytes.new at h
  split_ifs at h with hnul hlen homitted hpolicy hfull
  · exact .inl hnul
  · exact .inr (.inl ⟨hlen, by cases h; rfl⟩)
  · exact .inr (.inr (.inl ⟨homitted, hpolicy⟩))
  · exact .inr (.inr (.inr ⟨homitted, hfull, by cases h; rfl⟩))

/-- A C string is captured up to its first NUL. -/
theorem capturedCString_eq {K : CapturedBytesOrigin} (value : List UInt8) (omitted : Bool)
    (field : String) :
    capturedCString (K := K) value omitted field =
      (CapturedBytes.new (untilNul value) omitted).mapError (.capturedBytes field) :=
  if_pos List.findIdx_le_length

/-- Only a path can say that bytes were omitted. -/
theorem bytesOmitted_eq_false {K : CapturedBytesOrigin} (c : CapturedBytes K)
    (hK : K.omissionPolicy ≠ .fullCapacity) : c.bytesOmitted = false := by
  cases homitted : c.bytesOmitted with
  | false => rfl
  | true => exact absurd (c.omission homitted).1 hK

/-- What a path field of 256 bytes starts with: the path, and a NUL if one fits. -/
def pathBytes (p : CapturedPath) : List UInt8 :=
  if p.bytes.length < pathSize then p.bytes ++ [0] else p.bytes

section Captured

variable {data : List UInt8} (hd : data.length = recordSize)
include hd

/-- A command field holds the command and a NUL. -/
theorem commandAt_eq_ok_iff {offset : Nat} (h : offset + commSize ≤ recordSize)
    {field : String} {c : CapturedCommand} :
    commandAt data offset field = .ok c ↔ HasAt data offset (c.bytes ++ [0]) := by
  have hlen : (slice data offset commSize).length = 16 := length_slice (hd ▸ h)
  have hle : c.bytes.length ≤ 15 := c.lengthLe
  have homitted : c.bytesOmitted = false := bytesOmitted_eq_false c (by decide)
  have hread : commandAt data offset field =
      capturedCString (slice data offset commSize) false field := by
    rw [commandAt, sliceAt_eq hd h]
    rfl
  rw [hread, capturedCString_eq, mapError_eq_ok_iff, new_eq_ok_iff, homitted,
    untilNul_eq_iff (c.nulFree rfl)]
  constructor
  · rintro ⟨hpre | heq, _⟩
    · exact hasAt_of_prefix_slice hpre
    -- A field without a NUL is longer than any command
    · rw [heq] at hle
      omega
  · intro hat
    have hfit : (c.bytes ++ [0]).length ≤ commSize := by
      rw [List.length_append, List.length_singleton]
      exact Nat.succ_le_succ hle
    exact ⟨.inl (prefix_slice_of_hasAt hat hfit), rfl⟩

/-- The bytes of a path field before the first NUL are a path exactly when the field
    starts with the path and, if it is not full, with a NUL after it. -/
private theorem untilNul_eq_path_iff {offset : Nat} (h : offset + pathSize ≤ recordSize)
    {p : CapturedPath} :
    untilNul (slice data offset pathSize) = p.bytes ↔ HasAt data offset (pathBytes p) := by
  have hlen : (slice data offset pathSize).length = 256 := length_slice (hd ▸ h)
  have hle : p.bytes.length ≤ 256 := p.lengthLe
  rw [untilNul_eq_iff (p.nulFree rfl), pathBytes]
  by_cases hlt : p.bytes.length < pathSize
  · rw [if_pos hlt]
    constructor
    · rintro (hpre | heq)
      · exact hasAt_of_prefix_slice hpre
      · rw [heq, hlen] at hlt
        exact absurd hlt (by decide)
    · intro hat
      refine .inl (prefix_slice_of_hasAt hat ?_)
      rw [List.length_append, List.length_singleton]
      omega
  -- A path that fills the field leaves no room for a NUL
  · have hfull : p.bytes.length = 256 := le_antisymm hle (Nat.le_of_not_lt hlt)
    rw [if_neg hlt, hasAt_iff_slice, hfull]
    constructor
    · rintro (hpre | heq)
      · have := hpre.length_le
        rw [List.length_append, List.length_singleton, hlen] at this
        omega
      · exact heq.symm
    · exact fun heq => .inr heq.symm

/-- A path field holds the path, and its flag whether bytes were omitted. -/
theorem capturedAt_eq_ok_iff {offset omittedOffset : Nat} (h : offset + pathSize ≤ recordSize)
    {field omittedField : String} {p : CapturedPath} :
    capturedAt data offset pathSize omittedOffset field omittedField = .ok p ↔
      HasAt data omittedOffset (Producer.boolean p.bytesOmitted) ∧
        HasAt data offset (pathBytes p) := by
  -- The flag is read before the bytes are checked
  have hread : capturedAt data offset pathSize omittedOffset field omittedField = .ok p ↔
      ∃ omitted, booleanAt data omittedOffset omittedField = .ok omitted ∧
        capturedCString (slice data offset pathSize) omitted field = .ok p := by
    rw [capturedAt, sliceAt_eq hd h, ok_bind]
    exact bind_eq_ok_iff
  simp only [hread, booleanAt_eq_ok_iff, capturedCString_eq, mapError_eq_ok_iff,
    new_eq_ok_iff, untilNul_eq_path_iff hd h]
  constructor
  · rintro ⟨_, hflag, hat, rfl⟩
    exact ⟨hflag, hat⟩
  · rintro ⟨hflag, hat⟩
    exact ⟨_, hflag, hat, rfl⟩

/-- The name field holds the name, whose length the length field holds. -/
theorem abstractUnixSocketNameAt_eq_ok_iff (en : Endian) {lengthOffset nameOffset : Nat}
    (hl : lengthOffset + 4 ≤ recordSize)
    (hn : nameOffset + abstractUnixSocketNameMaxLen ≤ recordSize)
    {n : CapturedAbstractUnixSocketName} :
    abstractUnixSocketNameAt en data lengthOffset nameOffset = .ok n ↔
      HasAt data lengthOffset (ofWord en 4 n.bytes.length) ∧
        HasAt data nameOffset n.bytes := by
  have hle : n.bytes.length ≤ 107 := n.lengthLe
  have hword : (UInt32.ofNat n.bytes.length).toNat = n.bytes.length :=
    UInt32.toNat_ofNat_of_lt (lt_of_le_of_lt hle (by decide))
  have homitted : n.bytesOmitted = false := bytesOmitted_eq_false n (by decide)
  have hlength := u32_eq_iff hd en hl (v := UInt32.ofNat n.bytes.length)
  rw [hword] at hlength
  rw [abstractUnixSocketNameAt, u32At_eq hd en hl, ok_bind, ← hlength]
  split
  · -- a length that is rejected is not that of a name
    rename_i hgt
    have hne : u32 en data lengthOffset ≠ UInt32.ofNat n.bytes.length := by
      intro heq
      rw [heq, gt_iff_lt, UInt32.lt_iff_toNat_lt, hword] at hgt
      exact absurd hgt (by simpa [abstractUnixSocketNameMaxLen] using hle)
    simp [hne]
  · rename_i hle'
    have hbound : nameOffset + (u32 en data lengthOffset).toNat ≤ recordSize := by
      rw [gt_iff_lt, UInt32.lt_iff_toNat_lt, Nat.not_lt] at hle'
      have : (UInt32.ofNat abstractUnixSocketNameMaxLen).toNat =
          abstractUnixSocketNameMaxLen := by decide
      omega
    have hslice : (slice data nameOffset (u32 en data lengthOffset).toNat).length =
        (u32 en data lengthOffset).toNat := length_slice (hd ▸ hbound)
    rw [sliceAt_eq hd hbound, ok_bind, mapError_eq_ok_iff, new_eq_ok_iff, homitted,
      hasAt_iff_slice]
    simp only [and_true]
    constructor
    -- The slice has the length that the field holds, so the name has it, too
    · intro heq
      have hlen := congrArg List.length heq
      rw [hslice] at hlen
      refine ⟨?_, by rw [← hlen, heq]⟩
      rw [← UInt32.toNat_inj, hword, hlen]
    · rintro ⟨hw, heq⟩
      rw [hw, hword, heq]

end Captured

end Landlock.Wire
