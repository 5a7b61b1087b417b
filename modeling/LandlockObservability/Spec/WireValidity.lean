import LandlockObservability.Spec.WireFields

/-!
# Which records the decoder accepts

`EventKind.checks` lists, for each kind of record, the conditions on its fields.
`decode` accepts a byte string exactly when it has the size of a record, its type
byte is one of the twelve kinds and the conditions of that kind hold.  A rejected
record is rejected for its length, for its kind, or with an error about a field
that a condition is about; the errors that guard reads inside the record cannot
occur.

## Key results

- `eventAt_decides`: a record of a kind is accepted when the kind's checks hold
- `decode_accepts_iff_valid`: `decode` accepts exactly the valid records
-/

namespace Landlock.Wire

open Bytes Except

/-! ## The conditions -/

/-- A condition on the bytes of one field. -/
inductive FieldCheck where
  | landlockId (offset : Nat)
  | optionalLandlockId (offset : Nat)
  | taskId (offset : Nat)
  | boolean (offset : Nat)
  | command (offset : Nat)
  | path (offset omittedOffset : Nat)
  | abstractNameLength (offset : Nat)
  deriving DecidableEq, Repr

/-- When a condition holds of a record. -/
def FieldCheck.Holds (en : Endian) (data : List UInt8) : FieldCheck → Prop
  | landlockId offset => 2 ^ 32 ≤ toWord en (slice data offset 8)
  | optionalLandlockId offset =>
    toWord en (slice data offset 8) = 0 ∨ 2 ^ 32 ≤ toWord en (slice data offset 8)
  | taskId offset => toWord en (slice data offset 4) ≠ 0
  | boolean offset => data[offset]? = some 0 ∨ data[offset]? = some 1
  | command offset => (0 : UInt8) ∈ slice data offset 16
  | path offset omittedOffset =>
    (data[omittedOffset]? = some 0 ∨ data[omittedOffset]? = some 1) ∧
      (data[omittedOffset]? = some 1 → (0 : UInt8) ∉ slice data offset 256)
  | abstractNameLength offset => toWord en (slice data offset 4) ≤ 107

instance (en : Endian) (data : List UInt8) (c : FieldCheck) : Decidable (c.Holds en data) := by
  cases c <;> unfold FieldCheck.Holds <;> infer_instance

/-- The conditions on the header shared by the denials. -/
def denialChecks : List FieldCheck :=
  [.landlockId 16, .optionalLandlockId 24, .taskId 32, .command 36, .boolean 72, .boolean 73]

/-- The conditions on the fields of a kind. -/
def EventKind.checks : EventKind → List FieldCheck
  | createRuleset => [.landlockId 16]
  | addRulePathBeneath => [.landlockId 16, .path 56 44]
  | addRuleNetPort => [.landlockId 16]
  | createDomain =>
    [.landlockId 16, .landlockId 32, .optionalLandlockId 40, .taskId 48, .command 52]
  | denyAccessFs => denialChecks ++ [.path 96 84]
  | denyAccessNet => denialChecks
  | denyPtrace => denialChecks ++ [.optionalLandlockId 80, .taskId 88, .command 92]
  | denyScopeSignal => denialChecks ++ [.optionalLandlockId 80, .taskId 88, .command 92]
  | denyScopeAbstractUnixSocket =>
    denialChecks ++ [.optionalLandlockId 80, .abstractNameLength 92]
  | freeDomain => [.landlockId 16]
  | freeRuleset => [.landlockId 16]
  | enforceDomain => [.landlockId 16, .taskId 24, .boolean 28, .boolean 29, .boolean 30]

/-- The valid records. -/
def ValidRecord (en : Endian) (data : List UInt8) : Prop :=
  data.length = 352 ∧
    ∃ kind ∈ EventKind.all, data[8]? = some kind.value ∧ ∀ c ∈ kind.checks, c.Holds en data

/-- The errors about a field: a condition on its value failed.  None of them is about
    the bytes of an abstract socket name. -/
inductive FieldRejection : DecodeError → Prop
  | boolean (field : String) (value : UInt8) : FieldRejection (.boolean field value)
  | id (field : String) (value : UInt64) : FieldRejection (.id field value)
  | taskId (field : String) : FieldRejection (.taskId field)
  | nameLength (value : UInt32) (maximum : Nat) :
    FieldRejection (.abstractUnixSocketNameLength value maximum)
  | tooLong {field : String} (h : field ≠ abstractUnixSocketNameField) (length maximum : Nat) :
    FieldRejection (.capturedBytes field (.tooLong length maximum))
  | omission {field : String} (h : field ≠ abstractUnixSocketNameField) (length capacity : Nat) :
    FieldRejection (.capturedBytes field (.omissionRequiresFullCapacity length capacity))

/-! ## One field at a time -/

/-- A byte selects the kind whose value it is. -/
theorem EventKind.ofValue_eq_some_iff {byte : UInt8} {kind : EventKind} :
    EventKind.ofValue byte = some kind ↔ kind ∈ EventKind.all ∧ byte = kind.value := by
  constructor
  · intro h
    have hvalue := List.find?_some h
    exact ⟨List.mem_of_find?_eq_some h, by simpa [eq_comm] using hvalue⟩
  · rintro ⟨_, rfl⟩
    cases kind <;> rfl

/-- A flag that was read is the byte one exactly when it is set. -/
private theorem booleanAt_eq_true_iff {data : List UInt8} {offset : Nat} {field : String}
    {value : Bool} (h : booleanAt data offset field = .ok value) :
    data[offset]? = some 1 ↔ value = true := by
  have hbyte : data[offset]? = some (if value then 1 else 0) := by
    cases value <;> exact hasAt_singleton.mp (booleanAt_eq_ok_iff.mp h)
  rw [hbyte]
  cases value <;> decide

section Fields

variable (en : Endian) {data : List UInt8} (hd : data.length = recordSize) {offset : Nat}
  {field : String}

/-- An ID is accepted from 2 ^ 32 on. -/
theorem id_decides {K : LandlockIdKind} (value : UInt64) :
    Decides FieldRejection (2 ^ 32 ≤ value.toNat) (id (K := K) value field) := by
  refine .of_cases ?_ ?_
  · intro i hi
    rw [id_eq_ok_iff.mp hi]
    exact i.minLe
  -- Rejected by one of the two checks of the constructor
  · intro e he
    obtain ⟨_, hnew, rfl⟩ := mapError_eq_error_iff.mp he
    refine ⟨?_, .id field value⟩
    intro hle
    have hmin : minLandlockId ≤ value := hle
    have hne : value ≠ 0 := by
      rintro rfl
      exact absurd hmin (by decide)
    rw [LandlockId.new, dif_pos ⟨hne, hmin⟩] at hnew
    cases hnew

/-- A process or thread is accepted if it is not zero. -/
theorem taskId_decides {K : TaskIdKind} (value : UInt32) :
    Decides FieldRejection (value.toNat ≠ 0) (Wire.taskId (K := K) value field) := by
  refine .of_cases ?_ ?_
  · intro i hi h0
    rw [taskId_eq_ok_iff.mp hi] at h0
    exact i.nonzero (UInt32.toNat_inj.mp h0)
  · intro e he
    obtain ⟨_, hnew, rfl⟩ := mapError_eq_error_iff.mp he
    refine ⟨?_, .taskId field⟩
    intro hne
    have : value ≠ 0 := by
      rintro rfl
      exact hne rfl
    rw [TaskId.new, dif_pos this] at hnew
    cases hnew

/-- A parent may be missing, which is written as zero. -/
theorem parent_decides (value : UInt64) :
    Decides FieldRejection (value.toNat = 0 ∨ 2 ^ 32 ≤ value.toNat) (parent value field) := by
  unfold parent
  split
  · rename_i h0
    subst h0
    exact (Decides.pure none).congr (by simp)
  · rename_i h0
    have hne : value.toNat ≠ 0 := fun h => h0 (UInt64.toNat_inj.mp h)
    exact ((id_decides value).map some).congr (by simp [hne])

/-- So may the domain of the other party. -/
theorem domainMembership_decides (value : UInt64) :
    Decides FieldRejection (value.toNat = 0 ∨ 2 ^ 32 ≤ value.toNat)
      (domainMembership value field) := by
  unfold domainMembership
  split
  · rename_i h0
    subst h0
    exact (Decides.pure _).congr (by simp)
  · rename_i h0
    have hne : value.toNat ≠ 0 := fun h => h0 (UInt64.toNat_inj.mp h)
    exact ((id_decides value).map DomainMembership.sandboxed).congr (by simp [hne])

include hd

/-- A flag is the byte zero or the byte one. -/
private theorem booleanAt_decides (h : offset < recordSize) :
    Decides FieldRejection ((FieldCheck.boolean offset).Holds en data)
      (booleanAt data offset field) := by
  obtain ⟨value, hget⟩ : ∃ value, data[offset]? = some value :=
    ⟨_, List.getElem?_eq_getElem (hd ▸ h)⟩
  simp only [booleanAt, FieldCheck.Holds, hget, Option.some.injEq]
  -- The three arms of the source
  by_cases h0 : value = 0
  · rw [if_pos h0]
    exact (Decides.pure false).congr (by simp [h0])
  · by_cases h1 : value = 1
    · rw [if_neg h0, if_pos h1]
      exact (Decides.pure true).congr (by simp [h1])
    · rw [if_neg h0, if_neg h1]
      refine .of_cases (fun _ h => by cases h) ?_
      rintro e ⟨⟩
      exact ⟨not_or.mpr ⟨h0, h1⟩, .boolean field value⟩

/-- An ID at an offset. -/
private theorem landlockId_decides {K : LandlockIdKind} (h : offset + 8 ≤ recordSize) :
    Decides FieldRejection ((FieldCheck.landlockId offset).Holds en data)
      (id (K := K) (u64 en data offset) field) :=
  (id_decides _).congr (by rw [toNat_u64 hd en h, FieldCheck.Holds])

/-- A process at an offset. -/
private theorem processId_decides (h : offset + 4 ≤ recordSize) :
    Decides FieldRejection ((FieldCheck.taskId offset).Holds en data)
      (processId (u32 en data offset) field) :=
  (taskId_decides _).congr (by rw [toNat_u32 hd en h, FieldCheck.Holds])

/-- A thread at an offset. -/
private theorem threadId_decides (h : offset + 4 ≤ recordSize) :
    Decides FieldRejection ((FieldCheck.taskId offset).Holds en data)
      (threadId (u32 en data offset) field) :=
  (taskId_decides _).congr (by rw [toNat_u32 hd en h, FieldCheck.Holds])

/-- A parent at an offset. -/
private theorem parentAt_decides (h : offset + 8 ≤ recordSize) :
    Decides FieldRejection ((FieldCheck.optionalLandlockId offset).Holds en data)
      (parent (u64 en data offset) field) :=
  (parent_decides _).congr (by rw [toNat_u64 hd en h, FieldCheck.Holds])

/-- The domain of the other party at an offset. -/
private theorem membershipAt_decides (h : offset + 8 ≤ recordSize) :
    Decides FieldRejection ((FieldCheck.optionalLandlockId offset).Holds en data)
      (domainMembership (u64 en data offset) field) :=
  (domainMembership_decides _).congr (by rw [toNat_u64 hd en h, FieldCheck.Holds])

/-- A command without NUL is one byte too long; nothing else can be wrong with it. -/
private theorem commandAt_decides (h : offset + commSize ≤ recordSize)
    (hfield : field ≠ abstractUnixSocketNameField) :
    Decides FieldRejection ((FieldCheck.command offset).Holds en data)
      (commandAt data offset field) := by
  have hlen : (slice data offset 16).length = 16 := length_slice (hd ▸ h)
  have hshort : (untilNul (slice data offset 16)).length < (slice data offset 16).length ↔ _ :=
    length_untilNul_lt_iff
  rw [hlen] at hshort
  rw [commandAt, sliceAt_eq hd h, ok_bind, commSize, capturedCString_eq, FieldCheck.Holds,
    ← hshort]
  refine .of_cases ?_ ?_
  · intro c hc
    rw [mapError_eq_ok_iff, new_eq_ok_iff] at hc
    rw [hc.1]
    exact Nat.lt_succ_of_le c.lengthLe
  · intro e he
    obtain ⟨source, hnew, rfl⟩ := mapError_eq_error_iff.mp he
    -- Of the four errors of the constructor only the one about the length is left
    rcases new_error_cases hnew with hnul | ⟨hlong, rfl⟩ | homitted | homitted
    · exact absurd hnul.2 (zero_notMem_untilNul _)
    · exact ⟨Nat.not_lt.mpr hlong, .tooLong hfield _ _⟩
    · exact absurd homitted.1 (by decide)
    · exact absurd homitted.1 (by decide)

/-- A path whose flag says that bytes were omitted fills its field. -/
private theorem capturedAt_decides {omittedOffset : Nat} {omittedField : String}
    (h : offset + pathSize ≤ recordSize) (homitted : omittedOffset < recordSize)
    (hfield : field ≠ abstractUnixSocketNameField) :
    Decides FieldRejection ((FieldCheck.path offset omittedOffset).Holds en data)
      (capturedAt (K := .pathname) data offset pathSize omittedOffset field omittedField) := by
  have hlen : (slice data offset 256).length = 256 := length_slice (hd ▸ h)
  have hle := length_untilNul_le (slice data offset 256)
  have hshort : (untilNul (slice data offset 256)).length < (slice data offset 256).length ↔ _ :=
    length_untilNul_lt_iff
  rw [hlen] at hshort hle
  have hboolean : Decides FieldRejection _ (booleanAt data omittedOffset omittedField) :=
    booleanAt_decides en hd homitted
  rw [capturedAt, sliceAt_eq hd h, ok_bind, pathSize]
  refine .of_cases ?_ ?_
  · intro p hp
    -- Accepted: the constructor has checked that a path with omitted bytes is full
    obtain ⟨omitted, hflag, hp⟩ := bind_eq_ok_iff.mp hp
    refine ⟨hboolean.ok_iff.mp ⟨omitted, hflag⟩, ?_⟩
    intro hone
    rw [capturedCString_eq, mapError_eq_ok_iff, new_eq_ok_iff] at hp
    have hset : omitted = true := (booleanAt_eq_true_iff hflag).mp hone
    have hfull := (p.omission (hp.2 ▸ hset)).2
    rw [← hshort, hp.1, hfull]
    decide
  · intro e he
    -- Rejected: by the flag, or by the constructor for the omission alone
    cases hflag : booleanAt data omittedOffset omittedField with
    | error e' =>
      rw [hflag] at he
      cases he
      refine ⟨fun hholds => ?_, hboolean.error e hflag⟩
      obtain ⟨b, hb⟩ := hboolean.ok_iff.mpr hholds.1
      rw [hb] at hflag
      cases hflag
    | ok omitted =>
      rw [hflag, ok_bind, capturedCString_eq] at he
      obtain ⟨source, hnew, rfl⟩ := mapError_eq_error_iff.mp he
      rcases new_error_cases hnew with hnul | ⟨hlong, _⟩ | hpolicy | ⟨hset, hfull, rfl⟩
      · exact absurd hnul.2 (zero_notMem_untilNul _)
      · exact absurd hlong (Nat.not_lt.mpr hle)
      · exact absurd hpolicy.2 (by decide)
      · refine ⟨?_, .omission hfield _ _⟩
        intro hholds
        have hnone := hholds.2 ((booleanAt_eq_true_iff hflag).mpr hset)
        rw [← hshort] at hnone
        exact hfull (le_antisymm hle (Nat.le_of_not_lt hnone))

/-- Only the length of an abstract name can be wrong. -/
private theorem abstractUnixSocketNameAt_decides {nameOffset : Nat} (h : offset + 4 ≤ recordSize)
    (hn : nameOffset + abstractUnixSocketNameMaxLen ≤ recordSize) :
    Decides FieldRejection ((FieldCheck.abstractNameLength offset).Holds en data)
      (abstractUnixSocketNameAt en data offset nameOffset) := by
  have hmax : (UInt32.ofNat abstractUnixSocketNameMaxLen).toNat = 107 := by decide
  rw [abstractUnixSocketNameAt, u32At_eq hd en h, ok_bind, FieldCheck.Holds,
    ← toNat_u32 hd en h]
  split
  · rename_i hgt
    rw [gt_iff_lt, UInt32.lt_iff_toNat_lt, hmax] at hgt
    refine .of_cases (fun _ h => by cases h) ?_
    rintro e ⟨⟩
    exact ⟨Nat.not_le.mpr hgt, .nameLength _ _⟩
  · rename_i hle
    rw [gt_iff_lt, UInt32.lt_iff_toNat_lt, hmax, Nat.not_lt] at hle
    have hbound : nameOffset + (u32 en data offset).toNat ≤ recordSize := by
      rw [abstractUnixSocketNameMaxLen] at hn
      omega
    rw [sliceAt_eq hd hbound, ok_bind]
    refine .of_cases (fun _ _ => hle) ?_
    intro e he
    obtain ⟨source, hnew, _⟩ := mapError_eq_error_iff.mp he
    -- No error of the constructor is left once the length is checked
    rcases new_error_cases hnew with hnul | ⟨hlong, _⟩ | homitted | homitted
    · exact absurd hnul.1 (by decide)
    · rw [length_slice (hd ▸ hbound)] at hlong
      exact absurd hlong (Nat.not_lt.mpr hle)
    · exact absurd homitted.1 (by decide)
    · exact absurd homitted.1 (by decide)

end Fields

/-! ## The arms of `decode` -/

section Arms

variable (en : Endian) {data : List UInt8} (hd : data.length = recordSize)
  (timestamp : KernelTimestamp)
include hd

/-- The header of a denial is accepted when its checks hold. -/
private theorem denialContext_decides :
    Decides FieldRejection (∀ c ∈ denialChecks, c.Holds en data) (denialContext en data) := by
  simp +decide only [denialContext, unionOffset, u64At_eq hd, u32At_eq hd, ok_bind]
  refine Decides.congr
    ((landlockId_decides en hd (by decide)).bind fun _ =>
      (parentAt_decides en hd (by decide)).bind fun _ =>
      (processId_decides en hd (by decide)).bind fun _ =>
      (commandAt_decides en hd (by decide) (by decide)).bind fun _ =>
      (booleanAt_decides en hd (by decide)).bind fun _ =>
      (booleanAt_decides en hd (by decide)).bind fun _ => .pure _) ?_
  simp [denialChecks]

/-- So is a created ruleset, -/
private theorem createRulesetAt_decides :
    Decides FieldRejection (∀ c ∈ EventKind.createRuleset.checks, c.Holds en data)
      (createRulesetAt en data timestamp) := by
  simp +decide only [createRulesetAt, u64At_eq hd, ok_bind]
  refine Decides.congr ((landlockId_decides en hd (by decide)).bind fun _ => .pure _) ?_
  simp [EventKind.checks]

/-- a filesystem rule, -/
private theorem addRulePathBeneathAt_decides :
    Decides FieldRejection (∀ c ∈ EventKind.addRulePathBeneath.checks, c.Holds en data)
      (addRulePathBeneathAt en data timestamp) := by
  simp +decide only [addRulePathBeneathAt, u64At_eq hd, u32At_eq hd, ok_bind]
  refine Decides.congr
    ((landlockId_decides en hd (by decide)).bind fun _ =>
      (capturedAt_decides en hd (by decide) (by decide) (by decide)).bind fun _ => .pure _) ?_
  simp [EventKind.checks]

/-- a network rule, -/
private theorem addRuleNetPortAt_decides :
    Decides FieldRejection (∀ c ∈ EventKind.addRuleNetPort.checks, c.Holds en data)
      (addRuleNetPortAt en data timestamp) := by
  simp +decide only [addRuleNetPortAt, u64At_eq hd, ok_bind]
  refine Decides.congr ((landlockId_decides en hd (by decide)).bind fun _ => .pure _) ?_
  simp [EventKind.checks]

/-- a created domain, -/
private theorem createDomainAt_decides :
    Decides FieldRejection (∀ c ∈ EventKind.createDomain.checks, c.Holds en data)
      (createDomainAt en data timestamp) := by
  simp +decide only [createDomainAt, u64At_eq hd, u32At_eq hd, ok_bind]
  refine Decides.congr
    ((landlockId_decides en hd (by decide)).bind fun _ =>
      (landlockId_decides en hd (by decide)).bind fun _ =>
      (parentAt_decides en hd (by decide)).bind fun _ =>
      (processId_decides en hd (by decide)).bind fun _ =>
      (commandAt_decides en hd (by decide) (by decide)).bind fun _ => .pure _) ?_
  simp [EventKind.checks]

/-- a filesystem denial, -/
private theorem denyAccessFsAt_decides :
    Decides FieldRejection (∀ c ∈ EventKind.denyAccessFs.checks, c.Holds en data)
      (denyAccessFsAt en data timestamp) := by
  simp +decide only [denyAccessFsAt, u64At_eq hd, u32At_eq hd, ok_bind]
  refine Decides.congr
    ((denialContext_decides en hd).bind fun _ =>
      (capturedAt_decides en hd (by decide) (by decide) (by decide)).bind fun _ => .pure _) ?_
  rw [EventKind.checks, List.forall_mem_append]
  simp

/-- a network denial, -/
private theorem denyAccessNetAt_decides :
    Decides FieldRejection (∀ c ∈ EventKind.denyAccessNet.checks, c.Holds en data)
      (denyAccessNetAt en data timestamp) := by
  simp +decide only [denyAccessNetAt, u64At_eq hd, u32At_eq hd, ok_bind]
  refine Decides.congr ((denialContext_decides en hd).bind fun _ => .pure _) ?_
  simp [EventKind.checks]

/-- a ptrace denial, -/
private theorem denyPtraceAt_decides :
    Decides FieldRejection (∀ c ∈ EventKind.denyPtrace.checks, c.Holds en data)
      (denyPtraceAt en data timestamp) := by
  simp +decide only [denyPtraceAt, u64At_eq hd, u32At_eq hd, ok_bind]
  refine Decides.congr
    ((denialContext_decides en hd).bind fun _ =>
      (membershipAt_decides en hd (by decide)).bind fun _ =>
      (processId_decides en hd (by decide)).bind fun _ =>
      (commandAt_decides en hd (by decide) (by decide)).bind fun _ => .pure _) ?_
  rw [EventKind.checks, List.forall_mem_append]
  simp

/-- a signal denial, -/
private theorem denyScopeSignalAt_decides :
    Decides FieldRejection (∀ c ∈ EventKind.denyScopeSignal.checks, c.Holds en data)
      (denyScopeSignalAt en data timestamp) := by
  simp +decide only [denyScopeSignalAt, u64At_eq hd, u32At_eq hd, ok_bind]
  refine Decides.congr
    ((denialContext_decides en hd).bind fun _ =>
      (membershipAt_decides en hd (by decide)).bind fun _ =>
      (processId_decides en hd (by decide)).bind fun _ =>
      (commandAt_decides en hd (by decide) (by decide)).bind fun _ => .pure _) ?_
  rw [EventKind.checks, List.forall_mem_append]
  simp

/-- a socket denial, -/
private theorem denyScopeAbstractUnixSocketAt_decides :
    Decides FieldRejection (∀ c ∈ EventKind.denyScopeAbstractUnixSocket.checks, c.Holds en data)
      (denyScopeAbstractUnixSocketAt en data timestamp) := by
  simp +decide only [denyScopeAbstractUnixSocketAt, u64At_eq hd, u32At_eq hd, ok_bind]
  refine Decides.congr
    ((denialContext_decides en hd).bind fun _ =>
      (membershipAt_decides en hd (by decide)).bind fun _ =>
      (abstractUnixSocketNameAt_decides en hd (by decide) (by decide)).bind fun _ => .pure _) ?_
  rw [EventKind.checks, List.forall_mem_append]
  simp

/-- a freed domain, -/
private theorem freeDomainAt_decides :
    Decides FieldRejection (∀ c ∈ EventKind.freeDomain.checks, c.Holds en data)
      (freeDomainAt en data timestamp) := by
  simp +decide only [freeDomainAt, u64At_eq hd, ok_bind]
  refine Decides.congr ((landlockId_decides en hd (by decide)).bind fun _ => .pure _) ?_
  simp [EventKind.checks]

/-- a freed ruleset, -/
private theorem freeRulesetAt_decides :
    Decides FieldRejection (∀ c ∈ EventKind.freeRuleset.checks, c.Holds en data)
      (freeRulesetAt en data timestamp) := by
  simp +decide only [freeRulesetAt, u64At_eq hd, ok_bind]
  refine Decides.congr ((landlockId_decides en hd (by decide)).bind fun _ => .pure _) ?_
  simp [EventKind.checks]

/-- and an enforcement. -/
private theorem enforceDomainAt_decides :
    Decides FieldRejection (∀ c ∈ EventKind.enforceDomain.checks, c.Holds en data)
      (enforceDomainAt en data timestamp) := by
  simp +decide only [enforceDomainAt, u64At_eq hd, u32At_eq hd, ok_bind]
  refine Decides.congr
    ((landlockId_decides en hd (by decide)).bind fun _ =>
      (threadId_decides en hd (by decide)).bind fun _ =>
      (booleanAt_decides en hd (by decide)).bind fun _ =>
      (booleanAt_decides en hd (by decide)).bind fun _ =>
      (booleanAt_decides en hd (by decide)).bind fun _ => .pure _) ?_
  simp [EventKind.checks]

/-- A record of a kind is accepted exactly when the conditions of the kind hold. -/
theorem eventAt_decides (kind : EventKind) :
    Decides FieldRejection (∀ c ∈ kind.checks, c.Holds en data)
      (eventAt en data timestamp kind) := by
  cases kind with
  | createRuleset => exact (createRulesetAt_decides en hd timestamp).map _
  | addRulePathBeneath => exact (addRulePathBeneathAt_decides en hd timestamp).map _
  | addRuleNetPort => exact (addRuleNetPortAt_decides en hd timestamp).map _
  | createDomain => exact (createDomainAt_decides en hd timestamp).map _
  | denyAccessFs => exact (denyAccessFsAt_decides en hd timestamp).map _
  | denyAccessNet => exact (denyAccessNetAt_decides en hd timestamp).map _
  | denyPtrace => exact (denyPtraceAt_decides en hd timestamp).map _
  | denyScopeSignal => exact (denyScopeSignalAt_decides en hd timestamp).map _
  | denyScopeAbstractUnixSocket =>
    exact (denyScopeAbstractUnixSocketAt_decides en hd timestamp).map _
  | freeDomain => exact (freeDomainAt_decides en hd timestamp).map _
  | freeRuleset => exact (freeRulesetAt_decides en hd timestamp).map _
  | enforceDomain => exact (enforceDomainAt_decides en hd timestamp).map _

/-- Past the length check, the type byte selects the arm. -/
theorem decode_of_length :
    ∃ byte, data[8]? = some byte ∧
      decode en data = match EventKind.ofValue byte with
        | some kind => eventAt en data ⟨u64 en data timestampOffset⟩ kind
        | none => .error (.eventKind byte) := by
  obtain ⟨byte, hbyte⟩ : ∃ byte, data[8]? = some byte :=
    ⟨_, List.getElem?_eq_getElem (hd ▸ by decide)⟩
  refine ⟨byte, hbyte, ?_⟩
  have htime := u64At_eq hd en (by decide : timestampOffset + 8 ≤ recordSize) "timestamp"
  rw [decode, if_neg (not_not.mpr hd), typeOffset, hbyte]
  show (u64At en data timestampOffset "timestamp" >>= fun t => _) = _
  rw [htime]
  cases EventKind.ofValue byte <;> rfl

end Arms

/-! ## The decoder -/

/-- No kind has a byte that selects none. -/
private theorem ofValue_eq_none {byte : UInt8} (h : EventKind.ofValue byte = none) :
    ∀ kind ∈ EventKind.all, byte ≠ kind.value := by
  intro kind hmem heq
  rw [EventKind.ofValue_eq_some_iff.mpr ⟨hmem, heq⟩] at h
  cases h

/-- The type byte determines the kind, so that the conditions are those of one kind. -/
private theorem validRecord_iff (en : Endian) {data : List UInt8}
    (hd : data.length = recordSize) {kind : EventKind} (hmem : kind ∈ EventKind.all)
    (hbyte : data[8]? = some kind.value) :
    ValidRecord en data ↔ ∀ c ∈ kind.checks, c.Holds en data := by
  refine ⟨fun ⟨_, kind', hmem', heq, h⟩ => ?_, fun h => ⟨hd, kind, hmem, hbyte, h⟩⟩
  have hvalue : kind.value = kind'.value := Option.some.inj (hbyte.symm.trans heq)
  have hkind := EventKind.ofValue_eq_some_iff.mpr ⟨hmem, rfl⟩
  rw [EventKind.ofValue_eq_some_iff.mpr ⟨hmem', hvalue⟩] at hkind
  exact Option.some.inj hkind ▸ h

/-- What an error about a field is not. -/
private theorem FieldRejection.excludes {err : DecodeError} (h : FieldRejection err) :
    (∀ expected actual, err ≠ .length expected actual) ∧ (∀ value, err ≠ .eventKind value) ∧
      (∀ field, err ≠ .field field) ∧
      (∀ field position, err ≠ .capturedBytes field (.interiorNul position)) ∧
      (∀ field, err ≠ .capturedBytes field .omissionNotSupported) ∧
      ∀ source, err ≠ .capturedBytes abstractUnixSocketNameField source := by
  cases h with
  | tooLong hfield _ _ =>
    exact ⟨nofun, nofun, nofun, nofun, nofun, fun _ heq => hfield (by cases heq; rfl)⟩
  | omission hfield _ _ =>
    exact ⟨nofun, nofun, nofun, nofun, nofun, fun _ heq => hfield (by cases heq; rfl)⟩
  | _ => exact ⟨nofun, nofun, nofun, nofun, nofun, nofun⟩

/-- `decode` accepts exactly the valid records.  It rejects a byte string with a length
    error exactly when its length is wrong and with a kind error exactly when only its
    kind is unknown.  No error is about a read outside the record, a NUL inside captured
    bytes, an unsupported omission, or the bytes of an abstract name. -/
theorem decode_accepts_iff_valid (en : Endian) (data : List UInt8) :
    ((∃ e, decode en data = .ok e) ↔ ValidRecord en data) ∧
      ∀ err, decode en data = .error err →
        ((∃ expected actual, err = .length expected actual) ↔ data.length ≠ 352) ∧
        ((∃ value, err = .eventKind value) ↔
          data.length = 352 ∧ ∀ kind ∈ EventKind.all, data[8]? ≠ some kind.value) ∧
        (∀ field, err ≠ .field field) ∧
        (∀ field position, err ≠ .capturedBytes field (.interiorNul position)) ∧
        (∀ field, err ≠ .capturedBytes field .omissionNotSupported) ∧
        ∀ source, err ≠ .capturedBytes abstractUnixSocketNameField source := by
  by_cases hd : data.length = recordSize
  · obtain ⟨byte, hbyte, hdecode⟩ := decode_of_length en hd
    cases hkind : EventKind.ofValue byte with
    | none =>
      -- An unknown kind: the only error is about it, and no kind has this byte
      rw [hkind] at hdecode
      have hunknown : ∀ kind ∈ EventKind.all, data[8]? ≠ some kind.value := by
        intro kind hmem heq
        exact ofValue_eq_none hkind kind hmem (Option.some.inj (hbyte.symm.trans heq))
      refine ⟨⟨fun ⟨e, he⟩ => ?_, fun h => ?_⟩, ?_⟩
      · rw [hdecode] at he
        cases he
      · obtain ⟨_, kind, hmem, heq, _⟩ := h
        exact absurd heq (hunknown kind hmem)
      · intro err herr
        rw [hdecode] at herr
        cases herr
        refine ⟨⟨fun ⟨_, _, h⟩ => (nomatch h), fun h => absurd hd h⟩, ?_, nofun, nofun, nofun,
          nofun⟩
        exact ⟨fun _ => ⟨hd, hunknown⟩, fun _ => ⟨byte, rfl⟩⟩
    | some kind =>
      -- A known kind: the arm decides, and its errors are about the fields
      obtain ⟨hmem, rfl⟩ := EventKind.ofValue_eq_some_iff.mp hkind
      rw [hkind] at hdecode
      have harm : Decides FieldRejection (∀ c ∈ kind.checks, c.Holds en data)
          (decode en data) :=
        hdecode ▸ eventAt_decides en hd ⟨u64 en data timestampOffset⟩ kind
      refine ⟨harm.ok_iff.trans (validRecord_iff en hd hmem hbyte).symm, ?_⟩
      intro err herr
      obtain ⟨hlength, heventKind, hrest⟩ := (harm.error err herr).excludes
      refine ⟨⟨fun ⟨expected, actual, h⟩ => absurd h (hlength expected actual),
        fun h => absurd hd h⟩, ⟨fun ⟨value, h⟩ => absurd h (heventKind value), ?_⟩, hrest⟩
      exact fun h => absurd hbyte (h.2 kind hmem)
  -- A wrong length is found before anything is read
  · have hdecode : decode en data = .error (.length recordSize data.length) := if_pos hd
    refine ⟨⟨fun ⟨e, he⟩ => ?_, fun h => absurd h.1 hd⟩, ?_⟩
    · rw [hdecode] at he
      cases he
    · intro err herr
      rw [hdecode] at herr
      cases herr
      exact ⟨⟨fun _ => hd, fun _ => ⟨_, _, rfl⟩⟩,
        ⟨fun ⟨_, h⟩ => (nomatch h), fun h => absurd h.1 hd⟩,
        nofun, nofun, nofun, nofun⟩

end Landlock.Wire
