import LandlockObservability.ForStd.Except
import LandlockObservability.Model.Preparation
import Mathlib.Data.List.Nodup

/-!
# The diagnosis of a failed load

A load that fails is reported as an unsupported kernel only on evidence: the error has the
shape of a failed lookup, and the kernel's own type information lacks the tracepoint of one of
the programs.  The scan for the tracepoints works on a bit mask and stops early; both make no
difference (`scanTypedefs_eq_complete_iff`).
-/

namespace Landlock

open Wire Except

/-! ## The scan -/

/-- The bits of a mask are those of the targets among the names seen. -/
def Marks (mask : UInt16) (seen : List (List UInt8)) : Prop :=
  ∀ i, mask.toBitVec.getLsbD i = true ↔
    ∃ target, generation1Targets[i]? = some target ∧ target ∈ seen

/-- The twelve targets are different. -/
private theorem nodup_generation1Targets : generation1Targets.Nodup := by decide +kernel

/-- At the start nothing is marked. -/
private theorem marks_zero : Marks 0 [] := by
  intro i
  simp

/-- The bit of a target is at its index. -/
private theorem getLsbD_bit {index : Nat} (h : index < 16) (i : Nat) :
    ((1 : UInt16) <<< UInt16.ofNat index).toBitVec.getLsbD i = decide (index = i) := by
  have hmod : index % 65536 % 16 = index := by omega
  have hpow : 2 ^ index < 2 ^ 16 := Nat.pow_lt_pow_right (by decide) h
  change ((1 : UInt16) <<< UInt16.ofNat index).toNat.testBit i = _
  rw [UInt16.toNat_shiftLeft, UInt16.toNat_ofNat', hmod, UInt16.toNat_one, Nat.one_shiftLeft,
    Nat.mod_eq_of_lt hpow, Nat.testBit_two_pow]

/-- Marking a name adds its bit, if it is that of a target. -/
theorem Marks.mark {mask : UInt16} {seen : List (List UInt8)} (h : Marks mask seen)
    (name : List UInt8) : Marks (markGeneration1Target mask name) (seen ++ [name]) := by
  have hsplit : ∀ i, (∃ target, generation1Targets[i]? = some target ∧ target ∈ seen ++ [name]) ↔
      mask.toBitVec.getLsbD i = true ∨ generation1Targets[i]? = some name := by
    intro i
    rw [h i]
    constructor
    · rintro ⟨target, hget, hmem⟩
      rcases List.mem_append.mp hmem with hmem | hmem
      · exact .inl ⟨target, hget, hmem⟩
      · exact .inr (List.mem_singleton.mp hmem ▸ hget)
    · rintro (⟨target, hget, hmem⟩ | hget)
      · exact ⟨target, hget, List.mem_append_left _ hmem⟩
      · exact ⟨name, hget, by simp⟩
  intro i
  rw [hsplit, markGeneration1Target]
  cases hfind : generation1Targets.findIdx? fun target => name == target with
  | none =>
    -- The name is no target
    have hother : generation1Targets[i]? ≠ some name := by
      intro hget
      have hfalse := List.findIdx?_eq_none_iff.mp hfind name (List.mem_of_getElem? hget)
      simp at hfalse
    simp [hother]
  | some index =>
    obtain ⟨hlt, hname, -⟩ := List.findIdx?_eq_some_iff_getElem.mp hfind
    -- The mask has a bit for every target
    have hlength : generation1Targets.length = 12 := rfl
    have hsmall : index < 16 := by omega
    have hindex : generation1Targets[i]? = some name ↔ index = i := by
      rw [beq_iff_eq] at hname
      constructor
      · -- no target is listed twice
        intro hget
        obtain ⟨hi, hget⟩ := List.getElem?_eq_some_iff.mp hget
        exact nodup_generation1Targets.getElem_inj_iff.mp (hname.symm.trans hget.symm)
      · rintro rfl
        rw [List.getElem?_eq_getElem hlt, hname]
    have hbit : generation1TargetBit index = some (1 <<< UInt16.ofNat index) := by
      rw [generation1TargetBit, if_pos (by omega), if_pos hsmall]
    simp only [hbit, UInt16.toBitVec_or, BitVec.getLsbD_or, Bool.or_eq_true, getLsbD_bit hsmall,
      decide_eq_true_eq, hindex]

/-- The complete mask has the bits of the twelve targets. -/
private theorem getLsbD_complete {i : Nat} (h : i < 16) :
    generation1Complete.toBitVec.getLsbD i = decide (i < 12) := by
  revert i
  decide

/-- The mask is complete exactly when all targets have been seen. -/
theorem Marks.eq_complete_iff {mask : UInt16} {seen : List (List UInt8)} (h : Marks mask seen) :
    mask = generation1Complete ↔ ∀ target ∈ generation1Targets, target ∈ seen := by
  have hlength : generation1Targets.length = 12 := rfl
  constructor
  · rintro rfl target hmem
    obtain ⟨i, hi, hget⟩ := List.mem_iff_getElem.mp hmem
    have hbit := getLsbD_complete (i := i) (by omega)
    rw [decide_eq_true (hlength ▸ hi)] at hbit
    obtain ⟨target', hget', hseen⟩ := (h i).mp hbit
    rw [List.getElem?_eq_getElem hi, hget] at hget'
    exact Option.some.inj hget' ▸ hseen
  · intro hall
    -- The upper four bits are never marked
    refine UInt16.toBitVec_inj.mp (BitVec.eq_of_getLsbD_eq fun i hi => ?_)
    rw [getLsbD_complete hi, Bool.eq_iff_iff, h i, decide_eq_true_eq]
    constructor
    · rintro ⟨target, hget, -⟩
      exact hlength ▸ (List.getElem?_eq_some_iff.mp hget).1
    · intro hlt
      have hi : i < generation1Targets.length := hlength ▸ hlt
      exact ⟨_, List.getElem?_eq_getElem hi, hall _ (List.getElem_mem hi)⟩

/-- Stopping early loses nothing: the scan ends complete exactly when all targets are there. -/
theorem scanTypedefs_eq_complete_iff {mask : UInt16} {seen : List (List UInt8)}
    (h : Marks mask seen) (typedefs : List (Option (List UInt8))) :
    scanTypedefs mask typedefs = generation1Complete ↔
      ∀ target ∈ generation1Targets, target ∈ seen ∨ some target ∈ typedefs := by
  induction typedefs generalizing mask seen with
  | nil => simpa [scanTypedefs] using h.eq_complete_iff
  | cons typedef typedefs ih =>
    cases typedef with
    | none => simpa [scanTypedefs] using ih h
    | some name =>
      have hmarked := h.mark name
      rw [scanTypedefs]
      split
      · rename_i hcomplete
        -- All targets are among the names seen so far, whatever follows
        have hall := hmarked.eq_complete_iff.mp hcomplete
        refine iff_of_true hcomplete fun target hmem => ?_
        rcases List.mem_append.mp (hall target hmem) with hseen | hname
        · exact .inl hseen
        · rw [List.mem_singleton.mp hname]
          exact .inr List.mem_cons_self
      · rw [ih hmarked]
        refine forall_congr' fun target => imp_congr_right fun _ => ?_
        simp [or_assoc]

/-! ## The report -/

/-- The targets are the tracepoints of the programs. -/
private theorem mem_generation1Targets {target : List UInt8} :
    target ∈ generation1Targets ↔ ∃ kind, programTypedef kind = target := by
  have hmap : generation1Targets =
      [.createRuleset, .addRulePathBeneath, .addRuleNetPort, .createDomain, .enforceDomain,
        .denyAccessFs, .denyAccessNet, .denyPtrace, .denyScopeSignal,
        .denyScopeAbstractUnixSocket, .freeDomain, .freeRuleset].map programTypedef := by
    decide +kernel
  rw [hmap, List.mem_map]
  constructor
  · rintro ⟨kind, -, hkind⟩
    exact ⟨kind, hkind⟩
  · rintro ⟨kind, hkind⟩
    exact ⟨kind, by cases kind <;> decide, hkind⟩

/-- When a failure is put down to the kernel. -/
private theorem generation1IsMissing_iff (error : LibbpfError)
    (btf : Except LibbpfError (List (Option (List UInt8)))) :
    generation1IsMissing error btf = true ↔
      (error.kind = .notFound ∨ error.kind = .other) ∧
        ∃ typedefs, btf = .ok typedefs ∧ ∃ kind, some (programTypedef kind) ∉ typedefs := by
  have hshape : shouldDiagnose error.kind = true ↔
      error.kind = .notFound ∨ error.kind = .other := by
    cases error.kind <;> simp [shouldDiagnose]
  rw [generation1IsMissing, Bool.and_eq_true, hshape]
  refine and_congr_right fun _ => ?_
  cases btf with
  -- Type information that cannot be read is no evidence
  | error e => simp [generation1TargetMask, Except.map]
  | ok typedefs =>
    have hscan := scanTypedefs_eq_complete_iff marks_zero typedefs
    have hmissing : scanTypedefs 0 typedefs ≠ generation1Complete ↔
        ∃ kind, some (programTypedef kind) ∉ typedefs := by
      rw [Ne, hscan]
      constructor
      · intro hsome
        by_contra hnone
        refine hsome fun target hmem => .inr ?_
        obtain ⟨kind, rfl⟩ := mem_generation1Targets.mp hmem
        by_contra habsent
        exact hnone ⟨kind, habsent⟩
      · rintro ⟨kind, habsent⟩ hall
        rcases hall _ (mem_generation1Targets.mpr ⟨kind, rfl⟩) with hseen | hthere
        · exact List.not_mem_nil hseen
        · exact habsent hthere
    simp [generation1TargetMask, Except.map, ← hmissing]

/-- A kernel is called unsupported on evidence only: the object was opened, its load failed as a
    lookup does, and the kernel's type information could be read and lacks the tracepoint of a
    program.  The load error is kept as the source. -/
theorem unsupportedKernel_iff (env : BpfEnvironment) (source : SetupErrorSource) :
    prepareResources env = .error ⟨.unsupportedKernel, source⟩ ↔
      ∃ error, source = .libbpf error ∧ env.openMemory = .ok () ∧ env.load = .error error ∧
        (error.kind = .notFound ∨ error.kind = .other) ∧
        ∃ typedefs, env.vmlinuxBtf = .ok typedefs ∧
          ∃ kind, some (programTypedef kind) ∉ typedefs := by
  simp only [← generation1IsMissing_iff, prepareResources, bind_eq_error_iff,
    mapError_eq_error_iff, mapError_eq_ok_iff]
  constructor
  · intro h
    -- Each stage has its own kind of error
    rcases h with ⟨_, -, hkind⟩ | ⟨_, hopen, ⟨loadError, hload, hkind⟩ | ⟨_, -, hlater⟩⟩
    · cases hkind
    · split at hkind
      · cases hkind
        exact ⟨loadError, rfl, hopen, hload, ‹_›⟩
      · cases hkind
    · rcases hlater with ⟨_, -, hkind⟩ | ⟨_, -, hring⟩
      · cases hkind
      · split at hring
        · simp only [bind_eq_error_iff, mapError_eq_error_iff] at hring
          rcases hring with ⟨_, -, hkind⟩ | ⟨_, -, _, -, hkind⟩
          · cases hkind
          · cases hkind
        · cases hring
  · rintro ⟨error, rfl, hopen, hload, hmissing⟩
    refine .inr ⟨(), hopen, .inl ⟨error, hload, ?_⟩⟩
    rw [if_pos hmissing]
    rfl

end Landlock
