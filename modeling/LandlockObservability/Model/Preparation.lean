import LandlockObservability.Model.Privilege
import LandlockObservability.Model.Wire

/-!
# Preparation of the BPF resources

Models `prepare_resources` of `src/collector.rs` and the diagnosis of a failed load in
`src/collector/tracepoint.rs`.  What libbpf and the kernel answer is an environment; the
resources themselves are values that are dropped with the stack frame and are left out.
-/

namespace Landlock

open Wire

/-- The kinds of libbpf's errors that the source or its tests name, and the others. -/
inductive LibbpfErrorKind where
  | notFound
  | other
  | permissionDenied
  | invalidInput
  | invalidData
  | unsupported
  | another (index : Nat)
  deriving DecidableEq, Repr

structure LibbpfError where
  kind : LibbpfErrorKind
  code : Int
  deriving DecidableEq, Repr

/-- The source of a `CollectorPrepareError` of this stage. -/
inductive SetupErrorSource where
  | libbpf (error : LibbpfError)
  /-- A `std::io::Error` of the kind `NotFound`. -/
  | ioNotFound (message : String)
  deriving DecidableEq, Repr

structure SetupError where
  kind : CollectorPrepareErrorKind
  source : SetupErrorSource
  deriving DecidableEq, Repr

/-- A byte string literal. -/
def byteString (literal : String) : List UInt8 :=
  literal.toList.map fun char => UInt8.ofNat char.toNat

/-! ## `tracepoint.rs` -/

/-- `GENERATION_1_TARGETS`. -/
def generation1Targets : List (List UInt8) :=
  [byteString "btf_trace_landlock_create_ruleset",
   byteString "btf_trace_landlock_add_rule_path_beneath",
   byteString "btf_trace_landlock_add_rule_net_port",
   byteString "btf_trace_landlock_create_domain",
   byteString "btf_trace_landlock_enforce_domain",
   byteString "btf_trace_landlock_deny_access_fs",
   byteString "btf_trace_landlock_deny_access_net",
   byteString "btf_trace_landlock_deny_ptrace",
   byteString "btf_trace_landlock_deny_scope_signal",
   byteString "btf_trace_landlock_deny_scope_abstract_unix_socket",
   byteString "btf_trace_landlock_free_domain",
   byteString "btf_trace_landlock_free_ruleset"]

/-- `GENERATION_1_COMPLETE`. -/
def generation1Complete : UInt16 := (1 <<< UInt16.ofNat generation1Targets.length) - 1

/-- `should_diagnose`. -/
def shouldDiagnose : LibbpfErrorKind → Bool
  | .notFound | .other => true
  | _ => false

/-- `generation_1_target_bit`. -/
def generation1TargetBit (index : Nat) : Option UInt16 :=
  -- `u32::try_from`, and `checked_shl`
  if index < 2 ^ 32 then
    if index < 16 then some (1 <<< UInt16.ofNat index) else none
  else none

/-- `mark_generation_1_target`. -/
def markGeneration1Target (mask : UInt16) (name : List UInt8) : UInt16 :=
  match generation1Targets.findIdx? fun target => name == target with
  | some index =>
    match generation1TargetBit index with
    | some bit => mask ||| bit
    | none => mask
  | none => mask

/-- The loop of `generation_1_target_mask` over the names of the typedefs. -/
def scanTypedefs (mask : UInt16) : List (Option (List UInt8)) → UInt16
  | [] => mask
  | none :: typedefs => scanTypedefs mask typedefs
  | some name :: typedefs =>
    let mask := markGeneration1Target mask name
    -- No more targets to find, so that the rest is not scanned
    if mask = generation1Complete then mask else scanTypedefs mask typedefs

/-- `generation_1_target_mask`, for what `Btf::from_path` gives. -/
def generation1TargetMask (btf : Except LibbpfError (List (Option (List UInt8)))) :
    Except LibbpfError UInt16 :=
  btf.map (scanTypedefs 0)

/-- `generation_1_is_missing`. -/
def generation1IsMissing (loadError : LibbpfError)
    (btf : Except LibbpfError (List (Option (List UInt8)))) : Bool :=
  shouldDiagnose loadError.kind &&
    match generation1TargetMask btf with
    | .ok mask => mask ≠ generation1Complete
    -- A table that cannot be read proves nothing
    | .error _ => false

/-! ## `prepare_resources` -/

/-- What libbpf and the kernel answer. -/
structure BpfEnvironment where
  openMemory : Except LibbpfError Unit
  load : Except LibbpfError Unit
  /-- The names of the typedefs in `/sys/kernel/btf/vmlinux`. -/
  vmlinuxBtf : Except LibbpfError (List (Option (List UInt8)))
  /-- The result of `attach` for each program of the object. -/
  attach : List (Except LibbpfError Unit)
  /-- The names of the object's maps. -/
  maps : List (List UInt8)
  addRing : Except LibbpfError Unit
  buildRing : Except LibbpfError Unit

/-- `CollectorPrepareError::new`. -/
def SetupError.new (kind : CollectorPrepareErrorKind) (error : LibbpfError) : SetupError :=
  ⟨kind, .libbpf error⟩

def prepareResources (env : BpfEnvironment) : Except SetupError Unit := do
  env.openMemory.mapError (.new .open)
  -- The table of types is only read after a failed load
  env.load.mapError fun error =>
    let kind : CollectorPrepareErrorKind :=
      if generation1IsMissing error env.vmlinuxBtf then .unsupportedKernel else .load
    .new kind error
  -- `collect` stops at the first program that cannot be attached
  (env.attach.forM id).mapError (.new .attach)
  if byteString "events" ∈ env.maps then pure ()
    else throw ⟨.ringSetup, .ioNotFound "embedded BPF object has no events map"⟩
  env.addRing.mapError (.new .ringSetup)
  env.buildRing.mapError (.new .ringSetup)

/-! ## The programs' tracepoints -/

/-- The section of a kind's program in `landlock_observability.bpf.c`, without its `tp_btf/`. -/
def programTracepoint : EventKind → String
  | .createRuleset => "landlock_create_ruleset"
  | .addRulePathBeneath => "landlock_add_rule_path_beneath"
  | .addRuleNetPort => "landlock_add_rule_net_port"
  | .createDomain => "landlock_create_domain"
  | .enforceDomain => "landlock_enforce_domain"
  | .denyAccessFs => "landlock_deny_access_fs"
  | .denyAccessNet => "landlock_deny_access_net"
  | .denyPtrace => "landlock_deny_ptrace"
  | .denyScopeSignal => "landlock_deny_scope_signal"
  | .denyScopeAbstractUnixSocket => "landlock_deny_scope_abstract_unix_socket"
  | .freeDomain => "landlock_free_domain"
  | .freeRuleset => "landlock_free_ruleset"

/-- The typedef by which libbpf finds a tracepoint. -/
def programTypedef (kind : EventKind) : List UInt8 :=
  byteString ("btf_trace_" ++ programTracepoint kind)

end Landlock
