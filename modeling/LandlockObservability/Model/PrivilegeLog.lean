import LandlockObservability.Model.Privilege

/-!
# Preparations with a log

`CollectorConfig::prepare` of `src/collector.rs` over any finalization operations and any
BPF setup, as the tests of `src/privilege.rs` run it, with a log of what was attempted and
whether it succeeded.  `prepareWith` at the production operations is `prepareCollector`.
-/

namespace Landlock

/-! ## The log -/

/-- What a preparation can attempt. -/
inductive Operation where
  | prepareBackend
  | checkThread
  | clearAmbient
  | clearBounding
  | clearCapabilities
  | verify
  deriving DecidableEq, Repr

/-- Attempted operations, with their success. -/
abbrev OperationLog := List (Operation × Bool)

section

variable {ε σ T : Type}

/-- A program that also notes its own outcome. -/
def record (operation : Operation) (m : EStateM ε σ T) : EStateM ε (OperationLog × σ) T :=
  fun (log, s) =>
    match m s with
    | .ok a s => .ok a (log ++ [(operation, true)], s)
    | .error error s => .error error (log ++ [(operation, false)], s)

/-- The operations, noted in a log. -/
def FinalizationOps.recorded (ops : FinalizationOps σ) : FinalizationOps (OperationLog × σ) where
  checkThread := record .checkThread ops.checkThread
  clearAmbient := record .clearAmbient ops.clearAmbient
  clearBounding := record .clearBounding ops.clearBounding
  clearCapabilities := record .clearCapabilities ops.clearCapabilities
  verify := record .verify ops.verify

/-! ## Preparation -/

/-- A setup beside the policy. -/
def setupBeside (setup : EStateM CollectorPrepareError σ T) :
    EStateM CollectorPrepareError (Policy × σ) T := fun (policy, s) =>
  match setup s with
  | .ok a s => .ok a (policy, s)
  | .error error s => .error error (policy, s)

/-- `CollectorConfig::prepare`, with `backend::prepare` as a program. -/
def prepareWith (ops : FinalizationOps σ) (setup : EStateM CollectorPrepareError σ T) :
    EStateM CollectorPrepareError (Policy × σ) T := do
  ensureCanPrepare.adaptExcept .fromPrivilege
  let prepared ← setupBeside setup
  finalizePrepared prepared ((finishPolicyWith .explicit ops).adaptExcept .fromPrivilege)

/-- One call of `prepare` as it looks from outside. -/
structure PrepareCall where
  log : OperationLog
  succeeded : Bool
  /-- The error is `AlreadyFinalized`. -/
  rejected : Bool
  policy : Policy
  deriving DecidableEq

/-- Calls of `prepare` on one value, one after the other, each with its own setup. -/
def prepareCalls (ops : FinalizationOps σ) :
    List (EStateM CollectorPrepareError σ T) → Policy × σ → List PrepareCall
  | [], _ => []
  | setup :: setups, (policy, s) =>
    match prepareWith ops.recorded (record .prepareBackend setup) (policy, [], s) with
    | .ok _ (policy, log, s) =>
      ⟨log, true, false, policy⟩ :: prepareCalls ops setups (policy, s)
    | .error error (policy, log, s) =>
      ⟨log, false, error = .fromPrivilege alreadyFinalized, policy⟩ ::
        prepareCalls ops setups (policy, s)

/-- What `Drop for Privileges` attempts. -/
def dropLog (ops : FinalizationOps σ) (policy : Policy) (s : σ) : OperationLog :=
  match finishPolicyWith .cleanup ops.recorded (policy, [], s) with
  | .ok _ (_, log, _) => log
  | .error _ (_, log, _) => log

end

/-- The production code is the general one at the production operations. -/
theorem prepareCollector_eq_prepareWith {kernel : Kernel} {T : Type}
    (backend : Except CollectorPrepareError T) :
    (prepareCollector backend : EStateM CollectorPrepareError (Policy × World kernel) T) =
      prepareWith (productionFinalizationOps kernel)
        (match backend with
          | .ok prepared => pure prepared
          | .error error => throw error) := by
  cases backend <;> rfl

end Landlock
