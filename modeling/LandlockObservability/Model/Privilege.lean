import LandlockObservability.ForStd.Machine
import Mathlib.Data.Finset.Basic
import Mathlib.Order.Interval.Finset.Fin

/-!
# Collection privileges

Models `src/privilege.rs`: the credentials of the calling thread, the system calls that
inspect and change them, and the policy that removes them step by step.  The callers in
`src/collector.rs` (`CollectorConfig::prepare`, `finalize_prepared`) are part of it.

The kernel's side is a model of its own.  A system call fails at will, with any error,
and leaves the credentials alone then; otherwise it has its documented effect.  The kernel is
a parameter: which capabilities it supports, which calls fail, and what tasks it lists.
-/

namespace Landlock

/-! ## Credentials -/

/-- The index of a capability; the implementation knows 64 of them. -/
abbrev Capability := Fin 64

/-- `CapabilitySet`: flags of a `u64`. -/
abbrev CapabilitySet := Finset Capability

namespace CapabilitySet

/-- `CAP_SETPCAP`. -/
def setpcap : Capability := 8

/-- `CAP_PERFMON`. -/
def perfmon : Capability := 38

/-- `CAP_BPF`. -/
def bpf : Capability := 39

end CapabilitySet

/-- The three sets that `capget` and `capset` carry. -/
structure CapabilitySets where
  effective : CapabilitySet
  permitted : CapabilitySet
  inheritable : CapabilitySet
  deriving DecidableEq

/-- `empty_capabilities`. -/
def emptyCapabilities : CapabilitySets := ⟨∅, ∅, ∅⟩

/-- `SETUP_CAPABILITIES`. -/
def setupCapabilities : CapabilitySet := {CapabilitySet.bpf, CapabilitySet.perfmon}

/-- The credentials of the thread, over the capabilities up to the last supported one. -/
structure Credentials (last : Capability) where
  sets : CapabilitySets
  ambient : CapabilitySet
  bounding : CapabilitySet
  noNewPrivs : Bool
  supported : sets.effective ∪ sets.permitted ∪ sets.inheritable ∪ ambient ∪ bounding ⊆
    Finset.Iic last

/-! ## Errors -/

/-- An error number of the kernel. -/
structure Errno where
  code : Nat
  deriving DecidableEq, Repr

namespace Errno

def perm : Errno := ⟨1⟩

def inval : Errno := ⟨22⟩

end Errno

/-- An error of the standard library's file functions. -/
structure IoError where
  code : Nat
  deriving DecidableEq, Repr

inductive PrivilegeErrorKind where
  | notSingleThreaded
  | missingSetupCapability
  | alreadyFinalized
  | inspect
  | transition
  | verify
  deriving DecidableEq, Repr

inductive PrivilegeErrorDetail where
  | message (message : String)
  | io (operation : String) (source : IoError)
  | errno (operation : String) (source : Errno)
  deriving DecidableEq, Repr

structure PrivilegeError where
  kind : PrivilegeErrorKind
  detail : PrivilegeErrorDetail
  deriving DecidableEq, Repr

/-- `inspect_io`. -/
def inspectIo (operation : String) (error : IoError) : PrivilegeError :=
  ⟨.inspect, .io operation error⟩

/-- `inspect_errno`. -/
def inspectErrno (operation : String) (error : Errno) : PrivilegeError :=
  ⟨.inspect, .errno operation error⟩

/-- `transition_errno`. -/
def transitionErrno (operation : String) (error : Errno) : PrivilegeError :=
  ⟨.transition, .errno operation error⟩

/-- `already_finalized`. -/
def alreadyFinalized : PrivilegeError :=
  ⟨.alreadyFinalized,
    .message "minimized privileges cannot be reused after final capability removal"⟩

/-- `if condition { return Err(error); }`. -/
def rejectIf {σ : Type} (condition : Prop) [Decidable condition] (error : PrivilegeError) :
    EStateM PrivilegeError σ Unit :=
  if condition then throw error else pure ()

/-! ## System calls -/

/-- The system calls on the credentials of the thread. -/
inductive Syscall where
  | capget
  | capset
  | getNoNewPrivs
  | setNoNewPrivs
  | ambientIsSet (capability : Capability)
  | ambientClearAll
  | boundingRead (capability : Capability)
  | boundingDrop (capability : Capability)
  deriving DecidableEq, Repr

/-- What the kernel will do: the last capability that it supports, whether a call fails if it
    is the n-th one, and what the n-th look at the directory of the process's tasks finds. -/
structure Kernel where
  last : Capability
  faults : Nat → Syscall → Option Errno
  tasks : Nat → Except IoError (List (Except IoError Unit))

/-- The thread, and the number of calls so far. -/
structure World (kernel : Kernel) where
  credentials : Credentials kernel.last
  calls : Nat

section Syscalls

variable {kernel : Kernel}

def World.next (w : World kernel) : World kernel := { w with calls := w.calls + 1 }

/-- A system call that fails at will, or else does what it is for. -/
def syscall {α : Type} (call : Syscall)
    (perform : Credentials kernel.last → Except Errno (α × Credentials kernel.last)) :
    EStateM Errno (World kernel) α := fun w =>
  match kernel.faults w.calls call with
  -- A call counts also when it fails
  | some error => .error error w.next
  | none =>
    match perform w.credentials with
    | .error error => .error error w.next
    | .ok (a, credentials) => .ok a { w.next with credentials }

/-- `capget`. -/
def capabilities : EStateM Errno (World kernel) CapabilitySets :=
  syscall .capget fun c => .ok (c.sets, c)

/-- `prctl(PR_GET_NO_NEW_PRIVS)`. -/
def noNewPrivs : EStateM Errno (World kernel) Bool :=
  syscall .getNoNewPrivs fun c => .ok (c.noNewPrivs, c)

/-- `prctl(PR_SET_NO_NEW_PRIVS)`. -/
def setNoNewPrivs : EStateM Errno (World kernel) Unit :=
  syscall .setNoNewPrivs fun c => .ok ((), { c with noNewPrivs := true })

/-- `prctl(PR_CAP_AMBIENT, PR_CAP_AMBIENT_IS_SET)`. -/
def capabilityIsInAmbientSet (capability : Capability) : EStateM Errno (World kernel) Bool :=
  syscall (.ambientIsSet capability) fun c =>
    if capability ≤ kernel.last then .ok (decide (capability ∈ c.ambient), c)
    else .error .inval

/-- `prctl(PR_CAP_AMBIENT, PR_CAP_AMBIENT_CLEAR_ALL)`. -/
def clearAmbientCapabilitySet : EStateM Errno (World kernel) Unit :=
  syscall .ambientClearAll fun c => .ok ((), { c with
    ambient := ∅
    supported := by
      have h := c.supported
      grind })

/-- `prctl(PR_CAPBSET_READ)`. -/
def capabilityIsInBoundingSet (capability : Capability) : EStateM Errno (World kernel) Bool :=
  syscall (.boundingRead capability) fun c =>
    if capability ≤ kernel.last then .ok (decide (capability ∈ c.bounding), c)
    else .error .inval

/-- `prctl(PR_CAPBSET_DROP)`. -/
def removeCapabilityFromBoundingSet (capability : Capability) :
    EStateM Errno (World kernel) Unit :=
  syscall (.boundingDrop capability) fun c =>
    -- The kernel checks the right to drop before the capability itself
    if CapabilitySet.setpcap ∉ c.sets.effective then .error .perm
    else if capability ≤ kernel.last then
      .ok ((), { c with
        bounding := c.bounding.erase capability
        supported := by
          have h := c.supported
          grind })
    else .error .inval

/-- `capset`: the permitted set only shrinks, the effective set stays inside it, and the
    inheritable set grows only from the permitted and the bounding set.  Unsupported
    capabilities are ignored, and the ambient set follows. -/
def setCapabilities (sets : CapabilitySets) : EStateM Errno (World kernel) Unit :=
  syscall .capset fun c =>
    let effective := sets.effective ∩ Finset.Iic kernel.last
    let permitted := sets.permitted ∩ Finset.Iic kernel.last
    let inheritable := sets.inheritable ∩ Finset.Iic kernel.last
    -- The checks of `cap_capset`, in its order
    if ¬ (CapabilitySet.setpcap ∈ c.sets.effective ∨
        inheritable ⊆ c.sets.inheritable ∪ c.sets.permitted) then .error .perm
    else if ¬ inheritable ⊆ c.sets.inheritable ∪ c.bounding then .error .perm
    else if ¬ permitted ⊆ c.sets.permitted then .error .perm
    else if ¬ effective ⊆ permitted then .error .perm
    else
      .ok ((), { c with
        sets := ⟨effective, permitted, inheritable⟩
        ambient := c.ambient ∩ permitted ∩ inheritable
        supported := by
          have h := c.supported
          simp only [Finset.union_subset_iff] at h ⊢
          refine ⟨⟨⟨⟨?_, ?_⟩, ?_⟩, ?_⟩, h.2⟩
          · exact Finset.inter_subset_right
          · exact Finset.inter_subset_right
          · exact Finset.inter_subset_right
          · exact fun x hx => h.1.2 (Finset.mem_inter.mp (Finset.mem_inter.mp hx).1).1 })

/-- A look at `/proc/self/task`. -/
def readDir : EStateM IoError (World kernel) (List (Except IoError Unit)) := fun w =>
  match kernel.tasks w.calls with
  | .error error => .error error w.next
  | .ok entries => .ok entries w.next

end Syscalls

/-! ## Inspection and transition -/

/-- Code that may fail and works on the thread's credentials. -/
abbrev PrivilegeM (kernel : Kernel) := EStateM PrivilegeError (World kernel)

section Operations

variable {kernel : Kernel}

/-- `transpose`: the next entry of a directory, if it can be read. -/
def nextTask : Option (Except IoError Unit) → EStateM IoError (World kernel) (Option Unit)
  | none => pure none
  | some (.ok ()) => pure (some ())
  | some (.error error) => throw error

/-- `check_single_threaded`. -/
def checkSingleThreaded : PrivilegeM kernel Unit := do
  let tasks ← (readDir).adaptExcept (inspectIo "read /proc/self/task")
  -- `next()` and `transpose()`
  let first ← (nextTask tasks[0]?).adaptExcept (inspectIo "read /proc/self/task")
  -- A second entry is enough to reject, whatever follows it
  let second ← (nextTask tasks[1]?).adaptExcept (inspectIo "read /proc/self/task")
  rejectIf (¬ (first.isSome ∧ second.isNone))
    ⟨.notSingleThreaded, .message "the process is not single-threaded"⟩

/-- `current_capabilities`. -/
def currentCapabilities : PrivilegeM kernel CapabilitySets :=
  capabilities.adaptExcept (inspectErrno "read capability sets")

/-- `change_capabilities`. -/
def changeCapabilities (sets : CapabilitySets) : PrivilegeM kernel Unit :=
  (setCapabilities sets).adaptExcept (transitionErrno "set capability sets")

/-- `current_no_new_privs`. -/
def currentNoNewPrivs : PrivilegeM kernel Bool :=
  noNewPrivs.adaptExcept (inspectErrno "read no_new_privs")

/-- `enable_no_new_privs`. -/
def enableNoNewPrivs : PrivilegeM kernel Unit :=
  setNoNewPrivs.adaptExcept (transitionErrno "set no_new_privs")

/-- `clear_ambient`. -/
def clearAmbient : PrivilegeM kernel Unit :=
  clearAmbientCapabilitySet.adaptExcept (transitionErrno "clear ambient capabilities")

/-- `ambient_contains`. -/
def ambientContains (capability : Capability) : PrivilegeM kernel Bool :=
  (capabilityIsInAmbientSet capability).adaptExcept (inspectErrno "read ambient capability set")

/-- `bounding_contains`: nothing for a capability that the kernel calls invalid. -/
def boundingContains (capability : Capability) : PrivilegeM kernel (Option Bool) := fun w =>
  match capabilityIsInBoundingSet capability w with
  | .ok value w => .ok (some value) w
  | .error error w =>
    if error = .inval then .ok none w
    else .error (inspectErrno "read capability bounding set" error) w

/-- `remove_bounding`. -/
def removeBounding (capability : Capability) : PrivilegeM kernel Unit :=
  (removeCapabilityFromBoundingSet capability).adaptExcept
    (transitionErrno "reduce capability bounding set")

/-- `capability`: the flag with an index, if there is one. -/
def capability (index : Nat) : Option Capability :=
  if h : index < 64 then some ⟨index, h⟩ else none

/-- `map_while`. -/
def mapWhile {α β : Type} (f : α → Option β) : List α → List β
  | [] => []
  | a :: as =>
    match f a with
    | none => []
    | some b => b :: mapWhile f as

/-- The loop of `each_supported_capability`; the variables that its closure captures are
    passed along. -/
def eachSupportedFrom {β : Type} (action : β → Capability → PrivilegeM kernel β) :
    List Capability → β → PrivilegeM kernel β
  | [], b => pure b
  | c :: cs, b => do
    match ← boundingContains c with
    -- The first capability that the kernel calls invalid ends the loop, since the kernel
    -- numbers the supported ones densely
    | none => pure b
    | some _ =>
      let b ← action b c
      eachSupportedFrom action cs b

/-- `each_supported_capability`. -/
def eachSupportedCapability {β : Type} (action : β → Capability → PrivilegeM kernel β) (init : β) :
    PrivilegeM kernel β :=
  eachSupportedFrom action (mapWhile capability (List.range 64)) init

/-- `clear_bounding`. -/
def clearBounding : PrivilegeM kernel Unit :=
  eachSupportedCapability (fun _ c => do
    -- The set is read again, after the read of the loop itself
    if (← boundingContains c) = some true then removeBounding c) ()

/-- `verify`. -/
def verify (expected : CapabilitySets) : PrivilegeM kernel Unit := do
  rejectIf (¬ (← currentNoNewPrivs)) ⟨.verify, .message "no_new_privs is not set"⟩
  rejectIf ((← currentCapabilities) ≠ expected)
    ⟨.verify, .message "capability sets differ from the requested state"⟩
  -- The two sets that `capget` does not show
  eachSupportedCapability (fun _ c => do
    rejectIf (← ambientContains c)
      ⟨.verify, .message "the ambient capability set is not empty"⟩
    rejectIf ((← boundingContains c) = some true)
      ⟨.verify, .message "the capability bounding set is not empty"⟩) ()

end Operations

/-! ## Finalization -/

inductive Policy where
  | minimized
  | preserved
  | verificationPending
  | finished
  deriving DecidableEq, Repr

inductive FinalizationMode where
  | explicit
  | cleanup
  deriving DecidableEq, Repr

/-- The operations of a finalization, over any state. -/
structure FinalizationOps (σ : Type) where
  checkThread : EStateM PrivilegeError σ Unit
  clearAmbient : EStateM PrivilegeError σ Unit
  clearBounding : EStateM PrivilegeError σ Unit
  clearCapabilities : EStateM PrivilegeError σ Unit
  verify : EStateM PrivilegeError σ Unit

/-- `ProductionFinalizationOps`. -/
def productionFinalizationOps (kernel : Kernel) : FinalizationOps (World kernel) where
  checkThread := checkSingleThreaded
  clearAmbient := clearAmbient
  clearBounding := clearBounding
  clearCapabilities := changeCapabilities emptyCapabilities
  verify := verify emptyCapabilities

/-- An operation beside the policy. -/
def besidePolicy {σ α : Type} (m : EStateM PrivilegeError σ α) :
    EStateM PrivilegeError (Policy × σ) α := fun (policy, s) =>
  match m s with
  | .ok a s => .ok a (policy, s)
  | .error error s => .error error (policy, s)

/-- `*policy = ..`. -/
def setPolicy {σ : Type} (policy : Policy) : EStateM PrivilegeError (Policy × σ) Unit :=
  modify fun (_, s) => (policy, s)

/-- `finish_policy_with`: the policy is state, since it is changed also by a call that
    fails. -/
def finishPolicyWith {σ : Type} (mode : FinalizationMode) (ops : FinalizationOps σ) :
    EStateM PrivilegeError (Policy × σ) Unit := do
  match (← get).1 with
  -- The credentials are managed by somebody else, see `Privileges::preserve`
  | .preserved => pure ()
  | .finished => pure ()
  | .verificationPending =>
    -- Only a destructor may retry the verification
    rejectIf (mode = .explicit) alreadyFinalized
    besidePolicy ops.verify
    setPolicy .finished
  | .minimized =>
    besidePolicy ops.checkThread
    besidePolicy ops.clearAmbient
    besidePolicy ops.checkThread
    besidePolicy ops.clearBounding
    besidePolicy ops.checkThread
    besidePolicy ops.clearCapabilities
    -- From here on the capabilities are gone, also if the verification fails
    setPolicy .verificationPending
    besidePolicy ops.verify
    setPolicy .finished

/-- `Privileges::ensure_can_prepare`, over any state. -/
def ensureCanPrepare {σ : Type} : EStateM PrivilegeError (Policy × σ) Unit := do
  match (← get).1 with
  -- The capabilities are gone already
  | .verificationPending => throw alreadyFinalized
  | .finished => throw alreadyFinalized
  | _ => pure ()

/-! ## The life of a privilege value -/

section Lifecycle

variable {kernel : Kernel}

/-- `preflight_minimization`. -/
def preflightMinimization : PrivilegeM kernel Unit := do
  checkSingleThreaded
  let current ← currentCapabilities
  rejectIf (¬ setupCapabilities ⊆ current.permitted)
    ⟨.missingSetupCapability, .message "CAP_BPF and CAP_PERFMON must be permitted"⟩
  let boundingNonempty ← eachSupportedCapability (fun nonempty c => do
    let contained ← boundingContains c
    pure (nonempty || contained == some true)) false
  -- Without anything to remove, the right to remove is not needed
  rejectIf (boundingNonempty ∧ CapabilitySet.setpcap ∉ current.effective)
    ⟨.missingSetupCapability,
      .message "CAP_SETPCAP is required to empty the capability bounding set"⟩

/-- `Privileges::minimize` up to the point where it sets up its cleanup. -/
def beginMinimization : PrivilegeM kernel Unit := do
  preflightMinimization
  checkSingleThreaded
  enableNoNewPrivs

/-- `setup`: what a minimized thread keeps. -/
def setupSets : CapabilitySets := ⟨setupCapabilities, setupCapabilities, ∅⟩

/-- `Privileges::minimize` from there on. -/
def completeMinimization : PrivilegeM kernel Unit := do
  checkSingleThreaded
  clearAmbient
  checkSingleThreaded
  clearBounding
  checkSingleThreaded
  -- `CAP_SETPCAP` goes last, since emptying the bounding set needs it
  changeCapabilities setupSets
  verify setupSets

/-- A destructor that finishes a policy: the process aborts, which is no result here, if
    that fails. -/
def finishOrAbort (policy : Policy) (w : World kernel) : Option (World kernel) :=
  match finishPolicyWith .cleanup (productionFinalizationOps kernel) (policy, w) with
  | .ok () (_, w) => some w
  | .error _ _ => none

/-- `Drop for Privileges`. -/
def dropPrivileges (policy : Policy) (w : World kernel) : Option (World kernel) :=
  finishOrAbort policy w

/-- `Drop for MinimizationCleanup`, while it is armed. -/
def dropMinimizationCleanup (w : World kernel) : Option (World kernel) :=
  finishOrAbort .minimized w

/-- `Privileges::minimize`; no result if the process aborts. -/
def minimize (w : World kernel) : Option (Except PrivilegeError Policy × World kernel) :=
  match beginMinimization w with
  | .error error w => some (.error error, w)
  | .ok () w =>
    match completeMinimization w with
    | .ok () w => some (.ok .minimized, w)
    -- Returning drops the cleanup
    | .error error w => (dropMinimizationCleanup w).map fun w => (.error error, w)

/-- `Privileges::finish`. -/
def finish : EStateM PrivilegeError (Policy × World kernel) Unit :=
  finishPolicyWith .explicit (productionFinalizationOps kernel)

inductive CollectorPrepareErrorKind where
  | unsupportedKernel
  | open
  | load
  | attach
  | ringSetup
  | privilege
  deriving DecidableEq, Repr

/-- The source of a preparation error: an error of libbpf, or one of this module. -/
inductive CollectorPrepareErrorSource where
  | bpf (code : Int)
  | privilege (error : PrivilegeError)
  deriving DecidableEq, Repr

structure CollectorPrepareError where
  kind : CollectorPrepareErrorKind
  source : CollectorPrepareErrorSource
  deriving DecidableEq, Repr

/-- `From<PrivilegeError> for CollectorPrepareError`. -/
def CollectorPrepareError.fromPrivilege (error : PrivilegeError) : CollectorPrepareError :=
  ⟨.privilege, .privilege error⟩

/-- `finalize_prepared`. -/
def finalizePrepared {σ T : Type} (prepared : T) (finish : EStateM CollectorPrepareError σ Unit) :
    EStateM CollectorPrepareError σ T := do
  finish
  pure prepared

/-- `CollectorConfig::prepare`, for any outcome of `backend::prepare`. -/
def prepareCollector {T : Type} (backend : Except CollectorPrepareError T) :
    EStateM CollectorPrepareError (Policy × World kernel) T := do
  ensureCanPrepare.adaptExcept .fromPrivilege
  -- A failed setup leaves the policy as it is, for another attempt
  let prepared ← match backend with
    | .ok prepared => pure prepared
    | .error error => throw error
  finalizePrepared prepared (finish.adaptExcept .fromPrivilege)

/-- A process with at most one privilege value, until it aborts. -/
structure Process (kernel : Kernel) where
  privileges : Option Policy
  world : World kernel
  aborted : Bool

/-- What a process does with its privileges. -/
inductive PrivilegeAction where
  | minimize
  | prepare (backend : Except CollectorPrepareError Unit)
  | drop

/-- What it sees of it. -/
inductive PrivilegeObservation where
  | minimized (result : Except PrivilegeError Unit)
  | prepared (result : Except CollectorPrepareError Unit)
  | dropped
  | aborted

/-- One use of the privilege value. -/
def Process.step (p : Process kernel) :
    PrivilegeAction → Option (Process kernel × List PrivilegeObservation)
  | .minimize =>
    match p.aborted, p.privileges with
    | false, none =>
      match Landlock.minimize p.world with
      | none => some ({ p with aborted := true }, [.aborted])
      | some (.error error, world) => some ({ p with world }, [.minimized (.error error)])
      | some (.ok policy, world) =>
        some ({ p with privileges := some policy, world }, [.minimized (.ok ())])
    | _, _ => none
  | .prepare backend =>
    match p.aborted, p.privileges with
    | false, some policy =>
      match prepareCollector backend (policy, p.world) with
      | .ok () (policy, world) =>
        some ({ p with privileges := some policy, world }, [.prepared (.ok ())])
      | .error error (policy, world) =>
        some ({ p with privileges := some policy, world }, [.prepared (.error error)])
    | _, _ => none
  | .drop =>
    match p.aborted, p.privileges with
    | false, some policy =>
      match dropPrivileges policy p.world with
      | none => some ({ p with aborted := true }, [.aborted])
      | some world => some ({ p with privileges := none, world }, [.dropped])
    | _, _ => none

end Lifecycle

end Landlock
