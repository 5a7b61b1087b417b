import LandlockObservability.ForStd.Hoare
import LandlockObservability.Model.Privilege

/-!
# No execution with unverified authority

Every path on which a process goes on after using collection privileges ends with a
successful `verify`, and what `verify` has accepted is true of the credentials.

* `verify_spec`: a successful verification establishes the expected credentials.
* `finishPolicyWith_spec`: a finalization ends with cleared credentials, or it leaves a
  policy that does not claim so.
* `run_authority`: what holds of every life of a privilege value, on a kernel that reads its
  bounding set as documented.
* `filteredWorld_keeps_bounding`: what happens where `EINVAL` is not what it is documented to be.
-/

namespace Landlock

open Hoare

/-- The thread has exactly the expected sets, and nothing beside them. -/
structure Credentials.Verified {last : Capability} (c : Credentials last)
    (expected : CapabilitySets) : Prop where
  noNewPrivs : c.noNewPrivs = true
  sets : c.sets = expected
  ambient : c.ambient = ∅
  bounding : c.bounding = ∅

/-- All five sets are empty and no privileges can be gained. -/
def Credentials.Cleared {last : Capability} (c : Credentials last) : Prop :=
  c.Verified emptyCapabilities

section Operations

variable {kernel : Kernel} {c : Credentials kernel.last} {α β : Type}

/-- The thread has these credentials. -/
def Has (c : Credentials kernel.last) (w : World kernel) : Prop := w.credentials = c

/-- Past a check, its condition is false. -/
private theorem rejectIf_spec {σ : Type} {P : σ → Prop} {condition : Prop} [Decidable condition]
    {error : PrivilegeError} :
    Triple P (rejectIf condition error) (fun _ s => P s ∧ ¬ condition) fun _ => P := by
  unfold rejectIf
  split
  · exact .throw fun _ => id
  · rename_i hcondition
    exact .pure fun _ h => ⟨h, hcondition⟩

/-! ## System calls -/

/-- A system call does what it is for, or it leaves the credentials alone. -/
private theorem syscall_spec {call : Syscall}
    {perform : Credentials kernel.last → Except Errno (α × Credentials kernel.last)}
    {Q : α → Credentials kernel.last → Prop} (h : ∀ a c', perform c = .ok (a, c') → Q a c') :
    Triple (Has c) (syscall call perform) (fun a w => Q a w.credentials) fun _ => Has c := by
  intro w hw
  have hcredentials : w.credentials = c := hw
  unfold syscall
  -- A fault comes before the kernel does anything
  cases kernel.faults w.calls call with
  | some error => exact hw
  | none =>
    rw [hcredentials]
    cases hperform : perform c with
    | error error => exact hw
    | ok r => exact h r.1 r.2 hperform

/-! ## Inspection -/

/-- The capability sets are read as they are. -/
private theorem currentCapabilities_spec :
    Triple (Has c) currentCapabilities (fun sets w => Has c w ∧ sets = c.sets)
      fun _ => Has c := by
  apply Triple.adaptExcept
  apply syscall_spec (Q := fun sets c' => c' = c ∧ sets = c.sets)
  intro sets c' h
  cases h
  exact ⟨rfl, rfl⟩

/-- So is `no_new_privs`. -/
private theorem currentNoNewPrivs_spec :
    Triple (Has c) currentNoNewPrivs (fun value w => Has c w ∧ value = c.noNewPrivs)
      fun _ => Has c := by
  apply Triple.adaptExcept
  apply syscall_spec (Q := fun value c' => c' = c ∧ value = c.noNewPrivs)
  intro value c' h
  cases h
  exact ⟨rfl, rfl⟩

/-- So is the ambient set. -/
private theorem ambientContains_spec (capability : Capability) :
    Triple (Has c) (ambientContains capability)
      (fun value w => Has c w ∧ value = decide (capability ∈ c.ambient)) fun _ => Has c := by
  apply Triple.adaptExcept
  apply syscall_spec (Q := fun value c' => c' = c ∧ value = decide (capability ∈ c.ambient))
  intro value c' h
  split at h
  · cases h
    exact ⟨rfl, rfl⟩
  · cases h

/-- What a look at the bounding set tells about a capability. -/
def Bounded (c : Credentials kernel.last) (capability : Capability) : Option Bool → Prop
  | some value => capability ≤ kernel.last ∧ value = decide (capability ∈ c.bounding)
  | none => kernel.last < capability

/-- What `capabilities(7)` says of `PR_CAPBSET_READ`: it fails with `EINVAL` only for a
    capability that the kernel does not support. -/
def Kernel.Documented (kernel : Kernel) : Prop :=
  ∀ n capability, capability ≤ kernel.last →
    kernel.faults n (.boundingRead capability) ≠ some .inval

/-- Only for a capability that the kernel does not support, a read reports `EINVAL`. -/
private theorem capabilityIsInBoundingSet_spec (hkernel : kernel.Documented)
    (capability : Capability) :
    Triple (Has c) (capabilityIsInBoundingSet capability)
      (fun value w => Has c w ∧ capability ≤ kernel.last ∧
        value = decide (capability ∈ c.bounding))
      fun error w => Has c w ∧ (error = .inval → kernel.last < capability) := by
  intro w hw
  have hcredentials : w.credentials = c := hw
  unfold capabilityIsInBoundingSet syscall
  cases hfault : kernel.faults w.calls (.boundingRead capability) with
  | some error =>
    refine ⟨hw, fun hinval => lt_of_not_ge fun hsupported => ?_⟩
    rw [hinval] at hfault
    exact hkernel w.calls capability hsupported hfault
  | none =>
    by_cases hsupported : capability ≤ kernel.last
    · simp only [if_pos hsupported]
      exact ⟨hw, hsupported, by rw [hcredentials]⟩
    · simp only [if_neg hsupported]
      exact ⟨hw, fun _ => lt_of_not_ge hsupported⟩

/-- Only such a capability has no answer. -/
private theorem boundingContains_spec (hkernel : kernel.Documented) (capability : Capability) :
    Triple (Has c) (boundingContains capability)
      (fun answer w => Has c w ∧ Bounded c capability answer) fun _ => Has c := by
  intro w hw
  have hread := capabilityIsInBoundingSet_spec (c := c) hkernel capability
  unfold boundingContains
  cases hbounding : capabilityIsInBoundingSet capability w with
  | ok value w' => exact hread.of_ok hw hbounding
  | error error w' =>
    obtain ⟨hw', hbeyond⟩ := hread.of_error hw hbounding
    by_cases hinval : error = .inval
    · simp only [if_pos hinval]
      exact ⟨hw', hbeyond hinval⟩
    · simp only [if_neg hinval]
      exact hw'

/-- Counting the threads does not touch the credentials. -/
private theorem checkSingleThreaded_spec :
    Triple (Has c) checkSingleThreaded (fun _ => Has c) fun _ => Has c := by
  have hnext : ∀ task, Triple (Has c) ((nextTask task).adaptExcept
      (inspectIo "read /proc/self/task")) (fun _ => Has c) fun _ => Has c := by
    intro task
    apply Triple.adaptExcept
    unfold nextTask
    split
    · exact .pure fun _ => id
    · exact .pure fun _ => id
    · exact .throw fun _ => id
  have hread : Triple (Has c) (readDir.adaptExcept (inspectIo "read /proc/self/task"))
      (fun _ => Has c) fun _ => Has c := by
    apply Triple.adaptExcept
    intro w hw
    unfold readDir
    cases kernel.tasks w.calls <;> exact hw
  refine hread.bind fun tasks => (hnext _).bind fun first => (hnext _).bind fun second => ?_
  exact rejectIf_spec.weaken (fun _ => id) (fun _ _ h => h.1) (fun _ _ => id)

/-! ## Loops over the supported capabilities -/

/-- A loop whose body only looks and finds `R` of the capability it is at finds `R` of
    all supported ones: it ends early only where the supported ones end. -/
private theorem eachSupportedFrom_spec (hkernel : kernel.Documented)
    {action : β → Capability → PrivilegeM kernel β} {R : Capability → Prop}
    (haction : ∀ b capability, Triple (Has c) (action b capability)
      (fun _ w => Has c w ∧ R capability) fun _ => Has c) :
    ∀ (capabilities : List Capability) (b : β), capabilities.Pairwise (· < ·) →
      Triple (Has c) (eachSupportedFrom action capabilities b)
        (fun _ w => Has c w ∧ ∀ capability ∈ capabilities, capability ≤ kernel.last → R capability)
        fun _ => Has c := by
  intro capabilities
  induction capabilities with
  | nil =>
    intro b _
    exact .pure fun w hw => ⟨hw, by simp⟩
  | cons capability rest ih =>
    intro b hsorted
    obtain ⟨hlt, hrest⟩ := List.pairwise_cons.mp hsorted
    refine (boundingContains_spec hkernel capability).bind fun answer => ?_
    cases answer with
    | none =>
      -- What follows is beyond the last supported capability, too
      refine .pure fun w hw => ⟨hw.1, fun other hother hsupported => ?_⟩
      have hbeyond : kernel.last < capability := hw.2
      rcases List.mem_cons.mp hother with heq | hmem
      · rw [heq] at hsupported
        exact absurd hbeyond (not_lt_of_ge hsupported)
      · exact absurd (hbeyond.trans (hlt other hmem)) (not_lt_of_ge hsupported)
    | some value =>
      refine Triple.assume fun _ => (haction b capability).bind fun b' => ?_
      refine Triple.assume fun hR => (ih b' hrest).weaken (fun _ => id) ?_ (fun _ _ => id)
      rintro _ w ⟨hw, hall⟩
      refine ⟨hw, fun other hother hsupported => ?_⟩
      rcases List.mem_cons.mp hother with heq | hmem
      · rw [heq]
        exact hR
      · exact hall other hmem hsupported

/-- The loop goes through the capabilities in order, and there are 64 of them. -/
private theorem mapWhile_capability : mapWhile capability (List.range 64) = List.finRange 64 := by
  decide

/-- A loop over all capabilities finds what its body finds of each supported one. -/
private theorem eachSupportedCapability_spec (hkernel : kernel.Documented)
    {action : β → Capability → PrivilegeM kernel β} {R : Capability → Prop}
    (haction : ∀ b capability, Triple (Has c) (action b capability)
      (fun _ w => Has c w ∧ R capability) fun _ => Has c) (init : β) :
    Triple (Has c) (eachSupportedCapability action init)
      (fun _ w => Has c w ∧ ∀ capability ≤ kernel.last, R capability) fun _ => Has c := by
  unfold eachSupportedCapability
  rw [mapWhile_capability]
  refine (eachSupportedFrom_spec hkernel haction _ init (List.pairwise_lt_finRange 64)).weaken
    (fun _ => id) ?_ (fun _ _ => id)
  intro _ w hw
  exact ⟨hw.1, fun capability hsupported => hw.2 capability (List.mem_finRange _) hsupported⟩

/-! ## Verification -/

/-- A set over the supported capabilities that has none of them is empty. -/
private theorem eq_empty_of_supported {set : CapabilitySet} (hset : set ⊆ Finset.Iic kernel.last)
    (h : ∀ capability ≤ kernel.last, capability ∉ set) : set = ∅ := by
  apply Finset.eq_empty_of_forall_notMem
  intro capability hmem
  exact h capability (Finset.mem_Iic.mp (hset hmem)) hmem

/-- The body of the loop of `verify`: the ambient and the bounding set do not have the
    capability that the loop is at. -/
private theorem verifyOne_spec (hkernel : kernel.Documented) (capability : Capability) :
    Triple (Has c)
    (do
      rejectIf (← ambientContains capability)
        ⟨.verify, .message "the ambient capability set is not empty"⟩
      rejectIf ((← boundingContains capability) = some true)
        ⟨.verify, .message "the capability bounding set is not empty"⟩)
    (fun _ w => Has c w ∧
      (capability ≤ kernel.last → capability ∉ c.ambient ∧ capability ∉ c.bounding))
    fun _ => Has c := by
  refine (ambientContains_spec capability).bind fun value => Triple.assume fun hvalue => ?_
  refine rejectIf_spec.bind fun _ => Triple.assume fun hambient => ?_
  refine (boundingContains_spec hkernel capability).bind fun answer =>
    Triple.assume fun hanswer => ?_
  refine rejectIf_spec.weaken (fun _ => id) ?_ (fun _ _ => id)
  intro _ w hw
  refine ⟨hw.1, fun hsupported => ⟨?_, ?_⟩⟩
  · rw [hvalue] at hambient
    simpa using hambient
  · have hbounding := hw.2
    cases answer with
    | none => exact absurd hanswer (not_lt_of_ge hsupported)
    | some value =>
      rw [hanswer.2] at hbounding
      simpa using hbounding

/-- A successful verification establishes the expected credentials. -/
theorem verify_spec (hkernel : kernel.Documented) (expected : CapabilitySets) :
    Triple (Has c) (verify expected) (fun _ w => Has c w ∧ c.Verified expected)
      fun _ => Has c := by
  refine currentNoNewPrivs_spec.bind fun value => Triple.assume fun hvalue => ?_
  refine rejectIf_spec.bind fun _ => Triple.assume fun hnoNewPrivs => ?_
  refine currentCapabilities_spec.bind fun sets => Triple.assume fun hsets => ?_
  refine rejectIf_spec.bind fun _ => Triple.assume fun hexpected => ?_
  refine (eachSupportedCapability_spec hkernel (fun _ => verifyOne_spec hkernel) ()).weaken
    (fun _ => id) ?_ (fun _ _ => id)
  intro _ w hw
  -- The loop has seen every supported capability, and the sets hold no other
  have hsupported := c.supported
  simp only [Finset.union_subset_iff] at hsupported
  refine ⟨hw.1, ?_, ?_, ?_, ?_⟩
  · rw [hvalue] at hnoNewPrivs
    simpa using hnoNewPrivs
  · rw [← hsets]
    exact not_not.mp hexpected
  · exact eq_empty_of_supported hsupported.1.2 fun capability h => (hw.2 capability h h).1
  · exact eq_empty_of_supported hsupported.2 fun capability h => (hw.2 capability h h).2

/-- Whatever the credentials were: once verified, they are the expected ones. -/
private theorem verify_establishes (hkernel : kernel.Documented) (expected : CapabilitySets) :
    Triple (fun _ => True) (verify expected : PrivilegeM kernel Unit)
      (fun _ w => w.credentials.Verified expected) fun _ _ => True := by
  refine Triple.intro (fun w _ w' _ hverify => ?_) (fun _ _ _ _ _ => trivial)
  obtain ⟨hsame, hverified⟩ :=
    (verify_spec hkernel expected).of_ok (rfl : Has w.credentials w) hverify
  have hcredentials : w'.credentials = w.credentials := hsame
  rw [hcredentials]
  exact hverified

/-! ## Finalization -/

section Policy

variable {σ : Type} {P : σ → Prop} {m : EStateM PrivilegeError σ α} {Q : α → σ → Prop}
  {E : PrivilegeError → σ → Prop}

/-- An operation beside the policy does not change it. -/
theorem besidePolicy_spec (policy : Policy) (h : Triple P m Q E) :
    Triple (fun s => P s.2 ∧ s.1 = policy) (besidePolicy m) (fun a s => Q a s.2 ∧ s.1 = policy)
      fun e s => E e s.2 ∧ s.1 = policy := by
  intro s hs
  obtain ⟨current, t⟩ := s
  cases hm : m t with
  | ok a t' =>
    simp only [besidePolicy, hm]
    exact ⟨h.of_ok hs.1 hm, hs.2⟩
  | error e t' =>
    simp only [besidePolicy, hm]
    exact ⟨h.of_error hs.1 hm, hs.2⟩

/-- Setting the policy leaves the rest alone. -/
theorem setPolicy_spec (policy : Policy) {E : PrivilegeError → Policy × σ → Prop} :
    Triple (fun s => P s.2) (setPolicy policy) (fun _ s => P s.2 ∧ s.1 = policy) E :=
  fun _ hs => ⟨hs, rfl⟩

end Policy

/-- A policy of a minimized value that says it is finished is right. -/
structure Sound (s : Policy × World kernel) : Prop where
  minimized : s.1 ≠ .preserved
  finished : s.1 = .finished → s.2.credentials.Cleared

/-- The end of a finalization: the verification decides what the policy may say. -/
private theorem verifyAndFinish_spec (hkernel : kernel.Documented) :
    Triple (fun s => True ∧ s.1 = .verificationPending)
      (do
        besidePolicy (productionFinalizationOps kernel).verify
        setPolicy .finished)
      (fun _ s => s.2.credentials.Cleared ∧ s.1 = .finished) fun _ => Sound := by
  have hverify := besidePolicy_spec .verificationPending
    (verify_establishes hkernel emptyCapabilities)
  refine (hverify.weaken (fun _ => id) (fun _ _ => id) ?_).bind fun _ => ?_
  · intro _ s hs
    have hpolicy : s.1 = .verificationPending := hs.2
    exact ⟨by rw [hpolicy]; nofun, by rw [hpolicy]; nofun⟩
  · exact (setPolicy_spec (P := fun w => w.credentials.Cleared) .finished).weaken
      (fun _ hs => hs.1) (fun _ _ => id) (fun _ _ => id)

/-- An operation before the capabilities are gone leaves a policy that can be retried. -/
private theorem retryable_spec (m : PrivilegeM kernel Unit) :
    Triple (fun s => True ∧ s.1 = .minimized) (besidePolicy m)
      (fun _ s => True ∧ s.1 = .minimized) fun _ => Sound := by
  refine (besidePolicy_spec (P := fun _ => True) .minimized Triple.trivial).weaken
    (fun _ => id) (fun _ _ => id) ?_
  intro _ s hs
  have hpolicy : s.1 = .minimized := hs.2
  exact ⟨by rw [hpolicy]; nofun, by rw [hpolicy]; nofun⟩

/-- The finalization of a minimized policy: it can be retried until the capabilities are
    gone, and only its verification from then on. -/
private theorem finishMinimized_spec (hkernel : kernel.Documented) :
    Triple (fun s => True ∧ s.1 = .minimized)
    (do
      besidePolicy (productionFinalizationOps kernel).checkThread
      besidePolicy (productionFinalizationOps kernel).clearAmbient
      besidePolicy (productionFinalizationOps kernel).checkThread
      besidePolicy (productionFinalizationOps kernel).clearBounding
      besidePolicy (productionFinalizationOps kernel).checkThread
      besidePolicy (productionFinalizationOps kernel).clearCapabilities
      setPolicy .verificationPending
      besidePolicy (productionFinalizationOps kernel).verify
      setPolicy .finished)
    (fun _ s => s.2.credentials.Cleared ∧ s.1 = .finished) fun _ => Sound := by
  refine (retryable_spec _).bind fun _ => (retryable_spec _).bind fun _ =>
    (retryable_spec _).bind fun _ => (retryable_spec _).bind fun _ =>
    (retryable_spec _).bind fun _ => (retryable_spec _).bind fun _ => ?_
  refine Triple.bind ?_ fun _ => verifyAndFinish_spec hkernel
  exact (setPolicy_spec (P := fun _ => True) .verificationPending).weaken
    (fun _ _ => trivial) (fun _ _ => id) (fun _ _ => id)

/-- A finalization that succeeds ends with cleared credentials; one that fails leaves a
    policy that does not claim so without reason. -/
theorem finishPolicyWith_spec (hkernel : kernel.Documented) (mode : FinalizationMode) :
    Triple Sound (finishPolicyWith mode (productionFinalizationOps kernel))
      (fun _ s => s.2.credentials.Cleared ∧ s.1 = .finished) fun _ => Sound := by
  refine Triple.get.bind fun s => ?_
  obtain ⟨policy, w⟩ := s
  cases policy with
  | preserved =>
    refine .pure ?_
    rintro _ ⟨hsound, rfl⟩
    -- A minimized value never has this policy
    exact absurd rfl hsound.minimized
  | finished =>
    refine .pure ?_
    rintro _ ⟨hsound, rfl⟩
    exact ⟨hsound.finished rfl, rfl⟩
  -- An explicit retry is rejected; the destructor verifies once more
  | verificationPending =>
    refine Triple.bind ?_ fun _ => verifyAndFinish_spec hkernel
    refine rejectIf_spec.weaken (fun _ => id) ?_ ?_
    · rintro _ _ ⟨⟨-, rfl⟩, -⟩
      exact ⟨trivial, rfl⟩
    · rintro _ _ ⟨hsound, -⟩
      exact hsound
  | minimized =>
    refine (finishMinimized_spec hkernel).weaken ?_ (fun _ _ => id) (fun _ _ => id)
    rintro _ ⟨-, rfl⟩
    exact ⟨trivial, rfl⟩

/-- A process that goes on past the destructor has cleared credentials. -/
theorem finishOrAbort_cleared (hkernel : kernel.Documented) {policy : Policy}
    {w w' : World kernel} (hsound : Sound (policy, w)) (h : finishOrAbort policy w = some w') :
    w'.credentials.Cleared := by
  unfold finishOrAbort at h
  split at h
  · rename_i hfinish
    cases h
    exact ((finishPolicyWith_spec hkernel .cleanup).of_ok hsound hfinish).1
  · cases h

/-! ## Minimization -/

/-- Until `no_new_privs` is set, nothing has changed. -/
private theorem beginMinimization_spec (hkernel : kernel.Documented) :
    Triple (Has c) beginMinimization (fun _ _ => True) fun _ => Has c := by
  have hpreflight : Triple (Has c) preflightMinimization (fun _ => Has c) fun _ => Has c := by
    -- All checks before `no_new_privs` only look
    have hcheck {condition : Prop} [Decidable condition] {error : PrivilegeError} :
        Triple (Has c) (rejectIf condition error) (fun _ => Has c) fun _ => Has c :=
      rejectIf_spec.weaken (fun _ => id) (fun _ _ h => h.1) (fun _ _ => id)
    refine checkSingleThreaded_spec.bind fun _ => ?_
    refine currentCapabilities_spec.bind fun current => Triple.assume fun _ => ?_
    refine hcheck.bind fun _ => ?_
    refine Triple.bind ?_ fun nonempty => hcheck
    refine (eachSupportedCapability_spec hkernel (R := fun _ => True) ?_ false).weaken
      (fun _ => id) (fun _ _ h => h.1) (fun _ _ => id)
    intro nonempty capability
    refine (boundingContains_spec hkernel capability).bind fun answer => Triple.assume fun _ => ?_
    exact .pure fun _ hw => ⟨hw, trivial⟩
  have henable : Triple (Has c) enableNoNewPrivs (fun _ _ => True) fun _ => Has c :=
    .adaptExcept (syscall_spec (Q := fun _ _ => True) fun _ _ _ => trivial)
  exact hpreflight.bind fun _ => checkSingleThreaded_spec.bind fun _ => henable

/-- What follows ends with a verification. -/
private theorem completeMinimization_spec (hkernel : kernel.Documented) :
    Triple (fun _ => True) completeMinimization
      (fun _ (w : World kernel) => w.credentials.Verified setupSets) fun _ _ => True := by
  refine Triple.trivial.bind fun _ => Triple.trivial.bind fun _ => Triple.trivial.bind fun _ =>
    Triple.trivial.bind fun _ => Triple.trivial.bind fun _ => Triple.trivial.bind fun _ => ?_
  exact verify_establishes hkernel setupSets

/-- A minimization that fails has changed nothing or has cleared everything. -/
theorem minimize_error (hkernel : kernel.Documented) {w w' : World kernel} {error : PrivilegeError}
    (h : minimize w = some (.error error, w')) :
    w'.credentials = w.credentials ∨ w'.credentials.Cleared := by
  unfold minimize at h
  split at h
  · rename_i hbegin
    cases h
    -- An error before `no_new_privs` is set
    exact .inl ((beginMinimization_spec hkernel).of_error (rfl : Has w.credentials w) hbegin)
  · split at h
    · cases h
    · obtain ⟨w₁, hcleanup, heq⟩ := Option.map_eq_some_iff.mp h
      cases heq
      rename_i w₀ _
      -- The cleanup starts from a policy that claims nothing
      have hsound : Sound (Policy.minimized, w₀) := ⟨nofun, nofun⟩
      exact .inr (finishOrAbort_cleared hkernel hsound hcleanup)

/-- A minimization that succeeds has got to its end. -/
theorem minimize_cases {w w' : World kernel} {policy : Policy}
    (h : minimize w = some (.ok policy, w')) :
    policy = .minimized ∧ ∃ w₀, completeMinimization w₀ = .ok () w' := by
  unfold minimize at h
  split at h
  · cases h
  · split at h
    · rename_i hcomplete
      cases h
      exact ⟨rfl, _, hcomplete⟩
    · obtain ⟨w₁, -, heq⟩ := Option.map_eq_some_iff.mp h
      cases heq

/-- It has left exactly the setup capabilities. -/
private theorem minimize_ok (hkernel : kernel.Documented) {w w' : World kernel} {policy : Policy}
    (h : minimize w = some (.ok policy, w')) : w'.credentials.Verified setupSets := by
  obtain ⟨-, w₀, hcomplete⟩ := minimize_cases h
  exact (completeMinimization_spec hkernel).of_ok trivial hcomplete

/-! ## Preparation -/

/-- A successful preparation ends with cleared credentials, and a failed one leaves a
    policy that does not claim so without reason. -/
theorem prepareCollector_spec (hkernel : kernel.Documented) {T : Type}
    (backend : Except CollectorPrepareError T) :
    Triple Sound (prepareCollector backend)
      (fun _ (s : Policy × World kernel) => s.2.credentials.Cleared ∧ s.1 = .finished)
      fun _ => Sound := by
  have hensure : Triple Sound ensureCanPrepare (fun _ (s : Policy × World kernel) => Sound s)
      fun _ => Sound := by
    refine Triple.get.bind fun s => ?_
    split
    · exact .throw fun _ h => h.1
    · exact .throw fun _ h => h.1
    · exact .pure fun _ h => h.1
  refine (Triple.adaptExcept hensure).bind fun _ => ?_
  -- The resources are only returned past the finalization
  have hfinish : ∀ prepared : T, Triple Sound
      (finalizePrepared prepared (finish.adaptExcept .fromPrivilege))
      (fun _ (s : Policy × World kernel) => s.2.credentials.Cleared ∧ s.1 = .finished)
      fun _ => Sound := by
    intro prepared
    refine (Triple.adaptExcept (finishPolicyWith_spec hkernel .explicit)).bind fun _ => ?_
    exact .pure fun _ => id
  cases backend with
  | ok prepared => exact (Triple.pure fun _ => id).bind fun prepared => hfinish prepared
  | error error => exact (Triple.throw fun _ => id).bind fun prepared => hfinish prepared

end Operations

/-! ## Runs -/

variable {kernel : Kernel}

/-- What a process may rely on after it used its privileges, given the credentials
    before and after. -/
def AuthorityHolds {last : Capability} (before after : Credentials last) :
    PrivilegeObservation → Prop
  | .minimized (.error _) => after = before ∨ after.Cleared
  | .minimized (.ok ()) => after.Verified setupSets
  | .prepared (.error _) => True
  | .prepared (.ok ()) => after.Cleared
  | .dropped => after.Cleared
  | .aborted => True

namespace Process

/-- The policy of the privilege value, while there is one, is sound. -/
def SoundPolicy (p : Process kernel) : Prop :=
  p.aborted = false → ∀ policy ∈ p.privileges, Sound (policy, p.world)

section Step

variable {p p' : Process kernel} {os : List PrivilegeObservation}

/-- What a minimization keeps and leaves. -/
private theorem minimize_authority (hkernel : kernel.Documented)
    (hstep : p.step .minimize = some (p', os)) :
    p'.SoundPolicy ∧ ∀ o ∈ os, AuthorityHolds p.world.credentials p'.world.credentials o := by
  simp only [step] at hstep
  split at hstep
  · rename_i haborted hprivileges
    split at hstep
    · -- the process aborted
      cases hstep
      exact ⟨nofun, by simp [AuthorityHolds]⟩
    · -- an error: there is no privilege value
      rename_i hminimize
      cases hstep
      refine ⟨fun _ => ?_, ?_⟩
      · rw [hprivileges]
        nofun
      · simpa [AuthorityHolds] using minimize_error hkernel hminimize
    · -- a privilege value whose policy is still open
      rename_i hminimize
      cases hstep
      obtain ⟨rfl, -⟩ := minimize_cases hminimize
      have hverified := minimize_ok hkernel hminimize
      refine ⟨?_, ?_⟩
      · rintro _ policy ⟨⟩
        exact ⟨nofun, nofun⟩
      · simpa [AuthorityHolds] using hverified
  · cases hstep

/-- The same for a preparation, -/
private theorem prepare_authority (hkernel : kernel.Documented)
    {backend : Except CollectorPrepareError Unit} (h : p.SoundPolicy)
    (hstep : p.step (.prepare backend) = some (p', os)) :
    p'.SoundPolicy ∧ ∀ o ∈ os, AuthorityHolds p.world.credentials p'.world.credentials o := by
  simp only [step] at hstep
  split at hstep
  · rename_i policy haborted hprivileges
    have hsound := h haborted policy hprivileges
    split at hstep
    · rename_i hprepare
      cases hstep
      obtain ⟨hcleared, hfinished⟩ :=
        (prepareCollector_spec hkernel backend).of_ok hsound hprepare
      refine ⟨?_, ?_⟩
      · rintro _ _ ⟨⟩
        exact ⟨by rw [show _ = _ from hfinished]; nofun, fun _ => hcleared⟩
      · simpa [AuthorityHolds] using hcleared
    · -- after an error the policy may be open or finished, and is sound either way
      rename_i hprepare
      cases hstep
      refine ⟨?_, by simp [AuthorityHolds]⟩
      rintro _ _ ⟨⟩
      exact (prepareCollector_spec hkernel backend).of_error hsound hprepare
  · cases hstep

/-- and for the destructor. -/
private theorem drop_authority (hkernel : kernel.Documented) (h : p.SoundPolicy)
    (hstep : p.step .drop = some (p', os)) :
    p'.SoundPolicy ∧ ∀ o ∈ os, AuthorityHolds p.world.credentials p'.world.credentials o := by
  simp only [step] at hstep
  split at hstep
  · rename_i policy haborted hprivileges
    have hsound := h haborted policy hprivileges
    split at hstep
    · cases hstep
      exact ⟨nofun, by simp [AuthorityHolds]⟩
    · -- the destructor returned, so that its policy was finished
      rename_i hdrop
      cases hstep
      refine ⟨nofun, ?_⟩
      simpa [AuthorityHolds] using finishOrAbort_cleared hkernel hsound hdrop
  · cases hstep

/-- Each use of the privileges keeps the policy sound and leaves what its outcome promises. -/
private theorem step_authority (hkernel : kernel.Documented) {action : PrivilegeAction}
    (h : p.SoundPolicy)
    (hstep : p.step action = some (p', os)) :
    p'.SoundPolicy ∧ ∀ o ∈ os, AuthorityHolds p.world.credentials p'.world.credentials o := by
  cases action with
  | minimize => exact minimize_authority hkernel hstep
  | prepare backend => exact prepare_authority hkernel h hstep
  | drop => exact drop_authority hkernel h hstep

end Step

/-- A process that has not used its privileges yet. -/
def start (w : World kernel) : Process kernel := ⟨none, w, false⟩

/-- In every life of a process, whatever its credentials, the failures of the kernel and
    the outcomes of the setup are, as long as the kernel is as documented: a failed minimization
    has changed nothing or cleared everything, a successful one has left exactly the setup
    capabilities, and after a successful preparation or a destructor that returned, everything
    is cleared. -/
theorem run_authority (hkernel : kernel.Documented) {w : World kernel} {p p' : Process kernel}
    {actions : List PrivilegeAction}
    {action : PrivilegeAction} {os os' : List PrivilegeObservation}
    (hrun : Machine.run step (start w) actions = some (p, os))
    (hstep : p.step action = some (p', os')) :
    ∀ o ∈ os', AuthorityHolds p.world.credentials p'.world.credentials o := by
  have hsound : p.SoundPolicy :=
    Machine.run_invariant (I := fun p _ => p.SoundPolicy) (h := [])
      (fun _ _ _ _ _ h _ hstep => (step_authority hkernel h hstep).1)
      (fun _ _ hnone => nomatch hnone) (Machine.along_true _ _) hrun
  exact (step_authority hkernel hsound hstep).2

/-- `CAP_CHECKPOINT_RESTORE`, the last capability that the kernel supports. -/
def checkpointRestore : Capability := ⟨40, by decide⟩

open CapabilitySet in
/-- A thread that may set up a collector. -/
def setupCredentials : Credentials checkpointRestore where
  sets := ⟨{setpcap, perfmon, bpf}, {setpcap, perfmon, bpf}, ∅⟩
  ambient := ∅
  bounding := {perfmon}
  noNewPrivs := false
  supported := by decide

/-- A kernel on which nothing fails. -/
def workingKernel : Kernel where
  last := checkpointRestore
  faults := fun _ _ => none
  tasks := fun _ => .ok [.ok ()]

/-- Such a kernel never answers `EINVAL`. -/
theorem workingKernel_documented : workingKernel.Documented := fun _ _ _ h => by cases h

/-- The thread on this kernel. -/
def workingWorld : World workingKernel := ⟨setupCredentials, 0⟩

/-- The destructor returned, and nothing else was seen. -/
def droppedOnly : List PrivilegeObservation → Bool
  | [.dropped] => true
  | _ => false

/-- This check can be evaluated. -/
private theorem eq_of_droppedOnly {os : List PrivilegeObservation} (h : droppedOnly os = true) :
    os = [.dropped] := by
  unfold droppedOnly at h
  split at h
  · rfl
  · cases h

/-- It minimizes its privileges, prepares a collector and drops the value. -/
theorem run_authority_workingWorld :
    ∃ p p' os, Machine.run step (start workingWorld) [.minimize, .prepare (.ok ())] =
        some (p, os) ∧
      p.step .drop = some (p', [.dropped]) ∧ p'.world.credentials.Cleared := by
  have hends : (Machine.run step (start workingWorld) [.minimize, .prepare (.ok ())]).any
      (fun r => (r.1.step .drop).any fun r' => droppedOnly r'.2) = true := by
    decide +kernel
  obtain ⟨⟨p, os⟩, hrun, hdrops⟩ := (Option.any_eq_true _ _).mp hends
  obtain ⟨⟨p', os'⟩, hdrop, honly⟩ := (Option.any_eq_true _ _).mp hdrops
  obtain rfl := eq_of_droppedOnly honly
  exact ⟨p, p', os, hrun, hdrop,
    run_authority workingKernel_documented hrun hdrop .dropped List.mem_cons_self⟩

/-! ## A filtered kernel -/

/-- `CAP_CHOWN`, the first capability. -/
def chown : Capability := ⟨0, by decide⟩

/-- A kernel whose first capability cannot be read, as under a filter for system calls that
    answers `EINVAL`. -/
def filteredKernel : Kernel where
  last := checkpointRestore
  faults := fun _ call => if call = .boundingRead chown then some .inval else none
  tasks := fun _ => .ok [.ok ()]

/-- The same thread on this kernel. -/
def filteredWorld : World filteredKernel := ⟨setupCredentials, 0⟩

/-- A bounding set with something in it has not been verified. -/
private theorem not_verified {last : Capability} {c : Credentials last} {expected : CapabilitySets}
    (h : c.bounding = {CapabilitySet.perfmon}) : ¬ c.Verified expected := by
  intro hverified
  rw [hverified.bounding] at h
  exact absurd h (by decide)

set_option maxRecDepth 4000 in
/-- On this kernel every operation succeeds and the bounding set stays as it was: the loops over
    the supported capabilities, that of the verification too, end before the first of them. -/
theorem filteredWorld_keeps_bounding :
    ∃ minimized prepared dropped : Process filteredKernel,
      (start filteredWorld).step .minimize = some (minimized, [.minimized (.ok ())]) ∧
      minimized.step (.prepare (.ok ())) = some (prepared, [.prepared (.ok ())]) ∧
      prepared.step .drop = some (dropped, [.dropped]) ∧
      dropped.world.credentials.bounding = {CapabilitySet.perfmon} ∧
      ¬ AuthorityHolds filteredWorld.credentials minimized.world.credentials
        (.minimized (.ok ())) ∧
      ¬ AuthorityHolds minimized.world.credentials prepared.world.credentials
        (.prepared (.ok ())) ∧
      ¬ AuthorityHolds prepared.world.credentials dropped.world.credentials .dropped := by
  refine ⟨_, _, _, rfl, rfl, rfl, rfl, not_verified ?_, not_verified ?_, not_verified ?_⟩
  · rfl
  · rfl
  · rfl

end Process

end Landlock
