import LandlockObservability.Model.PrivilegeLog
import LandlockObservability.Spec.PrivilegeSafety

/-!
# Repeated preparations

What a value from `Privileges::minimize` allows: preparations can be repeated until the
capabilities are gone, and nothing but a rejection follows from then on, whatever the
outcomes of the BPF setup and of each finalization step are.

A call on a minimized value follows one script of operations up to the first one that fails
(`logAfter`), and where it stopped decides about its result and about the policy
(`prepareCalls_minimized`).  `Attempts` is the shape of a whole sequence of calls.

## Key results

- `attempts_prepareCalls`: every sequence of calls has that shape
- `prepareCalls_single_use`: single use and retries, in terms of the calls
-/

namespace Landlock

open Hoare

/-! ## Forgetting the log -/

section

variable {ε σ T : Type}

/-- The policy and the state beside the log. -/
def forgetLog (s : Policy × OperationLog × σ) : Policy × σ := (s.1, s.2.2)

/-- Keeping a log changes nothing about an operation, -/
private theorem mirrors_record (operation : Operation) (m : EStateM PrivilegeError σ Unit) :
    Mirrors forgetLog (besidePolicy (record operation m)) (besidePolicy m) := by
  rintro ⟨policy, log, s⟩
  simp only [besidePolicy, record, forgetLog]
  cases m s <;> rfl

/-- it has nothing to do with the policy, -/
private theorem mirrors_setPolicy (policy : Policy) :
    Mirrors (forgetLog (σ := σ)) (setPolicy policy) (setPolicy policy) :=
  fun _ => rfl

/-- and so it changes nothing about a finalization. -/
private theorem mirrors_finishPolicyWith (mode : FinalizationMode) (ops : FinalizationOps σ) :
    Mirrors forgetLog (finishPolicyWith mode ops.recorded) (finishPolicyWith mode ops) := by
  refine Mirrors.get_bind fun s => ?_
  obtain ⟨policy, log, t⟩ := s
  cases policy with
  | preserved => exact Mirrors.pure
  | finished => exact Mirrors.pure
  | verificationPending =>
    refine Mirrors.bind (fun s => ?_) fun _ => (mirrors_record _ _).bind fun _ =>
      mirrors_setPolicy _
    cases mode <;> rfl
  | minimized =>
    exact (mirrors_record _ _).bind fun _ => (mirrors_record _ _).bind fun _ =>
      (mirrors_record _ _).bind fun _ => (mirrors_record _ _).bind fun _ =>
      (mirrors_record _ _).bind fun _ => (mirrors_record _ _).bind fun _ =>
      (mirrors_setPolicy _).bind fun _ => (mirrors_record _ _).bind fun _ => mirrors_setPolicy _

/-- The log changes nothing: without it a call is `CollectorConfig::prepare`. -/
theorem mirrors_prepareWith (ops : FinalizationOps σ)
    (setup : EStateM CollectorPrepareError σ T) :
    Mirrors forgetLog (prepareWith ops.recorded (record .prepareBackend setup))
      (prepareWith ops setup) := by
  refine Mirrors.bind (Mirrors.adaptExcept (Mirrors.get_bind fun s => ?_)) fun _ =>
    Mirrors.bind ?_ fun prepared =>
      (mirrors_finishPolicyWith .explicit ops).adaptExcept.bind fun _ => Mirrors.pure
  · obtain ⟨policy, log, t⟩ := s
    cases policy <;> first | exact Mirrors.pure | exact Mirrors.throw
  · rintro ⟨policy, log, t⟩
    simp only [setupBeside, record, forgetLog]
    cases setup t <;> rfl

end

/-! ## One call -/

/-- What a call on a minimized value attempts, as long as nothing fails. -/
def script : List Operation :=
  [.prepareBackend, .checkThread, .clearAmbient, .checkThread, .clearBounding, .checkThread,
   .clearCapabilities, .verify]

/-- The log of a call in which the first `n` operations succeeded and the next one failed. -/
def logAfter (n : Nat) : OperationLog :=
  (script.take n).map (·, true) ++ script[n]?.toList.map (·, false)

/-- The policy that such a call leaves. -/
def policyAfter (n : Nat) : Policy :=
  if n < 7 then .minimized else if n = 7 then .verificationPending else .finished

section

variable {ε σ T : Type}

/-- One more operation of the script, at its place. -/
private theorem record_spec {n : Nat} {operation : Operation} (h : script[n]? = some operation)
    (m : EStateM ε σ T) :
    Triple (fun s : OperationLog × σ => s.1 = (script.take n).map (·, true)) (record operation m)
      (fun _ s => s.1 = (script.take (n + 1)).map (·, true)) fun _ s => s.1 = logAfter n := by
  intro s hs
  obtain ⟨log, t⟩ := s
  obtain rfl : log = (script.take n).map (·, true) := hs
  cases hm : m t with
  | ok a t' =>
    simp only [record, hm]
    rw [List.take_add_one, h]
    simp
  | error e t' =>
    simp only [record, hm, logAfter, h]
    simp

/-- The policy and the log of a call that stopped at the `n`-th operation. -/
def StoppedAt (n : Nat) (s : Policy × OperationLog × σ) : Prop :=
  s.2.1 = logAfter n ∧ s.1 = policyAfter n

/-- An operation of the script that does not change the policy. -/
private theorem scripted_spec {n : Nat} {operation : Operation} (h : script[n]? = some operation)
    (hn : n < 8) (m : EStateM PrivilegeError σ Unit) :
    Triple
      (fun s : Policy × OperationLog × σ =>
        s.2.1 = (script.take n).map (·, true) ∧ s.1 = policyAfter n)
      (besidePolicy (record operation m))
      (fun _ s => s.2.1 = (script.take (n + 1)).map (·, true) ∧ s.1 = policyAfter n)
      fun _ s => ∃ n < 8, StoppedAt n s :=
  (besidePolicy_spec (policyAfter n) (record_spec h m)).weaken (fun _ hs => hs)
    (fun _ _ hs => hs) fun _ _ hs => ⟨n, hn, hs⟩

/-- The policy that fits the operations so far is set. -/
private theorem setPolicyAfter_spec {n : Nat}
    {E : PrivilegeError → Policy × OperationLog × σ → Prop} :
    Triple (fun s : Policy × OperationLog × σ => s.2.1 = (script.take n).map (·, true))
      (setPolicy (policyAfter n))
      (fun _ s => s.2.1 = (script.take n).map (·, true) ∧ s.1 = policyAfter n) E :=
  setPolicy_spec (P := fun s : OperationLog × σ => s.1 = (script.take n).map (·, true))
    (policyAfter n)

/-- The finalization of a minimized policy, from the log of a setup that succeeded. -/
private theorem finishMinimized_logs (mode : FinalizationMode) (ops : FinalizationOps σ) :
    Triple
      (fun s : Policy × OperationLog × σ =>
        s.2.1 = (script.take 1).map (·, true) ∧ s.1 = .minimized)
      (finishPolicyWith mode ops.recorded) (fun _ => StoppedAt 8)
      fun _ s => ∃ n < 8, StoppedAt n s := by
  refine Triple.get.bind fun s => ?_
  obtain ⟨policy, log, t⟩ := s
  refine Triple.weaken (Triple.assume (P := fun s : Policy × OperationLog × σ =>
    s.2.1 = (script.take 1).map (·, true) ∧ s.1 = .minimized) (p := policy = .minimized)
    fun hpolicy => ?_) ?_ (fun _ _ h => h) (fun _ _ h => h)
  · subst hpolicy
    refine (scripted_spec (n := 1) rfl (by decide) _).bind fun _ =>
      (scripted_spec (n := 2) rfl (by decide) _).bind fun _ =>
      (scripted_spec (n := 3) rfl (by decide) _).bind fun _ =>
      (scripted_spec (n := 4) rfl (by decide) _).bind fun _ =>
      (scripted_spec (n := 5) rfl (by decide) _).bind fun _ =>
      (scripted_spec (n := 6) rfl (by decide) _).bind fun _ => ?_
    -- The capabilities are gone, and the policy says so before the verification
    refine Triple.bind ((setPolicyAfter_spec (n := 7)).weaken (fun _ h => h.1)
      (fun _ _ h => h) (fun _ _ h => h)) fun _ =>
      (scripted_spec (n := 7) rfl (by decide) _).bind fun _ => ?_
    exact (setPolicyAfter_spec (n := 8)).weaken (fun _ h => h.1) (fun _ _ h => h) (fun _ _ h => h)
  · rintro _ ⟨h, rfl⟩
    exact ⟨h, h.2⟩

/-- A call of `prepare` on a minimized value. -/
private theorem prepareMinimized_logs (ops : FinalizationOps σ)
    (setup : EStateM CollectorPrepareError σ T) :
    Triple (fun s : Policy × OperationLog × σ => s.2.1 = [] ∧ s.1 = .minimized)
      (prepareWith ops.recorded (record .prepareBackend setup)) (fun _ => StoppedAt 8)
      fun _ s => ∃ n < 8, StoppedAt n s := by
  have hsetup : Triple (fun s : Policy × OperationLog × σ => s.2.1 = [] ∧ s.1 = .minimized)
      (setupBeside (record .prepareBackend setup))
      (fun _ s => s.2.1 = (script.take 1).map (·, true) ∧ s.1 = .minimized)
      fun _ s => ∃ n < 8, StoppedAt n s := by
    rintro ⟨policy, log, t⟩ ⟨rfl, rfl⟩
    cases hm : setup t with
    | ok a t' =>
      simp only [setupBeside, record, hm]
      exact ⟨rfl, trivial⟩
    | error e t' =>
      simp only [setupBeside, record, hm]
      exact ⟨0, by decide, rfl, rfl⟩
  refine Triple.bind (Q := fun _ s => s.2.1 = [] ∧ s.1 = .minimized) ?_ fun _ =>
    hsetup.bind fun prepared => ?_
  · -- a minimized value passes the check
    rintro ⟨policy, log, t⟩ ⟨rfl, rfl⟩
    exact ⟨rfl, rfl⟩
  · refine Triple.bind (finishMinimized_logs .explicit ops).adaptExcept fun _ => ?_
    exact Triple.pure fun _ h => h

/-- The same as an equation about the first of a sequence of calls. -/
theorem prepareCalls_minimized (ops : FinalizationOps σ)
    (setup : EStateM CollectorPrepareError σ T)
    (setups : List (EStateM CollectorPrepareError σ T)) (s : σ) :
    ∃ n ≤ 8, ∃ rejected s', prepareCalls ops (setup :: setups) (.minimized, s) =
      ⟨logAfter n, decide (n = 8), rejected, policyAfter n⟩ ::
        prepareCalls ops setups (policyAfter n, s') := by
  -- The log starts empty for each call
  have hlogs := prepareMinimized_logs ops setup (.minimized, [], s) ⟨rfl, rfl⟩
  rw [prepareCalls]
  cases hcall : prepareWith ops.recorded (record .prepareBackend setup) (.minimized, [], s) with
  | ok a s' =>
    rw [hcall] at hlogs
    obtain ⟨policy, log, t⟩ := s'
    obtain ⟨hlog, hpolicy⟩ := hlogs
    obtain rfl : log = logAfter 8 := hlog
    obtain rfl : policy = policyAfter 8 := hpolicy
    exact ⟨8, le_refl 8, false, t, rfl⟩
  | error e s' =>
    rw [hcall] at hlogs
    obtain ⟨policy, log, t⟩ := s'
    obtain ⟨n, hn, hlog, hpolicy⟩ := hlogs
    obtain rfl : log = logAfter n := hlog
    obtain rfl : policy = policyAfter n := hpolicy
    have hfailed : decide (n = 8) = false := decide_eq_false (by omega)
    exact ⟨n, hn.le, _, t, by rw [hfailed]⟩

/-- A value whose capabilities are gone rejects every call, without attempting anything. -/
private theorem prepareCalls_finalized (ops : FinalizationOps σ) {policy : Policy}
    (hpolicy : policy = .verificationPending ∨ policy = .finished)
    (setups : List (EStateM CollectorPrepareError σ T)) (s : σ) :
    prepareCalls ops setups (policy, s) =
      List.replicate setups.length ⟨[], false, true, policy⟩ := by
  induction setups with
  | nil => rfl
  | cons setup setups ih =>
    have hcall : prepareWith ops.recorded (record .prepareBackend setup) (policy, [], s) =
        .error (.fromPrivilege alreadyFinalized) (policy, [], s) := by
      rcases hpolicy with rfl | rfl <;> rfl
    rw [prepareCalls, hcall, List.length_cons, List.replicate_succ, ← ih]
    simp

/-! ## Sequences of calls -/

/-- The calls on a minimized value: some that can be retried, then perhaps one that removed
    the capabilities, and only rejections after it. -/
inductive Attempts : List PrepareCall → Prop
  | nil : Attempts []
  | retry {n : Nat} {rejected : Bool} {calls : List PrepareCall} (hn : n < 7)
    (h : Attempts calls) : Attempts (⟨logAfter n, false, rejected, .minimized⟩ :: calls)
  | final {n : Nat} {rejected : Bool} (hn : n = 7 ∨ n = 8) (k : Nat) :
    Attempts (⟨logAfter n, decide (n = 8), rejected, policyAfter n⟩ ::
      List.replicate k ⟨[], false, true, policyAfter n⟩)

/-- The calls have this shape. -/
theorem attempts_prepareCalls (ops : FinalizationOps σ)
    (setups : List (EStateM CollectorPrepareError σ T)) (s : σ) :
    Attempts (prepareCalls ops setups (.minimized, s)) := by
  induction setups generalizing s with
  | nil => exact .nil
  | cons setup setups ih =>
    obtain ⟨n, hn, rejected, s', hcalls⟩ := prepareCalls_minimized ops setup setups s
    rw [hcalls]
    -- The capabilities are the seventh operation
    by_cases hretry : n < 7
    · have hpolicy : policyAfter n = .minimized := if_pos hretry
      have hfailed : decide (n = 8) = false := decide_eq_false (by omega)
      rw [hpolicy, hfailed]
      exact .retry hretry (ih s')
    · have hend : n = 7 ∨ n = 8 := by omega
      rw [prepareCalls_finalized ops (by rcases hend with rfl | rfl <;> simp [policyAfter])]
      exact .final hend _

end

/-- The call removed the capabilities. -/
def PrepareCall.Removes (call : PrepareCall) : Prop := (.clearCapabilities, true) ∈ call.log

/-- The operations that change credentials. -/
def Operation.changesCredentials : Operation → Bool
  | clearAmbient | clearBounding | clearCapabilities => true
  | _ => false

/-- Credentials are changed only directly after a check of the thread that succeeded. -/
def OperationLog.Guarded (log : OperationLog) : Prop :=
  ∀ before operation outcome after, log = before ++ (operation, outcome) :: after →
    operation.changesCredentials = true → before.getLast? = some (.checkThread, true)

/-- The capabilities are gone past the seventh operation. -/
private theorem removes_logAfter : ∀ n ≤ 8, (.clearCapabilities, true) ∈ logAfter n ↔ 7 ≤ n := by
  decide

/-- All eight operations have succeeded only at the end. -/
private theorem allSucceeded_logAfter : ∀ n ≤ 8, (∀ o ∈ logAfter n, o.2 = true) ↔ n = 8 := by
  decide

/-- Every change of the credentials follows a count of the threads. -/
private theorem guarded_logAfter {n : Nat} (hn : n ≤ 8) : OperationLog.Guarded (logAfter n) := by
  -- The same by places, for which there are finitely many cases
  have hplaces : ∀ n ≤ 8, ∀ i < 8,
      (logAfter n)[i]?.any (fun o => o.1.changesCredentials) = true →
        0 < i ∧ (logAfter n)[i - 1]? = some (.checkThread, true) := by
    decide
  have hlength : ∀ n ≤ 8, (logAfter n).length ≤ 8 := by decide
  intro before operation outcome after hlog hchanges
  have hlt : before.length < 8 := by
    have hle := hlength n hn
    rw [hlog, List.length_append, List.length_cons] at hle
    omega
  have hplace := hplaces n hn before.length hlt
  rw [hlog] at hplace
  obtain ⟨hpos, hprevious⟩ := hplace (by simp [hchanges])
  rw [List.getElem?_append_left (by omega)] at hprevious
  rw [List.getLast?_eq_getElem?, hprevious]

/-- What the shape of the calls means for one of them, given those before it. -/
theorem Attempts.call {calls before after : List PrepareCall} {call : PrepareCall}
    (h : Attempts calls) (hcalls : calls = before ++ call :: after) :
    OperationLog.Guarded call.log ∧
    ((∀ c ∈ before, ¬ c.Removes) → (¬ call.Removes → call.policy = .minimized) ∧
      ((∀ o ∈ call.log, o.2 = true) → call.succeeded = true)) ∧
    (call.Removes → ∀ c ∈ after, c.succeeded = false ∧ c.rejected = true ∧ c.log = []) := by
  induction h generalizing before with
  | nil => simp at hcalls
  | @retry n rejected calls hn _ ih =>
    cases before with
    | nil =>
      obtain ⟨rfl, rfl⟩ := List.cons.inj hcalls
      refine ⟨guarded_logAfter (by omega), fun _ => ⟨fun _ => rfl, fun hall => ?_⟩,
        fun hremoves => ?_⟩
      · have := (allSucceeded_logAfter n (by omega)).mp hall
        omega
      · have := (removes_logAfter n (by omega)).mp hremoves
        omega
    | cons first before =>
      obtain ⟨rfl, hrest⟩ := List.cons.inj hcalls
      obtain ⟨hguarded, hretry, hremoves⟩ := ih hrest
      exact ⟨hguarded, fun hbefore => hretry fun c hc => hbefore c (List.mem_cons_of_mem _ hc),
        hremoves⟩
  -- Behind the last attempt all calls are rejected
  | @final n rejected hn k =>
    have hle : n ≤ 8 := by omega
    have hremoved : (.clearCapabilities, true) ∈ logAfter n :=
      (removes_logAfter n hle).mpr (by omega)
    cases before with
    | nil =>
      obtain ⟨rfl, rfl⟩ := List.cons.inj hcalls
      refine ⟨guarded_logAfter hle, fun _ => ⟨fun hkept => absurd hremoved hkept,
        fun hall => ?_⟩, fun _ c hc => ?_⟩
      · exact decide_eq_true ((allSucceeded_logAfter n hle).mp hall)
      · obtain ⟨-, rfl⟩ := List.mem_replicate.mp hc
        exact ⟨rfl, rfl, rfl⟩
    | cons first before =>
      obtain ⟨rfl, hrest⟩ := List.cons.inj hcalls
      have hmem : call ∈ before ++ call :: after :=
        List.mem_append_right before List.mem_cons_self
      rw [show before ++ call :: after = _ from hrest.symm] at hmem
      obtain ⟨-, rfl⟩ := List.mem_replicate.mp hmem
      refine ⟨fun b operation outcome a hlog => by simp at hlog,
        fun hbefore => absurd hremoved (hbefore _ List.mem_cons_self), fun hremoves => ?_⟩
      exact absurd hremoves List.not_mem_nil

/-- At most one of the calls returns `Ok`. -/
private theorem Attempts.succeeded_le {calls : List PrepareCall} (h : Attempts calls) :
    (calls.filter fun c => c.succeeded).length ≤ 1 := by
  induction h with
  | nil => exact Nat.zero_le 1
  | retry _ _ ih => simpa using ih
  | @final n rejected hn k =>
    have hrest : (List.replicate k (⟨[], false, true, policyAfter n⟩ : PrepareCall)).filter
        (fun c => c.succeeded) = [] := by simp
    rw [List.filter_cons, hrest]
    split <;> simp

/-- Dropping a value whose verification is pending repeats the verification only. -/
private theorem dropLog_verificationPending {σ : Type} (ops : FinalizationOps σ) (s : σ) :
    ∃ outcome, dropLog ops .verificationPending s = [(.verify, outcome)] := by
  have hfinish : finishPolicyWith .cleanup ops.recorded (.verificationPending, [], s) =
      EStateM.bind (besidePolicy (record .verify ops.verify)) (fun _ => setPolicy .finished)
        (.verificationPending, [], s) := rfl
  rw [dropLog, hfinish]
  -- Whatever the verification says, nothing else is tried
  cases hverify : ops.verify s with
  | ok a s' =>
    refine ⟨true, ?_⟩
    simp only [EStateM.bind, besidePolicy, record, hverify]
    rfl
  | error e s' =>
    refine ⟨false, ?_⟩
    simp only [EStateM.bind, besidePolicy, record, hverify]
    rfl

/-- A minimized value is single-use, and can be retried exactly until its capabilities are
    removed, for all outcomes of the BPF setup and of each finalization step. -/
theorem prepareCalls_single_use {σ T : Type} (ops : FinalizationOps σ)
    (setups : List (EStateM CollectorPrepareError σ T)) (s : σ) :
    (∀ (kernel : Kernel) (w w' : World kernel) policy,
      minimize w = some (.ok policy, w') → policy = .minimized) ∧
    ((prepareCalls ops setups (.minimized, s)).filter fun c => c.succeeded).length ≤ 1 ∧
    (∀ before call after, prepareCalls ops setups (.minimized, s) = before ++ call :: after →
      OperationLog.Guarded call.log ∧
      ((∀ c ∈ before, ¬ c.Removes) → (¬ call.Removes → call.policy = .minimized) ∧
        ((∀ o ∈ call.log, o.2 = true) → call.succeeded = true)) ∧
      (call.Removes → ∀ c ∈ after, c.succeeded = false ∧ c.rejected = true ∧ c.log = [])) ∧
    ∀ s, ∃ outcome, dropLog ops .verificationPending s = [(.verify, outcome)] := by
  have hattempts := attempts_prepareCalls ops setups s
  refine ⟨fun kernel w w' policy hminimize => (minimize_cases hminimize).1, hattempts.succeeded_le,
    fun before call after hcalls => ?_, dropLog_verificationPending ops⟩
  exact hattempts.call hcalls

end Landlock
