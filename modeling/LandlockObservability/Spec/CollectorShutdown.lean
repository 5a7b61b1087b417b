import LandlockObservability.Spec.CollectorTerminal
import LandlockObservability.Spec.SampleAccounting

/-!
# Shutting a collector down

Dropping a collector clears `running`, and nothing sets it again.  From then on the worker
only goes forward to its end: a callback that has not yet looked at the flag rejects its
sample, a rejected sample ends the poll, and the poll is the last one.  `WorkerPc.remaining`
counts the steps that are left in the worst case.

A thread that joins the worker therefore waits for the poll that is going on and for a fixed
number of steps, whatever the ring buffer holds.

* `work_stopped`, `panicStep_stopped`: a step of the worker lowers `remaining`
* `step_stopped`: no step sets `running` or raises `remaining`
* `worker_enabled`: a worker that has not ended can take a step
* `shutdown_completes`: what holds after a collector was dropped
-/

namespace Landlock

/-- The most steps that are left to the worker once `running` is cleared. -/
def WorkerPc.remaining : WorkerPc → Nat
  -- A callback that has passed its check delivers its sample, and the next one is rejected
  | decode _ => 16
  | loadFlag _ => 15
  | send _ => 14
  | storeFlag _ => 13
  | polling => 12
  | deliver _ => 11
  | stopRunning => 11
  | rejected => 10
  | polled _ => 9
  | swapFlag _ => 8
  | checkFlag _ => 8
  | created => 7
  | sendOmission _ => 7
  | loop => 6
  | checkRunning _ => 6
  | sendReport _ => 6
  | dropResources _ => 5
  | dropTerminal _ => 4
  | dropDeliveries _ => 3
  | reportPanic _ => 2
  | unrunTerminal => 2
  | dropTerminalPanic => 1
  | unrunResources => 1
  | done => 0

/-- What a callback that has passed its check is about to deliver. -/
def WorkerPc.inHand (en : Endian) : WorkerPc → List Delivery
  | decode data => [deliveryOf en data]
  | loadFlag delivery => [delivery]
  | send entry => [entry.delivery]
  | _ => []

/-- A worker that is to stop has 16 steps left at most. -/
private theorem WorkerPc.remaining_le (pc : WorkerPc) : pc.remaining ≤ 16 := by
  cases pc <;> simp [remaining]

/-- What the callback is about to deliver is the decoding of the sample in its hands. -/
private theorem WorkerPc.Holds.inHand_eq {en : Endian} {pc : WorkerPc} {held : List (List UInt8)}
    (h : pc.Holds en held) :
    pc.inHand en = [] ∨ ∃ data, held = [data] ∧ pc.inHand en = [deliveryOf en data] := by
  cases pc with
  | decode data => exact .inr ⟨data, h, rfl⟩
  | loadFlag delivery =>
    obtain ⟨data, hheld, rfl⟩ := h
    exact .inr ⟨data, hheld, rfl⟩
  | send entry =>
    obtain ⟨data, hheld, hdelivery⟩ := h
    exact .inr ⟨data, hheld, congrArg (fun delivery => [delivery]) hdelivery⟩
  | _ => exact .inl rfl

namespace System

variable {en : Endian} {s s' : System} {action : Action} {os : List Observation}

open scoped List

/-- What a step of either thread does once `running` is cleared. -/
structure StoppedStep (en : Endian) (s s' : System) (action : Action) (os : List Observation) :
    Prop where
  running : s'.running = false
  remaining : s'.worker.remaining + action.isWorker.toNat ≤ s.worker.remaining
  accepts : acceptedDeliveries os ++ s'.worker.inHand en <+ s.worker.inHand en

/-- A step of the worker's own code brings it closer to its end. -/
private theorem work_stopped (hrunning : s.running = false) (hstep : work en s = some (s', os)) :
    StoppedStep en s s' .work os := by
  cases hworker : s.worker with
  | decode data =>
    simp only [work, hworker] at hstep
    cases hstep
    refine ⟨hrunning, by simp [hworker, WorkerPc.remaining, Action.isWorker], ?_⟩
    rw [hworker]
    exact List.Sublist.refl _
  | dropDeliveries panic =>
    -- Its successor depends on the panic, so the case is split before the step is unfolded
    cases panic with
    | none =>
      simp only [work, hworker] at hstep
      cases hstep
      exact ⟨hrunning, by simp [hworker, WorkerPc.remaining, Action.isWorker],
        by simp [hworker, WorkerPc.inHand, acceptedDeliveries]⟩
    | some payload =>
      simp only [work, hworker] at hstep
      cases hstep
      exact ⟨hrunning, by simp [hworker, WorkerPc.remaining, Action.isWorker],
        by simp [hworker, WorkerPc.inHand, acceptedDeliveries]⟩
  | _ =>
    simp only [work, hworker, hrunning, reduceCtorEq] at hstep
    repeat' split at hstep
    -- Branches that need `running` are gone; the others are compared by the table
    all_goals first
      | cases hstep; done
      | contradiction
      | cases hstep
        exact ⟨by first | exact hrunning | rfl,
          by simp [hworker, WorkerPc.remaining, Action.isWorker],
          by simp [hworker, WorkerPc.inHand, acceptedDeliveries]⟩

/-- So does a panic. -/
private theorem panicStep_stopped {payload : PanicPayload} (hrunning : s.running = false)
    (hstep : panicStep s payload = some (s', os)) :
    StoppedStep en s s' (.panic payload) os := by
  unfold panicStep at hstep
  split at hstep
  all_goals first
    | cases hstep; done
    | rename_i hworker
      cases hstep
      exact ⟨hrunning, by simp [hworker, WorkerPc.remaining, Action.isWorker],
        by simp [hworker, WorkerPc.inHand, acceptedDeliveries]⟩

/-- The consumer only clears `running`. -/
private theorem running_of_consumer (haction : action.isWorker = false)
    (hrunning : s.running = false) (hstep : s.step en action = some (s', os)) :
    s'.running = false := by
  cases action
  all_goals
    simp only [step, callStep, look, unpair, timeOut, dropStep] at hstep
    repeat' split at hstep
  all_goals first
    | cases hstep; done
    | cases haction; done
    | cases hstep
      first | exact hrunning | rfl

/-- No step sets `running`, and only steps of the worker count against it. -/
theorem step_stopped (hrunning : s.running = false) (hstep : s.step en action = some (s', os)) :
    StoppedStep en s s' action os := by
  cases haction : action.isWorker with
  | false =>
    -- The consumer neither moves the worker nor accepts anything
    have hconsumer := consumer_step haction hstep
    have haccepted : acceptedDeliveries os = [] := by
      refine List.filterMap_eq_nil_iff.mpr fun o ho => ?_
      cases o with
      | accepted delivery => exact absurd ho (hconsumer.silent delivery)
      | _ => rfl
    exact ⟨running_of_consumer haction hrunning hstep,
      by simp [haction, hconsumer.worker], by simp [haccepted, hconsumer.worker]⟩
  | true =>
    cases action with
    | work => exact work_stopped hrunning hstep
    | panic payload => exact panicStep_stopped hrunning hstep
    | sample data =>
      simp only [step] at hstep
      split at hstep
      · rename_i hworker
        cases hstep
        exact ⟨hrunning, by simp [hworker, WorkerPc.remaining, Action.isWorker],
          by simp [hworker, WorkerPc.inHand, acceptedDeliveries]⟩
      · cases hstep
    | pollReturns result =>
      simp only [step] at hstep
      repeat' split at hstep
      all_goals first
        | cases hstep; done
        | cases hstep
          exact ⟨hrunning, by simp_all [WorkerPc.remaining, Action.isWorker],
            by simp_all [WorkerPc.inHand, acceptedDeliveries]⟩
    | abandon =>
      simp only [step] at hstep
      split at hstep
      · rename_i hworker
        cases hstep
        exact ⟨hrunning, by simp [hworker, WorkerPc.remaining, Action.isWorker],
          by simp [hworker, WorkerPc.inHand, acceptedDeliveries]⟩
      · cases hstep
    | _ => cases haction

/-- Outside a poll the worker never waits: not for room in a channel, and not for the
    consumer. -/
private theorem isSome_work (en : Endian) (hpolling : s.worker ≠ .polling)
    (hrejected : s.worker ≠ .rejected) (hdone : s.worker ≠ .done) : (work en s).isSome := by
  unfold work
  repeat' split
  all_goals first
    | rfl
    | contradiction

/-- A worker that has not ended can take a step.  Inside a poll this is the poll's return,
    for which the worker waits at most as long as the poll's timeout. -/
theorem worker_enabled (en : Endian) (hdone : s.worker ≠ .done) :
    ∃ action s' os, action.isWorker = true ∧ s.step en action = some (s', os) := by
  by_cases hpolling : s.worker = .polling
  · refine ⟨.pollReturns (.ok ()), { s with worker := .polled (.ok ()) }, [], rfl, ?_⟩
    simp only [step, hpolling]
  by_cases hrejected : s.worker = .rejected
  · -- a poll whose callback returned -1 ends with an error
    refine ⟨.pollReturns (.error ⟨0⟩), { s with worker := .polled (.error ⟨0⟩) }, [], rfl, ?_⟩
    simp only [step, hrejected]
  obtain ⟨⟨s', os⟩, hwork⟩ := Option.isSome_iff_exists.mp (isSome_work en hpolling hrejected hdone)
  exact ⟨.work, s', os, rfl, hwork⟩

/-! ## Runs -/

/-- Whoever drops the collector clears `running` first. -/
def DroppedInv (s : System) : Prop :=
  s.consumer = .dropping ∨ s.consumer = .dropped → s.running = false

/-- A collector that is dropped has told its worker to stop. -/
private theorem step_droppedInv (hinv : s.DroppedInv) (hstep : s.step en action = some (s', os)) :
    s'.DroppedInv := by
  intro hdropped
  cases haction : action.isWorker with
  | true =>
    rw [(worker_step haction hstep).consumer] at hdropped
    exact (step_stopped (hinv hdropped) hstep).running
  | false =>
    cases action
    all_goals
      simp only [step, callStep, look, unpair, timeOut, dropStep] at hstep
      repeat' split at hstep
    all_goals first
      | cases hstep; done
      | cases haction; done
      | cases hstep
        simp_all [DroppedInv]

/-- This holds in every run. -/
private theorem run_droppedInv {eventCapacity : ℕ+} {actions : List Action}
    (hrun : run en eventCapacity actions = some (s, os)) : s.DroppedInv :=
  Machine.run_invariant (I := fun s _ => s.DroppedInv)
    (fun _ _ _ _ _ hinv _ hstep => step_droppedInv hinv hstep)
    (h := []) (by simp [DroppedInv, prepare]) (Machine.along_true _ _) hrun

/-- Once `running` is cleared, only what the callback was about to deliver is accepted. -/
private theorem accepted_of_stopped {later : List Action} (hrunning : s.running = false)
    (hlater : Machine.run (System.step en) s later = some (s', os)) :
    acceptedDeliveries os <+ s.worker.inHand en := by
  -- What was accepted and what is in the worker's hands was in its hands at first
  have hinv := Machine.run_invariant
    (I := fun t os => t.running = false ∧
      acceptedDeliveries os ++ t.worker.inHand en <+ s.worker.inHand en)
    (fun t os _ t' os' hinv _ hstep => by
      have hstopped := step_stopped hinv.1 hstep
      refine ⟨hstopped.running, ?_⟩
      rw [acceptedDeliveries, List.filterMap_append, List.append_assoc]
      exact (hstopped.accepts.append_left _).trans hinv.2)
    (h := []) ⟨hrunning, List.Sublist.refl _⟩ (Machine.along_true _ _) hlater
  exact (List.sublist_append_left _ _).trans hinv.2

/-- The first half of `drop` clears `running`, and the second half finds it cleared. -/
private theorem running_of_drop {t : System} (hinv : s.DroppedInv)
    (hdrop : s.step en .drop = some (t, os)) : t.running = false := by
  simp only [step, dropStep] at hdrop
  split at hdrop
  · cases hdrop
    rfl
  · rename_i hdropping
    cases hdrop
    exact hinv (.inl hdropping)
  · cases hdrop

/-- Shutdown completes.  Whatever happened before the collector is dropped, and however the
    threads and the ring buffer go on afterwards: the worker takes at most sixteen more steps,
    it can take one until it has ended, and it accepts nothing but what its callback was about
    to deliver, which is the decoding of the last sample before the drop or nothing. -/
theorem shutdown_completes {eventCapacity : ℕ+} {before later : List Action} {t u : System}
    {os₁ os₂ os₃ : List Observation} (hbefore : run en eventCapacity before = some (s, os₁))
    (hdrop : s.step en .drop = some (t, os₂))
    (hlater : Machine.run (System.step en) t later = some (u, os₃)) :
    later.countP Action.isWorker ≤ 16 ∧
      (u.worker = .done ∨
        ∃ action u' os, action.isWorker = true ∧ u.step en action = some (u', os)) ∧
      acceptedDeliveries os₃ <+ t.worker.inHand en ∧
      (t.worker.inHand en = [] ∨ ∃ data, (samples before).getLast? = some data ∧
        t.worker.inHand en = [deliveryOf en data]) := by
  have hrunning : t.running = false := running_of_drop (run_droppedInv hbefore) hdrop
  refine ⟨?_, ?_, accepted_of_stopped hrunning hlater, ?_⟩
  · -- every step of the worker uses up one of the remaining ones
    have hcount := Machine.run_countP_le (I := fun s : System => s.running = false)
      (fun s => s.worker.remaining) Action.isWorker
      (fun _ _ _ _ hstopped hstep =>
        ⟨(step_stopped hstopped hstep).running, (step_stopped hstopped hstep).remaining⟩)
      hrunning hlater
    have hbound : t.worker.remaining ≤ 16 := WorkerPc.remaining_le t.worker
    omega
  · by_cases hdone : u.worker = .done
    · exact .inl hdone
    · exact .inr (worker_enabled en hdone)
  · -- `drop` does not move the worker, which holds the last sample if any
    obtain ⟨settled, held, hsamples, -, hholds⟩ := run_accounts hbefore
    rw [(consumer_step rfl hdrop).worker]
    rcases hholds.inHand_eq with hnone | ⟨data, rfl, hdata⟩
    · exact .inl hnone
    · exact .inr ⟨data, by rw [hsamples, List.getLast?_concat], hdata⟩

/-- The collector is dropped while the callback holds a sample. -/
def beforeDrop : List Action := [.work, .work, .sample [], .work]

/-- The sample is still accepted; the next one is rejected, which ends the poll and the
    worker. -/
def afterDrop : List Action :=
  List.replicate 4 .work ++ [.sample [0], .work, .pollReturns (.error ⟨-4⟩)] ++
    List.replicate 6 .work

/-- A collector is dropped while its callback has a sample to decode. -/
theorem afterDrop_completes :
    ∃ s t u os₁ os₂ os₃, run .little 1 beforeDrop = some (s, os₁) ∧
      s.step .little .drop = some (t, os₂) ∧
      Machine.run (System.step .little) t afterDrop = some (u, os₃) ∧
      u.worker = .done ∧ afterDrop.countP Action.isWorker ≤ 16 ∧
      acceptedDeliveries os₃ = [deliveryOf .little []] ∧
      acceptedDeliveries os₃ <+ t.worker.inHand .little ∧
      t.worker.inHand .little = [deliveryOf .little []] := by
  have hrun : ∃ s t u os₁ os₂ os₃, run .little 1 beforeDrop = some (s, os₁) ∧
      s.step .little .drop = some (t, os₂) ∧
      Machine.run (System.step .little) t afterDrop = some (u, os₃) ∧ u.worker = .done ∧
      acceptedDeliveries os₃ = [deliveryOf .little []] :=
    ⟨_, _, _, _, _, _, rfl, rfl, rfl, rfl, rfl⟩
  obtain ⟨s, t, u, os₁, os₂, os₃, hbefore, hdrop, hlater, hdone, haccepted⟩ := hrun
  obtain ⟨hcount, -, hsublist, hheld⟩ := shutdown_completes hbefore hdrop hlater
  refine ⟨s, t, u, os₁, os₂, os₃, hbefore, hdrop, hlater, hdone, hcount, haccepted, hsublist, ?_⟩
  -- The sample in hand is the one that was accepted late
  rcases hheld with hnone | ⟨data, hlast, hdata⟩
  · rw [haccepted, hnone] at hsublist
    exact absurd hsublist (by simp)
  · cases hlast
    exact hdata

end System

end Landlock
