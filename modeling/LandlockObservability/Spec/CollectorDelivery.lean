import LandlockObservability.ForStd.LossyQueue
import LandlockObservability.Spec.CollectorTerminal

/-!
# Delivery and loss reporting

Up to its reports at the end, the collector is a `LossyQueue` of deliveries: a
sample that found room is accepted, one that did not is omitted, and a receive call
takes the oldest result.  The contents of the abstract queue are spread over the pending
delivery and the channel, and its omission bit is in the flag, in the entry that the
worker is about to send, or in the value that it is about to store.

* `step_refines`: a step of the machine is a run of the abstract queue.
* `delivered_append_buffered`: what holds of every run.
-/

namespace Landlock

open LossyQueue (Op)

/-! ## What is observed -/

/-- What an observation means for the abstract queue. -/
def Observation.op : Observation → Option (Op Delivery)
  | accepted delivery => some (.accept delivery)
  | omitted => some .skip
  | returned .deliveries result => some (.take result)
  | returned .terminal _ => none
  | nothing _ => none

/-- The accepted deliveries, in the order of the callbacks. -/
def acceptedDeliveries (os : List Observation) : List Delivery :=
  os.filterMap fun
    | .accepted delivery => some delivery
    | _ => none

/-- What the receive calls returned, but for those that found nothing. -/
def receivedResults (os : List Observation) : List Delivery :=
  os.filterMap fun
    | .returned _ result => some result
    | _ => none

/-- What the receive calls returned from the delivery channel. -/
def deliveredResults (os : List Observation) : List Delivery :=
  LossyQueue.taken (os.filterMap Observation.op)

/-- A decoded event, or the error of a malformed sample. -/
def Delivery.isSample : Delivery → Bool
  | .ok _ => true
  | .error error => error.kind = .malformedSample

/-- The stream of results that the outcomes of the callbacks determine: each accepted
    delivery, after a notice exactly when a sample was omitted since the previous one. -/
def expectedResults (os : List Observation) : List Delivery :=
  LossyQueue.stream (.error .outputQueueFull) false (os.filterMap Observation.op)

/-! ## The abstract queue in a state -/

/-- An entry of the channel as the results that it stands for. -/
def DeliveryEntry.results (entry : DeliveryEntry) : List Delivery :=
  LossyQueue.entry (.error .outputQueueFull) entry.outputFullBefore entry.delivery

/-- The results that are ready: the pending delivery, then the channel. -/
def System.buffered (s : System) : List Delivery :=
  s.pendingDelivery.toList ++ s.deliveries.queue.flatMap DeliveryEntry.results

/-- Where the omission bit is while the worker collects. -/
def System.Tracks (s : System) (omitted : Bool) : Prop :=
  match s.worker with
  | .send entry => entry.outputFullBefore = omitted ∧ s.outputFullPending = omitted
  | .storeFlag value => value = omitted
  | worker => worker.ended = false → s.outputFullPending = omitted

/-- The decoded sample that the callback has not sent yet. -/
def WorkerPc.holding : WorkerPc → Option Delivery
  | loadFlag delivery => some delivery
  | send entry => some entry.delivery
  | _ => none

/-- The consumer is inside a receive call, past the look at the pending delivery. -/
def ConsumerPc.receiving : ConsumerPc → Bool
  | lookDeliveries _ => true
  | lookTerminal _ => true
  | waitTerminal => true
  | _ => false

/-- The state is an implementation of the abstract queue. -/
structure System.Refines (s : System) (q : LossyQueue Delivery) : Prop where
  buffered : s.buffered = q.contents
  tracks : s.Tracks q.omitted
  /-- Otherwise a receive call could overwrite a pending delivery. -/
  pending : s.consumer.receiving = true → s.pendingDelivery = none

/-! ## Steps -/

/-- The operations of the abstract queue that a list of observations stands for. -/
def LossyQueue.observe (q : LossyQueue Delivery) (os : List Observation) :
    Option (LossyQueue Delivery) :=
  (os.filterMap Observation.op).foldlM (LossyQueue.step (.error .outputQueueFull)) q

namespace System

variable {en : Endian} {s s' : System} {q : LossyQueue Delivery} {os : List Observation}

/-- A step of the worker that does not touch the channel and moves the omission bit
    along. -/
private theorem Refines.move (h : s.Refines q)
    (hqueue : s'.deliveries.queue = s.deliveries.queue)
    (hpending : s'.pendingDelivery = s.pendingDelivery) (hconsumer : s'.consumer = s.consumer)
    (htracks : s'.Tracks q.omitted) :
    ∃ q', LossyQueue.observe q [] = some q' ∧ s'.Refines q' := by
  have hbuffered : s'.buffered = s.buffered := by
    unfold System.buffered
    rw [hqueue, hpending]
  refine ⟨q, rfl, hbuffered.trans h.buffered, htracks, ?_⟩
  rw [hconsumer, hpending]
  exact h.pending

/-- The attempt to send is where a sample is accepted or omitted. -/
private theorem send_refines {entry : DeliveryEntry} (h : s.Refines q)
    (hworker : s.worker = .send entry) (hstep : work en s = some (s', os)) :
    ∃ q', LossyQueue.observe q os = some q' ∧ s'.Refines q' := by
  have htracks := h.tracks
  simp only [Tracks, hworker] at htracks
  simp only [work, hworker] at hstep
  split at hstep
  · rename_i deliveries hsend
    cases hstep
    -- The entry carries the bit that was loaded before, and nobody changed it since
    refine ⟨⟨q.contents ++ entry.results, false⟩, ?_, ?_, rfl, h.pending⟩
    · rw [DeliveryEntry.results, htracks.1]
      rfl
    · rw [← h.buffered, Channel.eq_of_trySend_ok hsend]
      simp only [buffered, List.flatMap_append, List.flatMap_cons, List.flatMap_nil,
        List.append_nil, List.append_assoc]
  · rename_i deliveries hsend
    cases hstep
    -- Full: the sample is skipped, and the bit is on its way to the flag
    rw [Channel.eq_of_trySend_ne_ok hsend (by simp)]
    exact ⟨{ q with omitted := true }, rfl, h.buffered, rfl, h.pending⟩
  · rename_i deliveries hsend
    cases hstep
    rw [Channel.eq_of_trySend_ne_ok hsend (by simp)]
    -- Disconnected: nobody will look at the queue again
    exact h.move rfl rfl rfl fun _ => htracks.2

/-- A step of the worker's own code. -/
private theorem work_refines (h : s.Refines q) (hstep : work en s = some (s', os)) :
    ∃ q', LossyQueue.observe q os = some q' ∧ s'.Refines q' := by
  cases hworker : s.worker with
  | send entry => exact send_refines h hworker hstep
  | _ =>
    have htracks := h.tracks
    simp only [Tracks, hworker, WorkerPc.ended] at htracks
    simp only [work, hworker, reduceCtorEq] at hstep
    repeat' split at hstep
    all_goals
      cases hstep
      -- Nothing but the program counter has to do with the queue
      refine h.move ?_ ?_ ?_ ?_
      · rfl
      · rfl
      · rfl
      · simp_all [Tracks, WorkerPc.ended]

/-- A callback that panics leaves the omission bit alone. -/
private theorem panicStep_refines {payload : PanicPayload} (h : s.Refines q)
    (hstep : panicStep s payload = some (s', os)) :
    ∃ q', LossyQueue.observe q os = some q' ∧ s'.Refines q' := by
  have htracks := h.tracks
  -- A panic can strike wherever the callback is
  cases hworker : s.worker
  all_goals
    simp only [Tracks, hworker, WorkerPc.ended] at htracks
    simp only [panicStep, hworker, reduceCtorEq] at hstep
  all_goals
    repeat' split at hstep
  all_goals
    cases hstep
  all_goals
    refine h.move ?_ ?_ ?_ ?_
    · rfl
    · rfl
    · rfl
    · simp_all [Tracks, WorkerPc.ended]

/-- A pending delivery is the oldest item of the abstract queue. -/
private theorem callStep_refines {call : Call} (h : s.Refines q)
    (hstep : callStep s call = some (s', os)) :
    ∃ q', LossyQueue.observe q os = some q' ∧ s'.Refines q' := by
  unfold callStep at hstep
  split at hstep
  · rename_i hconsumer
    split at hstep
    · rename_i delivery hpending
      cases hstep
      -- What waits in front of the channel is taken first
      have hcontents : q.contents = delivery ::
          s.deliveries.queue.flatMap DeliveryEntry.results := by
        rw [← h.buffered, buffered, hpending]
        rfl
      refine ⟨{ q with contents := s.deliveries.queue.flatMap DeliveryEntry.results },
        ?_, rfl, h.tracks, fun _ => rfl⟩
      simp [LossyQueue.observe, Observation.op, LossyQueue.step, hcontents]
    · rename_i hpending
      cases hstep
      exact ⟨q, rfl, h.buffered, h.tracks, fun _ => hpending⟩
  · cases hstep

/-- The oldest entry of the channel is returned, or its notice is and it stays pending. -/
private theorem unpair_refines {entry : DeliveryEntry} {queue : List DeliveryEntry}
    (h : s.Refines q) (hpending : s.pendingDelivery = none)
    (hqueue : s.deliveries.queue = entry :: queue)
    (hstep : unpair { s with deliveries := { s.deliveries with queue } } entry = (s', os)) :
    ∃ q', LossyQueue.observe q os = some q' ∧ s'.Refines q' := by
  have hcontents : q.contents = entry.results ++ queue.flatMap DeliveryEntry.results := by
    rw [← h.buffered, buffered, hpending, hqueue]
    rfl
  unfold unpair at hstep
  split at hstep
  · rename_i hfull
    cases hstep
    -- The notice is taken, and the delivery itself becomes pending
    refine ⟨⟨entry.delivery :: queue.flatMap DeliveryEntry.results, q.omitted⟩,
      ?_, rfl, h.tracks, fun hreceiving => by cases hreceiving⟩
    simp [LossyQueue.observe, Observation.op, LossyQueue.step, hcontents,
      DeliveryEntry.results, LossyQueue.entry, hfull]
  · rename_i hfull
    cases hstep
    refine ⟨{ q with contents := queue.flatMap DeliveryEntry.results }, ?_, ?_, h.tracks,
      fun hreceiving => by cases hreceiving⟩
    · simp [LossyQueue.observe, Observation.op, LossyQueue.step, hcontents,
        DeliveryEntry.results, LossyQueue.entry, hfull]
    · rw [buffered, hpending]
      rfl

/-- A step of the consumer that returns nothing from the deliveries. -/
private theorem Refines.wait (h : s.Refines q) (hos : os.filterMap Observation.op = [])
    (hdeliveries : s'.deliveries.queue = s.deliveries.queue)
    (hpending : s'.pendingDelivery = s.pendingDelivery) (hworker : s'.worker = s.worker)
    (hflag : s'.outputFullPending = s.outputFullPending)
    (hconsumer : s'.consumer.receiving = true → s.consumer.receiving = true) :
    ∃ q', LossyQueue.observe q os = some q' ∧ s'.Refines q' := by
  refine ⟨q, ?_, ?_, ?_, ?_⟩
  · rw [LossyQueue.observe, hos]
    rfl
  · rw [← h.buffered, System.buffered, System.buffered, hdeliveries, hpending]
  · have htracks := h.tracks
    unfold Tracks at htracks ⊢
    rwa [hworker, hflag]
  · rw [hpending]
    exact fun hreceiving => h.pending (hconsumer hreceiving)

/-- A look at the channels. -/
private theorem look_refines (h : s.Refines q) (hstep : look s = some (s', os)) :
    ∃ q', LossyQueue.observe q os = some q' ∧ s'.Refines q' := by
  cases hconsumer : s.consumer with
  | lookDeliveries call =>
    -- The call has passed the look at the pending delivery, so that there is none
    have hpending := h.pending (by rw [hconsumer]; rfl)
    simp only [look, hconsumer] at hstep
    split at hstep
    · rename_i entry deliveries hrecv
      obtain ⟨queue, hqueue, hdeliveries⟩ := Channel.eq_of_tryRecv_message hrecv
      rw [hdeliveries] at hstep
      exact unpair_refines h hpending hqueue (Option.some.inj hstep)
    all_goals
      split at hstep
      all_goals
        cases hstep
        exact h.wait rfl rfl rfl rfl rfl (fun _ => by rw [hconsumer]; rfl)
  | lookTerminal call =>
    simp only [look, hconsumer] at hstep
    split at hstep
    all_goals
      cases hstep
      exact h.wait rfl rfl rfl rfl rfl nofun
  | waitTerminal =>
    simp only [look, hconsumer] at hstep
    split at hstep
    all_goals
      cases hstep
      exact h.wait rfl rfl rfl rfl rfl (fun _ => by rw [hconsumer]; rfl)
  | _ =>
    simp only [look, hconsumer, reduceCtorEq] at hstep

/-- The end of a wait. -/
private theorem timeOut_refines (h : s.Refines q) (hstep : timeOut s = some (s', os)) :
    ∃ q', LossyQueue.observe q os = some q' ∧ s'.Refines q' := by
  unfold timeOut at hstep
  repeat' split at hstep
  all_goals first
    | cases hstep; done
    | cases hstep
      exact h.wait rfl rfl rfl rfl rfl (fun _ => by simp only [ConsumerPc.receiving, *])

/-- Dropping the collector. -/
private theorem dropStep_refines (h : s.Refines q) (hstep : dropStep s = some (s', os)) :
    ∃ q', LossyQueue.observe q os = some q' ∧ s'.Refines q' := by
  unfold dropStep at hstep
  split at hstep
  · cases hstep
    exact h.wait rfl rfl rfl rfl rfl nofun
  · cases hstep
    exact h.wait rfl rfl rfl rfl rfl nofun
  · cases hstep

/-- A step of the machine is a run of the abstract queue. -/
theorem step_refines {action : Action} (h : s.Refines q)
    (hstep : s.step en action = some (s', os)) :
    ∃ q', LossyQueue.observe q os = some q' ∧ s'.Refines q' := by
  cases action with
  | work => exact work_refines h hstep
  | panic payload => exact panicStep_refines h hstep
  | call call => exact callStep_refines h hstep
  | look => exact look_refines h hstep
  | timeOut => exact timeOut_refines h hstep
  | drop => exact dropStep_refines h hstep
  -- What the kernel does and the join leave the queue alone
  | _ =>
    have htracks := h.tracks
    simp only [step] at hstep
    repeat' split at hstep
    all_goals first
      | cases hstep; done
      | cases hstep
        refine h.move rfl rfl rfl ?_
        simp_all [Tracks, WorkerPc.ended]

/-! ## Accepted deliveries -/

/-- Only decoded and malformed samples are accepted. -/
structure SamplesInv (s : System) (os : List Observation) : Prop where
  holding : ∀ delivery ∈ s.worker.holding, delivery.isSample = true
  accepted : ∀ delivery, .accepted delivery ∈ os → delivery.isSample = true

/-- What the decoder makes of a sample. -/
private theorem isSample_decode (data : List UInt8) :
    Delivery.isSample ((Wire.decode en data).mapError CollectorReceiveError.malformedSample) =
      true := by
  cases Wire.decode en data <;> rfl

/-- The worker holds what it decoded, and what it accepts is what it held. -/
private theorem worker_samples {action : Action} (haction : action.isWorker = true)
    (hstep : s.step en action = some (s', os)) :
    (∀ delivery ∈ s'.worker.holding,
      delivery ∈ s.worker.holding ∨ delivery.isSample = true) ∧
    ∀ delivery, .accepted delivery ∈ os → delivery ∈ s.worker.holding := by
  cases action with
  -- Only the decoder puts something into the worker's hands
  | work =>
    cases hworker : s.worker
    all_goals
      simp only [step, work, hworker, reduceCtorEq] at hstep
    all_goals
      repeat' split at hstep
    all_goals
      cases hstep
    all_goals
      simp [WorkerPc.holding, isSample_decode]
  | panic payload =>
    cases hworker : s.worker
    all_goals
      simp only [step, panicStep, hworker, reduceCtorEq] at hstep
    all_goals
      repeat' split at hstep
    all_goals
      cases hstep
    all_goals
      simp [WorkerPc.holding]
  | _ =>
    simp only [step] at hstep
    repeat' split at hstep
    all_goals first
      | cases hstep; done
      | cases haction; done
      | cases hstep
        simp [WorkerPc.holding]

/-- One step keeps the samples apart from the notices. -/
private theorem step_samplesInv {action : Action} {before : List Observation}
    (h : SamplesInv s before)
    (hstep : s.step en action = some (s', os)) : SamplesInv s' (before ++ os) := by
  cases haction : action.isWorker with
  | true =>
    obtain ⟨hholding, haccepted⟩ := worker_samples haction hstep
    refine ⟨fun delivery hdelivery => ?_, fun delivery hdelivery => ?_⟩
    · rcases hholding delivery hdelivery with hold | hsample
      · exact h.holding delivery hold
      · exact hsample
    · rcases List.mem_append.mp hdelivery with hold | hnew
      · exact h.accepted delivery hold
      · exact h.holding delivery (haccepted delivery hnew)
  | false =>
    have hconsumer := consumer_step haction hstep
    refine ⟨?_, fun delivery hdelivery => ?_⟩
    · rw [hconsumer.worker]
      exact h.holding
    · rcases List.mem_append.mp hdelivery with hold | hnew
      · exact h.accepted delivery hold
      · exact absurd hnew (hconsumer.silent delivery)

/-! ## Runs -/

/-- A step keeps the abstract queue, the terminal channel and the samples in order. -/
structure DeliveryInv (s : System) (os : List Observation) : Prop where
  refines : ∃ q, LossyQueue.observe .empty os = some q ∧ s.Refines q
  terminal : TerminalInv s os
  samples : SamplesInv s os

/-- At the start nothing is accepted. -/
theorem prepare_deliveryInv (eventCapacity : ℕ+) : DeliveryInv (prepare eventCapacity) [] where
  refines := ⟨.empty, rfl, rfl, fun _ => rfl, fun _ => rfl⟩
  terminal := prepare_terminalInv eventCapacity
  samples := by
    refine ⟨?_, fun _ h => absurd h List.not_mem_nil⟩
    intro delivery h
    cases h

/-- One step keeps the account of the deliveries. -/
theorem step_deliveryInv {action : Action} {before : List Observation}
    (h : DeliveryInv s before) (hstep : s.step en action = some (s', os)) :
    DeliveryInv s' (before ++ os) := by
  refine ⟨?_, step_terminalInv h.terminal hstep, step_samplesInv h.samples hstep⟩
  obtain ⟨q, hq, hrefines⟩ := h.refines
  obtain ⟨q', hq', hrefines'⟩ := step_refines hrefines hstep
  refine ⟨q', ?_, hrefines'⟩
  unfold LossyQueue.observe at hq hq' ⊢
  -- The operations of the step follow those of the run before it
  rw [List.filterMap_append, List.foldlM_append, hq]
  exact hq'

/-- So does every run. -/
private theorem run_deliveryInv {eventCapacity : ℕ+} {actions : List Action}
    (hrun : run en eventCapacity actions = some (s, os)) : DeliveryInv s os :=
  Machine.run_invariant (fun _ _ _ _ _ hinv _ hstep => step_deliveryInv hinv hstep)
    (prepare_deliveryInv eventCapacity) (Machine.along_true _ _) hrun

/-- Without terminal reports, every result came from the delivery channel. -/
theorem receivedResults_eq (h : ∀ o ∈ os, ¬ o.IsTerminalReport) :
    receivedResults os = deliveredResults os := by
  induction os with
  | nil => rfl
  | cons o os ih =>
    have hrest := ih fun o' ho' => h o' (List.mem_cons_of_mem _ ho')
    cases o with
    | returned origin result =>
      cases origin with
      | terminal => exact absurd trivial (h _ List.mem_cons_self)
      | deliveries => exact congrArg (result :: ·) hrest
    | _ => exact hrest

/-- Without its notices, the expected stream is the accepted deliveries. -/
private theorem filter_stream (h : ∀ delivery, .accepted delivery ∈ os → delivery.isSample = true)
    (omitted : Bool) :
    (LossyQueue.stream (.error .outputQueueFull) omitted (os.filterMap Observation.op)).filter
      Delivery.isSample = acceptedDeliveries os := by
  induction os generalizing omitted with
  | nil => rfl
  | cons o os ih =>
    have hrest := ih fun delivery hmem => h delivery (List.mem_cons_of_mem _ hmem)
    cases o with
    | accepted delivery =>
      have hsample := h delivery List.mem_cons_self
      -- An entry is the delivery, with a notice in front or without
      have hentry : (LossyQueue.entry (.error .outputQueueFull) omitted delivery).filter
          Delivery.isSample = [delivery] := by
        have hnotice : Delivery.isSample (.error .outputQueueFull) = false := rfl
        cases omitted <;> simp [LossyQueue.entry, hsample, hnotice]
      show ((LossyQueue.entry _ omitted delivery) ++ LossyQueue.stream _ false _).filter _ =
        delivery :: acceptedDeliveries os
      rw [List.filter_append, hentry, hrest]
      rfl
    | omitted => exact hrest true
    | returned origin result =>
      cases origin with
      | deliveries => exact hrest omitted
      | terminal => exact hrest omitted
    | nothing call => exact hrest omitted

/-- In every run, what the receive calls have returned from the delivery channel and what is
    still buffered is exactly the stream that the outcomes of the callbacks determine. -/
theorem delivered_append_buffered {eventCapacity : ℕ+} {actions : List Action}
    (hrun : run en eventCapacity actions = some (s, os)) :
    deliveredResults os ++ s.buffered = expectedResults os := by
  obtain ⟨q, hq, hrefines⟩ := (run_deliveryInv hrun).refines
  rw [hrefines.buffered]
  exact LossyQueue.taken_append_contents hq

/-- Without the notices, what was returned is a first part of the accepted deliveries. -/
theorem delivered_prefix_accepted {eventCapacity : ℕ+} {actions : List Action}
    (hrun : run en eventCapacity actions = some (s, os)) :
    (deliveredResults os).filter Delivery.isSample <+: acceptedDeliveries os := by
  have hfilter := congrArg (List.filter Delivery.isSample) (delivered_append_buffered hrun)
  rw [List.filter_append, expectedResults,
    filter_stream (run_deliveryInv hrun).samples.accepted] at hfilter
  exact ⟨_, hfilter⟩

/-- As long as the worker has not ended, nothing is returned from elsewhere. -/
theorem received_eq_delivered {eventCapacity : ℕ+} {actions : List Action}
    (hrun : run en eventCapacity actions = some (s, os)) (hended : s.worker.ended = false) :
    receivedResults os = deliveredResults os := by
  apply receivedResults_eq
  intro o ho hreport
  rw [(run_deliveryInv hrun).terminal.reported o ho hreport] at hended
  cases hended

end System

end Landlock
