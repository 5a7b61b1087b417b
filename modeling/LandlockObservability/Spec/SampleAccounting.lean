import LandlockObservability.Spec.CollectorDelivery
import LandlockObservability.Spec.PathCapture
import Mathlib.Data.List.Forall2

/-!
# An account of every sample

Between the ring buffer and the consumer a sample can be accepted, omitted for a full
channel, or be the one that the callback is busy with; a worker that stops may leave that
one behind.  Nothing else happens to a sample, in any interleaving.

So the consumer learns of every gap in time: as long as no receive call has returned an
error, what it has received is exactly the first samples of the ring buffer, decoded and in
order.

* `worker_holds`: what a step of the worker does to the sample in its hands
* `run_accounts`: every sample is settled, or in the worker's hands
* `run_delivers_stream`: what becomes of the samples and what is received, in every run
* `received_without_gap`: no error, no gap
-/

namespace Landlock

/-- What the callback makes of a sample. -/
def deliveryOf (en : Endian) (data : List UInt8) : Delivery :=
  (Wire.decode en data).mapError .malformedSample

/-- A record of the kernel side is delivered as its event. -/
theorem deliveryOf_encode (en : Endian) (event : Event) :
    deliveryOf en (Producer.encode en event) = .ok event := by
  rw [deliveryOf, Producer.decode_encode]
  rfl

/-- The samples that the ring buffer passes to the callback. -/
def samples (actions : List Action) : List (List UInt8) :=
  actions.filterMap fun
    | .sample data => some data
    | _ => none

/-- What became of the samples: accepted as something, or omitted. -/
def outcomes (os : List Observation) : List (Option Delivery) :=
  os.filterMap fun
    | .accepted delivery => some (some delivery)
    | .omitted => some none
    | _ => none

/-- A sample is omitted, or accepted as what it decodes to. -/
def Settles (en : Endian) (data : List UInt8) (outcome : Option Delivery) : Prop :=
  outcome = none ∨ outcome = some (deliveryOf en data)

/-- The samples, at most one, that the worker has been given and has not settled. -/
def WorkerPc.Holds (en : Endian) : WorkerPc → List (List UInt8) → Prop
  | created, held => held = []
  | loop, held => held = []
  | polling, held => held = []
  | storeFlag _, held => held = []
  | polled (.ok ()), held => held = []
  | deliver data, held => held = [data]
  | decode data, held => held = [data]
  | loadFlag delivery, held => ∃ data, held = [data] ∧ delivery = deliveryOf en data
  | send entry, held => ∃ data, held = [data] ∧ entry.delivery = deliveryOf en data
  -- A worker on its way to the end may have left a sample behind
  | _, held => held.length ≤ 1

/-- Samples come one after the other, -/
private theorem samples_append (as bs : List Action) :
    samples (as ++ bs) = samples as ++ samples bs :=
  List.filterMap_append

/-- and so do their outcomes. -/
private theorem outcomes_append (os os' : List Observation) :
    outcomes (os ++ os') = outcomes os ++ outcomes os' :=
  List.filterMap_append

/-- The worker has its hands on one sample at most. -/
theorem WorkerPc.Holds.length_le {en : Endian} {pc : WorkerPc} {held : List (List UInt8)}
    (h : pc.Holds en held) : held.length ≤ 1 := by
  unfold Holds at h
  split at h
  all_goals first
    | exact h
    | simp [h]
    | obtain ⟨data, hheld, -⟩ := h
      simp [hheld]

namespace System

variable {en : Endian} {s s' : System} {action : Action} {os : List Observation}
  {held : List (List UInt8)}

/-- What a step does to the sample in the worker's hands. -/
inductive Handles (en : Endian) (held : List (List UInt8)) (action : Action)
    (os : List Observation) : List (List UInt8) → Prop
  | keeps (hsamples : samples [action] = []) (houtcomes : outcomes os = []) :
    Handles en held action os held
  | given (data : List UInt8) (hheld : held = []) (hsamples : samples [action] = [data])
    (houtcomes : outcomes os = []) : Handles en held action os [data]
  | settles (data : List UInt8) (outcome : Option Delivery) (hheld : held = [data])
    (hsamples : samples [action] = []) (houtcomes : outcomes os = [outcome])
    (hsettles : Settles en data outcome) : Handles en held action os []

/-- What a step of the worker's own code does to the sample. -/
private theorem work_holds (hholds : s.worker.Holds en held)
    (hstep : work en s = some (s', os)) :
    ∃ held', Handles en held .work os held' ∧ s'.worker.Holds en held' := by
  cases hworker : s.worker with
  | decode data =>
    simp only [work, hworker] at hstep hholds
    cases hstep
    exact ⟨held, .keeps rfl rfl, data, hholds, rfl⟩
  | loadFlag delivery =>
    simp only [work, hworker] at hstep hholds
    cases hstep
    exact ⟨held, .keeps rfl rfl, hholds⟩
  | send entry =>
    simp only [work, hworker] at hstep hholds
    obtain ⟨data, hheld, hdelivery⟩ := hholds
    split at hstep
    · cases hstep
      exact ⟨[], .settles data (some entry.delivery) hheld rfl rfl
        (.inr (congrArg some hdelivery)), rfl⟩
    · -- the channel is full: the sample is omitted
      cases hstep
      exact ⟨[], .settles data none hheld rfl rfl (.inl rfl), rfl⟩
    · -- nobody receives: the sample is left behind
      cases hstep
      exact ⟨held, .keeps rfl rfl, by rw [hheld]; exact Nat.le_refl 1⟩
  | polled result =>
    cases result with
    | ok done =>
      simp only [work, hworker] at hstep hholds
      change held = [] at hholds
      split at hstep
      all_goals
        cases hstep
        exact ⟨held, .keeps rfl rfl, by simp [hholds, WorkerPc.Holds]⟩
    | error error =>
      simp only [work, hworker] at hstep hholds
      change held.length ≤ 1 at hholds
      split at hstep
      all_goals
        cases hstep
        exact ⟨held, .keeps rfl rfl, hholds⟩
  | deliver data =>
    simp only [work, hworker] at hstep hholds
    change held = [data] at hholds
    split at hstep
    · cases hstep
      exact ⟨held, .keeps rfl rfl, hholds⟩
    · -- the collector is shutting down: the callback does not look at the sample
      cases hstep
      exact ⟨held, .keeps rfl rfl, by rw [hholds]; exact Nat.le_refl 1⟩
  | dropDeliveries panic =>
    cases panic with
    | _ =>
      simp only [work, hworker] at hstep hholds
      cases hstep
      exact ⟨held, .keeps rfl rfl, hholds⟩
  | _ =>
    simp only [work, hworker, reduceCtorEq] at hstep hholds
    repeat' split at hstep
    all_goals first
      | cases hstep; done
      | cases hstep
        exact ⟨held, .keeps rfl rfl, by first | exact hholds | simp_all [WorkerPc.Holds]⟩

/-- Every action of the worker keeps, gets or settles a sample. -/
theorem worker_holds (haction : action.isWorker = true) (hholds : s.worker.Holds en held)
    (hstep : s.step en action = some (s', os)) :
    ∃ held', Handles en held action os held' ∧ s'.worker.Holds en held' := by
  cases action with
  | work => exact work_holds hholds hstep
  | sample data =>
    simp only [step] at hstep
    split at hstep
    · rename_i hworker
      rw [hworker] at hholds
      cases hstep
      exact ⟨[data], .given data hholds rfl rfl, rfl⟩
    · cases hstep
  | pollReturns result =>
    simp only [step] at hstep
    split at hstep
    · rename_i hworker
      rw [hworker] at hholds
      change held = [] at hholds
      cases hstep
      refine ⟨held, .keeps rfl rfl, ?_⟩
      cases result <;> simp [hholds, WorkerPc.Holds]
    · rename_i hworker
      rw [hworker] at hholds
      split at hstep
      · cases hstep
        exact ⟨held, .keeps rfl rfl, hholds⟩
      · cases hstep
    · cases hstep
  | panic payload =>
    simp only [step, panicStep] at hstep
    split at hstep
    all_goals first
      | cases hstep; done
      | cases hstep
        exact ⟨held, .keeps rfl rfl, hholds.length_le⟩
  | abandon =>
    simp only [step] at hstep
    split at hstep
    · cases hstep
      exact ⟨held, .keeps rfl rfl, hholds.length_le⟩
    · cases hstep
  | _ => cases haction

/-- The consumer has nothing to do with samples. -/
private theorem consumer_holds (haction : action.isWorker = false)
    (hstep : s.step en action = some (s', os)) : Handles en held action os held := by
  have hsamples : samples [action] = [] := by
    cases action <;> first | rfl | cases haction
  refine .keeps hsamples ?_
  cases action
  all_goals
    simp only [step, callStep, look, unpair, timeOut, dropStep] at hstep
    repeat' split at hstep
  all_goals first
    | cases hstep; done
    | cases haction; done
    | cases hstep
      rfl

/-! ## Runs -/

/-- The samples so far: those with an outcome, and the one in the worker's hands. -/
def Accounts (en : Endian) (s : System) (actions : List Action) (os : List Observation) : Prop :=
  ∃ settled held, samples actions = settled ++ held ∧
    List.Forall₂ (Settles en) settled (outcomes os) ∧ s.worker.Holds en held

/-- At the start there are no samples. -/
private theorem prepare_accounts (en : Endian) (eventCapacity : ℕ+) :
    Accounts en (prepare eventCapacity) [] [] :=
  ⟨[], [], rfl, .nil, rfl⟩

/-- One action keeps the account. -/
private theorem step_accounts {actions : List Action} {before : List Observation}
    (h : Accounts en s actions before) (hstep : s.step en action = some (s', os)) :
    Accounts en s' (actions ++ [action]) (before ++ os) := by
  obtain ⟨settled, held, hsamples, hsettled, hholds⟩ := h
  -- Only the worker's side handles samples
  have hhandles : ∃ held', Handles en held action os held' ∧ s'.worker.Holds en held' := by
    cases haction : action.isWorker with
    | true => exact worker_holds haction hholds hstep
    | false =>
      refine ⟨held, consumer_holds haction hstep, ?_⟩
      rwa [(consumer_step haction hstep).worker]
  obtain ⟨held', hhandles, hholds'⟩ := hhandles
  cases hhandles with
  | keeps hnone houtcomes =>
    refine ⟨settled, held, ?_, ?_, hholds'⟩
    · rw [samples_append, hnone, List.append_nil, hsamples]
    · rwa [outcomes_append, houtcomes, List.append_nil]
  | given data hheld hone houtcomes =>
    refine ⟨settled, [data], ?_, ?_, hholds'⟩
    · rw [samples_append, hone, hsamples, hheld, List.append_nil]
    · rwa [outcomes_append, houtcomes, List.append_nil]
  | settles data outcome hheld hnone houtcomes hsettles =>
    -- The sample in the worker's hands is the next one that has an outcome
    refine ⟨settled ++ [data], [], ?_, ?_, hholds'⟩
    · simp only [samples_append, hnone, hsamples, hheld, List.append_nil]
    · rw [outcomes_append, houtcomes]
      exact List.rel_append hsettled (.cons hsettles .nil)

/-- Every run has an account of its samples. -/
theorem run_accounts {eventCapacity : ℕ+} {actions : List Action}
    (hrun : run en eventCapacity actions = some (s, os)) : Accounts en s actions os :=
  Machine.run_invariant_actions (I := fun s actions os => Accounts en s actions os)
    (fun _ _ _ _ _ _ hinv hstep => step_accounts hinv hstep)
    (prepare_accounts en eventCapacity) hrun

/-! ## Delivery -/

/-- In every run, each sample has been accepted as its decoding, or was omitted, or is the one
    that the worker holds, and these outcomes come in the order of the samples.  What the receive
    calls have returned from the delivery channel and what is still buffered is exactly the
    stream that the outcomes determine, and without the notices it is a first part of the
    accepted deliveries.  As long as the worker has not ended, nothing is returned from
    elsewhere. -/
theorem run_delivers_stream {eventCapacity : ℕ+} {actions : List Action}
    (hrun : run en eventCapacity actions = some (s, os)) :
    Accounts en s actions os ∧
      deliveredResults os ++ s.buffered = expectedResults os ∧
      (deliveredResults os).filter Delivery.isSample <+: acceptedDeliveries os ∧
      (s.worker.ended = false → receivedResults os = deliveredResults os) :=
  ⟨run_accounts hrun, delivered_append_buffered hrun, delivered_prefix_accepted hrun,
    received_eq_delivered hrun⟩

def sampleEvent : Event := .freeRuleset ⟨⟨5⟩, default, 1⟩

def sampleRecord : List UInt8 := Producer.encode .little sampleEvent

/-- The second of three samples finds a channel of capacity 1 full. -/
def omissionRun (first second third : List UInt8) : List Action :=
  let callback (data : List UInt8) : List Action := .sample data :: List.replicate 5 .work
  [.work, .work] ++ callback first ++ callback second ++ [.call .tryRecv, .look] ++
    callback third ++ [.call .recvTimeout, .look, .call .tryRecv]

/-- The first sample is an event and the third one is too short; the notice comes between
    them. -/
theorem omissionRun_delivers :
    ∃ s os, run .little 1 (omissionRun sampleRecord [0] [0, 0]) = some (s, os) ∧
      receivedResults os = [.ok sampleEvent, .error .outputQueueFull,
        .error (.malformedSample (.length 352 2))] ∧
      Accounts .little s (omissionRun sampleRecord [0] [0, 0]) os ∧
      receivedResults os ++ s.buffered = expectedResults os := by
  have hrun : ∀ first second third, ∃ s os,
      run .little 1 (omissionRun first second third) = some (s, os) ∧ s.worker.ended = false ∧
        deliveredResults os = [deliveryOf .little first, .error .outputQueueFull,
          deliveryOf .little third] :=
    fun _ _ _ => ⟨_, _, rfl, rfl, rfl⟩
  obtain ⟨s, os, hrun, hended, hdelivered⟩ := hrun sampleRecord [0] [0, 0]
  obtain ⟨haccounts, hstream, -, hreceived⟩ := run_delivers_stream hrun
  refine ⟨s, os, hrun, ?_, haccounts, ?_⟩
  · rw [hreceived hended, hdelivered, sampleRecord, deliveryOf_encode]
    rfl
  · rw [hreceived hended]
    exact hstream

/-! ## What the consumer knows -/

/-- The terminal channel carries errors only. -/
private theorem terminal_error_of_step (hstep : s.step en action = some (s', os))
    {result : Delivery} (hmem : .returned .terminal result ∈ os) :
    ∃ error, result = .error error := by
  cases haction : action.isWorker with
  | true => exact absurd hmem ((worker_step haction hstep).silent _ _)
  | false =>
    cases action
    all_goals
      simp only [step, callStep, look, unpair, timeOut, dropStep] at hstep
      repeat' split at hstep
    all_goals first
      | cases hstep; done
      | cases haction; done
      | cases hstep
        simp_all

/-- What a run returns from the terminal channel are errors. -/
theorem terminal_error_of_run {eventCapacity : ℕ+} {actions : List Action}
    (hrun : run en eventCapacity actions = some (s, os)) {result : Delivery}
    (hmem : .returned .terminal result ∈ os) : ∃ error, result = .error error := by
  have hinv := Machine.run_invariant
    (I := fun _ os => ∀ result, .returned .terminal result ∈ os → ∃ error, result = .error error)
    (fun _ _ _ _ _ hinv _ hstep result hmem => by
      rcases List.mem_append.mp hmem with hold | hnew
      · exact hinv result hold
      · exact terminal_error_of_step hstep hnew)
    (h := []) (fun _ hmem => absurd hmem List.not_mem_nil) (Machine.along_true _ _) hrun
  exact hinv result hmem

/-- What was accepted before the first omission has outcomes of the first samples. -/
private theorem leading_of_settles {settled : List (List UInt8)}
    (h : List.Forall₂ (Settles en) settled (outcomes os)) :
    LossyQueue.leading (os.filterMap Observation.op) <+: settled.map (deliveryOf en) := by
  induction os generalizing settled with
  | nil => exact List.nil_prefix
  | cons o os ih =>
    -- An omission ends the leading part
    cases o with
    | accepted delivery =>
      cases h with
      | cons hsettles hrest =>
        rcases hsettles with hnone | hsome
        · cases hnone
        · cases hsome
          exact List.cons_prefix_cons.mpr ⟨rfl, ih hrest⟩
    | omitted => exact List.nil_prefix
    | returned origin result =>
      cases origin
      all_goals exact ih h
    | nothing call => exact ih h

/-- No error, no gap.  In every run in which the receive calls have returned events only,
    these are the first samples of the ring buffer, decoded, each once and in order. -/
theorem received_without_gap {eventCapacity : ℕ+} {actions : List Action}
    (hrun : run en eventCapacity actions = some (s, os))
    (hevents : ∀ result ∈ receivedResults os, ∃ event, result = .ok event) :
    receivedResults os <+: (samples actions).map (deliveryOf en) := by
  -- A terminal report is an error, and none was returned
  have hterminal : ∀ o ∈ os, ¬ o.IsTerminalReport := by
    intro o ho hreport
    cases o with
    | returned origin result =>
      cases origin with
      | deliveries => exact hreport
      | terminal =>
        obtain ⟨error, rfl⟩ := terminal_error_of_run hrun ho
        obtain ⟨event, hevent⟩ := hevents _ (List.mem_filterMap.mpr ⟨_, ho, rfl⟩)
        cases hevent
    | _ => exact hreport
  rw [receivedResults_eq hterminal] at hevents ⊢
  obtain ⟨settled, held, hsamples, hsettled, -⟩ := run_accounts hrun
  have hstream : deliveredResults os <+: expectedResults os :=
    ⟨s.buffered, delivered_append_buffered hrun⟩
  -- The first omission is followed by a notice, so nothing behind it was received
  have hnotice : .error .outputQueueFull ∉ deliveredResults os := fun hmem => by
    obtain ⟨event, hevent⟩ := hevents _ hmem
    cases hevent
  calc deliveredResults os
      <+: LossyQueue.leading (os.filterMap Observation.op) :=
        LossyQueue.leading_of_stream hnotice hstream
    _ <+: settled.map (deliveryOf en) := leading_of_settles hsettled
    _ <+: (samples actions).map (deliveryOf en) := by
        rw [hsamples, List.map_append]
        exact List.prefix_append _ _

/-- The worker delivers two samples, and then one of them is received. -/
def twoSampleRun (first second : List UInt8) : List Action :=
  let callback (data : List UInt8) : List Action := .sample data :: List.replicate 5 .work
  [.work, .work] ++ callback first ++ callback second ++ [.call .recvTimeout, .look]

/-- The worker delivers a sample, and the consumer receives it. -/
def exchange (data : List UInt8) : List Action :=
  .sample data :: List.replicate 5 .work ++ [.call .recvTimeout, .look]

/-- The consumer receives each sample before the next one comes. -/
def promptRun (records : List (List UInt8)) : List Action :=
  [.work, .work] ++ records.flatMap exchange

/-- The samples of such a run are the given ones. -/
theorem samples_promptRun (records : List (List UInt8)) :
    samples (promptRun records) = records := by
  rw [samples, promptRun, List.filterMap_append, List.filterMap_flatMap]
  exact List.flatMap_singleton' records

/-- A prompt consumer receives all samples. -/
theorem run_promptRun (en : Endian) (records : List (List UInt8)) :
    ∃ s os, run en 1 (promptRun records) = some (s, os) ∧
      receivedResults os = records.map (deliveryOf en) := by
  let observed (data : List UInt8) : List Observation :=
    [.accepted (deliveryOf en data), .returned .deliveries (deliveryOf en data)]
  obtain ⟨polling, hstart, hexchange⟩ : ∃ polling, run en 1 [.work, .work] = some (polling, []) ∧
      ∀ data, Machine.run (step en) polling (exchange data) = some (polling, observed data) :=
    ⟨_, rfl, fun _ => rfl⟩
  -- Every exchange ends where it began
  have hrun : Machine.run (step en) polling (records.flatMap exchange) =
      some (polling, records.flatMap observed) := by
    induction records with
    | nil => rfl
    | cons data records ih => exact Machine.run_append (hexchange data) ih
  refine ⟨polling, _, Machine.run_append hstart hrun, ?_⟩
  rw [receivedResults, List.nil_append, List.filterMap_flatMap, List.map_eq_flatMap]
  rfl

end System

end Landlock
