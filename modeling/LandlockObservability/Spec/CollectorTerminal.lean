import LandlockObservability.Model.Collector

/-!
# The end of a collector's worker

A worker that has left its loop never collects again, and only such a worker sends on
the terminal channel or gives up its last sender of it.  So an error that a receive
call takes from the terminal channel is a sign that the worker has ended.

* `worker_step`: what a step of the worker can do, as far as the consumer can see it.
* `terminalOpen_step`: until its end, the worker leaves the terminal channel empty and
  open, and no receive call returns a terminal report.
-/

namespace Landlock

/-- The worker has stopped collecting: no callback will run any more. -/
def WorkerPc.ended : WorkerPc → Bool
  | sendOmission _ => true
  | sendReport _ => true
  | dropResources _ => true
  | dropTerminal _ => true
  | dropDeliveries _ => true
  | reportPanic _ => true
  | dropTerminalPanic => true
  | unrunTerminal => true
  | unrunResources => true
  | done => true
  | _ => false

/-- An error that a receive call took from the terminal channel, or the end of that
    channel. -/
def Observation.IsTerminalReport : Observation → Prop
  | returned .terminal _ => True
  | _ => False

/-- The steps of the worker. -/
def Action.isWorker : Action → Bool
  | work => true
  | sample _ => true
  | pollReturns _ => true
  | panic _ => true
  | abandon => true
  | _ => false

namespace System

variable {en : Endian} {s s' : System} {action : Action} {os : List Observation}

/-- Nothing has been sent on the terminal channel, and a sender is left. -/
def TerminalOpen (s : System) : Prop := s.terminal.queue = [] ∧ s.terminal.senders ≠ 0

/-! ## Steps of the worker -/

/-- What a step of the worker can do, as far as the consumer can see it. -/
structure WorkerStep (s s' : System) (os : List Observation) : Prop where
  consumer : s'.consumer = s.consumer
  pending : s'.pendingDelivery = s.pendingDelivery
  silent : ∀ origin result, .returned origin result ∉ os
  ended : s.worker.ended = true →
    s'.worker.ended = true ∧ s'.deliveries.queue = s.deliveries.queue
  collecting : s'.worker.ended = false →
    (s'.terminal = s.terminal ∨ s'.terminal = s.terminal.cloneSender) ∧
      s'.deliveries.senders = s.deliveries.senders
  reports : ∀ error ∈ s'.terminal.queue,
    error ∈ s.terminal.queue ∨ error.kind ≠ .malformedSample

/-- What is in a channel after an attempt to send. -/
private theorem reports_of_trySend {terminal : Channel CollectorReceiveError}
    {report : CollectorReceiveError} (hreport : report.kind ≠ .malformedSample) :
    ∀ error ∈ (terminal.trySend report).2.queue,
      error ∈ terminal.queue ∨ error.kind ≠ .malformedSample := by
  intro error herror
  rcases hsend : terminal.trySend report with ⟨sent, terminal'⟩
  rw [hsend] at herror
  by_cases hok : sent = .ok
  · rw [hok] at hsend
    rw [Channel.eq_of_trySend_ok hsend] at herror
    rcases List.mem_append.mp herror with hold | hnew
    · exact .inl hold
    · rw [List.mem_singleton.mp hnew]
      exact .inr hreport
  · rw [Channel.eq_of_trySend_ne_ok hsend hok] at herror
    exact .inl herror

/-- No report at the end is the error of a sample. -/
private theorem report_kind (report : Report) : report.error.kind ≠ .malformedSample := by
  cases report <;> nofun

/-- A step of the worker's own code. -/
private theorem work_step (hstep : work en s = some (s', os)) : WorkerStep s s' os := by
  cases hworker : s.worker with
  | send entry =>
    have hsenders := Channel.trySend_senders s.deliveries entry
    simp only [work, hworker] at hstep
    split at hstep
    all_goals
      rename_i deliveries hsend
      rw [hsend] at hsenders
      cases hstep
      -- Whatever becomes of the sample, the callback keeps its sender
      exact ⟨rfl, rfl, by simp, by simp [hworker, WorkerPc.ended],
        fun _ => ⟨.inl rfl, hsenders⟩, fun _ => .inl⟩
  | sendOmission report =>
    simp only [work, hworker] at hstep
    cases hstep
    exact ⟨rfl, rfl, by simp, by simp [WorkerPc.ended], by simp [WorkerPc.ended],
      reports_of_trySend nofun⟩
  | sendReport report =>
    simp only [work, hworker] at hstep
    cases hstep
    exact ⟨rfl, rfl, by simp, by simp [WorkerPc.ended], by simp [WorkerPc.ended],
      reports_of_trySend (report_kind report)⟩
  | reportPanic payload =>
    simp only [work, hworker] at hstep
    cases hstep
    exact ⟨rfl, rfl, by simp, by simp [WorkerPc.ended], by simp [WorkerPc.ended],
      reports_of_trySend nofun⟩
  | _ =>
    simp only [work, hworker, reduceCtorEq] at hstep
    repeat' split at hstep
    all_goals
      cases hstep
      refine ⟨rfl, rfl, by simp, ?_, ?_, fun _ => .inl⟩
      · simp [hworker, WorkerPc.ended, Channel.dropSender]
      · simp [WorkerPc.ended]

/-- Every action of the worker's side. -/
theorem worker_step (haction : action.isWorker = true)
    (hstep : s.step en action = some (s', os)) : WorkerStep s s' os := by
  cases action with
  | work => exact work_step hstep
  -- A panic on the way out closes the channels too
  | panic payload =>
    cases hworker : s.worker
    all_goals
      simp only [step, panicStep, hworker, reduceCtorEq] at hstep
    all_goals
      repeat' split at hstep
    all_goals
      cases hstep
    all_goals
      refine ⟨rfl, rfl, by simp, ?_, ?_, fun _ => .inl⟩
      · simp_all [WorkerPc.ended, Channel.dropSender]
      · simp_all [WorkerPc.ended]
  | _ =>
    simp only [step] at hstep
    repeat' split at hstep
    all_goals first
      | cases hstep; done
      | cases haction; done
      | cases hstep
        refine ⟨rfl, rfl, by simp, ?_, ?_, fun _ => .inl⟩
        · simp_all [WorkerPc.ended]
        · simp_all [WorkerPc.ended]

/-! ## Steps of the consumer -/

/-- What a step of the consumer can do, as far as the worker can see it. -/
structure ConsumerStep (s s' : System) (os : List Observation) : Prop where
  worker : s'.worker = s.worker
  silent : ∀ delivery, .accepted delivery ∉ os
  senders : s'.deliveries.senders = s.deliveries.senders
  reports : s'.terminal.queue ⊆ s.terminal.queue
  waits : s.TerminalOpen → s'.TerminalOpen ∧ ∀ o ∈ os, ¬ o.IsTerminalReport

/-- Returning an entry does not concern the worker. -/
private theorem unpair_step {t : System} {entry : DeliveryEntry} (hworker : t.worker = s.worker)
    (hsenders : t.deliveries.senders = s.deliveries.senders) (hterminal : t.terminal = s.terminal)
    (hstep : unpair t entry = (s', os)) : ConsumerStep s s' os := by
  unfold unpair at hstep
  split at hstep
  all_goals
    cases hstep
    refine ⟨hworker, by simp, hsenders, by simp [hterminal], fun h => ⟨?_, ?_⟩⟩
    · unfold TerminalOpen
      rwa [hterminal]
    · simp [Observation.IsTerminalReport]

/-- While the terminal channel is empty and open, a look at it finds nothing. -/
private theorem terminalNow_of_open (h : s.TerminalOpen) :
    terminalNowNonblocking s.terminal = (none, s.terminal) := by
  unfold terminalNowNonblocking
  rw [Channel.tryRecv_eq_empty h.1 h.2]

/-- A look takes a report that was sent, or finds that all senders are gone. -/
theorem of_terminalNow_some {error : CollectorReceiveError}
    {terminal : Channel CollectorReceiveError}
    (h : terminalNowNonblocking s.terminal = (some error, terminal)) :
    (error ∈ s.terminal.queue ∨ error = .workerStop) ∧ terminal.queue ⊆ s.terminal.queue := by
  unfold terminalNowNonblocking at h
  split at h
  · rename_i hrecv
    obtain ⟨queue, hqueue, rfl⟩ := Channel.eq_of_tryRecv_message hrecv
    cases h
    rw [hqueue]
    exact ⟨.inl List.mem_cons_self, List.subset_cons_self _ queue⟩
  · rename_i hrecv
    cases h
    rw [(Channel.of_tryRecv_disconnected hrecv).2.2]
    exact ⟨.inr rfl, fun _ => id⟩
  · cases h

/-- A look at the channels. -/
private theorem look_step (hstep : look s = some (s', os)) : ConsumerStep s s' os := by
  unfold look at hstep
  split at hstep
  · split at hstep
    · rename_i entry deliveries hrecv
      obtain ⟨queue, -, rfl⟩ := Channel.eq_of_tryRecv_message hrecv
      -- Taking an entry leaves the senders and the terminal channel alone
      refine unpair_step ?_ ?_ ?_ (Option.some.inj hstep)
      · rfl
      · rfl
      · rfl
    all_goals
      split at hstep
      all_goals
        cases hstep
        exact ⟨rfl, by simp, rfl, fun _ => id, fun h => ⟨h, by simp⟩⟩
  · split at hstep
    · rename_i error terminal hnow
      cases hstep
      refine ⟨rfl, by simp, rfl, (of_terminalNow_some hnow).2, fun h => ?_⟩
      rw [terminalNow_of_open h] at hnow
      cases hnow
    · cases hstep
      exact ⟨rfl, by simp, rfl, fun _ => id,
        fun h => ⟨h, by simp [Observation.IsTerminalReport]⟩⟩
  · split at hstep
    · rename_i error terminal hnow
      cases hstep
      refine ⟨rfl, by simp, rfl, (of_terminalNow_some hnow).2, fun h => ?_⟩
      rw [terminalNow_of_open h] at hnow
      cases hnow
    · cases hstep
      exact ⟨rfl, by simp, rfl, fun _ => id, fun h => ⟨h, by simp⟩⟩
  · cases hstep

/-- Every action of the consumer's side. -/
theorem consumer_step (haction : action.isWorker = false)
    (hstep : s.step en action = some (s', os)) : ConsumerStep s s' os := by
  cases action with
  | look => exact look_step hstep
  | _ =>
    simp only [step, callStep, timeOut, dropStep] at hstep
    repeat' split at hstep
    all_goals first
      | cases hstep; done
      | cases haction; done
      | cases hstep
        exact ⟨rfl, by simp, rfl, fun _ => id,
          fun h => ⟨h, by simp [Observation.IsTerminalReport]⟩⟩

/-! ## Runs -/

/-- Only a worker that has ended has touched the terminal channel. -/
structure TerminalInv (s : System) (os : List Observation) : Prop where
  collecting : s.worker.ended = false → s.TerminalOpen ∧ s.deliveries.senders ≠ 0
  reported : ∀ o ∈ os, o.IsTerminalReport → s.worker.ended = true
  reports : ∀ error ∈ s.terminal.queue, error.kind ≠ .malformedSample

/-- At the start nothing is reported. -/
theorem prepare_terminalInv (eventCapacity : ℕ+) : TerminalInv (prepare eventCapacity) [] :=
  ⟨fun _ => ⟨⟨rfl, Nat.one_ne_zero⟩, two_ne_zero⟩, fun _ h => absurd h List.not_mem_nil,
    fun _ h => absurd h List.not_mem_nil⟩

/-- The end of the worker is final. -/
private theorem step_ended (hended : s.worker.ended = true)
    (hstep : s.step en action = some (s', os)) :
    s'.worker.ended = true := by
  cases haction : action.isWorker with
  | true => exact ((worker_step haction hstep).ended hended).1
  | false => rwa [(consumer_step haction hstep).worker]

/-- A worker that collects after a step collected before it. -/
private theorem collecting_of_step (hstep : s.step en action = some (s', os))
    (h : s'.worker.ended = false) : s.worker.ended = false := by
  by_contra hended
  rw [step_ended (Bool.of_not_eq_false hended) hstep] at h
  cases h

/-- The worker returns nothing. -/
private theorem WorkerStep.not_isTerminalReport (h : WorkerStep s s' os) {o : Observation}
    (ho : o ∈ os) : ¬ o.IsTerminalReport := by
  cases o with
  | returned origin result => exact absurd ho (h.silent origin result)
  | _ => exact id

/-- One step keeps the terminal report the last result. -/
theorem step_terminalInv {before : List Observation} (hinv : TerminalInv s before)
    (hstep : s.step en action = some (s', os)) : TerminalInv s' (before ++ os) := by
  cases haction : action.isWorker with
  | true =>
    have hworker := worker_step haction hstep
    refine ⟨fun hended => ?_, fun o ho hreport => ?_, fun error herror => ?_⟩
    -- `run_with` only adds a sender to the terminal channel
    · obtain ⟨⟨hqueue, hsenders⟩, hdeliveries⟩ :=
        hinv.collecting (collecting_of_step hstep hended)
      obtain ⟨hterminal, hsame⟩ := hworker.collecting hended
      rw [hsame]
      refine ⟨?_, hdeliveries⟩
      unfold TerminalOpen
      rcases hterminal with hterminal | hterminal
      · rw [hterminal]
        exact ⟨hqueue, hsenders⟩
      · rw [hterminal]
        exact ⟨hqueue, Nat.succ_ne_zero _⟩
    · rcases List.mem_append.mp ho with hold | hnew
      · exact step_ended (hinv.reported o hold hreport) hstep
      · exact absurd hreport (hworker.not_isTerminalReport hnew)
    · rcases hworker.reports error herror with hold | hkind
      · exact hinv.reports error hold
      · exact hkind
  | false =>
    have hconsumer := consumer_step haction hstep
    refine ⟨fun hended => ?_, fun o ho hreport => ?_, fun error herror => ?_⟩
    · obtain ⟨hopen, hsenders⟩ := hinv.collecting (collecting_of_step hstep hended)
      rw [hconsumer.senders]
      exact ⟨(hconsumer.waits hopen).1, hsenders⟩
    · rw [hconsumer.worker]
      rcases List.mem_append.mp ho with hold | hnew
      · exact hinv.reported o hold hreport
      · -- while the worker collects, the look at the terminal channel finds nothing
        by_contra hended
        obtain ⟨hopen, -⟩ := hinv.collecting (Bool.eq_false_of_not_eq_true hended)
        exact (hconsumer.waits hopen).2 o hnew hreport
    · exact hinv.reports error (hconsumer.reports herror)

end System

end Landlock
