import LandlockObservability.Spec.WorkerReports

/-!
# Terminal reports

What the consumer of a collector receives of the worker's reports, as long as the collector is
alive.  The worker sends at most three reports, so that the terminal channel has room for all
of them, and it sends the first one after the last delivery.  A consumer that has received a
report and finds no delivery has therefore received every delivery.

## Key results

- `receive_step`: what a step of the consumer does
- `step_reportInv`: what a step of either thread keeps
- `terminal_reports`: reports are complete, ordered and bounded, and `WorkerStop` is last
-/

namespace Landlock

namespace System

variable {en : Endian} {s s' : System} {action : Action} {os : List Observation}

/-! ## Steps of the consumer -/

/-- What a step of the consumer does, other than dropping the collector. -/
inductive ReceiveStep (s : System) : System → List Observation → Prop
  | begin (call : Call) (h : s.consumer = .idle) (hpending : s.pendingDelivery = none) :
    ReceiveStep s { s with consumer := .lookDeliveries call } []
  | pending (delivery : Delivery) (h : s.consumer = .idle)
    (hpending : s.pendingDelivery = some delivery) :
    ReceiveStep s { s with pendingDelivery := none } [.returned .deliveries delivery]
  | take (call : Call) (entry : DeliveryEntry) (queue : List DeliveryEntry)
    (h : s.consumer = .lookDeliveries call) (hqueue : s.deliveries.queue = entry :: queue)
    (pendingDelivery : Option Delivery) (result : Delivery) :
    ReceiveStep s
      { s with
        deliveries := { s.deliveries with queue }
        pendingDelivery
        consumer := .idle } [.returned .deliveries result]
  /-- The delivery channel is empty: the call waits there, or turns to the other one. -/
  | turn (call : Call) (consumer : ConsumerPc) (h : s.consumer = .lookDeliveries call)
    (hqueue : s.deliveries.queue = [])
    (hconsumer : consumer = s.consumer ∨ consumer.atTerminal = true) :
    ReceiveStep s { s with consumer } []
  | wait (consumer : ConsumerPc) (h : s.consumer.atTerminal = true)
    (hconsumer : consumer.atTerminal = true) : ReceiveStep s { s with consumer } []
  | report (error : CollectorReceiveError) (queue : List CollectorReceiveError)
    (h : s.consumer.atTerminal = true) (hqueue : s.terminal.queue = error :: queue) :
    ReceiveStep s { s with terminal := { s.terminal with queue }, consumer := .idle }
      [.returned .terminal (.error error)]
  | stop (h : s.consumer.atTerminal = true) (hqueue : s.terminal.queue = [])
    (hsenders : s.terminal.senders = 0) :
    ReceiveStep s { s with consumer := .idle } [.returned .terminal (.error .workerStop)]
  | nothing (call : Call) (h : s.consumer.atTerminal = true) (hsenders : s.terminal.senders ≠ 0) :
    ReceiveStep s { s with consumer := .idle } [.nothing call]

/-- A look at the terminal channel takes the oldest report, or finds the end. -/
private theorem receiveStep_of_terminalNow {error : CollectorReceiveError}
    {terminal : Channel CollectorReceiveError} (h : s.consumer.atTerminal = true)
    (hnow : terminalNowNonblocking s.terminal = (some error, terminal)) :
    ReceiveStep s { s with terminal, consumer := .idle }
      [.returned .terminal (.error error)] := by
  unfold terminalNowNonblocking at hnow
  split at hnow
  · rename_i hrecv
    obtain ⟨queue, hqueue, rfl⟩ := Channel.eq_of_tryRecv_message hrecv
    cases hnow
    exact .report error queue h hqueue
  · rename_i hrecv
    obtain ⟨hqueue, hsenders, rfl⟩ := Channel.of_tryRecv_disconnected hrecv
    cases hnow
    exact .stop h hqueue hsenders
  · cases hnow

/-- A look that finds nothing finds a sender. -/
private theorem senders_of_terminalNow {terminal : Channel CollectorReceiveError}
    (hnow : terminalNowNonblocking s.terminal = (none, terminal)) : s.terminal.senders ≠ 0 := by
  intro hsenders
  unfold terminalNowNonblocking Channel.tryRecv at hnow
  rw [hsenders] at hnow
  split at hnow
  · cases hnow
  · cases hnow
  · rename_i hrecv
    split at hrecv <;> cases hrecv

/-- A look at the channels. -/
private theorem look_receive (hstep : look s = some (s', os)) : ReceiveStep s s' os := by
  unfold look at hstep
  split at hstep
  · rename_i call hconsumer
    split at hstep
    · rename_i entry deliveries hrecv
      obtain ⟨queue, hqueue, rfl⟩ := Channel.eq_of_tryRecv_message hrecv
      unfold unpair at hstep
      split at hstep
      all_goals
        cases hstep
        exact .take call entry queue hconsumer hqueue _ _
    all_goals
      rename_i hrecv
      -- A channel that had nothing is left as it was
      have hqueue := Channel.queue_of_tryRecv hrecv (by simp)
      split at hstep
      all_goals
        cases hstep
        exact .turn _ _ hconsumer hqueue (by first | exact .inl rfl | exact .inr rfl)
  · rename_i call hconsumer
    have hat : s.consumer.atTerminal = true := by rw [hconsumer]; rfl
    split at hstep
    · rename_i hnow
      cases hstep
      exact receiveStep_of_terminalNow hat hnow
    · rename_i hnow
      cases hstep
      exact .nothing call hat (senders_of_terminalNow hnow)
  · rename_i hconsumer
    have hat : s.consumer.atTerminal = true := by rw [hconsumer]; rfl
    split at hstep
    · rename_i hnow
      cases hstep
      exact receiveStep_of_terminalNow hat hnow
    · cases hstep
      exact .wait _ hat hat
  · cases hstep

/-- Every action of a consumer that is not dropped. -/
theorem receive_step (haction : action.isWorker = false) (hdrop : action ≠ .drop)
    (hstep : s.step en action = some (s', os)) : ReceiveStep s s' os := by
  cases action with
  | look => exact look_receive hstep
  | call call =>
    simp only [step, callStep] at hstep
    repeat' split at hstep
    all_goals
      cases hstep
    · exact .pending _ ‹_› ‹_›
    · exact .begin _ ‹_› ‹_›
  -- The wait for a delivery ends, or the one for a report
  | timeOut =>
    simp only [step, timeOut] at hstep
    repeat' split at hstep
    all_goals
      cases hstep
    · rename_i hconsumer _ _ hrecv
      exact .turn _ _ hconsumer (Channel.queue_of_tryRecv hrecv (by simp)) (.inr rfl)
    · rename_i hconsumer _ _ hnow
      exact .wait _ (by rw [hconsumer]; rfl) rfl
  | drop => exact absurd rfl hdrop
  | _ => cases haction

/-! ## The invariant -/

/-- The worker has not been run, or has ended. -/
def resting : WorkerPc → Bool
  | .created => true
  | .unrunTerminal => true
  | .unrunResources => true
  | .done => true
  | _ => false

/-- The worker's part of the invariant. -/
structure SenderInv (s : System) (h : Trace) : Prop where
  alive : s.Alive
  progress : Progress s h.endsOmitted h.raised h.sent
  outcomes : ∀ report outcome, .inr (.sent report outcome) ∈ h → outcome = .ok
  senders : s.terminal.senders = terminalSenders s.worker

structure ReportInv (s : System) (h : Trace) : Prop extends SenderInv s h where
  received : h.received ++ s.terminal.queue = h.sent.map TerminalReport.error
  pending : s.consumer ≠ .idle → s.pendingDelivery = none
  -- The first report is sent after the last delivery
  drained : s.consumer.atTerminal = true → h.received ≠ [] → s.deliveries.queue = []
  unrun : h.sent = [] → resting s.worker = true → s.deliveries.queue = []
  stopped : Trace.stop ∈ h → s.terminal.queue = [] ∧ s.terminal.senders = 0 ∧
    s.deliveries.queue = [] ∧ s.pendingDelivery = none
  quiet : h.Pairwise Trace.QuietAfter

/-- At the start nothing is raised and nothing is sent. -/
private theorem prepare_reportInv (eventCapacity : ℕ+) : ReportInv (prepare eventCapacity) [] where
  alive := ⟨rfl, rfl, rfl, rfl⟩
  progress := ⟨rfl, rfl, rfl, rfl⟩
  outcomes := fun _ _ h => absurd h List.not_mem_nil
  senders := rfl
  received := rfl
  pending := fun h => absurd rfl h
  drained := nofun
  unrun := fun _ _ => rfl
  stopped := fun h => absurd h List.not_mem_nil
  quiet := List.Pairwise.nil

/-- No report says that the worker stopped. -/
private theorem error_ne_workerStop (report : TerminalReport) : report.error ≠ .workerStop := by
  rcases report with _ | (_ | _) | _ <;> nofun

variable {h : Trace}

/-- The consumer does not concern the worker's part. -/
private theorem ReceiveStep.senderInv (hreceive : ReceiveStep s s' os) (hinv : SenderInv s h) :
    SenderInv s' (h ++ os.map .inl) := by
  obtain ⟨⟨hrunning, hdeliveries, hterminal, hcapacity⟩, hprogress, houtcomes, hsenders⟩ := hinv
  cases hreceive
  all_goals
    refine ⟨⟨hrunning, hdeliveries, hterminal, hcapacity⟩, ?_, by simpa using houtcomes, hsenders⟩
    simp only [List.map_cons, List.map_nil, List.append_nil, Trace.endsOmitted_concat,
      Trace.raised_append, Trace.raised_of_observed, Trace.sent_append, Trace.sent_of_observed]
    exact hprogress

/-- A call has returned something else, so the worker had not stopped. -/
private theorem ReportInv.concat {o : Observation} (hinv : ReportInv s h)
    (hsender : SenderInv s' (h ++ [.inl o])) (hopen : Trace.stop ∉ h) (hnot : .inl o ≠ Trace.stop)
    (hreceived : Trace.received (h ++ [.inl o]) ++ s'.terminal.queue =
      h.sent.map TerminalReport.error)
    (hconsumer : s'.consumer = .idle)
    (hunrun : h.sent = [] → resting s'.worker = true → s'.deliveries.queue = []) :
    ReportInv s' (h ++ [.inl o]) where
  toSenderInv := hsender
  received := by simpa using hreceived
  pending := fun h => absurd hconsumer h
  drained := fun hat => by rw [hconsumer] at hat; cases hat
  unrun := by simpa using hunrun
  stopped := fun hstop => by
    rcases List.mem_append.mp hstop with hold | hnew
    · exact absurd hold hopen
    · exact absurd (List.mem_singleton.mp hnew).symm hnot
  quiet := Trace.quiet_concat hinv.quiet fun hstop => absurd hstop hopen

/-- A call that looks at the terminal channel has no delivery left to return. -/
private theorem ReportInv.pending_none (hinv : ReportInv s h)
    (hat : s.consumer.atTerminal = true) : s.pendingDelivery = none := by
  refine hinv.pending fun hidle => ?_
  rw [hidle] at hat
  cases hat

/-- A worker without a sender of the terminal channel rests. -/
private theorem resting_of_senders {pc : WorkerPc} (h : terminalSenders pc = 0) :
    resting pc = true := by
  cases pc <;> first | rfl | cases h

/-- At the end, what was accepted has been taken: before the first report, or there was
    nothing at all. -/
private theorem ReportInv.deliveries_nil (hinv : ReportInv s h)
    (hat : s.consumer.atTerminal = true) (hqueue : s.terminal.queue = [])
    (hsenders : s.terminal.senders = 0) : s.deliveries.queue = [] := by
  by_cases hnil : h.received = []
  · have hreceived := hinv.received
    rw [hnil, hqueue] at hreceived
    rw [hinv.senders] at hsenders
    exact hinv.unrun (List.map_eq_nil_iff.mp hreceived.symm) (resting_of_senders hsenders)
  · exact hinv.drained hat hnil

/-- A step of the consumer keeps the account of the reports, -/
private theorem consumer_reportInv (hinv : ReportInv s h) (hreceive : ReceiveStep s s' os) :
    ReportInv s' (h ++ os.map .inl) := by
  have hsender := hreceive.senderInv hinv.toSenderInv
  cases hreceive with
  | begin call hidle hnone =>
    simp only [List.map_nil, List.append_nil] at hsender ⊢
    exact ⟨hsender, hinv.received, fun _ => hnone, nofun, hinv.unrun, hinv.stopped, hinv.quiet⟩
  | turn call consumer hlook hqueue hconsumer =>
    simp only [List.map_nil, List.append_nil] at hsender ⊢
    exact ⟨hsender, hinv.received, fun _ => hinv.pending (by rw [hlook]; nofun),
      fun _ _ => hqueue, hinv.unrun, hinv.stopped, hinv.quiet⟩
  | wait consumer hat hconsumer =>
    simp only [List.map_nil, List.append_nil] at hsender ⊢
    exact ⟨hsender, hinv.received, fun _ => hinv.pending_none hat, fun _ => hinv.drained hat,
      hinv.unrun, hinv.stopped, hinv.quiet⟩
  | pending delivery hidle hsome =>
    refine hinv.concat hsender (fun hstop => ?_) (by simp [Trace.stop]) ?_ hidle hinv.unrun
    · rw [(hinv.stopped hstop).2.2.2] at hsome
      cases hsome
    · simpa [Trace.received] using hinv.received
  | take call entry queue hlook hqueue pendingDelivery result =>
    refine hinv.concat hsender (fun hstop => ?_) (by simp [Trace.stop]) ?_ rfl
      fun hsent hresting => ?_
    · rw [(hinv.stopped hstop).2.2.1] at hqueue
      cases hqueue
    · simpa [Trace.received] using hinv.received
    · rw [hinv.unrun hsent hresting] at hqueue
      cases hqueue
  | report error queue hat hqueue =>
    -- The report was sent, so it is not the end
    have hreport : ∃ report ∈ h.sent, report.error = error := by
      rw [← List.mem_map, ← hinv.received, hqueue]
      exact List.mem_append_right _ List.mem_cons_self
    obtain ⟨report, -, rfl⟩ := hreport
    have hne := error_ne_workerStop report
    refine hinv.concat hsender (fun hstop => ?_) (by simpa [Trace.stop] using hne) ?_ rfl
      hinv.unrun
    · rw [(hinv.stopped hstop).1] at hqueue
      cases hqueue
    · rw [← hinv.received, hqueue]
      simp [Trace.received, hne]
  | nothing call hat hsome =>
    refine hinv.concat hsender (fun hstop => hsome (hinv.stopped hstop).2.1)
      (by simp [Trace.stop]) ?_ rfl hinv.unrun
    simpa [Trace.received] using hinv.received
  | stop hat hqueue hnone =>
    have hpending := hinv.pending_none hat
    have hdeliveries := hinv.deliveries_nil hat hqueue hnone
    refine ⟨hsender, ?_, fun _ => hpending, nofun, ?_, fun _ => ⟨hqueue, hnone, hdeliveries,
      hpending⟩, Trace.quiet_concat hinv.quiet fun _ _ => rfl⟩
    · simpa [Trace.received, hqueue] using hinv.received
    · simpa using hinv.unrun

/-! ### The worker -/

/-- Where the worker sends a report, there is room for it. -/
private theorem ReportInv.room (hinv : ReportInv s h) {report : TerminalReport}
    {outcome : Channel.Sent} (hnote : .sent report outcome ∈ s.notes action) :
    s.terminal.queue.length < 3 := by
  have hlength : s.terminal.queue.length ≤ h.sent.length := by
    have hle := congrArg List.length hinv.received
    rw [List.length_append, List.length_map] at hle
    omega
  have hprogress := hinv.progress
  -- The worker sends in three places, and each has one report more before it
  have hsent : h.sent.length < 3 := by
    by_cases hwork : action = .work
    · subst hwork
      unfold Progress at hprogress
      cases hworker : s.worker with
      | sendOmission report =>
        simp only [hworker] at hprogress
        simp [hprogress]
      | sendReport report =>
        simp only [hworker] at hprogress
        rw [hprogress.2, notice]
        split <;> simp
      | reportPanic payload =>
        simp only [hworker] at hprogress
        obtain ⟨ending, -, -, hsent⟩ := hprogress
        rw [hsent]
        cases ending with
        | none => simp [endingReports]
        | some report =>
          simp only [endingReports, notice]
          split <;> simp
      | _ => simp [notes, hworker] at hnote
    · exact absurd hnote ((notes_of_ne_work hwork).1 report outcome)
  omega

/-- A worker that rests after a step rested before it, or has just reported everything. -/
private theorem resting_of_step (haction : action.isWorker = true)
    (hstep : s.step en action = some (s', os)) (hresting : resting s'.worker = true) :
    s.worker = .dropTerminalPanic ∨
      (resting s.worker = true ∧ s'.deliveries.queue = s.deliveries.queue) := by
  cases action with
  | work =>
    cases hworker : s.worker
    all_goals
      simp only [step, work, hworker, reduceCtorEq] at hstep
      repeat' split at hstep
    all_goals
      cases hstep
    all_goals first
      | cases hresting; done
      | exact .inl rfl
      | exact .inr ⟨rfl, rfl⟩
  | abandon =>
    simp only [step] at hstep
    split at hstep
    · rename_i hworker
      cases hstep
      exact .inr ⟨by rw [hworker]; rfl, rfl⟩
    · cases hstep
  -- No other action brings the worker to rest
  | _ =>
    simp only [step, panicStep] at hstep
    repeat' split at hstep
    all_goals first
      | cases hstep; done
      | cases haction; done
      | cases hstep
        cases hresting

/-- A worker without a sender of the terminal channel shows nothing more. -/
private theorem step_of_senders (haction : action.isWorker = true)
    (hsenders : terminalSenders s.worker = 0) (hstep : s.step en action = some (s', os)) :
    s'.worker = .done ∧ s.notes action = [] ∧ os = [] := by
  -- The worker has dropped its sender only at its very end
  cases hworker : s.worker with
  | unrunResources =>
    cases action with
    | work =>
      simp only [step, work, hworker] at hstep
      cases hstep
      exact ⟨rfl, by simp [notes, hworker], rfl⟩
    | _ => first
      | cases haction; done
      | simp [step, panicStep, hworker] at hstep
  | done =>
    cases action
    all_goals first
      | cases haction; done
      | simp [step, work, panicStep, hworker] at hstep
  | _ => simp [hworker, terminalSenders] at hsenders

/-- Reporting everything means to have sent something. -/
private theorem sent_ne_nil {omitted : Bool} {raised sent : List TerminalReport}
    (hraised : raised ≠ []) (hreported : Progress.Reported omitted raised sent) : sent ≠ [] := by
  rintro rfl
  obtain ⟨ending, panic, rfl, hsent⟩ := hreported
  obtain ⟨hending, hpanic⟩ := List.append_eq_nil_iff.mp hsent.symm
  cases ending with
  | some report => simp [endingReports] at hending
  | none => exact hraised (by simpa using hpanic)

/-- A step of the worker returns nothing to the consumer. -/
private theorem traced_worker (haction : action.isWorker = true)
    (hstep : s.step en action = some (s', os)) :
    (traced h s action os).received = h.received ∧
      (traced h s action os).sent = h.sent ++ Trace.sent ((s.notes action).map .inr) ∧
      ∀ entry ∈ (s.notes action).map .inr ++ os.map .inl, entry ≠ Trace.stop := by
  have hsilent := (worker_step haction hstep).silent
  have hobserved : Trace.sent (os.map .inl) = [] := by
    simp [Trace.sent, List.filterMap_map]
  -- The notes are what the worker did, and not what the consumer saw
  refine ⟨?_, ?_, fun entry hentry => ?_⟩
  · rw [traced, Trace.received_append]
    refine (congrArg _ (List.filterMap_eq_nil_iff.mpr fun entry hentry => ?_)).trans
      (List.append_nil _)
    rcases List.mem_append.mp hentry with hnote | hobserved
    · obtain ⟨note, -, rfl⟩ := List.mem_map.mp hnote
      rfl
    · obtain ⟨o, ho, rfl⟩ := List.mem_map.mp hobserved
      cases o with
      | returned origin result => exact absurd ho (hsilent origin result)
      | _ => rfl
  · rw [traced, Trace.sent_append, Trace.sent_append, hobserved, List.append_nil]
  · rcases List.mem_append.mp hentry with hnote | hobserved
    · obtain ⟨note, -, rfl⟩ := List.mem_map.mp hnote
      exact Sum.inr_ne_inl
    · obtain ⟨o, ho, rfl⟩ := List.mem_map.mp hobserved
      intro hstop
      exact hsilent _ _ (Sum.inl.inj hstop ▸ ho)

/-- Something was received, so something was sent and the worker has ended. -/
private theorem ReportInv.ended_of_received (hinv : ReportInv s h) (hne : h.received ≠ []) :
    s.worker.ended = true := by
  refine hinv.progress.ended fun hnil => hne ?_
  have hreceived := hinv.received
  rw [hnil] at hreceived
  exact (List.append_eq_nil_iff.mp hreceived).1

/-- A worker that comes to rest without a report had accepted nothing. -/
private theorem ReportInv.unrun_step (hinv : ReportInv s h) (haction : action.isWorker = true)
    (hstep : s.step en action = some (s', os)) (hnil : h.sent = [])
    (hresting : resting s'.worker = true) : s'.deliveries.queue = [] := by
  rcases resting_of_step haction hstep hresting with hlast | ⟨hresting, hqueue⟩
  · have hprogress := hinv.progress
    simp only [Progress, hlast] at hprogress
    exact absurd hnil (sent_ne_nil hprogress.1 hprogress.2)
  · exact hqueue.trans (hinv.unrun hnil hresting)

/-- Once a call has returned `WorkerStop`, the worker at most drops what it holds. -/
private theorem ReportInv.step_of_stop (hinv : ReportInv s h) (haction : action.isWorker = true)
    (hstep : s.step en action = some (s', os)) (hstop : Trace.stop ∈ h) :
    s'.worker = .done ∧ s.notes action = [] ∧ os = [] ∧
      s'.deliveries.queue = s.deliveries.queue := by
  have hsenders := (hinv.stopped hstop).2.1
  rw [hinv.senders] at hsenders
  obtain ⟨hdone, hnotes, hnone⟩ := step_of_senders haction hsenders hstep
  rcases resting_of_step haction hstep (by rw [hdone]; rfl) with hlast | ⟨-, hqueue⟩
  · rw [hlast] at hsenders
    cases hsenders
  · exact ⟨hdone, hnotes, hnone, hqueue⟩

/-- and so does a step of the worker. -/
private theorem worker_reportInv (haction : action.isWorker = true) (hinv : ReportInv s h)
    (hstep : s.step en action = some (s', os)) : ReportInv s' (traced h s action os) := by
  have hworker := worker_step haction hstep
  have hcallback : s.worker ≠ .stopRunning := by
    intro hstop
    have hprogress := hinv.progress
    simp only [Progress, hstop] at hprogress
  have hsend := worker_send haction hinv.alive hinv.senders (fun _ _ => hinv.room) hcallback hstep
  obtain ⟨hreceived, hsent, hnot⟩ := traced_worker (h := h) haction hstep
  have hold : Trace.stop ∈ traced h s action os → Trace.stop ∈ h := fun hstop =>
    (List.mem_append.mp hstop).resolve_right fun hnew => hnot _ hnew rfl
  constructor
  · refine ⟨hsend.alive, worker_progress haction hinv.alive hinv.progress hstep, ?_,
      hsend.senders⟩
    intro report outcome hmem
    rcases List.mem_append.mp hmem with hmem | hmem
    · exact hinv.outcomes report outcome hmem
    · rcases List.mem_append.mp hmem with hnote | hobserved
      · exact hsend.outcomes report outcome (by simpa using hnote)
      · simp at hobserved
  · rw [hreceived, hsent, hsend.queue, List.map_append, ← hinv.received, List.append_assoc]
  · rw [hworker.consumer, hworker.pending]
    exact hinv.pending
  · rw [hworker.consumer, hreceived]
    intro hat hne
    rw [(hworker.ended (hinv.ended_of_received hne)).2]
    exact hinv.drained hat hne
  · rw [hsent]
    intro hnil hresting
    exact hinv.unrun_step haction hstep (List.append_eq_nil_iff.mp hnil).1 hresting
  · intro hstop
    obtain ⟨hqueue, -, hdeliveries, hpending⟩ := hinv.stopped (hold hstop)
    obtain ⟨hdone, hnotes, -, hsame⟩ := hinv.step_of_stop haction hstep (hold hstop)
    refine ⟨?_, ?_, hsame.trans hdeliveries, hworker.pending.trans hpending⟩
    · rw [hsend.queue, hnotes, hqueue]
      rfl
    · rw [hsend.senders, hdone]
      rfl
  · refine List.pairwise_append.mpr ⟨hinv.quiet, ?_, fun entry hentry later hlater hstop => ?_⟩
    · exact List.pairwise_of_forall_mem_list fun entry hentry _ _ hstop =>
        absurd hstop (hnot entry hentry)
    · -- after the end there is nothing new
      obtain ⟨-, hnotes, rfl, -⟩ := hinv.step_of_stop haction hstep (hstop ▸ hentry)
      simp [hnotes] at hlater

/-- Every step does, as long as the collector is alive. -/
theorem step_reportInv (hdrop : action ≠ .drop) (hinv : ReportInv s h)
    (hstep : s.step en action = some (s', os)) : ReportInv s' (traced h s action os) := by
  cases haction : action.isWorker with
  | true => exact worker_reportInv haction hinv hstep
  | false =>
    have hnotes : s.notes action = [] := by
      cases action <;> first | cases haction; done | rfl
    have htraced : traced h s action os = h ++ os.map .inl := by simp [traced, hnotes]
    rw [htraced]
    exact consumer_reportInv hinv (receive_step haction hdrop hstep)

/-! ## Runs -/

/-- The reports in their order. -/
theorem Progress.ordered {omitted : Bool} {raised sent : List TerminalReport}
    (hprogress : Progress s omitted raised sent) :
    ∃ first ending panic, sent = first ++ ending ++ panic ∧
      (first = [] ∨ first = [.omission]) ∧
      (ending = [] ∨ ∃ report, ending = [.ending report]) ∧
      (panic = [] ∨ ∃ payload, panic = [.panic payload]) ∧
      (ending ≠ [] → (first = [.omission] ↔ omitted = true)) ∧
      (s.worker = .done → ending ++ panic = raised) := by
  have hnotice : notice omitted = [] ∨ notice omitted = [.omission] := by
    cases omitted
    · exact .inl rfl
    · exact .inr rfl
  have hiff : notice omitted = [.omission] ↔ omitted = true := by
    cases omitted <;> simp [notice]
  -- Before the end, only an omission can have been reported
  rcases hprogress.sent_cases with ⟨hsent, hdone⟩ | ⟨ending, panic, hsent, hraised⟩
  · exact ⟨notice omitted, [], [], by simpa using hsent, hnotice, .inl rfl, .inl rfl,
      fun h => absurd rfl h, fun h => absurd h hdone⟩
  · have hpanic : panic.toList.map TerminalReport.panic = [] ∨
        ∃ payload, panic.toList.map TerminalReport.panic = [.panic payload] := by
      cases panic with
      | none => exact .inl rfl
      | some payload => exact .inr ⟨payload, rfl⟩
    cases ending with
    | none =>
      exact ⟨[], [], panic.toList.map .panic, hsent, .inl rfl, .inl rfl, hpanic,
        fun h => absurd rfl h, fun h => (hraised h).symm⟩
    | some report =>
      exact ⟨notice omitted, [.ending report], panic.toList.map .panic, hsent, hnotice,
        .inr ⟨report, rfl⟩, hpanic, fun _ => hiff, fun h => (hraised h).symm⟩

/-- After the end every call returns `WorkerStop`. -/
private theorem call_of_stop (hinv : ReportInv s h) (hstop : Trace.stop ∈ h)
    (hidle : s.consumer = .idle)
    (call : Call) :
    ∃ rest, Machine.run (Machine.annotate notes (step en)) s (.call call :: rest) =
      some (s, [Trace.stop]) := by
  obtain ⟨hqueue, hsenders, hdeliveries, hpending⟩ := hinv.stopped hstop
  have hsame : { s with pendingDelivery := none, consumer := .idle } = s := by
    rw [← hidle, ← hpending]
  have hnow : terminalNowNonblocking s.terminal = (some .workerStop, s.terminal) := by
    simp [terminalNowNonblocking, Channel.tryRecv, hqueue, hsenders]
  by_cases hnone : s.deliveries.senders = 0
  · have hrecv : s.deliveries.tryRecv = (.disconnected, s.deliveries) := by
      simp [Channel.tryRecv, hdeliveries, hnone]
    refine ⟨[.look, .look], ?_⟩
    cases call
    all_goals
      simp [Machine.run, Machine.annotate, notes, step, callStep, look, hidle, hpending, hrecv,
        hnow, hsame, Trace.stop]
  · have hrecv : s.deliveries.tryRecv = (.empty, s.deliveries) :=
      Channel.tryRecv_eq_empty hdeliveries hnone
    cases call with
    | tryRecv =>
      refine ⟨[.look, .look], ?_⟩
      simp [Machine.run, Machine.annotate, notes, step, callStep, look, hidle, hpending, hrecv,
        hnow, hsame, Trace.stop]
    | recvTimeout =>
      -- A worker that was never run may still hold a sender: the wait for it ends
      refine ⟨[.timeOut, .look], ?_⟩
      simp [Machine.run, Machine.annotate, notes, step, callStep, timeOut, look, hidle, hpending,
        hrecv, hnow, hsame, Trace.stop]

/-- As long as the collector is alive, the reports of its worker are complete, in order and
    at most as many as the terminal channel has room for; they are received once and in this
    order, and `WorkerStop` after all of them and from then on. -/
theorem terminal_reports {eventCapacity : ℕ+} {actions : List Action}
    (hrun : notedRun en eventCapacity actions = some (s, h)) (halive : .drop ∉ actions) :
    (∀ report outcome, .inr (.sent report outcome) ∈ h → outcome = .ok) ∧
    h.sent.length ≤ 3 ∧
    (∃ first ending panic, h.sent = first ++ ending ++ panic ∧
      (first = [] ∨ first = [.omission]) ∧
      (ending = [] ∨ ∃ report, ending = [.ending report]) ∧
      (panic = [] ∨ ∃ payload, panic = [.panic payload]) ∧
      (ending ≠ [] → (first = [.omission] ↔ h.OmittedSinceAccepted)) ∧
      (s.worker = .done → ending ++ panic = h.raised)) ∧
    h.received ++ s.terminal.queue = h.sent.map TerminalReport.error ∧
    (Trace.stop ∈ h → h.received = h.sent.map TerminalReport.error) ∧
    h.Pairwise Trace.QuietAfter ∧
    (Trace.stop ∈ h → s.consumer = .idle → ∀ call, ∃ rest,
      Machine.run (Machine.annotate notes (step en)) s (.call call :: rest) =
        some (s, [Trace.stop])) := by
  -- The account is kept along the run
  have hinv : ReportInv s h := by
    refine Machine.run_invariant (C := fun _ action => action ≠ .drop) ?_
      (prepare_reportInv eventCapacity)
      (Machine.along_of_forall (C := fun action : Action => action ≠ .drop) _
        fun action hmem hdrop => halive (hdrop ▸ hmem)) hrun
    intro s h action s' new hinv hdrop hstep
    obtain ⟨os, hos, rfl⟩ := Machine.annotate_eq_some notes hstep
    exact step_reportInv hdrop hinv hos
  obtain ⟨first, ending, panic, hsent, hfirst, hending, hpanic, hiff, hraised⟩ :=
    hinv.progress.ordered
  rw [Trace.endsOmitted_iff] at hiff
  refine ⟨hinv.outcomes, ?_, ⟨first, ending, panic, hsent, hfirst, hending, hpanic, hiff, hraised⟩,
    hinv.received, fun hstop => ?_, hinv.quiet, fun hstop hidle => call_of_stop hinv hstop hidle⟩
  · rw [hsent, List.length_append, List.length_append]
    rcases hfirst with rfl | rfl <;> rcases hending with rfl | ⟨_, rfl⟩ <;>
      rcases hpanic with rfl | ⟨_, rfl⟩ <;> simp
  · have hreceived := hinv.received
    rwa [(hinv.stopped hstop).1, List.append_nil] at hreceived

/-- A sample is accepted, the next one does not fit, the poll fails, and a destructor panics;
    the consumer then calls until the end. -/
def reportedRun : List Action :=
  [.work, .work, .sample [], .work, .work, .work, .work, .work, .sample [], .work, .work, .work,
    .work, .work, .pollReturns (.error ⟨-4⟩), .work, .work, .work, .work, .work, .panic .other,
    .work, .work, .work, .work, .call .tryRecv, .look, .call .tryRecv, .look, .look,
    .call .tryRecv, .look, .look, .call .recvTimeout, .look, .look, .call .recvTimeout, .look,
    .look]

/-- Then all three reports are sent and received before `WorkerStop`. -/
theorem reportedRun_received :
    ∃ s h, notedRun .little 1 reportedRun = some (s, h) ∧
      h.sent = [.omission, .ending (.failure ⟨-4⟩), .panic .other] ∧
      h.getLast? = some Trace.stop ∧ h.received = h.sent.map TerminalReport.error := by
  have hrun : ∃ s h, notedRun .little 1 reportedRun = some (s, h) ∧
      h.sent = [.omission, .ending (.failure ⟨-4⟩), .panic .other] ∧
      h.getLast? = some Trace.stop :=
    ⟨_, _, rfl, rfl, rfl⟩
  obtain ⟨s, h, hrun, hsent, hlast⟩ := hrun
  obtain ⟨-, -, -, -, hreceived, -⟩ := terminal_reports hrun (by decide)
  exact ⟨s, h, hrun, hsent, hlast, hreceived (List.mem_of_getLast? hlast)⟩

end System

end Landlock
