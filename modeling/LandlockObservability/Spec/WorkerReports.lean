import LandlockObservability.Spec.CollectorTerminal
import Mathlib.Data.List.Induction

/-!
# What the worker reports

What the worker of a collector reports about its own end, as long as the collector is alive.
The runs here also note what happened that is to be reported, and each report that the worker
sends, with the outcome that the source ignores.

`Progress` says for every place of the worker what has been raised and what has been sent by
then.

## Key results

- `noted_run`: the notes change nothing about a run
- `worker_progress`: the worker follows `Progress`
- `worker_send`: while the terminal channel has room, every report is sent
-/

namespace Landlock

/-! ## Traces -/

/-- A message on the terminal channel, by the code path that sends it. -/
inductive TerminalReport where
  | omission
  /-- What ended the collection: a failed poll or a panic in the callback. -/
  | ending (report : Report)
  /-- A panic outside the callback. -/
  | panic (payload : PanicPayload)
  deriving DecidableEq

def TerminalReport.error : TerminalReport → CollectorReceiveError
  | omission => .outputQueueFull
  | ending report => report.error
  | panic payload => .workerReceivePanic payload

/-- What is noted about a step of the worker. -/
inductive Note where
  /-- Something happened that is to be reported. -/
  | raised (report : TerminalReport)
  /-- The worker tried to send a report. -/
  | sent (report : TerminalReport) (outcome : Channel.Sent)
  deriving DecidableEq

/-- The notes about a step. -/
def System.notes (s : System) : Action → List Note
  | .work =>
    match s.worker with
    | .sendOmission _ => [.sent .omission (s.terminal.trySend .outputQueueFull).1]
    | .sendReport report => [.sent (.ending report) (s.terminal.trySend report.error).1]
    | .reportPanic payload =>
      [.sent (.panic payload) (s.terminal.trySend (.workerReceivePanic payload)).1]
    | _ => []
  | .panic payload =>
    match s.worker with
    | .decode _ => [.raised (.ending (.panic payload))]
    | .send _ => [.raised (.ending (.panic payload))]
    | .polling => [.raised (.panic payload)]
    | .dropResources none => [.raised (.panic payload)]
    | _ => []
  | .pollReturns (.error error) =>
    match s.worker with
    | .polling => [.raised (.ending (.failure error))]
    -- The callback made the poll fail
    | _ => []
  | _ => []

/-- Everything that was observed and noted, in its order. -/
abbrev Trace := List (Observation ⊕ Note)

namespace Trace

/-- The reports that the worker tried to send. -/
def sent (h : Trace) : List TerminalReport :=
  h.filterMap fun
    | .inr (.sent report _) => some report
    | _ => none

/-- What happened that is to be reported. -/
def raised (h : Trace) : List TerminalReport :=
  h.filterMap fun
    | .inr (.raised report) => some report
    | _ => none

/-- The reports that receive calls returned. -/
def received (h : Trace) : List CollectorReceiveError :=
  h.filterMap fun
    | .inl (.returned .terminal (.error error)) =>
      if error = .workerStop then none else some error
    | _ => none

/-- The last sample that was accepted or omitted was omitted. -/
def endsOmitted (h : Trace) : Bool :=
  h.foldl (fun omitted entry => match entry with
    | .inl (.accepted _) => false
    | .inl .omitted => true
    | _ => omitted) false

/-- A receive call returned `WorkerStop`. -/
def stop : Observation ⊕ Note := .inl (.returned .terminal (.error .workerStop))

/-- Once a call has returned `WorkerStop`, no report is sent and no call returns anything
    else. -/
def QuietAfter (entry later : Observation ⊕ Note) : Prop :=
  entry = stop → match later with
    | .inl (.returned _ _) => later = stop
    | .inl (.nothing _) => False
    | .inr (.sent _ _) => False
    | _ => True

variable (h h' : Trace)

@[simp] theorem sent_append : sent (h ++ h') = h.sent ++ h'.sent := List.filterMap_append

@[simp] theorem raised_append : raised (h ++ h') = h.raised ++ h'.raised := List.filterMap_append

@[simp] theorem received_append : received (h ++ h') = h.received ++ h'.received :=
  List.filterMap_append

@[simp] theorem sent_of_sent (report : TerminalReport) (outcome : Channel.Sent) :
    sent [.inr (.sent report outcome)] = [report] :=
  rfl

@[simp] theorem sent_of_raised (report : TerminalReport) : sent [.inr (.raised report)] = [] := rfl

@[simp] theorem sent_of_observed (o : Observation) : sent [.inl o] = [] := rfl

@[simp] theorem raised_of_sent (report : TerminalReport) (outcome : Channel.Sent) :
    raised [.inr (.sent report outcome)] = [] :=
  rfl

@[simp] theorem raised_of_raised (report : TerminalReport) :
    raised [.inr (.raised report)] = [report] :=
  rfl

@[simp] theorem raised_of_observed (o : Observation) : raised [.inl o] = [] := rfl

@[simp] theorem endsOmitted_concat (entry : Observation ⊕ Note) :
    endsOmitted (h ++ [entry]) = match entry with
      | .inl (.accepted _) => false
      | .inl .omitted => true
      | _ => h.endsOmitted :=
  List.foldl_concat ..

/-- A sample was omitted, and none was accepted after it. -/
def OmittedSinceAccepted (h : Trace) : Prop :=
  ∃ before after, h = before ++ .inl .omitted :: after ∧
    ∀ delivery, .inl (.accepted delivery) ∉ after

/-- What one more entry changes about the last sample. -/
private theorem omittedSinceAccepted_concat (entry : Observation ⊕ Note) :
    OmittedSinceAccepted (h ++ [entry]) ↔
      entry = .inl .omitted ∨
        (OmittedSinceAccepted h ∧ ∀ delivery, entry ≠ .inl (.accepted delivery)) := by
  constructor
  · rintro ⟨before, after, heq, hafter⟩
    -- The omission is the new entry, or was there before
    rcases List.eq_nil_or_concat' after with rfl | ⟨after, last, rfl⟩
    · exact .inl (List.append_inj' heq rfl |>.2 |> List.singleton_inj.mp)
    · rw [← List.cons_append, ← List.append_assoc] at heq
      obtain ⟨rfl, hlast⟩ := List.append_inj' heq rfl
      obtain rfl := List.singleton_inj.mp hlast
      refine .inr ⟨⟨before, after, rfl, fun delivery hmem => ?_⟩, fun delivery heq => ?_⟩
      · exact hafter delivery (List.mem_append_left _ hmem)
      · exact hafter delivery (List.mem_append_right _ (List.mem_singleton.mpr heq.symm))
  · rintro (rfl | ⟨⟨before, after, rfl, hafter⟩, hentry⟩)
    · exact ⟨h, [], rfl, fun _ => List.not_mem_nil⟩
    · refine ⟨before, after ++ [entry], by simp, fun delivery hmem => ?_⟩
      rcases List.mem_append.mp hmem with hmem | hmem
      · exact hafter delivery hmem
      · exact hentry delivery (List.mem_singleton.mp hmem).symm

/-- The flag of a trace says whether the last sample was omitted. -/
theorem endsOmitted_iff : h.endsOmitted = true ↔ h.OmittedSinceAccepted := by
  induction h using List.reverseRecOn with
  | nil => simp [endsOmitted, OmittedSinceAccepted]
  | append_singleton h entry ih =>
    rw [endsOmitted_concat, omittedSinceAccepted_concat]
    rcases entry with o | note
    · cases o <;> simp [ih]
    · simp [ih]

/-- One more entry, which is not after the end unless it fits there. -/
theorem quiet_concat {h : Trace} {entry : Observation ⊕ Note} (hquiet : h.Pairwise QuietAfter)
    (hentry : stop ∈ h → QuietAfter stop entry) : (h ++ [entry]).Pairwise QuietAfter := by
  refine List.pairwise_append.mpr ⟨hquiet, List.pairwise_singleton .., ?_⟩
  rintro earlier hmem later hlater rfl
  rw [List.mem_singleton.mp hlater]
  exact hentry hmem rfl

end Trace

/-- The consumer has found no delivery and looks at the terminal channel. -/
def ConsumerPc.atTerminal : ConsumerPc → Bool
  | lookTerminal _ => true
  | waitTerminal => true
  | _ => false

namespace System

variable {en : Endian} {s s' : System} {action : Action} {os : List Observation}

/-- A run with its notes. -/
def notedRun (en : Endian) (eventCapacity : ℕ+) (actions : List Action) :
    Option (System × Trace) :=
  Machine.run (Machine.annotate notes (step en)) (prepare eventCapacity) actions

/-- The notes change nothing about a run. -/
theorem noted_run (eventCapacity : ℕ+) (actions : List Action) :
    (notedRun en eventCapacity actions).map (fun r => (r.1, r.2.filterMap Sum.getLeft?)) =
      run en eventCapacity actions :=
  Machine.run_annotate notes (prepare eventCapacity) actions

/-! ## The progress of the worker -/

/-- The notice that belongs to what ended the collection. -/
def notice (omitted : Bool) : List TerminalReport := if omitted then [.omission] else []

/-- What is to be sent before a panic outside the callback. -/
def endingReports (omitted : Bool) : Option Report → List TerminalReport
  | none => []
  | some report => notice omitted ++ [.ending report]

/-- What has been raised and what has been sent when the worker is at its place, given
    whether the last sample was omitted. -/
def Progress (s : System) (omitted : Bool) (raised sent : List TerminalReport) : Prop :=
  match s.worker with
  -- The flag is stored after the sample was sent
  | .storeFlag value => value = omitted ∧ s.callbackPanic = none ∧ raised = [] ∧ sent = []
  | .rejected => s.outputFullPending = omitted ∧
    (∃ payload, s.callbackPanic = some payload ∧ raised = [.ending (.panic payload)]) ∧ sent = []
  | .polled result => s.outputFullPending = omitted ∧ sent = [] ∧
    match s.callbackPanic, result with
    | some payload, _ => raised = [.ending (.panic payload)]
    | none, .ok () => raised = []
    | none, .error error => raised = [.ending (.failure error)]
  | .swapFlag payload => s.outputFullPending = omitted ∧
    raised = [.ending (.panic payload)] ∧ sent = []
  | .checkRunning error => s.outputFullPending = omitted ∧
    raised = [.ending (.failure error)] ∧ sent = []
  | .checkFlag error => s.outputFullPending = omitted ∧
    raised = [.ending (.failure error)] ∧ sent = []
  | .sendOmission report => omitted = true ∧ raised = [.ending report] ∧ sent = []
  | .sendReport report => raised = [.ending report] ∧ sent = notice omitted
  | .dropResources panic => Leaving omitted raised sent panic
  | .dropTerminal panic => Leaving omitted raised sent panic
  | .dropDeliveries panic => Leaving omitted raised sent panic
  | .reportPanic payload => Leaving omitted raised sent (some payload)
  | .dropTerminalPanic => raised ≠ [] ∧ Reported omitted raised sent
  | .unrunTerminal => raised = [] ∧ sent = []
  | .unrunResources => raised = [] ∧ sent = []
  | .done => Reported omitted raised sent
  -- Only for a collector that is gone
  | .stopRunning => False
  | _ => s.outputFullPending = omitted ∧ s.callbackPanic = none ∧ raised = [] ∧ sent = []
where
  /-- The worker has left its loop, perhaps with a panic that is not yet reported. -/
  Leaving (omitted : Bool) (raised sent : List TerminalReport) (panic : Option PanicPayload) :=
    ∃ ending : Option Report, (ending = none → panic ≠ none) ∧
      raised = ending.toList.map .ending ++ panic.toList.map .panic ∧
      sent = endingReports omitted ending
  /-- Everything has been sent. -/
  Reported (omitted : Bool) (raised sent : List TerminalReport) :=
    ∃ (ending : Option Report) (panic : Option PanicPayload),
      raised = ending.toList.map .ending ++ panic.toList.map .panic ∧
      sent = endingReports omitted ending ++ panic.toList.map .panic

section Progress

variable {omitted : Bool} {raised sent : List TerminalReport}

/-- What has been sent is the notice alone, or some of the reports that are due. -/
theorem Progress.sent_cases (h : Progress s omitted raised sent) :
    (sent = notice omitted ∧ s.worker ≠ .done) ∨
      ∃ (ending : Option Report) (panic : Option PanicPayload),
        sent = endingReports omitted ending ++ panic.toList.map .panic ∧
        (s.worker = .done → raised = ending.toList.map .ending ++ panic.toList.map .panic) := by
  unfold Progress at h
  cases hworker : s.worker with
  | sendReport report =>
    simp only [hworker] at h
    exact .inl ⟨h.2, nofun⟩
  | dropResources panic | dropTerminal panic | dropDeliveries panic | reportPanic payload =>
    simp only [hworker] at h
    obtain ⟨ending, -, -, hsent⟩ := h
    exact .inr ⟨ending, none, by simp [hsent], nofun⟩
  | dropTerminalPanic =>
    simp only [hworker] at h
    obtain ⟨-, ending, panic, hraised, hsent⟩ := h
    exact .inr ⟨ending, panic, hsent, fun _ => hraised⟩
  | done =>
    simp only [hworker] at h
    obtain ⟨ending, panic, hraised, hsent⟩ := h
    exact .inr ⟨ending, panic, hsent, fun _ => hraised⟩
  | stopRunning =>
    simp only [hworker] at h
  | _ =>
    -- Nothing has been sent
    simp only [hworker] at h
    exact .inr ⟨none, none, by simp [endingReports, h], nofun⟩

/-- What ended the collection has been reported. -/
private theorem Progress.leaving_ending (report : Report) :
    Leaving omitted [.ending report] (notice omitted ++ [.ending report]) none :=
  ⟨some report, nofun, rfl, rfl⟩

/-- A panic is still to be reported. -/
private theorem Progress.leaving_panic (payload : PanicPayload) :
    Leaving omitted [.panic payload] [] (some payload) :=
  ⟨none, nofun, rfl, rfl⟩

/-- A destructor may still panic after what ended the collection was reported. -/
theorem Progress.Leaving.panic (h : Leaving omitted raised sent none) (payload : PanicPayload) :
    Leaving omitted (raised ++ [.panic payload]) sent (some payload) := by
  obtain ⟨ending, -, rfl, rfl⟩ := h
  exact ⟨ending, nofun, by simp, rfl⟩

/-- Once the panic is reported too, everything is. -/
theorem Progress.Leaving.reported {panic : Option PanicPayload}
    (h : Leaving omitted raised sent panic) :
    raised ≠ [] ∧ Reported omitted raised (sent ++ panic.toList.map .panic) := by
  obtain ⟨ending, hsome, rfl, rfl⟩ := h
  refine ⟨fun hnil => ?_, ending, panic, rfl, rfl⟩
  obtain ⟨hending, hpanic⟩ := List.append_eq_nil_iff.mp hnil
  exact hsome (by simpa using hending) (by simpa using hpanic)

/-- A worker that has sent something has ended. -/
theorem Progress.ended (h : Progress s omitted raised sent) (hsent : sent ≠ []) :
    s.worker.ended = true := by
  unfold Progress at h
  cases hworker : s.worker with
  | stopRunning => simp only [hworker] at h
  | _ =>
    first
    | rfl
    | simp only [hworker] at h
      simp [h] at hsent

end Progress

/-! ## Steps of the worker -/

/-- What does not change while the collector is alive. -/
structure Alive (s : System) : Prop where
  running : s.running = true
  deliveries : s.deliveries.receiving = true
  terminal : s.terminal.receiving = true
  capacity : s.terminal.capacity = 3

/-- The trace after a step. -/
def traced (h : Trace) (s : System) (action : Action) (os : List Observation) : Trace :=
  h ++ ((s.notes action).map .inr ++ os.map .inl)

/-- A collector that is alive receives, so a sample is accepted or omitted. -/
private theorem send_step {entry : DeliveryEntry} (halive : s.Alive)
    (hworker : s.worker = .send entry) (hstep : work en s = some (s', os)) :
    ∃ deliveries omitted, deliveries.receiving = true ∧
      s' = { s with deliveries, worker := .storeFlag omitted } ∧
      os = [if omitted then .omitted else .accepted entry.delivery] := by
  simp only [work, hworker] at hstep
  unfold Channel.trySend at hstep
  rw [if_pos halive.deliveries] at hstep
  -- Room or no room: the receiver is there in both cases
  split at hstep
  all_goals
    rename_i hsent
    split at hsent
    all_goals
      cases hsent
    all_goals
      cases hstep
      refine ⟨_, _, ?_, rfl, ?_⟩
      · exact halive.deliveries
      · rfl

/-- A step that the place of the worker determines follows `Progress`. -/
private theorem work_progress {h : Trace} (halive : s.Alive)
    (hprogress : Progress s h.endsOmitted h.raised h.sent) (hstep : work en s = some (s', os)) :
    Progress s' (traced h s .work os).endsOmitted (traced h s .work os).raised
      (traced h s .work os).sent := by
  -- The places where a sample or a report is sent, and the one where the worker was never run
  cases hworker : s.worker with
  | send entry =>
    simp only [Progress, hworker] at hprogress
    obtain ⟨deliveries, omitted, -, rfl, rfl⟩ := send_step halive hworker hstep
    cases omitted <;> simp [Progress, traced, notes, hworker, hprogress]
  | sendReport report =>
    simp only [Progress, hworker] at hprogress
    simp only [work, hworker] at hstep
    cases hstep
    simpa [Progress, traced, notes, hworker, hprogress] using Progress.leaving_ending report
  | dropDeliveries panic =>
    simp only [Progress, hworker] at hprogress
    simp only [work, hworker] at hstep
    cases hstep
    cases panic with
    | none => simpa [Progress, traced, notes, hworker] using hprogress.reported
    | some payload => simpa [Progress, traced, notes, hworker] using hprogress
  | reportPanic payload =>
    simp only [Progress, hworker] at hprogress
    simp only [work, hworker] at hstep
    cases hstep
    simpa [Progress, traced, notes, hworker] using hprogress.reported
  | unrunResources =>
    simp only [Progress, hworker] at hprogress
    simp only [work, hworker] at hstep
    cases hstep
    simpa [Progress, traced, notes, hworker, hprogress] using ⟨none, none, rfl, rfl⟩
  | _ =>
    -- The other places pass on what they know; only the flag is looked at
    simp only [work, hworker, halive.running, reduceCtorEq] at hstep
    repeat' split at hstep
    all_goals
      cases hstep
      simp_all [Progress, traced, notes, notice]

/-- So does a panic. -/
private theorem panic_progress {h : Trace} {payload : PanicPayload}
    (hprogress : Progress s h.endsOmitted h.raised h.sent)
    (hstep : panicStep s payload = some (s', os)) :
    Progress s' (traced h s (.panic payload) os).endsOmitted
      (traced h s (.panic payload) os).raised (traced h s (.panic payload) os).sent := by
  cases hworker : s.worker with
  | polling =>
    simp only [Progress, hworker] at hprogress
    simp only [panicStep, hworker] at hstep
    cases hstep
    simpa [Progress, traced, notes, hworker, hprogress] using Progress.leaving_panic payload
  | dropResources panic =>
    cases panic with
    | none =>
      simp only [Progress, hworker] at hprogress
      simp only [panicStep, hworker] at hstep
      cases hstep
      simpa [Progress, traced, notes, hworker] using hprogress.panic payload
    | some first => simp only [panicStep, hworker, reduceCtorEq] at hstep
  | _ =>
    -- A panic in the callback, or none at this place
    simp only [panicStep, hworker, reduceCtorEq] at hstep
    all_goals
      cases hstep
      simp_all [Progress, traced, notes]

/-- The worker follows `Progress`. -/
theorem worker_progress {h : Trace} (haction : action.isWorker = true) (halive : s.Alive)
    (hprogress : Progress s h.endsOmitted h.raised h.sent)
    (hstep : s.step en action = some (s', os)) :
    Progress s' (traced h s action os).endsOmitted (traced h s action os).raised
      (traced h s action os).sent := by
  cases action with
  | work => exact work_progress halive hprogress hstep
  | panic payload => exact panic_progress hprogress hstep
  | pollReturns result =>
    simp only [step] at hstep
    repeat' split at hstep
    · -- only a poll that failed by itself raises something
      rename_i hworker
      cases hstep
      cases result with
      | ok result => simp_all [Progress, traced, notes]
      | error error => simp_all [Progress, traced, notes]
    all_goals
      cases hstep
    -- The callback panicked, and that was raised then
    rename_i hworker _ error
    simp only [Progress, hworker] at hprogress
    obtain ⟨hflag, ⟨payload, hpanic, hraised⟩, hsent⟩ := hprogress
    simp [Progress, traced, notes, hworker, hflag, hpanic, hraised, hsent]
  | _ =>
    simp only [step] at hstep
    repeat' split at hstep
    all_goals first
      | cases hstep; done
      | cases haction; done
      | cases hstep
        simp_all [Progress, traced, notes]

/-- How many senders of the terminal channel the worker holds at its place. -/
def terminalSenders : WorkerPc → Nat
  | .created => 1
  | .dropDeliveries _ => 1
  | .reportPanic _ => 1
  | .dropTerminalPanic => 1
  | .unrunTerminal => 1
  | .unrunResources => 0
  | .done => 0
  | _ => 2

/-- What a step of the worker does to the terminal channel while it has room for the next
    report. -/
structure SendStep (s s' : System) (notes : List Note) : Prop where
  alive : s'.Alive
  senders : s'.terminal.senders = terminalSenders s'.worker
  outcomes : ∀ report outcome, .sent report outcome ∈ notes → outcome = .ok
  queue : s'.terminal.queue = s.terminal.queue ++
    (Trace.sent (notes.map .inr)).map TerminalReport.error

/-- A step that sends a report finds room for it. -/
private theorem SendStep.of_send (halive : s.Alive)
    (hsenders : s.terminal.senders = terminalSenders s.worker) (report : TerminalReport)
    {pc : WorkerPc} (hroom : s.terminal.queue.length < 3)
    (hpc : terminalSenders pc = terminalSenders s.worker) :
    SendStep s
      { s with terminal := (s.terminal.trySend report.error).2, worker := pc }
      [.sent report (s.terminal.trySend report.error).1] := by
  have hsend := Channel.trySend_eq_ok halive.terminal (halive.capacity ▸ hroom) report.error
  rw [hsend]
  refine ⟨⟨halive.running, halive.deliveries, halive.terminal, halive.capacity⟩, ?_, ?_, ?_⟩
  · exact hsenders.trans hpc.symm
  · simp
  · simp

/-- A step that sends nothing. -/
private theorem SendStep.of_quiet {notes : List Note} (halive : s'.Alive)
    (hsenders : s'.terminal.senders = terminalSenders s'.worker) (hnotes : notes = [])
    (hqueue : s'.terminal.queue = s.terminal.queue) : SendStep s s' notes := by
  subst hnotes
  refine ⟨halive, hsenders, fun report outcome h => absurd h List.not_mem_nil, ?_⟩
  rw [hqueue]
  exact (List.append_nil _).symm

/-- A step that the place of the worker determines sends what is due. -/
private theorem work_send (halive : s.Alive)
    (hsenders : s.terminal.senders = terminalSenders s.worker)
    (hroom : ∀ report outcome, .sent report outcome ∈ s.notes .work →
      s.terminal.queue.length < 3)
    (hcallback : s.worker ≠ .stopRunning)
    (hstep : work en s = some (s', os)) : SendStep s s' (s.notes .work) := by
  -- Three places send a report, one sends a sample
  cases hworker : s.worker with
  | sendOmission report =>
    simp only [work, hworker] at hstep
    simp only [notes, hworker, List.mem_singleton] at hroom ⊢
    cases hstep
    exact .of_send halive hsenders .omission (hroom _ _ rfl) (by rw [hworker]; rfl)
  | sendReport report =>
    simp only [work, hworker] at hstep
    simp only [notes, hworker, List.mem_singleton] at hroom ⊢
    cases hstep
    exact .of_send halive hsenders (.ending report) (hroom _ _ rfl) (by rw [hworker]; rfl)
  | reportPanic payload =>
    simp only [work, hworker] at hstep
    simp only [notes, hworker, List.mem_singleton] at hroom ⊢
    cases hstep
    exact .of_send halive hsenders (.panic payload) (hroom _ _ rfl) (by rw [hworker]; rfl)
  | send entry =>
    obtain ⟨deliveries, omitted, hreceiving, rfl, -⟩ := send_step halive hworker hstep
    refine ⟨⟨halive.running, hreceiving, halive.terminal, halive.capacity⟩, ?_, ?_, ?_⟩
    · rw [hsenders, hworker]
      rfl
    · simp [notes, hworker]
    · simp [notes, hworker, Trace.sent]
  | stopRunning => exact absurd hworker hcallback
  | _ =>
    obtain ⟨hrunning, hdeliveries, hterminal, hcapacity⟩ := halive
    rw [hworker] at hsenders
    simp only [work, hworker, reduceCtorEq] at hstep
    repeat' split at hstep
    all_goals
      cases hstep
      refine .of_quiet ⟨hrunning, hdeliveries, hterminal, hcapacity⟩ ?_ ?_ rfl
      · simp only [Channel.cloneSender, Channel.dropSender, hsenders, terminalSenders]
      · simp only [notes, hworker]

/-- Only a step that the place of the worker determines sends a report. -/
theorem notes_of_ne_work (haction : action ≠ .work) :
    (∀ report outcome, .sent report outcome ∉ s.notes action) ∧
      Trace.sent ((s.notes action).map .inr) = [] := by
  unfold notes
  repeat' split
  all_goals first
    | exact absurd rfl haction
    | exact ⟨by simp, rfl⟩

/-- While the terminal channel has room, every report is sent. -/
theorem worker_send (haction : action.isWorker = true) (halive : s.Alive)
    (hsenders : s.terminal.senders = terminalSenders s.worker)
    (hroom : ∀ report outcome, .sent report outcome ∈ s.notes action →
      s.terminal.queue.length < 3)
    (hcallback : s.worker ≠ .stopRunning) (hstep : s.step en action = some (s', os)) :
    SendStep s s' (s.notes action) := by
  by_cases hwork : action = .work
  · subst hwork
    exact work_send halive hsenders hroom hcallback hstep
  · obtain ⟨hnone, hsent⟩ := notes_of_ne_work (s := s) hwork
    obtain ⟨hrunning, hdeliveries, hterminal, hcapacity⟩ := halive
    -- The kernel's side of the worker sends no reports
    have hterminal' : s'.Alive ∧ s'.terminal.senders = terminalSenders s'.worker ∧
        s'.terminal.queue = s.terminal.queue := by
      cases action with
      | work => exact absurd rfl hwork
      | _ =>
        simp only [step, panicStep] at hstep
        repeat' split at hstep
        all_goals first
          | cases hstep; done
          | cases haction; done
          | cases hstep
            refine ⟨⟨hrunning, hdeliveries, hterminal, hcapacity⟩, ?_, rfl⟩
            simp_all [terminalSenders]
    obtain ⟨halive', hsenders', hqueue⟩ := hterminal'
    refine ⟨halive', hsenders', fun report outcome h => absurd h (hnone report outcome), ?_⟩
    rw [hsent, hqueue]
    simp

end System

end Landlock
