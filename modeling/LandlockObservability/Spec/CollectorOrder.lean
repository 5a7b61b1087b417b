import LandlockObservability.Spec.CollectorDelivery

/-!
# Deliveries before terminal reports

A receive call looks at the delivery channel and, when it finds nothing there, at the
terminal channel.  These are two steps.  When the worker accepts a sample between them
and then ends, the call returns the report of the end although a delivery is waiting,
and a later call returns that delivery.

* `raceRun_not_terminalLast`: such a run.
* `run_terminalLast`: if every such second look finds the delivery channel still empty,
  or nothing to report, then no run has a delivery after a terminal report.
-/

namespace Landlock

/-- A receive call returned an event or the error of a malformed sample. -/
def Observation.IsSampleResult : Observation → Prop
  | returned _ result => result.isSample = true
  | _ => False

/-- No receive call returns a sample after a terminal report. -/
def TerminalLast (os : List Observation) : Prop :=
  os.Pairwise fun o o' => o.IsTerminalReport → ¬ o'.IsSampleResult

namespace System

variable {en : Endian} {s s' : System} {action : Action} {os before : List Observation}

/-! ## The race -/

/-- The consumer finds no delivery; the worker accepts a sample, its poll fails, and it
    reports that; the consumer goes on to the terminal channel, and calls again. -/
def raceRun : List Action :=
  [.work, .work, .call .tryRecv, .look] ++
    [.sample [], .work, .work, .work, .work, .work] ++
    [.pollReturns (.error ⟨-4⟩), .work, .work, .work, .work] ++
    [.look, .call .tryRecv, .look]

/-- The poll failure is returned before the delivery that was accepted before it. -/
theorem raceRun_not_terminalLast :
    ∃ s os, run .little 1 raceRun = some (s, os) ∧
      receivedResults os = [.error (.pollFailure ⟨-4⟩),
        .error (.malformedSample (.length 352 0))] ∧
      ¬ TerminalLast os := by
  refine ⟨_, _, rfl, rfl, fun hlast => ?_⟩
  have hpair := (List.pairwise_cons.mp (List.pairwise_cons.mp hlast).2).1 _ List.mem_cons_self
  exact hpair trivial rfl

/-! ## The condition -/

/-- A call that found no delivery looks at the terminal channel only while there is
    still no delivery, or while there is nothing to report. -/
def LooksInOrder (s : System) (action : Action) : Prop :=
  match action, s.consumer with
  | .look, .lookTerminal _ => s.deliveries.queue = [] ∨ s.TerminalOpen
  | _, _ => True

instance (s : System) (action : Action) : Decidable (s.LooksInOrder action) := by
  unfold LooksInOrder TerminalOpen
  split <;> infer_instance

/-- Nothing is left to return from the delivery channel. -/
def Drained (s : System) : Prop := s.deliveries.queue = [] ∧ s.pendingDelivery = none

/-- After a terminal report the collector is drained, and so it is while a call waits for
    the end of the worker. -/
structure OrderInv (s : System) (os : List Observation) : Prop where
  delivery : DeliveryInv s os
  waiting : s.consumer = .waitTerminal → s.deliveries.queue = [] ∧ s.worker.ended = true
  reported : ∀ o ∈ os, o.IsTerminalReport → s.Drained
  last : TerminalLast os

/-- While the consumer looks for a delivery, none is pending. -/
private theorem OrderInv.pending (h : OrderInv s os) (hreceiving : s.consumer.receiving = true) :
    s.pendingDelivery = none := by
  obtain ⟨q, -, hrefines⟩ := h.delivery.refines
  exact hrefines.pending hreceiving

/-! ## Steps -/

/-- A report from the terminal channel is not a sample. -/
private theorem isSample_report (h : TerminalInv s os) {terminal : Channel CollectorReceiveError}
    {error : CollectorReceiveError}
    (hnow : terminalNowNonblocking s.terminal = (some error, terminal)) :
    Delivery.isSample (.error error) = false := by
  rcases (of_terminalNow_some hnow).1 with hmem | hstop
  · exact decide_eq_false (h.reports error hmem)
  · rw [hstop]
    rfl

/-- A drained collector stays drained, and its calls return no sample. -/
private theorem look_drained (h : TerminalInv s before) (hdrained : s.Drained)
    (hstep : look s = some (s', os)) :
    s'.Drained ∧ ∀ o ∈ os, ¬ o.IsSampleResult := by
  unfold look at hstep
  split at hstep
  · split at hstep
    · rename_i hrecv
      -- A message would have been in the queue
      obtain ⟨queue, hqueue, -⟩ := Channel.eq_of_tryRecv_message hrecv
      rw [hdrained.1] at hqueue
      cases hqueue
    all_goals
      split at hstep
      all_goals
        cases hstep
        exact ⟨hdrained, by simp⟩
  · split at hstep
    · rename_i hnow
      cases hstep
      exact ⟨hdrained, by simp [Observation.IsSampleResult, isSample_report h hnow]⟩
    · cases hstep
      exact ⟨hdrained, by simp [Observation.IsSampleResult]⟩
  · split at hstep
    · rename_i hnow
      cases hstep
      exact ⟨hdrained, by simp [Observation.IsSampleResult, isSample_report h hnow]⟩
    · cases hstep
      exact ⟨hdrained, by simp⟩
  · cases hstep

/-- A collector that is drained delivers no sample. -/
private theorem consumer_drained (haction : action.isWorker = false) (h : TerminalInv s before)
    (hdrained : s.Drained) (hstep : s.step en action = some (s', os)) :
    s'.Drained ∧ ∀ o ∈ os, ¬ o.IsSampleResult := by
  cases action with
  | look => exact look_drained h hdrained hstep
  -- Nothing is pending, so that the call starts to look
  | call call =>
    have hpending := hdrained.2
    simp only [step, callStep] at hstep
    split at hstep
    · rw [hpending] at hstep
      cases hstep
      exact ⟨⟨hdrained.1, rfl⟩, by simp⟩
    · cases hstep
  | _ =>
    simp only [step, timeOut, dropStep] at hstep
    repeat' split at hstep
    all_goals first
      | cases hstep; done
      | cases haction; done
      | cases hstep
        exact ⟨hdrained, by simp⟩

/-- A terminal report comes from a look at the terminal channel. -/
private theorem look_of_report (haction : action.isWorker = false)
    (hstep : s.step en action = some (s', os)) {o : Observation} (ho : o ∈ os)
    (hreport : o.IsTerminalReport) :
    action = .look ∧ (s.consumer = .waitTerminal ∨ ∃ call, s.consumer = .lookTerminal call) := by
  cases action
  all_goals
    simp only [step, callStep, look, unpair, timeOut, dropStep] at hstep
  all_goals
    repeat' split at hstep
  all_goals first
    | cases hstep; done
    | cases haction; done
    | cases hstep
      simp_all [Observation.IsTerminalReport]

/-- Under the condition, a call that returns a terminal report finds the collector
    drained. -/
private theorem drained_of_report (hinv : OrderInv s before) (hlook : s.LooksInOrder action)
    (haction : action.isWorker = false) (hstep : s.step en action = some (s', os))
    {o : Observation} (ho : o ∈ os) (hreport : o.IsTerminalReport) : s.Drained := by
  -- An open and empty terminal channel gives no report
  have hclosed : ¬ s.TerminalOpen := fun hopen =>
    ((consumer_step haction hstep).waits hopen).2 o ho hreport
  obtain ⟨rfl, hwait | ⟨call, hcall⟩⟩ := look_of_report haction hstep ho hreport
  · exact ⟨(hinv.waiting hwait).1, hinv.pending (by rw [hwait]; rfl)⟩
  · simp only [LooksInOrder, hcall] at hlook
    exact ⟨hlook.resolve_right hclosed, hinv.pending (by rw [hcall]; rfl)⟩

/-- A call starts to wait for the end of the worker when it finds the delivery channel
    empty and without senders. -/
private theorem look_of_waiting (haction : action.isWorker = false)
    (hstep : s.step en action = some (s', os)) (hwait : s'.consumer = .waitTerminal) :
    s'.deliveries = s.deliveries ∧ (s.consumer = .waitTerminal ∨
      s.deliveries.queue = [] ∧ s.deliveries.senders = 0) := by
  cases action
  all_goals
    simp only [step, callStep, look, unpair, timeOut, dropStep] at hstep
  all_goals
    repeat' split at hstep
  all_goals first
    | cases hstep; done
    | cases haction; done
    | cases hstep
      cases hwait
      done
    | cases hstep
      exact ⟨rfl, .inl hwait⟩
    -- The only new wait: the look found the delivery channel disconnected
    | rename_i hrecv _ _
      cases hstep
      obtain ⟨hqueue, hsenders, -⟩ := Channel.of_tryRecv_disconnected hrecv
      exact ⟨rfl, .inr ⟨hqueue, hsenders⟩⟩

/-- The worker returns nothing, and after a report it accepts nothing. -/
private theorem worker_orderInv (haction : action.isWorker = true) (hinv : OrderInv s before)
    (hstep : s.step en action = some (s', os)) : OrderInv s' (before ++ os) := by
  have hworker := worker_step haction hstep
  have hquiet : ∀ o ∈ os, ¬ o.IsTerminalReport ∧ ¬ o.IsSampleResult := by
    intro o ho
    cases o with
    | returned origin result => exact absurd ho (hworker.silent origin result)
    | _ => exact ⟨id, id⟩
  refine ⟨step_deliveryInv hinv.delivery hstep, fun hwait => ?_, fun o ho hreport => ?_, ?_⟩
  · rw [hworker.consumer] at hwait
    obtain ⟨hqueue, hended⟩ := hinv.waiting hwait
    obtain ⟨hended', hsame⟩ := hworker.ended hended
    exact ⟨hsame.trans hqueue, hended'⟩
  · -- a report means that the worker has ended, and then the channel keeps its queue
    rcases List.mem_append.mp ho with hold | hnew
    · obtain ⟨hqueue, hpending⟩ := hinv.reported o hold hreport
      have hsame := (hworker.ended (hinv.delivery.terminal.reported o hold hreport)).2
      exact ⟨hsame.trans hqueue, hworker.pending.trans hpending⟩
    · exact absurd hreport (hquiet o hnew).1
  · refine List.pairwise_append.mpr ⟨hinv.last, ?_, fun o _ o' ho' _ => (hquiet o' ho').2⟩
    exact List.pairwise_of_forall_mem_list fun o _ o' ho' _ => (hquiet o' ho').2

/-- Under the condition, the consumer returns a report only when it is drained, and a
    drained consumer returns no sample. -/
private theorem consumer_orderInv (haction : action.isWorker = false) (hinv : OrderInv s before)
    (hlook : s.LooksInOrder action) (hstep : s.step en action = some (s', os)) :
    OrderInv s' (before ++ os) := by
  have hterminal := hinv.delivery.terminal
  have hdrained : ∀ o ∈ before ++ os, o.IsTerminalReport → s.Drained := by
    intro o ho hreport
    rcases List.mem_append.mp ho with hold | hnew
    · exact hinv.reported o hold hreport
    · exact drained_of_report hinv hlook haction hstep hnew hreport
  refine ⟨step_deliveryInv hinv.delivery hstep, fun hwait => ?_, fun o ho hreport => ?_, ?_⟩
  · obtain ⟨hsame, hbefore⟩ := look_of_waiting haction hstep hwait
    rw [hsame, (consumer_step haction hstep).worker]
    rcases hbefore with hwait | ⟨hqueue, hsenders⟩
    · exact hinv.waiting hwait
    · -- a worker that still collects would hold a sender
      refine ⟨hqueue, ?_⟩
      by_contra hended
      exact (hterminal.collecting (Bool.eq_false_of_not_eq_true hended)).2 hsenders
  · exact (consumer_drained haction hterminal (hdrained o ho hreport) hstep).1
  · have hlast : ∀ o ∈ before ++ os, ∀ o' ∈ os, o.IsTerminalReport → ¬ o'.IsSampleResult :=
      fun o ho o' ho' hreport =>
        (consumer_drained haction hterminal (hdrained o ho hreport) hstep).2 o' ho'
    refine List.pairwise_append.mpr ⟨hinv.last, ?_, fun o ho o' ho' => ?_⟩
    · exact List.pairwise_of_forall_mem_list fun o ho o' ho' =>
        hlast o (List.mem_append_right _ ho) o' ho'
    · exact hlast o (List.mem_append_left _ ho) o' ho'

/-- Under the condition, a step keeps deliveries before terminal reports. -/
private theorem step_orderInv (hinv : OrderInv s before) (hlook : s.LooksInOrder action)
    (hstep : s.step en action = some (s', os)) : OrderInv s' (before ++ os) := by
  cases haction : action.isWorker with
  | true => exact worker_orderInv haction hinv hstep
  | false => exact consumer_orderInv haction hinv hlook hstep

/-! ## Runs -/

/-- In every run whose looks are in order, no receive call returns an event or the error
    of a malformed sample after a terminal report. -/
theorem run_terminalLast {eventCapacity : ℕ+} {actions : List Action}
    (hrun : run en eventCapacity actions = some (s, os))
    (hlooks : Machine.Along (step en) LooksInOrder (prepare eventCapacity) actions) :
    TerminalLast os := by
  have hinit : OrderInv (prepare eventCapacity) [] :=
    { delivery := prepare_deliveryInv eventCapacity
      waiting := fun h => nomatch h
      reported := fun _ h => absurd h List.not_mem_nil
      last := List.Pairwise.nil }
  exact (Machine.run_invariant (fun _ _ _ _ _ hinv hlook hstep => step_orderInv hinv hlook hstep)
    hinit hlooks hrun).last

/-- The worker accepts a sample and its poll fails before the consumer calls. -/
def orderedRun : List Action :=
  [.work, .work, .sample [], .work, .work, .work, .work, .work] ++
    [.pollReturns (.error ⟨-4⟩), .work, .work, .work, .work] ++
    [.call .tryRecv, .look, .call .tryRecv, .look, .look]

/-- Then the calls return the delivery and after it the failure. -/
theorem orderedRun_terminalLast :
    ∃ s os, run .little 1 orderedRun = some (s, os) ∧
      receivedResults os = [.error (.malformedSample (.length 352 0)),
        .error (.pollFailure ⟨-4⟩)] ∧
      TerminalLast os := by
  have hrun : ∃ s os, run .little 1 orderedRun = some (s, os) ∧
      receivedResults os = [.error (.malformedSample (.length 352 0)),
        .error (.pollFailure ⟨-4⟩)] :=
    ⟨_, _, rfl, rfl⟩
  obtain ⟨s, os, hrun, hreceived⟩ := hrun
  exact ⟨s, os, hrun, hreceived, run_terminalLast hrun (by decide)⟩

end System

end Landlock
