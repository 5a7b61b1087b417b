import LandlockObservability.Model.Drain

/-!
# When a drain cycle returns

The drain loop counts the events that it observes, and it goes on after an error that is
recoverable without counting it.  It therefore returns if and only if the stream has an end for
it: a call that finds nothing, a fatal error, or enough events.
-/

namespace Landlock.Tui

/-! ## Results of a receive call -/

/-- The call returned an event. -/
def isEvent : Except TryReceiveError Event → Bool
  | .ok _ => true
  | .error _ => false

/-- The call returned an error after which the loop goes on. -/
def isRecoverable : Except TryReceiveError Event → Bool
  | .ok _ => false
  | .error error => recoverableCollectorError (error.source.map CollectorReceiveError.kind)

/-- The number of the first `n` calls whose results have a property. -/
def countCalls (p : Except TryReceiveError Event → Bool)
    (receive : Nat → Except TryReceiveError Event) (n : Nat) : Nat :=
  (List.range n).countP fun i => p (receive i)

section Counts

variable {p q : Except TryReceiveError Event → Bool}
  {receive : Nat → Except TryReceiveError Event} {n : Nat}

/-- One more call. -/
private theorem countCalls_succ :
    countCalls p receive (n + 1) = countCalls p receive n + if p (receive n) then 1 else 0 := by
  rw [countCalls, List.range_succ, List.countP_append, List.countP_singleton]
  rfl

end Counts

/-- The stream has an end for the drain loop at the call `n`: nothing is ready, or the error is
    fatal, or enough events came before. -/
def EndsAt (receive : Nat → Except TryReceiveError Event) (n : Nat) : Prop :=
  (isEvent (receive n) = false ∧ isRecoverable (receive n) = false) ∨
    maxReadyEventsPerCycle ≤ countCalls isEvent receive n

/-- The model after the events among the first `n` calls. -/
def observeCalls (orders : Nat → IterOrder DenialKey AggregatedDenial)
    (receive : Nat → Except TryReceiveError Event) (model : ObservationModel) (n : Nat) :
    ObservationModel :=
  (List.range n).foldl
    (fun model i => match receive i with
      | .ok event => model.observe (orders i) event
      | .error _ => model) model

/-- One more call. -/
theorem observeCalls_succ (orders : Nat → IterOrder DenialKey AggregatedDenial)
    (receive : Nat → Except TryReceiveError Event) (model : ObservationModel) (n : Nat) :
    observeCalls orders receive model (n + 1) = match receive n with
      | .ok event => (observeCalls orders receive model n).observe (orders n) event
      | .error _ => observeCalls orders receive model n := by
  rw [observeCalls, List.range_succ, List.foldl_append]
  rfl

/-! ## Rounds -/

section Rounds

variable (pollText : PollError → String) (orders : Nat → IterOrder DenialKey AggregatedDenial)
  (receive : Nat → Except TryReceiveError Event)

/-- What a round does: it observes an event, keeps a warning, or returns. -/
inductive Round (s : Drain) : Drain ⊕ Drained → Prop where
  | observes {event : Event} (hevent : receive s.calls = .ok event)
      (hcount : s.count < maxReadyEventsPerCycle) :
      Round s (.inl ⟨s.app, s.model.observe (orders s.calls) event, s.count + 1, s.calls + 1⟩)
  | warns {error : TryReceiveError} (herror : receive s.calls = .error error)
      (hrecoverable : isRecoverable (.error error) = true)
      (hcount : s.count < maxReadyEventsPerCycle) :
      Round s (.inl ⟨s.app.setCollectorWarning (error.display pollText), s.model, s.count,
        s.calls + 1⟩)
  | ends {error : TryReceiveError} (result : Except TryReceiveError Nat)
      (herror : receive s.calls = .error error) (hfatal : isRecoverable (.error error) = false)
      (hcount : s.count < maxReadyEventsPerCycle) :
      Round s (.inr ⟨result, { s with calls := s.calls + 1 }⟩)
  | full (hcount : maxReadyEventsPerCycle ≤ s.count) : Round s (.inr ⟨.ok s.count, s⟩)

/-- A round is one of the cases. -/
theorem drainRound_spec (s : Drain) :
    Round pollText orders receive s (drainRound pollText orders receive s) := by
  rw [drainRound]
  split
  case isFalse hcount => exact .full (Nat.le_of_not_lt hcount)
  case isTrue hcount =>
    cases hreceive : receive s.calls with
    | ok event => exact .observes hreceive hcount
    | error error =>
      cases error with
      | empty => exact .ends (.ok s.count) hreceive rfl hcount
      -- The kind of the error decides if the loop goes on
      | collector error =>
        simp only [handleCollectorError]
        cases hrecoverable : recoverableCollectorError
            ((TryReceiveError.collector error).source.map CollectorReceiveError.kind) with
        | true => exact .warns hreceive hrecoverable hcount
        | false => exact .ends (.error (.collector error)) hreceive hrecoverable hcount

/-- The variables of the loop while it runs. -/
structure Draining (model : ObservationModel) (n : Nat) (s : Drain) : Prop where
  calls : s.calls = n
  count : s.count = countCalls isEvent receive n
  count_le : s.count ≤ maxReadyEventsPerCycle
  model : s.model = observeCalls orders receive model n
  /-- Every call so far returned an event or a recoverable error. -/
  total : countCalls isEvent receive n + countCalls isRecoverable receive n = n

variable {pollText orders receive}

/-- A round that runs on keeps the invariant. -/
theorem Draining.round {model : ObservationModel} {n : Nat} {s s' : Drain}
    (h : Draining orders receive model n s)
    (hround : drainRound pollText orders receive s = .inl s') :
    Draining orders receive model (n + 1) s' := by
  have hspec := drainRound_spec pollText orders receive s
  rw [hround] at hspec
  obtain ⟨rfl, hcount, hle, hmodel, htotal⟩ := h
  -- An event counts towards the limit, a warning does not
  cases hspec with
  | observes hevent hlt =>
    refine ⟨rfl, ?_, hlt, ?_, ?_⟩
    · rw [countCalls_succ, hevent, hcount]
      rfl
    · rw [observeCalls_succ, hevent, hmodel]
    · rw [countCalls_succ, countCalls_succ, hevent]
      simp only [isEvent, isRecoverable, if_true, Bool.false_eq_true, if_false]
      omega
  | @warns error herror hrecoverable hlt =>
    refine ⟨rfl, ?_, hle, ?_, ?_⟩
    · rw [countCalls_succ, herror, hcount]
      rfl
    · rw [observeCalls_succ, herror, hmodel]
    · rw [countCalls_succ, countCalls_succ, herror, hrecoverable]
      simp only [isEvent, if_true, Bool.false_eq_true, if_false]
      omega

/-- So do all of them. -/
theorem draining_of_after {app : App} {model : ObservationModel} {n : Nat} {s : Drain}
    (h : Loop.After (drainRound pollText orders receive) ⟨app, model, 0, 0⟩ n s) :
    Draining orders receive model n s :=
  h.invariant (fun _ _ _ hs hround => hs.round hround) ⟨rfl, rfl, Nat.zero_le _, rfl, rfl⟩

/-- A round that runs on is not at an end of the stream. -/
private theorem Draining.not_endsAt {model : ObservationModel} {n : Nat} {s s' : Drain}
    (h : Draining orders receive model n s)
    (hround : drainRound pollText orders receive s = .inl s') : ¬ EndsAt receive n := by
  have hspec := drainRound_spec pollText orders receive s
  rw [hround] at hspec
  obtain ⟨rfl, hcount, -, -, -⟩ := h
  rintro (⟨hevent, hrecoverable⟩ | henough)
  · cases hspec with
    | observes hok =>
      rw [hok] at hevent
      cases hevent
    | warns herror hyes =>
      rw [herror, hyes] at hrecoverable
      cases hrecoverable
  · rw [← hcount] at henough
    -- No event is a failure, and a warning is recoverable
    cases hspec with
    | observes _ hlt => omega
    | warns _ _ hlt => omega

/-- The calls of a drain cycle that has returned: one for each event, one for each recoverable
    error, and a last one that found neither, unless there were enough events. -/
structure Drained.Counts (receive : Nat → Except TryReceiveError Event) (drained : Drained) :
    Prop where
  events : drained.last.count = countCalls isEvent receive drained.last.calls
  events_le : drained.last.count ≤ maxReadyEventsPerCycle
  calls : drained.last.calls =
    drained.last.count + countCalls isRecoverable receive drained.last.calls +
      if drained.last.count < maxReadyEventsPerCycle then 1 else 0

/-- There are no more calls than events that may be observed and recoverable errors. -/
private theorem Drained.Counts.calls_le {drained : Drained} (h : drained.Counts receive) :
    drained.last.calls ≤
      maxReadyEventsPerCycle + countCalls isRecoverable receive drained.last.calls := by
  have hcalls := h.calls
  have hle := h.events_le
  split at hcalls <;> omega

/-- A round that returns is at an end of the stream, and every call has been for something. -/
theorem Draining.returned {model : ObservationModel} {n : Nat} {s : Drain} {drained : Drained}
    (h : Draining orders receive model n s)
    (hround : drainRound pollText orders receive s = .inr drained) :
    EndsAt receive n ∧ drained.Counts receive ∧
      drained.last.model = observeCalls orders receive model drained.last.calls := by
  have hspec := drainRound_spec pollText orders receive s
  rw [hround] at hspec
  obtain ⟨rfl, hcount, hle, hmodel, htotal⟩ := h
  cases hspec with
  | @ends error result herror hfatal hlt =>
    refine ⟨.inl (by rw [herror]; exact ⟨rfl, hfatal⟩), ⟨?_, hle, ?_⟩, ?_⟩
    · simp only [countCalls_succ, herror]
      exact hcount
    · -- the last call is neither an event nor a recoverable error
      simp only [countCalls_succ, herror, hfatal, if_pos hlt, Bool.false_eq_true, if_false]
      omega
    · simp only [observeCalls_succ, herror]
      exact hmodel
  | full henough =>
    refine ⟨.inr (hcount ▸ henough), ⟨hcount, hle, ?_⟩, hmodel⟩
    simp only [if_neg (Nat.not_lt.mpr henough)]
    omega

/-- The loop returns exactly if the stream has an end. -/
private theorem exists_drained_iff {app : App} {model : ObservationModel} :
    (∃ rounds drained, drainReadyEvents pollText orders receive app model rounds = some drained) ↔
      ∃ n, EndsAt receive n := by
  constructor
  · rintro ⟨rounds, drained, hrun⟩
    obtain ⟨n, _, s, hafter, hround⟩ := Loop.exists_after_of_run hrun
    exact ⟨n, ((draining_of_after hafter).returned hround).1⟩
  · rintro ⟨n, hend⟩
    -- A loop that is still running after `n + 1` rounds went past the end
    cases hrun : drainReadyEvents pollText orders receive app model (n + 1) with
    | some drained => exact ⟨n + 1, drained, hrun⟩
    | none =>
      obtain ⟨s', hafter⟩ := Loop.exists_after_of_run_eq_none hrun
      cases hafter with
      | next hbefore hround =>
        exact absurd hend ((draining_of_after hbefore).not_endsAt hround)

/-- An iteration gets to the drawing, or leaves `run` with an error, unless it stays in the
    drain loop. -/
private theorem exists_collect_iff {order : IterOrder DenialKey AggregatedDenial} {app : App}
    {model : ObservationModel} {first : Except ReceiveTimeoutError Event} :
    (∃ rounds result,
      collect pollText orders receive order app model first rounds = some result) ↔
    app.paused = true ∨ (∃ error, collectFirst pollText order app model first = .error error) ∨
      ∃ n, EndsAt receive n := by
  cases hpaused : app.paused with
  | true => simp [collect, hpaused]
  | false =>
    cases hfirst : collectFirst pollText order app model first with
    | error error => simp [collect, hpaused, hfirst]
    | ok collected =>
      simpa [collect, hpaused, hfirst] using exists_drained_iff

end Rounds

/-- A drain cycle returns if and only if nothing is ready at some call, or some error is fatal,
    or the stream has enough events.  It then has made one call for each event, one for each
    recoverable error and a last one unless there were enough events, and it has observed every
    event that it received.  An iteration gets past the drain loop under the same condition. -/
theorem drainReadyEvents_returns_iff (pollText : PollError → String)
    (orders : Nat → IterOrder DenialKey AggregatedDenial)
    (receive : Nat → Except TryReceiveError Event) (app : App) (model : ObservationModel) :
    ((∃ rounds drained,
        drainReadyEvents pollText orders receive app model rounds = some drained) ↔
      ∃ n, EndsAt receive n) ∧
    (∀ rounds drained,
      drainReadyEvents pollText orders receive app model rounds = some drained →
      drained.Counts receive ∧
        drained.last.calls ≤
          maxReadyEventsPerCycle + countCalls isRecoverable receive drained.last.calls ∧
        drained.last.model = observeCalls orders receive model drained.last.calls) ∧
    ∀ order first,
      (∃ rounds result,
        collect pollText orders receive order app model first rounds = some result) ↔
      app.paused = true ∨
        (∃ error, collectFirst pollText order app model first = .error error) ∨
        ∃ n, EndsAt receive n := by
  refine ⟨exists_drained_iff, ?_, fun _ _ => exists_collect_iff⟩
  intro rounds drained hrun
  obtain ⟨n, _, s, hafter, hround⟩ := Loop.exists_after_of_run hrun
  obtain ⟨-, hcounts, hmodel⟩ := (draining_of_after hafter).returned hround
  exact ⟨hcounts, hcounts.calls_le, hmodel⟩

/-! ### A stream without an end -/

/-- What the calls of `try_recv` returned in a run of the collector. -/
def tryRecvResults (observations : List Observation) : List (Except TryReceiveError Event) :=
  observations.filterMap fun
    | .returned _ result => some (result.mapError .collector)
    | .nothing .tryRecv => some (.error .empty)
    | _ => none

/-- The error for an empty sample. -/
def emptySample : CollectorReceiveError := .malformedSample (.length Wire.recordSize 0)

/-- The collector while the worker polls and nothing was sent. -/
def polling : System where
  deliveries := (Channel.new 1).cloneSender
  terminal := (Channel.new 3).cloneSender
  running := true
  outputFullPending := false
  callbackPanic := none
  pendingDelivery := none
  worker := .polling
  consumer := .idle

/-- An empty sample arrives and is received. -/
def emptySampleActions : List Landlock.Action :=
  [.sample [], .work, .work, .work, .work, .work, .call .tryRecv, .look]

/-- An empty sample brings the collector back to where it was. -/
private theorem run_emptySample (en : Endian) :
    Machine.run (System.step en) polling emptySampleActions =
      some (polling, [.accepted (.error emptySample),
        .returned .deliveries (.error emptySample)]) := by
  rfl

/-- Any number of empty samples can be received one after the other. -/
private theorem exists_run_emptySamples (en : Endian) (n : Nat) :
    ∃ actions observations, System.run en 1 actions = some (polling, observations) ∧
      tryRecvResults observations = List.replicate n (.error (.collector emptySample)) := by
  induction n with
  | zero => exact ⟨[.work, .work], [], rfl, rfl⟩
  | succ n ih =>
    obtain ⟨actions, observations, hrun, hresults⟩ := ih
    refine ⟨_, _, Machine.run_append hrun (run_emptySample en), ?_⟩
    rw [tryRecvResults, List.filterMap_append, ← tryRecvResults, hresults,
      List.replicate_succ']
    rfl

/-- While the collector returns an error for each of many samples that do not decode, the drain
    loop does not return. -/
theorem drain_never_returns : ∃ receive : Nat → Except TryReceiveError Event,
    (∀ n, ∃ actions s observations, System.run .little 1 actions = some (s, observations) ∧
      tryRecvResults observations = (List.range n).map receive) ∧
    ∀ (pollText : PollError → String) orders rounds,
      drainReadyEvents pollText orders receive .new .new rounds = none := by
  refine ⟨fun _ => .error (.collector emptySample), fun n => ?_, fun pollText orders rounds => ?_⟩
  · obtain ⟨actions, observations, hrun, hresults⟩ := exists_run_emptySamples .little n
    refine ⟨actions, polling, observations, hrun, ?_⟩
    rw [hresults, List.map_const', List.length_range]
  · -- no call ends the loop and no event is counted
    cases hrun : drainReadyEvents pollText orders _ .new .new rounds with
    | none => rfl
    | some drained =>
      obtain ⟨n, ⟨_, hfatal⟩ | henough⟩ := exists_drained_iff.mp ⟨rounds, drained, hrun⟩
      · cases hfatal
      · have hnone : countCalls isEvent (fun _ => .error (.collector emptySample)) n = 0 :=
          List.countP_eq_zero.mpr fun _ _ => Bool.false_ne_true
        rw [hnone] at henough
        cases henough

end Landlock.Tui
