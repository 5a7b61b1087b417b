import LandlockObservability.ForStd.Loop
import LandlockObservability.Model.Collector
import LandlockObservability.Model.Navigation

/-!
# The collecting part of the interactive loop

Models `drain_ready_events` and `handle_collector_error` of `lltop/src/tui/mod.rs`, the part of
`run` that calls them, and the texts and sources of the errors they look at (`src/collector.rs`,
`src/wire.rs`, `src/event/string.rs`).

What successive calls of `receive` return is a stream.  The drain loop is a `Loop` that may not
return; the number of its rounds is a bound.  The text of an error of libbpf is a parameter.
-/

namespace Landlock

/-! ## Errors and their texts -/

/-- `Display` of `CapturedBytesError`. -/
def CapturedBytesError.display : CapturedBytesError → String
  | .interiorNul position => s!"captured bytes contain a NUL at position {position}"
  | .tooLong length maximum => s!"captured byte length {length} exceeds the maximum {maximum}"
  | .omissionNotSupported => "this captured-byte origin cannot omit source bytes"
  | .omissionRequiresFullCapacity length capacity =>
    s!"omitted source bytes require a full {capacity}-byte capture, but length is {length}"

/-- `Display` of `DecodeError`. -/
def Wire.DecodeError.display : Wire.DecodeError → String
  | .length expected actual => s!"invalid event record length {actual}, expected {expected}"
  | .boolean name value => s!"invalid boolean {name}: {value}"
  | .capturedBytes name source => s!"invalid captured bytes for {name}: {source.display}"
  | .abstractUnixSocketNameLength value maximum =>
    s!"invalid abstract UNIX socket name length {value}, maximum is {maximum}"
  | .id name value => s!"invalid Landlock ID {name}: {value}"
  | .taskId name => s!"invalid task ID {name}: 0"
  | .eventKind value => s!"unrecognized event kind {value}"
  | .field name => s!"invalid field {name}"

/-- `CollectorReceiveErrorKind::description`. -/
def CollectorReceiveErrorKind.description : CollectorReceiveErrorKind → String
  | .malformedSample => "decode BPF event sample"
  | .outputQueueFull => "deliver entries through the full output queue"
  | .pollFailure => "poll BPF ring buffer"
  | .workerPanic => "receive from collector worker"
  | .workerStop => "receive from the stopped collector worker"

/-- `Display` of `CollectorWorkerPanic`. -/
def CollectorWorkerPanic.display (panic : CollectorWorkerPanic) : String :=
  match panic.message with
  | some message => s!"collector worker panicked: {message}"
  | none => "collector worker panicked with an opaque payload"

/-- `Display` of `ErrorDetail`. -/
def ErrorDetail.display (pollText : PollError → String) : ErrorDetail → String
  | .decode error => error.display
  | .poll error => pollText error
  | .panic error => error.display
  | .static text => text

/-- `Display` of `CollectorReceiveError`. -/
def CollectorReceiveError.display (pollText : PollError → String)
    (error : CollectorReceiveError) : String :=
  s!"failed to {error.kind.description}: {error.detail.display pollText}"

/-- `TryReceiveError`. -/
inductive TryReceiveError where
  | empty
  | collector (error : CollectorReceiveError)
  deriving DecidableEq, Repr

/-- `Display` of `TryReceiveError`. -/
def TryReceiveError.display (pollText : PollError → String) : TryReceiveError → String
  | .empty => "collector output queue is empty"
  | .collector error => error.display pollText

/-- `Error::source` of `TryReceiveError`. -/
def TryReceiveError.source : TryReceiveError → Option CollectorReceiveError
  | .empty => none
  | .collector error => some error

/-- `ReceiveTimeoutError`. -/
inductive ReceiveTimeoutError where
  | timeout
  | collector (error : CollectorReceiveError)
  deriving DecidableEq, Repr

/-- `Display` of `ReceiveTimeoutError`. -/
def ReceiveTimeoutError.display (pollText : PollError → String) : ReceiveTimeoutError → String
  | .timeout => "timed out waiting for collector output"
  | .collector error => error.display pollText

/-- `Error::source` of `ReceiveTimeoutError`. -/
def ReceiveTimeoutError.source : ReceiveTimeoutError → Option CollectorReceiveError
  | .timeout => none
  | .collector error => some error

namespace Tui

/-- `App::set_collector_warning`. -/
def App.setCollectorWarning (app : App) (warning : String) : App :=
  { app with collectorWarning := some warning }

/-- `recoverable_collector_error`. -/
def recoverableCollectorError : Option CollectorReceiveErrorKind → Bool
  | some .outputQueueFull => true
  | some .malformedSample => true
  | _ => false

/-- `handle_collector_error`, for an error type with its `source` and `Display`. -/
def handleCollectorError {E : Type*} (source : E → Option CollectorReceiveError)
    (display : E → String) (app : App) (error : E) : Except E App :=
  if recoverableCollectorError ((source error).map CollectorReceiveError.kind) then
    .ok (app.setCollectorWarning (display error))
  else
    .error error

/-! ## The drain loop -/

/-- `MAX_READY_EVENTS_PER_CYCLE`. -/
def maxReadyEventsPerCycle : Nat := 1024

/-- The variables of `drain_ready_events`, with the number of calls of `receive`. -/
structure Drain where
  app : App
  model : ObservationModel
  count : Nat
  calls : Nat

/-- What `drain_ready_events` returns, with the variables it leaves. -/
structure Drained where
  result : Except TryReceiveError Nat
  last : Drain

section

variable (pollText : PollError → String) (orders : Nat → IterOrder DenialKey AggregatedDenial)
  (receive : Nat → Except TryReceiveError Event)

/-- A round of the loop in `drain_ready_events`.  The calls are numbered, and `orders` are the
    orders in which the aggregation is traversed. -/
def drainRound (s : Drain) : Drain ⊕ Drained :=
  if s.count < maxReadyEventsPerCycle then
    let called := { s with calls := s.calls + 1 }
    match receive s.calls with
    | .ok event =>
      .inl { called with
        model := s.model.observe (orders s.calls) event
        -- `saturating_add`, far below the maximum
        count := s.count + 1 }
    | .error .empty => .inr ⟨.ok s.count, called⟩
    -- A warning does not count towards the limit
    | .error error =>
      match handleCollectorError TryReceiveError.source (TryReceiveError.display pollText) s.app
          error with
      | .ok app => .inl { called with app }
      | .error error => .inr ⟨.error error, called⟩
  else
    .inr ⟨.ok s.count, s⟩

/-- `drain_ready_events`, if it returns within a number of rounds. -/
def drainReadyEvents (app : App) (model : ObservationModel) (rounds : Nat) : Option Drained :=
  Loop.run (drainRound pollText orders receive) rounds ⟨app, model, 0, 0⟩

/-- The first receive call in an iteration of `run`. -/
def collectFirst (order : IterOrder DenialKey AggregatedDenial) (app : App)
    (model : ObservationModel) (first : Except ReceiveTimeoutError Event) :
    Except ReceiveTimeoutError (App × ObservationModel) :=
  match first with
  | .ok event => .ok (app, model.observe order event)
  -- Nothing new; the drawing follows all the same
  | .error .timeout => .ok (app, model)
  | .error error =>
    (handleCollectorError ReceiveTimeoutError.source (ReceiveTimeoutError.display pollText) app
      error).map fun app => (app, model)

/-- The part of an iteration of `run` before the drawing, if the drain loop returns within a
    number of rounds.  An error ends `run`. -/
def collect (order : IterOrder DenialKey AggregatedDenial) (app : App) (model : ObservationModel)
    (first : Except ReceiveTimeoutError Event) (rounds : Nat) :
    Option (Except (ReceiveTimeoutError ⊕ TryReceiveError) (App × ObservationModel)) :=
  -- While paused, events stay in the channel
  if app.paused then
    some (.ok (app, model))
  else
    match collectFirst pollText order app model first with
    | .error error => some (.error (.inl error))
    | .ok (app, model) =>
      (drainReadyEvents pollText orders receive app model rounds).map fun drained =>
        match drained.result with
        | .ok _ => .ok (drained.last.app, drained.last.model)
        | .error error => .error (.inr error)

end

end Tui

end Landlock
