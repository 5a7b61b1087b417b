import LandlockObservability.ForStd.Channel
import LandlockObservability.ForStd.Machine
import LandlockObservability.Model.Wire
import Mathlib.Data.PNat.Notation

/-!
# The collector

Models `src/collector.rs`: a worker thread that polls a ring buffer, decodes the
samples in a callback and sends them through a bounded delivery channel, and a
consumer that receives them.  How the worker ended is reported through a second
channel, the terminal channel, which the consumer looks at when it finds no delivery.

The two threads are one machine.  A step is a single operation on a channel, on an
atomic flag or on the mailbox for callback panics, and the two threads take steps in
any order.  Everything that the program does not decide is an action's argument: the
samples, the outcome of a poll, panics, and when a wait times out.

Errors of libbpf are opaque numbers, and a panic payload is a text or opaque.  In the
callback the decoder and the attempt to send may panic; in the rest of the worker the
poll and the destructors of the resources may.
-/

namespace Landlock

open Wire (DecodeError)

/-! ## Errors and deliveries -/

inductive CollectorReceiveErrorKind where
  | malformedSample
  | outputQueueFull
  | pollFailure
  | workerPanic
  | workerStop
  deriving DecidableEq, Repr

/-- What a panic carries: a text, or a value of another type. -/
inductive PanicPayload where
  | text (message : String)
  | other
  deriving DecidableEq, Repr

/-- `CollectorWorkerPanic`, with its `message`. -/
structure CollectorWorkerPanic where
  message : Option String
  deriving DecidableEq, Repr

/-- `CollectorWorkerPanic::from_payload`. -/
def CollectorWorkerPanic.fromPayload : PanicPayload → CollectorWorkerPanic
  | .text message => ⟨some message⟩
  | .other => ⟨none⟩

/-- An error number of libbpf. -/
structure PollError where
  code : Int
  deriving DecidableEq, Repr

/-- The source or the static text of an error. -/
inductive ErrorDetail where
  | decode (error : DecodeError)
  | poll (error : PollError)
  | panic (error : CollectorWorkerPanic)
  | static (text : String)
  deriving DecidableEq, Repr

structure CollectorReceiveError where
  kind : CollectorReceiveErrorKind
  detail : ErrorDetail
  deriving DecidableEq, Repr

namespace CollectorReceiveError

def malformedSample (error : DecodeError) : CollectorReceiveError :=
  ⟨.malformedSample, .decode error⟩

def outputQueueFull : CollectorReceiveError :=
  ⟨.outputQueueFull, .static "one or more delivery entries were omitted"⟩

def pollFailure (error : PollError) : CollectorReceiveError := ⟨.pollFailure, .poll error⟩

/-- `worker_receive_panic`. -/
def workerReceivePanic (payload : PanicPayload) : CollectorReceiveError :=
  ⟨.workerPanic, .panic (.fromPayload payload)⟩

/-- `worker_stop`. -/
def workerStop : CollectorReceiveError :=
  ⟨.workerStop, .static "collector worker is no longer running"⟩

end CollectorReceiveError

abbrev Delivery := Except CollectorReceiveError Event

instance decidableEqExcept {ε α : Type} [DecidableEq ε] [DecidableEq α] :
    DecidableEq (Except ε α)
  | .ok a, .ok b => decidable_of_iff (a = b) ⟨congrArg _, Except.ok.inj⟩
  | .error e, .error f => decidable_of_iff (e = f) ⟨congrArg _, Except.error.inj⟩
  | .ok _, .error _ => isFalse nofun
  | .error _, .ok _ => isFalse nofun

/-- A delivery in the channel, with the notice that entries before it were omitted. -/
structure DeliveryEntry where
  delivery : Delivery
  outputFullBefore : Bool
  deriving DecidableEq

/-! ## The two threads -/

/-- A report that the worker sends before it ends. -/
inductive Report where
  | panic (payload : PanicPayload)
  | failure (error : PollError)
  deriving DecidableEq, Repr

def Report.error : Report → CollectorReceiveError
  | .panic payload => .workerReceivePanic payload
  | .failure e => .pollFailure e

/-- Where the worker is: before or after the operation that a constructor names. -/
inductive WorkerPc where
  /-- The worker was prepared and has not been run. -/
  | created
  /-- `while running.load(..)`. -/
  | loop
  /-- Inside `ring.poll`, between two callbacks. -/
  | polling
  /-- `deliver`: about to load `running`. -/
  | deliver (data : List UInt8)
  /-- `deliver`: about to decode. -/
  | decode (data : List UInt8)
  /-- `deliver`: about to load `output_full_pending`. -/
  | loadFlag (delivery : Delivery)
  /-- `deliver`: about to send. -/
  | send (entry : DeliveryEntry)
  /-- `deliver`: about to store `output_full_pending`. -/
  | storeFlag (value : Bool)
  /-- `deliver`: about to store `running`, since nobody receives. -/
  | stopRunning
  /-- The callback returned -1, so the poll fails. -/
  | rejected
  /-- The poll returned; about to take a panic from the mailbox. -/
  | polled (result : Except PollError Unit)
  /-- `report_callback_panic`: about to swap `output_full_pending`. -/
  | swapFlag (payload : PanicPayload)
  /-- The poll failed; about to load `running`. -/
  | checkRunning (error : PollError)
  /-- The poll failed; about to load `output_full_pending`. -/
  | checkFlag (error : PollError)
  /-- About to send the notice of omitted entries. -/
  | sendOmission (report : Report)
  /-- About to send the report. -/
  | sendReport (report : Report)
  /-- Leaving `run_worker`, by a return or by a panic: about to drop the resources, and
      with them the callback and its sender. -/
  | dropResources (panic : Option PanicPayload)
  /-- About to drop `terminal`. -/
  | dropTerminal (panic : Option PanicPayload)
  /-- About to drop `_deliveries`. -/
  | dropDeliveries (panic : Option PanicPayload)
  /-- Back in `run_with`: about to report a panic. -/
  | reportPanic (payload : PanicPayload)
  /-- About to drop `terminal_panic`. -/
  | dropTerminalPanic
  /-- The worker is dropped unrun, its field `deliveries` is gone; about to drop
      `terminal`. -/
  | unrunTerminal
  /-- The worker is dropped unrun; about to drop the resources. -/
  | unrunResources
  | done
  deriving DecidableEq

/-- The two receive functions. -/
inductive Call where
  | tryRecv
  | recvTimeout
  deriving DecidableEq, Repr

/-- Where the consumer is. -/
inductive ConsumerPc where
  /-- Between two calls. -/
  | idle
  /-- In a call with no pending delivery: about to look at the delivery channel. -/
  | lookDeliveries (call : Call)
  /-- `terminal_now_nonblocking`: about to look at the terminal channel. -/
  | lookTerminal (call : Call)
  /-- `terminal_until`: waiting for the terminal channel. -/
  | waitTerminal
  /-- `drop` has stored `running`; about to drop the receivers. -/
  | dropping
  | dropped
  deriving DecidableEq, Repr

/-- The collector, the worker and what they share. -/
structure System where
  deliveries : Channel DeliveryEntry
  terminal : Channel CollectorReceiveError
  running : Bool
  outputFullPending : Bool
  callbackPanic : Option PanicPayload
  pendingDelivery : Option Delivery
  worker : WorkerPc
  consumer : ConsumerPc
  deriving DecidableEq

/-- `backend::prepare`: the callback holds a clone of the delivery sender.  A channel of
    capacity 0 would not be a buffer, and a validated configuration never asks for one. -/
def System.prepare (eventCapacity : ℕ+) : System where
  deliveries := (Channel.new eventCapacity).cloneSender
  terminal := Channel.new 3
  running := true
  outputFullPending := false
  callbackPanic := none
  pendingDelivery := none
  worker := .created
  consumer := .idle

/-- Which channel a result was taken from. -/
inductive Origin where
  | deliveries
  | terminal
  deriving DecidableEq, Repr

/-- What the steps show: what became of a sample, and what a call returned. -/
inductive Observation where
  | accepted (delivery : Delivery)
  | omitted
  /-- A call returned an event or an error of the collector. -/
  | returned (origin : Origin) (result : Delivery)
  /-- A call found nothing: `Empty` of `try_recv`, `Timeout` of `recv_timeout`. -/
  | nothing (call : Call)
  deriving DecidableEq

/-- The steps of both threads, with what the environment decides. -/
inductive Action where
  /-- The worker takes the step that its place determines. -/
  | work
  /-- The ring buffer has a sample. -/
  | sample (data : List UInt8)
  /-- The poll returns. -/
  | pollReturns (result : Except PollError Unit)
  /-- Something in the worker panics. -/
  | panic (payload : PanicPayload)
  /-- The worker is dropped and never run. -/
  | abandon
  /-- The consumer calls a receive function. -/
  | call (call : Call)
  /-- The consumer looks at a channel. -/
  | look
  /-- A wait of the consumer ends without a message. -/
  | timeOut
  /-- The consumer drops the collector. -/
  | drop
  deriving DecidableEq

/-! ## Steps of the worker -/

/-- A step of the worker that its place determines. -/
def work (en : Endian) (s : System) : Option (System × List Observation) :=
  match s.worker with
  -- `run_with` keeps a clone of the terminal sender for a panic of `run_worker`
  | .created => some ({ s with terminal := s.terminal.cloneSender, worker := .loop }, [])
  -- The flag is loaded before every poll
  | .loop =>
    if s.running then some ({ s with worker := .polling }, [])
    else some ({ s with worker := .dropResources none }, [])
  | .deliver data =>
    if s.running then some ({ s with worker := .decode data }, [])
    else some ({ s with worker := .rejected }, [])
  | .decode data =>
    -- A sample that does not decode is delivered as an error
    let delivery := (Wire.decode en data).mapError CollectorReceiveError.malformedSample
    some ({ s with worker := .loadFlag delivery }, [])
  | .loadFlag delivery =>
    -- The notice about earlier omissions travels with the next accepted sample
    some ({ s with worker := .send ⟨delivery, s.outputFullPending⟩ }, [])
  | .send entry =>
    match s.deliveries.trySend entry with
    | (.ok, deliveries) =>
      some ({ s with deliveries, worker := .storeFlag false }, [.accepted entry.delivery])
    -- The sample is lost, and the flag remembers that
    | (.full, deliveries) =>
      some ({ s with deliveries, worker := .storeFlag true }, [.omitted])
    | (.disconnected, deliveries) => some ({ s with deliveries, worker := .stopRunning }, [])
  | .storeFlag value => some ({ s with outputFullPending := value, worker := .polling }, [])
  -- The receiver is gone: the callback returns -1
  | .stopRunning => some ({ s with running := false, worker := .rejected }, [])
  | .polled result =>
    -- A caught panic outranks the result of the poll that it made fail
    match s.callbackPanic with
    | some payload => some ({ s with callbackPanic := none, worker := .swapFlag payload }, [])
    | none =>
      match result with
      | .ok () => some ({ s with worker := .loop }, [])
      | .error error => some ({ s with worker := .checkRunning error }, [])
  | .swapFlag payload =>
    -- `swap` clears the flag; the branch for a failed poll below only loads it
    if s.outputFullPending then
      some ({ s with outputFullPending := false, worker := .sendOmission (.panic payload) }, [])
    else some ({ s with worker := .sendReport (.panic payload) }, [])
  -- A poll that failed after a shutdown is not reported
  | .checkRunning error =>
    if s.running then some ({ s with worker := .checkFlag error }, [])
    else some ({ s with worker := .dropResources none }, [])
  | .checkFlag error =>
    if s.outputFullPending then some ({ s with worker := .sendOmission (.failure error) }, [])
    else some ({ s with worker := .sendReport (.failure error) }, [])
  | .sendOmission report =>
    -- `let _ = terminal.try_send(..)`: the outcome is ignored
    let terminal := (s.terminal.trySend .outputQueueFull).2
    some ({ s with terminal, worker := .sendReport report }, [])
  | .sendReport report =>
    let terminal := (s.terminal.trySend report.error).2
    some ({ s with terminal, worker := .dropResources none }, [])
  | .dropResources panic =>
    some ({ s with deliveries := s.deliveries.dropSender, worker := .dropTerminal panic }, [])
  | .dropTerminal panic =>
    some ({ s with terminal := s.terminal.dropSender, worker := .dropDeliveries panic }, [])
  | .dropDeliveries panic =>
    let worker := match panic with
      | some payload => .reportPanic payload
      | none => .dropTerminalPanic
    some ({ s with deliveries := s.deliveries.dropSender, worker }, [])
  -- `run_with` has caught what left `run_worker`
  | .reportPanic payload =>
    let terminal := (s.terminal.trySend (.workerReceivePanic payload)).2
    some ({ s with terminal, worker := .dropTerminalPanic }, [])
  | .dropTerminalPanic =>
    some ({ s with terminal := s.terminal.dropSender, worker := .done }, [])
  | .unrunTerminal =>
    some ({ s with terminal := s.terminal.dropSender, worker := .unrunResources }, [])
  | .unrunResources =>
    some ({ s with deliveries := s.deliveries.dropSender, worker := .done }, [])
  | .polling => none
  | .rejected => none
  | .done => none

/-- A panic in the callback is caught around it, kept in the mailbox and makes the poll
    fail.  A panic elsewhere in the worker leaves `run_worker`; one in a destructor does
    so with the sender of the callback gone. -/
def panicStep (s : System) (payload : PanicPayload) : Option (System × List Observation) :=
  match s.worker with
  -- Inside `catch_unwind`
  | .decode _ => some ({ s with callbackPanic := some payload, worker := .rejected }, [])
  | .send _ => some ({ s with callbackPanic := some payload, worker := .rejected }, [])
  -- Outside of it
  | .polling => some ({ s with worker := .dropResources (some payload) }, [])
  | .dropResources none =>
    some ({ s with
      deliveries := s.deliveries.dropSender
      worker := .dropTerminal (some payload) }, [])
  | _ => none

/-! ## Steps of the consumer -/

/-- The start of a receive call: a pending delivery is returned first. -/
def callStep (s : System) (call : Call) : Option (System × List Observation) :=
  match s.consumer with
  | .idle =>
    match s.pendingDelivery with
    | some delivery =>
      some ({ s with pendingDelivery := none }, [.returned .deliveries delivery])
    | none => some ({ s with consumer := .lookDeliveries call }, [])
  | _ => none

/-- `unpair`: the notice is returned before the delivery it came with. -/
def unpair (s : System) (entry : DeliveryEntry) : System × List Observation :=
  if entry.outputFullBefore then
    ({ s with pendingDelivery := some entry.delivery, consumer := .idle },
      [.returned .deliveries (.error .outputQueueFull)])
  else ({ s with consumer := .idle }, [.returned .deliveries entry.delivery])

/-- `terminal_now_nonblocking`, and `terminal_or_stop_nonblocking`, which does the same. -/
def terminalNowNonblocking (terminal : Channel CollectorReceiveError) :
    Option CollectorReceiveError × Channel CollectorReceiveError :=
  match terminal.tryRecv with
  | (.message error, terminal) => (some error, terminal)
  | (.disconnected, terminal) => (some .workerStop, terminal)
  | (.empty, terminal) => (none, terminal)

/-- A look at a channel.  A wait that finds a channel empty goes on. -/
def look (s : System) : Option (System × List Observation) :=
  match s.consumer with
  | .lookDeliveries call =>
    match s.deliveries.tryRecv with
    | (.message entry, deliveries) => some (unpair { s with deliveries } entry)
    | (.empty, _) =>
      match call with
      | .tryRecv => some ({ s with consumer := .lookTerminal .tryRecv }, [])
      -- `recv_timeout` blocks until a message or the deadline
      | .recvTimeout => some (s, [])
    | (.disconnected, _) =>
      match call with
      | .tryRecv => some ({ s with consumer := .lookTerminal .tryRecv }, [])
      -- No sender is left, so that only a report can come
      | .recvTimeout => some ({ s with consumer := .waitTerminal }, [])
  | .lookTerminal call =>
    match terminalNowNonblocking s.terminal with
    | (some error, terminal) =>
      some ({ s with terminal, consumer := .idle }, [.returned .terminal (.error error)])
    | (none, _) => some ({ s with consumer := .idle }, [.nothing call])
  | .waitTerminal =>
    match terminalNowNonblocking s.terminal with
    | (some error, terminal) =>
      some ({ s with terminal, consumer := .idle }, [.returned .terminal (.error error)])
    -- The wait goes on
    | (none, _) => some (s, [])
  | _ => none

/-- The deadline passes while the consumer waits at an empty channel that still has a
    sender; it then looks at the terminal channel once more. -/
def timeOut (s : System) : Option (System × List Observation) :=
  match s.consumer with
  | .lookDeliveries .recvTimeout =>
    match s.deliveries.tryRecv with
    | (.empty, _) => some ({ s with consumer := .lookTerminal .recvTimeout }, [])
    | _ => none
  | .waitTerminal =>
    match terminalNowNonblocking s.terminal with
    | (none, _) => some ({ s with consumer := .lookTerminal .recvTimeout }, [])
    | _ => none
  | _ => none

/-- `Drop for Collector`: stores `running`, then the fields go.  What they hold stays in
    the state, but nobody can reach it any more. -/
def dropStep (s : System) : Option (System × List Observation) :=
  match s.consumer with
  | .idle => some ({ s with running := false, consumer := .dropping }, [])
  -- The fields are dropped after the body of `drop`
  | .dropping =>
    some ({ s with
      deliveries := s.deliveries.dropReceiver
      terminal := s.terminal.dropReceiver
      consumer := .dropped }, [])
  | _ => none

/-! ## The machine -/

/-- One step of either thread. -/
def System.step (en : Endian) (s : System) : Action → Option (System × List Observation)
  | .work => work en s
  | .sample data =>
    match s.worker with
    | .polling => some ({ s with worker := .deliver data }, [])
    | _ => none
  | .pollReturns result =>
    match s.worker with
    | .polling => some ({ s with worker := .polled result }, [])
    -- A callback that returned -1 ends the poll with an error
    | .rejected =>
      match result with
      | .error error => some ({ s with worker := .polled (.error error) }, [])
      | .ok () => none
    | _ => none
  | .panic payload => panicStep s payload
  | .abandon =>
    match s.worker with
    | .created =>
      some ({ s with deliveries := s.deliveries.dropSender, worker := .unrunTerminal }, [])
    | _ => none
  | .call call => callStep s call
  | .look => look s
  | .timeOut => timeOut s
  | .drop => dropStep s

/-- A run of the machine from the prepared collector. -/
def System.run (en : Endian) (eventCapacity : ℕ+) (actions : List Action) :
    Option (System × List Observation) :=
  Machine.run (System.step en) (System.prepare eventCapacity) actions

end Landlock
