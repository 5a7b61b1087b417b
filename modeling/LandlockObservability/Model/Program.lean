import LandlockObservability.ForStd.Output
import LandlockObservability.Model.Batch
import LandlockObservability.Model.Session

/-!
# The program

Models `lltop/src/main.rs`, `Batch::process_and_write` of `lltop/src/batch.rs` and
`lltop/src/tui/terminal.rs`: the start of the program with its privileges, the two modes, and
how their results become an exit status and a diagnostic.

What the program does not decide is a parameter: which system calls and which writes fail, what
the receive calls return, what the user does, and whether the worker thread panics.
-/

open Output

namespace Landlock

/-! ## Diagnostics -/

/-- The texts of errors that other libraries print. -/
structure ErrorTexts where
  io : IoError → String
  errno : Errno → String
  bpf : Int → String
  poll : PollError → String

section Display

variable (texts : ErrorTexts)

/-- `Display` of `PrivilegeError`. -/
def PrivilegeError.display (error : PrivilegeError) : String :=
  "failed to manage collector privileges: " ++
    match error.detail with
    | .message message => message
    | .io operation source => s!"{operation}: {texts.io source}"
    | .errno operation source => s!"{operation}: {texts.errno source}"

/-- `CollectorPrepareErrorKind::description`. -/
def CollectorPrepareErrorKind.description : CollectorPrepareErrorKind → String
  | unsupportedKernel => "load a supported Landlock tracing interface"
  | .open => "open embedded BPF object"
  | load => "load BPF object"
  | attach => "attach BPF programs"
  | ringSetup => "set up BPF ring buffer"
  | privilege => "finalize collector privileges"

/-- `Display` of the detail of a `CollectorPrepareError`. -/
def CollectorPrepareErrorSource.display : CollectorPrepareErrorSource → String
  | bpf code => texts.bpf code
  | privilege error => error.display texts

/-- `Display` of `CollectorPrepareError`. -/
def CollectorPrepareError.display (error : CollectorPrepareError) : String :=
  s!"failed to {error.kind.description}: {error.source.display texts}"

end Display

/-- What the functions of the program return as a `Box<dyn Error>`. -/
inductive ProgramError where
  | privilege (error : PrivilegeError)
  | usage (message : String)
  | prepare (error : CollectorPrepareError)
  | io (error : IoError)
  | receive (error : CollectorReceiveError)
  | session (error : ReceiveTimeoutError ⊕ TryReceiveError)
  | workerPanicked
  /-- `ExecutionAndWorkerError`. -/
  | executionAndWorker (primary worker : ProgramError)

/-- `Display` of an error of the program. -/
def ProgramError.display (texts : ErrorTexts) : ProgramError → String
  | privilege error => error.display texts
  | usage message => message
  | prepare error => error.display texts
  | io error => texts.io error
  | receive error => error.display texts.poll
  | session (.inl error) => error.display texts.poll
  | session (.inr error) => error.display texts.poll
  | workerPanicked => "collector worker thread panicked"
  | executionAndWorker primary worker =>
    "primary execution failure: " ++ primary.display texts ++
      "; additional worker shutdown/join failure: " ++ worker.display texts

/-- The line of `write_diagnostic`; the kind of the diagnostic is the `prefix` of the source. -/
def diagnostic (kind error : String) : String := "lltop: " ++ kind ++ error

/-- `write_diagnostic`. -/
def writeDiagnostic (kind error : String) : EStateM IoError (Writer IoError) Unit :=
  printLines [diagnostic kind error]

/-! ## Batch mode -/

/-- The variables of `run_batch`. -/
structure BatchRun where
  stderr : Writer IoError
  stdout : Writer IoError
  batch : Batch

/-- The result of a receive call with a timeout, and the order in which the aggregation is
    traversed if it is an event. -/
abbrev TimedReceive := IterOrder DenialKey AggregatedDenial × Except ReceiveTimeoutError Event

namespace BatchRun

def onStderr (m : EStateM IoError (Writer IoError) Unit) : EStateM ProgramError BatchRun Unit :=
  fun s =>
    match m s.stderr with
    | .ok () stderr => .ok () { s with stderr }
    | .error error stderr => .error (.io error) { s with stderr }

def onStdout (m : EStateM IoError (Writer IoError) Unit) : EStateM ProgramError BatchRun Unit :=
  fun s =>
    match m s.stdout with
    | .ok () stdout => .ok () { s with stdout }
    | .error error stdout => .error (.io error) { s with stdout }

end BatchRun

open BatchRun

/-- `READY_SIGNAL`. -/
def readySignal : String := "LLTOP_READY"

/-- `Batch::process_and_write`. -/
def processAndWrite (order : IterOrder DenialKey AggregatedDenial) (event : Event) :
    EStateM ProgramError BatchRun Unit := do
  let s ← get
  let (batch, records) := s.batch.process order event
  -- The batch has changed also if the write below fails
  set { s with batch }
  if records.isEmpty then
    return
  onStdout (printLines records)

/-- An iteration of `run_batch`. -/
def batchRound (texts : ErrorTexts) (received : TimedReceive) :
    EStateM ProgramError BatchRun Unit :=
  match received.2 with
  | .ok event => processAndWrite received.1 event
  | .error .timeout => pure ()
  | .error (.collector error) =>
    match error.kind with
    | .outputQueueFull => onStderr (writeDiagnostic "warning: " (error.display texts.poll))
    | .malformedSample => onStderr (writeDiagnostic "warning: " (error.display texts.poll))
    -- These three end the program
    | .pollFailure => throw (.receive error)
    | .workerPanic => throw (.receive error)
    | .workerStop => throw (.receive error)

/-- `run_batch`, as far as some results of the receive calls bring it.  It does not return
    without an error: if it does here, it waits for the next result. -/
def runBatch (texts : ErrorTexts) (received : List TimedReceive) :
    EStateM ProgramError BatchRun Unit := do
  onStderr (printLines [readySignal])
  received.forM (batchRound texts)

/-! ## Interactive mode -/

/-- The modes of a terminal that a session changes. -/
structure Terminal where
  raw : Bool
  alternate : Bool
  mouse : Bool
  deriving DecidableEq, Repr

/-- A terminal before any mode was set. -/
def Terminal.plain : Terminal := ⟨false, false, false⟩

/-- The outcome of sending a control sequence: the terminal may have received it although the
    flush after it reports a failure. -/
inductive SendOutcome where
  | done
  | failed (received : Bool) (error : IoError)
  deriving DecidableEq, Repr

namespace SendOutcome

def received : SendOutcome → Bool
  | done => true
  | failed received _ => received

def result : SendOutcome → Except IoError Unit
  | done => .ok ()
  | failed _ error => .error error

end SendOutcome

/-- What the terminal operations of a session meet.  Changing the raw mode has no effect when it
    fails. -/
structure TerminalOutcomes where
  enableRawMode : Except IoError Unit
  enterAlternateScreen : SendOutcome
  enableMouseCapture : SendOutcome
  /-- `Terminal::new` and `clear`. -/
  setup : Except IoError Unit
  disableMouseCapture : SendOutcome
  leaveAlternateScreen : SendOutcome
  disableRawMode : Except IoError Unit

/-- `TerminalSession`. -/
structure TerminalSession where
  raw : Bool
  alternate : Bool
  mouse : Bool
  deriving DecidableEq, Repr

namespace TerminalSession

variable (outcomes : TerminalOutcomes)

/-- A mode after its restoration: one that is not armed is not touched. -/
def restore (armed succeeds mode : Bool) : Bool := if armed && succeeds then false else mode

/-- `Drop for TerminalSession`, which restores the mouse, then the screen, then the raw mode. -/
def drop (session : TerminalSession) (terminal : Terminal) : Terminal where
  mouse := restore session.mouse outcomes.disableMouseCapture.received terminal.mouse
  alternate := restore session.alternate outcomes.leaveAlternateScreen.received terminal.alternate
  raw := restore session.raw outcomes.disableRawMode.isOk terminal.raw

/-- `TerminalSession::enter`.  A session that is left with an error is dropped. -/
def enter (terminal : Terminal) : Except IoError TerminalSession × Terminal :=
  match outcomes.enableRawMode with
  | .error error => (.error error, drop outcomes ⟨false, false, false⟩ terminal)
  | .ok () =>
    let entered : Terminal := { terminal with
      raw := true
      alternate := terminal.alternate || outcomes.enterAlternateScreen.received }
    match outcomes.enterAlternateScreen.result with
    -- The flag of the screen is set before the sequence is sent
    | .error error => (.error error, drop outcomes ⟨true, true, false⟩ entered)
    | .ok () =>
      -- A failure to set up the mouse is ignored
      (.ok ⟨true, true, true⟩,
        { entered with mouse := terminal.mouse || outcomes.enableMouseCapture.received })

end TerminalSession

/-- The error of `tui::run` for an error of its loop. -/
def ProgramError.ofSession : Tui.SessionError → ProgramError
  | .collector error => session error
  | .io error => io error

/-- `tui::run`, for what its loop has returned so far: the terminal, and what is returned. -/
def runInteractive (outcomes : TerminalOutcomes) (loop : Option (Except Tui.SessionError Unit))
    (terminal : Terminal) : Option (Except ProgramError Unit) × Terminal :=
  match TerminalSession.enter outcomes terminal with
  | (.error error, terminal) => (some (.error (.io error)), terminal)
  | (.ok session, terminal) =>
    match outcomes.setup with
    | .error error => (some (.error (.io error)), session.drop outcomes terminal)
    | .ok () =>
      match loop with
      | none => (none, terminal)
      | some result =>
        (some (result.mapError ProgramError.ofSession), session.drop outcomes terminal)

/-! ## The start -/

inductive Mode where
  | batch
  | interactive
  deriving DecidableEq, Repr

/-- `parse_mode`, with the texts of the arguments. -/
def parseMode (arguments : List String) : Except String Mode :=
  -- `args_os().next()`
  let program := arguments.head?.getD ""
  match arguments.tail with
  | [] => .ok .interactive
  | [argument] =>
    if argument = "--batch" then .ok .batch else .error s!"usage: {program} [--batch]"
  | _ => .error s!"usage: {program} [--batch]"

/-- `join_worker`, by whether the thread panicked. -/
def joinWorker (panicked : Bool) : Except ProgramError Unit :=
  if panicked then .error .workerPanicked else .ok ()

/-- `combine_execution_and_worker_results`. -/
def combineExecutionAndWorkerResults :
    Except ProgramError Unit → Except ProgramError Unit → Except ProgramError Unit
  | .ok (), .ok () => .ok ()
  | .error primary, .ok () => .error primary
  | .ok (), .error worker => .error worker
  | .error primary, .error worker => .error (.executionAndWorker primary worker)

/-- The points of `run` after which other code than its own may run. -/
inductive Milestone where
  | spawned
  | entered (mode : Mode)
  | joined
  deriving DecidableEq, Repr

section Start

variable {kernel : Kernel}

/-- What the program meets. -/
structure Environment where
  arguments : List String
  /-- The outcome of `backend::prepare`. -/
  resources : Except CollectorPrepareError Unit
  spawn : Except IoError Unit
  received : List TimedReceive
  outcomes : TerminalOutcomes
  unicode : Unicode
  width : Tui.Format.DisplayWidth
  iterations : List Tui.Iteration
  workerPanics : Bool

/-- What the loop of the interactive mode has returned.  Iterations that are no run of the loop
    bring it nowhere. -/
def Environment.session (texts : ErrorTexts) (env : Environment) :
    Option (Except Tui.SessionError Unit) :=
  (Tui.Session.run env.unicode env.width texts.poll env.iterations).bind fun r => r.1.result

/-- The state of the program, with the credentials that its thread had at the milestones. -/
structure Lltop (kernel : Kernel) where
  world : World kernel
  policy : Policy
  stderr : Writer IoError
  stdout : Writer IoError
  terminal : Terminal
  milestones : List (Milestone × Credentials kernel.last)

/-- Whether `run` is still in the loop of its mode. -/
inductive Progress where
  | running
  | finished
  deriving DecidableEq, Repr

namespace Lltop

/-- The program at its start; the policy has no meaning before the minimization. -/
def start (world : World kernel) (stderr stdout : Nat → Option (Nat × IoError)) : Lltop kernel :=
  ⟨world, .preserved, .start stderr, .start stdout, .plain, []⟩

def reach (milestone : Milestone) : EStateM ProgramError (Lltop kernel) Unit := fun s =>
  .ok () { s with milestones := s.milestones ++ [(milestone, s.world.credentials)] }

def liftExcept {α : Type} : Except ProgramError α → EStateM ProgramError (Lltop kernel) α
  | .ok a => pure a
  | .error error => throw error

/-- `CollectorConfig::prepare` with the privileges of the program. -/
def prepare (resources : Except CollectorPrepareError Unit) :
    EStateM ProgramError (Lltop kernel) Unit := fun s =>
  match prepareCollector resources (s.policy, s.world) with
  | .ok () (policy, world) => .ok () { s with policy, world }
  | .error error (policy, world) => .error (.prepare error) { s with policy, world }

/-- The mode that was chosen: what it returns, if it has returned. -/
def runMode (texts : ErrorTexts) (env : Environment) (mode : Mode) :
    EStateM ProgramError (Lltop kernel) (Option (Except ProgramError Unit)) := fun s =>
  match mode with
  | .batch =>
    match runBatch texts env.received ⟨s.stderr, s.stdout, .new⟩ with
    -- The loop waits for the next result
    | .ok () t => .ok none { s with stderr := t.stderr, stdout := t.stdout }
    | .error error t => .ok (some (.error error)) { s with stderr := t.stderr, stdout := t.stdout }
  | .interactive =>
    let (result, terminal) := runInteractive env.outcomes (env.session texts) s.terminal
    .ok result { s with terminal }

/-- `run`, after the minimization. -/
def runMinimized (texts : ErrorTexts) (env : Environment) :
    EStateM ProgramError (Lltop kernel) Progress := do
  let mode ← liftExcept ((parseMode env.arguments).mapError .usage)
  prepare env.resources
  liftExcept (env.spawn.mapError .io)
  reach .spawned
  reach (.entered mode)
  -- The mode owns the collector, which is dropped when it returns
  match ← runMode texts env mode with
  | none => return .running
  | some result =>
    reach .joined
    liftExcept (combineExecutionAndWorkerResults result (joinWorker env.workerPanics))
    return .finished

end Lltop

/-- What a run of the program has come to. -/
inductive ProgramOutcome (kernel : Kernel) where
  | aborted
  | running (s : Lltop kernel)
  | returned (result : Except ProgramError Unit) (s : Lltop kernel)

/-- The end of `run`, which drops the privileges. -/
def returnProgram (result : Except ProgramError Unit) (s : Lltop kernel) : ProgramOutcome kernel :=
  match dropPrivileges s.policy s.world with
  | none => .aborted
  | some world => .returned result { s with world }

/-- `run`. -/
def runProgram (texts : ErrorTexts) (env : Environment) (s : Lltop kernel) :
    ProgramOutcome kernel :=
  match minimize s.world with
  | none => .aborted
  -- No privilege value was returned, so that none is dropped
  | some (.error error, world) => .returned (.error (.privilege error)) { s with world }
  | some (.ok policy, world) =>
    match Lltop.runMinimized texts env { s with policy, world } with
    | .ok .running s => .running s
    | .ok .finished s => returnProgram (.ok ()) s
    | .error error s => returnProgram (.error error) s

/-- How a process has ended, if it has. -/
inductive ProcessOutcome (kernel : Kernel) where
  | aborted
  | running (s : Lltop kernel)
  | exited (status : Nat) (s : Lltop kernel)

/-- `main`.  A diagnostic that cannot be written is lost. -/
def mainProgram (texts : ErrorTexts) (env : Environment) (s : Lltop kernel) :
    ProcessOutcome kernel :=
  match runProgram texts env s with
  | .aborted => .aborted
  | .running s => .running s
  | .returned (.ok ()) s => .exited 0 s
  | .returned (.error error) s =>
    -- `let _ =`
    match writeDiagnostic "" (error.display texts) s.stderr with
    | .ok () stderr => .exited 1 { s with stderr }
    | .error _ stderr => .exited 1 { s with stderr }

end Start

end Landlock
