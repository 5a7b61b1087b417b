import LandlockObservability.Model.Program
import LandlockObservability.Spec.LineProtocol
import LandlockObservability.Spec.SampleAccounting

/-!
# What batch mode prints

Standard output is exactly the records of the events that were received, and standard error is
the ready signal with one warning for each recoverable error.  Everything is flushed whenever
the program waits for the next event, and a write that fails leaves a part of this text behind
and ends the program.

* `runBatch_spec`: what is printed after any results of the receive calls
* `batch_output`: the same for a reader of the lines, also after a failure
* `batch_follows_samples`: without a warning, the lines tell of the first samples of the ring
  buffer, with none left out
-/

open Hoare Output
open scoped List

namespace Landlock

/-! ## What is expected -/

/-- The events among results of the receive calls. -/
def receivedSteps (received : List TimedReceive) :
    List (IterOrder DenialKey AggregatedDenial × Event) :=
  received.filterMap fun r => r.2.toOption.map fun event => (r.1, event)

/-- The records for results of the receive calls. -/
def printedRecords (received : List TimedReceive) : List String :=
  (Batch.processAll (receivedSteps received)).2

/-- The collector error in a result. -/
def TimedReceive.collectorError (r : TimedReceive) : Option CollectorReceiveError :=
  match r.2 with
  | .error (.collector error) => some error
  | _ => none

/-- An error after which a front end goes on. -/
def CollectorReceiveError.recoverable (error : CollectorReceiveError) : Bool :=
  Tui.recoverableCollectorError (some error.kind)

/-- The program goes on after this result. -/
def TimedReceive.Recoverable (r : TimedReceive) : Prop :=
  ∀ error, r.collectorError = some error → error.recoverable = true

/-- The lines on standard error. -/
def printedWarnings (texts : ErrorTexts) (received : List TimedReceive) : List String :=
  readySignal ::
    (received.filterMap fun r => r.collectorError.filter CollectorReceiveError.recoverable).map
      fun error => diagnostic "warning: " (error.display texts.poll)

section Expected

variable {texts : ErrorTexts} {received : List TimedReceive} {r : TimedReceive}

/-- One more event. -/
private theorem receivedSteps_concat_event {event : Event} (h : r.2 = .ok event) :
    receivedSteps (received ++ [r]) = receivedSteps received ++ [(r.1, event)] := by
  simp [receivedSteps, h, Except.toOption]

/-- An error is no event. -/
private theorem receivedSteps_concat_error {error : ReceiveTimeoutError} (h : r.2 = .error error) :
    receivedSteps (received ++ [r]) = receivedSteps received := by
  simp [receivedSteps, h, Except.toOption]

/-- One more event prints its records. -/
private theorem printedRecords_concat_event (received : List TimedReceive) {event : Event}
    (h : r.2 = .ok event) :
    printedRecords (received ++ [r]) = printedRecords received ++
      ((Batch.processAll (receivedSteps received)).1.process r.1 event).2 := by
  rw [printedRecords, receivedSteps_concat_event h, Batch.processAll_concat]
  rfl

/-- An error prints no record. -/
private theorem printedRecords_concat_error (received : List TimedReceive)
    {error : ReceiveTimeoutError}
    (h : r.2 = .error error) :
    printedRecords (received ++ [r]) = printedRecords received := by
  rw [printedRecords, receivedSteps_concat_error h, printedRecords]

/-- A recoverable error prints a warning. -/
private theorem printedWarnings_concat :
    printedWarnings texts (received ++ [r]) = printedWarnings texts received ++
      (r.collectorError.filter CollectorReceiveError.recoverable).toList.map
        fun error => diagnostic "warning: " (error.display texts.poll) := by
  unfold printedWarnings
  rw [List.filterMap_append, List.map_append, List.cons_append]
  cases h : r.collectorError.filter CollectorReceiveError.recoverable with
  | none => simp [h]
  | some error => simp [h]

end Expected

/-! ## The loop -/

/-- The state of `run_batch` while it waits for the next result. -/
structure Waiting (texts : ErrorTexts) (received : List TimedReceive) (s : BatchRun) : Prop where
  batch : s.batch = (Batch.processAll (receivedSteps received)).1
  stdout : s.stdout.text = lines (printedRecords received)
  stderr : s.stderr.text = lines (printedWarnings texts received)
  stdoutFlushed : s.stdout.Flushed
  stderrFlushed : s.stderr.Flushed
  recoverable : ∀ r ∈ received, r.Recoverable

/-- A text has been written up to a point between two others. -/
def Between (before after : List Char) (w : Writer IoError) : Prop :=
  before <+: w.text ∧ w.text <+: after

/-- Why `run_batch` returns at a result. -/
inductive Cause (r : TimedReceive) : ProgramError → Prop where
  | io (error : IoError) : Cause r (.io error)
  | fatal {error : CollectorReceiveError} (herror : r.collectorError = some error)
      (hfatal : error.recoverable = false) : Cause r (.receive error)

/-- A part of a text has been written. -/
private theorem Between.of_partly {before text : List Char} {w : Writer IoError}
    (h : Partly before text w) : Between before (before ++ text) w := by
  obtain ⟨part, hpart, htext⟩ := h
  rw [Between, htext]
  exact ⟨List.prefix_append _ _, (List.prefix_append_right_inj _).mpr hpart⟩

/-- The state of `run_batch` when it returns at a result. -/
structure Returned (texts : ErrorTexts) (received : List TimedReceive) (r : TimedReceive)
    (error : ProgramError) (s : BatchRun) : Prop where
  stdout : Between (lines (printedRecords received)) (lines (printedRecords (received ++ [r])))
    s.stdout
  stderr : Between (lines (printedWarnings texts received))
    (lines (printedWarnings texts (received ++ [r]))) s.stderr
  recoverable : ∀ r ∈ received, r.Recoverable
  cause : Cause r error

section Loop

variable {P : Writer IoError → Prop} {Q : Writer IoError → Prop}
  {E : IoError → Writer IoError → Prop} {m : EStateM IoError (Writer IoError) Unit}

/-- An operation on standard output leaves the rest alone. -/
private theorem onStdout_spec (h : Triple P m (fun _ => Q) E) (stderr : Writer IoError)
    (batch : Batch) :
    Triple (fun s => P s.stdout ∧ s.stderr = stderr ∧ s.batch = batch) (BatchRun.onStdout m)
      (fun _ s => Q s.stdout ∧ s.stderr = stderr ∧ s.batch = batch)
      fun error s => ∃ ioError, error = .io ioError ∧ E ioError s.stdout ∧ s.stderr = stderr := by
  rintro s ⟨hP, hstderr, hbatch⟩
  unfold BatchRun.onStdout
  cases hm : m s.stdout with
  | ok a stdout => exact ⟨h.of_ok hP hm, hstderr, hbatch⟩
  | error error stdout => exact ⟨error, rfl, h.of_error hP hm, hstderr⟩

/-- An operation on standard error leaves the rest alone. -/
private theorem onStderr_spec (h : Triple P m (fun _ => Q) E) (stdout : Writer IoError)
    (batch : Batch) :
    Triple (fun s => P s.stderr ∧ s.stdout = stdout ∧ s.batch = batch) (BatchRun.onStderr m)
      (fun _ s => Q s.stderr ∧ s.stdout = stdout ∧ s.batch = batch)
      fun error s => ∃ ioError, error = .io ioError ∧ E ioError s.stderr ∧ s.stdout = stdout := by
  rintro s ⟨hP, hstdout, hbatch⟩
  unfold BatchRun.onStderr
  cases hm : m s.stderr with
  | ok a stderr => exact ⟨h.of_ok hP hm, hstdout, hbatch⟩
  | error error stderr => exact ⟨error, rfl, h.of_error hP hm, hstdout⟩

variable {texts : ErrorTexts} {received : List TimedReceive} {r : TimedReceive}

/-- One more result after which the program goes on. -/
private theorem recoverable_concat (h : ∀ r ∈ received, r.Recoverable) (hr : r.Recoverable) :
    ∀ r' ∈ received ++ [r], r'.Recoverable := by
  intro r' hr'
  rcases List.mem_append.mp hr' with hold | hnew
  · exact h r' hold
  · rwa [List.mem_singleton.mp hnew]

/-- Handling an event: its records are printed if there are any. -/
private theorem processAndWrite_apply (order : IterOrder DenialKey AggregatedDenial) (event : Event)
    (s : BatchRun) :
    processAndWrite order event s =
      if (s.batch.process order event).2.isEmpty then
        .ok () { s with batch := (s.batch.process order event).1 }
      else
        BatchRun.onStdout (printLines (s.batch.process order event).2)
          { s with batch := (s.batch.process order event).1 } := by
  show (if (s.batch.process order event).2.isEmpty then _ else _ :
    EStateM ProgramError BatchRun Unit) _ = _
  split
  all_goals rfl

/-- Handling an event. -/
private theorem processAndWrite_spec {event : Event} (h : r.2 = .ok event) :
    Triple (Waiting texts received) (processAndWrite r.1 event)
      (fun _ => Waiting texts (received ++ [r])) (Returned texts received r) := by
  intro s hs
  have herror : r.collectorError = none := by simp [TimedReceive.collectorError, h]
  have hwarnings : printedWarnings texts (received ++ [r]) = printedWarnings texts received := by
    simp [printedWarnings_concat, herror]
  have hrecoverable := recoverable_concat hs.recoverable fun error hsome => by
    rw [herror] at hsome
    cases hsome
  have hrecords := printedRecords_concat_event received h
  -- The event is applied before anything is printed
  have hbatch : (s.batch.process r.1 event).1 =
      (Batch.processAll (receivedSteps (received ++ [r]))).1 := by
    rw [receivedSteps_concat_event h, Batch.processAll_concat, hs.batch]
  rw [← hs.batch] at hrecords
  rw [processAndWrite_apply]
  by_cases hempty : (s.batch.process r.1 event).2.isEmpty
  · -- an event that changes nothing is not printed
    rw [if_pos hempty]
    rw [List.isEmpty_iff.mp hempty, List.append_nil] at hrecords
    exact ⟨hbatch, by rw [hrecords]; exact hs.stdout, by rw [hwarnings]; exact hs.stderr,
      hs.stdoutFlushed, hs.stderrFlushed, hrecoverable⟩
  · rw [if_neg hempty]
    have hprint := onStdout_spec
      (printLines_spec (lines (printedRecords received)) (s.batch.process r.1 event).2) s.stderr
      (s.batch.process r.1 event).1
    refine hprint.weaken (fun _ => id) ?_ ?_ _ ⟨hs.stdout, rfl, rfl⟩
    · rintro - t ⟨⟨hstdout, hflushed⟩, hstderr, hnew⟩
      rw [← lines_append, ← hrecords] at hstdout
      exact ⟨hnew.trans hbatch, hstdout, by rw [hstderr, hwarnings]; exact hs.stderr, hflushed,
        by rw [hstderr]; exact hs.stderrFlushed, hrecoverable⟩
    · -- a write that failed leaves some of the new lines
      rintro error t ⟨ioError, rfl, hpartly, hstderr⟩
      have hbetween := Between.of_partly hpartly
      rw [← lines_append, ← hrecords] at hbetween
      refine ⟨hbetween, ?_, hs.recoverable, .io ioError⟩
      rw [hstderr, Between, hs.stderr, hwarnings]
      exact ⟨List.prefix_rfl, List.prefix_rfl⟩

/-- Printing a warning. -/
private theorem warn_spec {error : CollectorReceiveError} (h : r.2 = .error (.collector error))
    (hrecoverable : error.recoverable = true) :
    Triple (Waiting texts received)
      (BatchRun.onStderr (writeDiagnostic "warning: " (error.display texts.poll)))
      (fun _ => Waiting texts (received ++ [r])) (Returned texts received r) := by
  intro s hs
  have herror : r.collectorError = some error := by simp [TimedReceive.collectorError, h]
  have hwarnings : printedWarnings texts (received ++ [r]) = printedWarnings texts received ++
      [diagnostic "warning: " (error.display texts.poll)] := by
    simp [printedWarnings_concat, herror, hrecoverable]
  have hrecords := printedRecords_concat_error received h
  have hprint := onStderr_spec
    (printLines_spec (lines (printedWarnings texts received))
      [diagnostic "warning: " (error.display texts.poll)]) s.stdout s.batch
  -- Only standard error changes
  refine hprint.weaken (fun _ => id) ?_ ?_ _ ⟨hs.stderr, rfl, rfl⟩
  · rintro - t ⟨⟨hstderr, hflushed⟩, hstdout, hbatch⟩
    rw [← lines_append, ← hwarnings] at hstderr
    refine ⟨?_, by rw [hstdout, hrecords]; exact hs.stdout, hstderr,
      by rw [hstdout]; exact hs.stdoutFlushed, hflushed, recoverable_concat hs.recoverable ?_⟩
    · rw [hbatch, receivedSteps_concat_error h, hs.batch]
    · intro error' herror'
      rw [herror] at herror'
      cases herror'
      exact hrecoverable
  · rintro error' t ⟨ioError, rfl, hpartly, hstdout⟩
    have hbetween := Between.of_partly hpartly
    rw [← lines_append, ← hwarnings] at hbetween
    refine ⟨?_, hbetween, hs.recoverable, .io ioError⟩
    rw [hstdout, Between, hs.stdout, hrecords]
    exact ⟨List.prefix_rfl, List.prefix_rfl⟩

/-- Returning because of an error. -/
private theorem fatal_spec {error : CollectorReceiveError} (h : r.2 = .error (.collector error))
    (hfatal : error.recoverable = false) :
    Triple (Waiting texts received) (throw (.receive error))
      (fun _ : Unit => Waiting texts (received ++ [r])) (Returned texts received r) := by
  refine .throw fun s hs => ?_
  have herror : r.collectorError = some error := by simp [TimedReceive.collectorError, h]
  have hwarnings : printedWarnings texts (received ++ [r]) = printedWarnings texts received := by
    simp [printedWarnings_concat, herror, hfatal]
  refine ⟨?_, ?_, hs.recoverable, .fatal herror hfatal⟩
  · rw [Between, hs.stdout, printedRecords_concat_error received h]
    exact ⟨List.prefix_rfl, List.prefix_rfl⟩
  · rw [Between, hs.stderr, hwarnings]
    exact ⟨List.prefix_rfl, List.prefix_rfl⟩

/-- A timeout changes nothing. -/
private theorem waiting_timeout {s : BatchRun} (h : r.2 = .error .timeout)
    (hs : Waiting texts received s) : Waiting texts (received ++ [r]) s := by
  have herror : r.collectorError = none := by simp [TimedReceive.collectorError, h]
  refine ⟨?_, ?_, ?_, hs.stdoutFlushed, hs.stderrFlushed,
    recoverable_concat hs.recoverable fun error hsome => ?_⟩
  · rw [receivedSteps_concat_error h]
    exact hs.batch
  · rw [printedRecords_concat_error received h]
    exact hs.stdout
  · rw [hs.stderr]
    simp [printedWarnings_concat, herror]
  · rw [herror] at hsome
    cases hsome

/-- What an iteration does. -/
private theorem batchRound_spec (received : List TimedReceive) (r : TimedReceive) :
    Triple (Waiting texts received) (batchRound texts r)
      (fun _ => Waiting texts (received ++ [r])) (Returned texts received r) := by
  unfold batchRound
  split
  · rename_i event hevent
    exact processAndWrite_spec hevent
  · rename_i htimeout
    exact .pure fun _ => waiting_timeout htimeout
  · rename_i error herror
    -- `run_batch` lists the kinds itself, and goes on after the same ones as the other mode
    have hkind : error.recoverable = Tui.recoverableCollectorError (some error.kind) := rfl
    split
    all_goals
      rename_i hk
      rw [hk] at hkind
      first
        | exact warn_spec herror hkind
        | exact fatal_spec herror hkind

/-- A program at its start. -/
def BatchRun.start (stderr stdout : Nat → Option (Nat × IoError)) : BatchRun :=
  ⟨.start stderr, .start stdout, .new⟩

/-- The ready signal comes before anything is received. -/
private theorem ready_spec (texts : ErrorTexts) (stderr stdout : Nat → Option (Nat × IoError)) :
    Triple (fun s => s = BatchRun.start stderr stdout)
      (BatchRun.onStderr (printLines [readySignal])) (fun _ => Waiting texts [])
      fun error s => (∃ ioError, error = .io ioError) ∧ s.stdout.text = [] ∧
        s.stderr.text <+: lines [readySignal] := by
  have hprint := onStderr_spec (printLines_spec [] [readySignal]) (.start stdout) .new
  refine hprint.weaken ?_ ?_ ?_
  · rintro s rfl
    exact ⟨rfl, rfl, rfl⟩
  · rintro - s ⟨⟨hstderr, hflushed⟩, hstdout, hbatch⟩
    refine ⟨hbatch, by rw [hstdout]; rfl, hstderr, by rw [hstdout]; rfl, hflushed, by simp⟩
  · rintro error s ⟨ioError, rfl, ⟨part, hpart, hstderr⟩, hstdout⟩
    exact ⟨⟨ioError, rfl⟩, by rw [hstdout]; rfl, by rwa [hstderr]⟩

/-- `run_batch` prints the records of what was received. -/
theorem runBatch_spec (texts : ErrorTexts) (stderr stdout : Nat → Option (Nat × IoError))
    (received : List TimedReceive) :
    Triple (fun s => s = BatchRun.start stderr stdout) (runBatch texts received)
      (fun _ => Waiting texts received)
      fun error s =>
        ((∃ ioError, error = .io ioError) ∧ s.stdout.text = [] ∧
          s.stderr.text <+: lines [readySignal]) ∨
        ∃ handled r rest, received = handled ++ r :: rest ∧ Returned texts handled r error s := by
  -- Either the ready signal cannot be written, or the loop is entered
  refine ((ready_spec texts stderr stdout).weaken (fun _ => id) (fun _ _ => id) ?_).bind fun _ => ?_
  · exact fun _ _ => .inl
  · exact (Triple.forM batchRound_spec [] received).weaken (fun _ => id) (fun _ _ => id)
      fun _ _ => .inr

/-! ## Working streams -/

/-- Both output streams work. -/
def BatchRun.Reliable (s : BatchRun) : Prop := s.stderr.Reliable ∧ s.stdout.Reliable

/-- With working streams, handling an event does not fail, -/
private theorem processAndWrite_reliable (order : IterOrder DenialKey AggregatedDenial)
    (event : Event) :
    Triple BatchRun.Reliable (processAndWrite order event) (fun _ => BatchRun.Reliable)
      fun _ _ => False := by
  rintro s ⟨hstderr, hstdout⟩
  rw [processAndWrite_apply]
  by_cases hempty : (s.batch.process order event).2.isEmpty
  · rw [if_pos hempty]
    exact ⟨hstderr, hstdout⟩
  · rw [if_neg hempty]
    have hprint := onStdout_spec (printLines_reliable (s.batch.process order event).2) s.stderr
      (s.batch.process order event).1
    refine hprint.weaken (fun _ => id) ?_ ?_ _ ⟨hstdout, rfl, rfl⟩
    · rintro - t ⟨hreliable, hsame, -⟩
      exact ⟨hsame ▸ hstderr, hreliable⟩
    · rintro - t ⟨_, _, hfalse, _⟩
      exact hfalse

/-- and neither does printing to standard error. -/
private theorem onStderr_reliable (records : List String) :
    Triple BatchRun.Reliable (BatchRun.onStderr (printLines records)) (fun _ => BatchRun.Reliable)
      fun _ _ => False := by
  rintro s ⟨hstderr, hstdout⟩
  have hprint := onStderr_spec (printLines_reliable records) s.stdout s.batch
  refine hprint.weaken (fun _ => id) ?_ ?_ _ ⟨hstderr, rfl, rfl⟩
  · rintro - t ⟨hreliable, hsame, -⟩
    exact ⟨hreliable, hsame ▸ hstdout⟩
  · rintro - t ⟨_, _, hfalse, _⟩
    exact hfalse

/-- With working streams, an iteration fails for a fatal error only. -/
private theorem batchRound_reliable (texts : ErrorTexts) (r : TimedReceive) :
    Triple BatchRun.Reliable (batchRound texts r) (fun _ => BatchRun.Reliable)
      fun _ _ => ¬ r.Recoverable := by
  unfold batchRound
  split
  · exact (processAndWrite_reliable _ _).infallible
  · exact .pure fun _ => id
  · rename_i error herror
    have hfatal : error.recoverable = false → ¬ r.Recoverable := fun hfatal hr => by
      rw [hr error (by simp [TimedReceive.collectorError, herror])] at hfatal
      cases hfatal
    have hkind : error.recoverable = Tui.recoverableCollectorError (some error.kind) := rfl
    split
    all_goals
      rename_i hk
      rw [hk] at hkind
      first
        | exact .throw fun _ _ => hfatal hkind
        | exact (onStderr_reliable _).infallible

/-- With working streams, `run_batch` does not return before a fatal error. -/
private theorem runBatch_reliable (texts : ErrorTexts) (received : List TimedReceive)
    (hreceived : ∀ r ∈ received, r.Recoverable) {s : BatchRun} (hs : s.Reliable) :
    ∃ t, runBatch texts received s = .ok () t := by
  have hrounds := Triple.forM (I := fun _ => BatchRun.Reliable)
    (B := fun _ r _ _ => ¬ r.Recoverable) (fun _ => batchRound_reliable texts) [] received
  have hbatch := (onStderr_reliable [readySignal]).infallible.bind fun _ => hrounds
  cases hrun : runBatch texts received s with
  | ok _ t => exact ⟨t, rfl⟩
  | error error t =>
    -- The loop has returned at a result that is not recoverable, but there is none
    obtain ⟨handled, r, rest, rfl, hfatal⟩ := hbatch.of_error hs hrun
    exact absurd (hreceived r (by simp)) hfatal

/-! ## Fates -/

end Loop

/-! ## Readers -/

/-- No record has a line end in it. -/
private theorem newline_notMem_printedRecords (received : List TimedReceive) :
    ∀ record ∈ printedRecords received, '\n' ∉ record.toList := by
  intro record hrecord hnewline
  obtain ⟨earlier, order, event, hprocess⟩ := Batch.mem_processAll hrecord
  obtain ⟨shape, hfits⟩ := Batch.process_fits order _ event hprocess
  exact absurd (hfits.printable _ hnewline) (by decide)

/-- What batch mode prints, for any results of the receive calls and any failures of the output
    streams.  While it waits, standard output is exactly the records of the events received so
    far, line by line, standard error is the ready signal and a warning for each error, and
    nothing waits in a buffer.  It returns at a result when a write fails or when the result is
    a fatal error; all results before it were handled, and the reader of standard output has
    all of their lines and possibly some of its own, and no others.  With streams that work it
    goes on until there is a fatal error. -/
theorem batch_output (texts : ErrorTexts) (stderr stdout : Nat → Option (Nat × IoError))
    (received : List TimedReceive) :
    (∀ s, runBatch texts received (.start stderr stdout) = .ok () s →
      readLines s.stdout.text = printedRecords received ∧
      s.stderr.text = lines (printedWarnings texts received) ∧
      s.stdout.Flushed ∧ s.stderr.Flushed ∧ ∀ r ∈ received, r.Recoverable) ∧
    (∀ error s, runBatch texts received (.start stderr stdout) = .error error s →
      (∃ ioError, error = .io ioError) ∧ s.stdout.text = [] ∨
      ∃ handled r rest, received = handled ++ r :: rest ∧ (∀ r' ∈ handled, r'.Recoverable) ∧
        Cause r error ∧
        printedRecords handled <+: readLines s.stdout.text ∧
        readLines s.stdout.text <+: printedRecords (handled ++ [r]) ∧
        Between (lines (printedWarnings texts handled))
          (lines (printedWarnings texts (handled ++ [r]))) s.stderr) ∧
    ((∀ n, stderr n = none) → (∀ n, stdout n = none) → (∀ r ∈ received, r.Recoverable) →
      ∃ s, runBatch texts received (.start stderr stdout) = .ok () s) := by
  have hspec := runBatch_spec texts stderr stdout received
  refine ⟨fun s hrun => ?_, fun error s hrun => ?_, fun hstderr hstdout hreceived =>
    runBatch_reliable texts received hreceived ⟨hstderr, hstdout⟩⟩
  · have hwaiting := hspec.of_ok rfl hrun
    refine ⟨?_, hwaiting.stderr, hwaiting.stdoutFlushed, hwaiting.stderrFlushed,
      hwaiting.recoverable⟩
    rw [hwaiting.stdout]
    exact readLines_lines (newline_notMem_printedRecords received)
  · rcases hspec.of_error rfl hrun with ⟨hio, hempty, -⟩ | ⟨handled, r, rest, hsplit, hreturned⟩
    · exact .inl ⟨hio, hempty⟩
    · obtain ⟨hfrom, hto⟩ := hreturned.stdout
      exact .inr ⟨handled, r, rest, hsplit, hreturned.recoverable, hreturned.cause,
        prefix_readLines (newline_notMem_printedRecords handled) hfrom,
        readLines_prefix (newline_notMem_printedRecords _) hto, hreturned.stderr⟩

/-! ## From the ring buffer to the lines -/

/-- What `recv_timeout` returns for what a call came to. -/
def Observation.timedResult : Observation → Option (Except ReceiveTimeoutError Event)
  | .returned _ (.ok event) => some (.ok event)
  | .returned _ (.error error) => some (.error (.collector error))
  | .nothing _ => some (.error .timeout)
  | .accepted _ => none
  | .omitted => none

/-- Nothing but the ready signal on standard error means that every result was an event or a
    timeout. -/
private theorem collectorError_eq_none_of_quiet {texts : ErrorTexts} {received : List TimedReceive}
    {s : BatchRun} (hs : Waiting texts received s)
    (hquiet : s.stderr.text = lines [readySignal]) : ∀ r ∈ received, r.collectorError = none := by
  intro r hr
  have hempty : received.filterMap (fun r =>
      r.collectorError.filter CollectorReceiveError.recoverable) = [] := by
    -- A warning would stand behind the ready signal
    have hlines := hs.stderr.symm.trans hquiet
    rw [printedWarnings, ← List.singleton_append, lines_append, List.append_right_eq_self] at hlines
    exact List.map_eq_nil_iff.mp (eq_nil_of_lines_eq_nil hlines)
  have hnone := List.filterMap_eq_nil_iff.mp hempty r hr
  cases herror : r.collectorError with
  | none => rfl
  | some error => simp [herror, hs.recoverable r hr error herror] at hnone

/-- What a receive call returned from the channels; a timeout is no such result. -/
def deliveryOfResult : Except ReceiveTimeoutError Event → Option Delivery
  | .ok event => some (.ok event)
  | .error .timeout => none
  | .error (.collector error) => some (.error error)

/-- The results of the channels are those of the calls without the timeouts. -/
private theorem receivedResults_eq_filterMap (os : List Observation) :
    receivedResults os = (os.filterMap Observation.timedResult).filterMap deliveryOfResult := by
  rw [List.filterMap_filterMap]
  refine List.filterMap_congr fun o _ => ?_
  cases o with
  | returned origin result =>
    cases result
    all_goals rfl
  | _ => rfl

/-- Without collector errors, the receive calls returned events and timeouts. -/
private theorem receivedResults_eq_of_quiet {received : List TimedReceive} {os : List Observation}
    (hfed : received.map Prod.snd = os.filterMap Observation.timedResult)
    (hquiet : ∀ r ∈ received, r.collectorError = none) :
    receivedResults os = (receivedSteps received).map fun step => .ok step.2 := by
  rw [receivedResults_eq_filterMap, ← hfed, List.filterMap_map, receivedSteps, List.map_filterMap]
  refine List.filterMap_congr fun r hr => ?_
  have hnone := hquiet r hr
  obtain ⟨order, result⟩ := r
  cases result with
  | ok event => rfl
  | error error =>
    cases error with
    | timeout => rfl
    | collector error => cases hnone

namespace System

variable {en : Endian} {sys : System} {os : List Observation}

/-- From the kernel to the reader: for every interleaving of the kernel's records with the
    worker and the program, while the program waits and if it has printed no warning, the lines
    on its standard output are those of the first submitted events, none of them left out. -/
theorem batch_follows_samples {eventCapacity : ℕ+} {actions : List Action} {events : List Event}
    {texts : ErrorTexts} {stderr stdout : Nat → Option (Nat × IoError)}
    {received : List TimedReceive} {s : BatchRun}
    (hrun : run en eventCapacity actions = some (sys, os))
    (hsamples : samples actions = events.map (Producer.encode en))
    (hfed : received.map Prod.snd = os.filterMap Observation.timedResult)
    (hbatch : runBatch texts received (.start stderr stdout) = .ok () s)
    (hquiet : s.stderr.text = lines [readySignal]) :
    ∃ steps, steps.map Prod.snd <+: events ∧
      readLines s.stdout.text = (Batch.processAll steps).2 := by
  have hwaiting := (runBatch_spec texts stderr stdout received).of_ok rfl hbatch
  have hresults := receivedResults_eq_of_quiet hfed
    (collectorError_eq_none_of_quiet hwaiting hquiet)
  refine ⟨receivedSteps received, ?_, ?_⟩
  · -- nothing was omitted before the last result, since that would be an error
    have hprefix := received_without_gap hrun fun result hresult => by
      rw [hresults] at hresult
      obtain ⟨step, -, rfl⟩ := List.mem_map.mp hresult
      exact ⟨step.2, rfl⟩
    have hdecoded : (samples actions).map (deliveryOf en) = events.map .ok := by
      rw [hsamples, List.map_map]
      exact List.map_congr_left fun event _ => deliveryOf_encode en event
    rw [hresults, hdecoded] at hprefix
    have hok := hprefix.filterMap Except.toOption
    rw [List.filterMap_map, List.filterMap_map] at hok
    simpa [Function.comp_def, Except.toOption] using hok
  · rw [hwaiting.stdout]
    exact readLines_lines (newline_notMem_printedRecords received)

/-- Error texts for an example in which no error is printed. -/
def noTexts : ErrorTexts := ⟨fun _ => "", fun _ => "", fun _ => "", fun _ => ""⟩

/-- Two records are submitted, and the program has received the first one. -/
theorem batch_follows_samples_first :
    ∃ sys os received s, run .little 2 (twoSampleRun sampleRecord sampleRecord) = some (sys, os) ∧
      runBatch noTexts received (.start (fun _ => none) fun _ => none) = .ok () s ∧
      receivedSteps received ≠ [] ∧
      ∃ steps, steps.map Prod.snd <+: [sampleEvent, sampleEvent] ∧
        readLines s.stdout.text = (Batch.processAll steps).2 := by
  have hrun : ∀ first second, ∃ sys os,
      run .little 2 (twoSampleRun first second) = some (sys, os) ∧
      os = [.accepted (deliveryOf .little first), .accepted (deliveryOf .little second),
        .returned .deliveries (deliveryOf .little first)] :=
    fun _ _ => ⟨_, _, rfl, rfl⟩
  obtain ⟨sys, os, hrun, hos⟩ := hrun sampleRecord sampleRecord
  have hdelivery : deliveryOf .little sampleRecord = .ok sampleEvent := deliveryOf_encode _ _
  -- The program has handled the event and waits
  obtain ⟨s, hbatch⟩ := runBatch_reliable noTexts [(default, .ok sampleEvent)]
    (by simp [TimedReceive.Recoverable, TimedReceive.collectorError])
    (s := .start (fun _ => none) fun _ => none) ⟨fun _ => rfl, fun _ => rfl⟩
  have hquiet := ((runBatch_spec _ _ _ _).of_ok rfl hbatch).stderr
  refine ⟨sys, os, _, s, hrun, hbatch, List.cons_ne_nil _ _,
    batch_follows_samples hrun rfl ?_ hbatch hquiet⟩
  rw [hos, hdelivery]
  rfl

end System

end Landlock
