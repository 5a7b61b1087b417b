import LandlockObservability.Model.Program
import LandlockObservability.Spec.BatchOutput
import LandlockObservability.Spec.PrivilegeSafety
import LandlockObservability.Spec.Session

/-!
# Runs of the program

The privileges of the program are gone before any other code than its start runs: before the
worker thread is created, before a mode is entered, and when the process exits.  However the
terminal operations fail, a mode of the terminal that is left behind is one whose restoration
failed.

* `program_authority`: the credentials at every point of a run
* `program_exit`: the exit status, the diagnostic and the terminal
-/

open Hoare Output

namespace Landlock

/-! ## Outcomes -/

section Outcomes

variable {kernel : Kernel} {texts : ErrorTexts} {env : Environment}

/-- The part of `run` after the minimization ends with a result. -/
inductive EndsWith (texts : ErrorTexts) (env : Environment) (s t : Lltop kernel) :
    Except ProgramError Unit → Prop where
  | ok (h : Lltop.runMinimized texts env s = .ok .finished t) : EndsWith texts env s t (.ok ())
  | error {error : ProgramError} (h : Lltop.runMinimized texts env s = .error error t) :
      EndsWith texts env s t (.error error)

/-- The program at the end of the minimization. -/
def Lltop.minimized (s : Lltop kernel) (world : World kernel) : Lltop kernel :=
  { s with policy := .minimized, world }

/-- How `run` returns: its minimization fails, or the rest of it ends and the privileges are
    dropped. -/
private theorem runProgram_returned {s t : Lltop kernel} {result : Except ProgramError Unit}
    (h : runProgram texts env s = .returned result t) :
    (∃ error world, minimize s.world = some (.error error, world) ∧
      result = .error (.privilege error) ∧ t = { s with world }) ∨
    ∃ world before after, minimize s.world = some (.ok .minimized, world) ∧
      EndsWith texts env (s.minimized world) before result ∧
      dropPrivileges before.policy before.world = some after ∧
      t = { before with world := after } := by
  have hdropped : ∀ {before : Lltop kernel} {result' : Except ProgramError Unit},
      returnProgram result' before = .returned result t → result' = result ∧
        ∃ after, dropPrivileges before.policy before.world = some after ∧
          t = { before with world := after } := by
    intro before result' hreturn
    unfold returnProgram at hreturn
    split at hreturn
    · cases hreturn
    · rename_i after hdrop
      cases hreturn
      exact ⟨rfl, after, hdrop, rfl⟩
  unfold runProgram at h
  split at h
  · cases h
  · rename_i error world hminimize
    cases h
    exact .inl ⟨error, world, hminimize, rfl, rfl⟩
  · rename_i policy world hminimize
    obtain ⟨rfl, -⟩ := minimize_cases hminimize
    -- Whichever way the rest ends, `Drop for Privileges` comes after it
    split at h
    · cases h
    · rename_i before hrun
      obtain ⟨rfl, after, hdrop, rfl⟩ := hdropped h
      exact .inr ⟨world, before, after, hminimize, .ok hrun, hdrop, rfl⟩
    · rename_i error before hrun
      obtain ⟨rfl, after, hdrop, rfl⟩ := hdropped h
      exact .inr ⟨world, before, after, hminimize, .error hrun, hdrop, rfl⟩

/-- When `run` is in the loop of a mode. -/
private theorem runProgram_running {s t : Lltop kernel} (h : runProgram texts env s = .running t) :
    ∃ world, minimize s.world = some (.ok .minimized, world) ∧
      Lltop.runMinimized texts env (s.minimized world) = .ok .running t := by
  unfold runProgram at h
  split at h
  · cases h
  · cases h
  · rename_i policy world hminimize
    obtain ⟨rfl, -⟩ := minimize_cases hminimize
    split at h
    · rename_i hrun
      cases h
      exact ⟨world, hminimize, hrun⟩
    all_goals
      unfold returnProgram at h
      split at h
      all_goals cases h

/-- How `main` exits. -/
private theorem mainProgram_exited {s t : Lltop kernel} {status : Nat}
    (h : mainProgram texts env s = .exited status t) :
    (status = 0 ∧ runProgram texts env s = .returned (.ok ()) t) ∨
    ∃ error before stderr, status = 1 ∧ runProgram texts env s = .returned (.error error) before ∧
      t = { before with stderr } ∧
      Partly before.stderr.text (lines [diagnostic "" (error.display texts)]) stderr ∧
      (before.stderr.Reliable →
        stderr.text = before.stderr.text ++ lines [diagnostic "" (error.display texts)]) := by
  unfold mainProgram at h
  split at h
  · cases h
  · cases h
  · rename_i hrun
    cases h
    exact .inl ⟨rfl, hrun⟩
  -- The diagnostic is the last thing that is written
  · rename_i error before hrun
    split at h
    · rename_i stderr hwrite
      cases h
      have hwhole := ((printLines_spec before.stderr.text _).of_ok rfl hwrite).1
      exact .inr ⟨error, before, stderr, rfl, hrun, rfl, ⟨_, List.prefix_rfl, hwhole⟩,
        fun _ => hwhole⟩
    · rename_i ioError stderr hwrite
      cases h
      have hpartly := (printLines_spec before.stderr.text _).of_error rfl hwrite
      -- A stream that works takes the line
      exact .inr ⟨error, before, stderr, rfl, hrun, rfl, hpartly, fun hreliable =>
        ((printLines_reliable _).of_error hreliable hwrite).elim⟩

/-- While `main` runs, it is in `run`. -/
private theorem mainProgram_running {s t : Lltop kernel}
    (h : mainProgram texts env s = .running t) :
    runProgram texts env s = .running t := by
  unfold mainProgram at h
  split at h
  · cases h
  · rename_i hrun
    cases h
    exact hrun
  · cases h
  · split at h
    all_goals cases h

/-- A result that is only passed on changes nothing. -/
private theorem liftExcept_spec {α : Type} {P : Lltop kernel → Prop}
    {E : ProgramError → Lltop kernel → Prop}
    (result : Except ProgramError α) (h : ∀ error s, P s → E error s) :
    Triple P (Lltop.liftExcept result) (fun a s => P s ∧ result = .ok a) E := by
  cases result with
  | ok a => exact .pure fun _ hs => ⟨hs, rfl⟩
  | error error => exact .throw (h error)

/-- The status of a process that has exited. -/
def ProcessOutcome.status : ProcessOutcome kernel → Option Nat
  | exited status _ => some status
  | _ => none

/-- A process with a status has exited. -/
private theorem ProcessOutcome.exists_of_status {outcome : ProcessOutcome kernel} {status : Nat}
    (h : outcome.status = some status) : ∃ t, outcome = .exited status t := by
  cases outcome with
  | exited status' t =>
    cases h
    exact ⟨t, rfl⟩
  | _ => cases h

/-- The user quits the interactive mode after the first drawing. -/
noncomputable def quitEnvironment : Environment where
  arguments := ["lltop"]
  resources := .ok ()
  spawn := .ok ()
  received := []
  outcomes := ⟨.ok (), .done, .done, .ok (), .done, .done, .ok ()⟩
  unicode := .reference
  width := .ascii
  iterations := [Tui.keyIteration (.ok System.sampleEvent) (.char 'q')]
  workerPanics := false

/-- A session that the user quits ends with status 0. -/
private theorem mainProgram_quit : ∃ t, mainProgram System.noTexts quitEnvironment
    (.start Process.workingWorld (fun _ => none) fun _ => none) = .exited 0 t := by
  apply ProcessOutcome.exists_of_status
  decide +kernel

end Outcomes

/-! ## Authority -/

section Authority

variable {kernel : Kernel} {texts : ErrorTexts} {env : Environment}

/-- The thread had no authority at any milestone so far. -/
def Lltop.Harmless (s : Lltop kernel) : Prop := ∀ m ∈ s.milestones, m.2.Cleared

/-- The state of the program while it may still have authority. -/
def Lltop.Preparing (s : Lltop kernel) : Prop := Sound (s.policy, s.world) ∧ s.Harmless

/-- The state of the program once its authority is gone. -/
structure Lltop.Unprivileged (s : Lltop kernel) : Prop where
  cleared : s.world.credentials.Cleared
  finished : s.policy = .finished
  harmless : s.Harmless

/-- Without authority, the preparation has nothing left to lose. -/
private theorem Lltop.Unprivileged.preparing {s : Lltop kernel} (h : s.Unprivileged) :
    s.Preparing := by
  refine ⟨⟨?_, fun _ => h.cleared⟩, h.harmless⟩
  simp [h.finished]

/-- A successful preparation takes the authority away. -/
private theorem prepare_spec (hkernel : kernel.Documented)
    (resources : Except CollectorPrepareError Unit) :
    Triple Lltop.Preparing (Lltop.prepare resources) (fun _ (s : Lltop kernel) => s.Unprivileged)
      fun _ s => s.Preparing := by
  rintro s ⟨hsound, hharmless⟩
  unfold Lltop.prepare
  cases hprepare : prepareCollector resources (s.policy, s.world) with
  | ok _ after =>
    obtain ⟨hcleared, hfinished⟩ :=
      (prepareCollector_spec hkernel resources).of_ok hsound hprepare
    exact ⟨hcleared, hfinished, hharmless⟩
  | error error after =>
    exact ⟨(prepareCollector_spec hkernel resources).of_error hsound hprepare, hharmless⟩

/-- A milestone is reached without authority. -/
private theorem reach_spec (milestone : Milestone) :
    Triple Lltop.Unprivileged (Lltop.reach milestone) (fun _ (s : Lltop kernel) => s.Unprivileged)
      fun _ _ => False := by
  intro s hs
  refine ⟨hs.cleared, hs.finished, fun m hm => ?_⟩
  rcases List.mem_append.mp hm with hold | hnew
  · exact hs.harmless m hold
  · rw [List.mem_singleton.mp hnew]
    exact hs.cleared

/-- The modes do not touch the credentials. -/
private theorem runMode_spec (mode : Mode) :
    Triple Lltop.Unprivileged (Lltop.runMode texts env mode)
      (fun _ (s : Lltop kernel) => s.Unprivileged) fun _ _ => False := by
  intro s hs
  unfold Lltop.runMode
  cases mode with
  | batch =>
    dsimp only
    cases runBatch texts env.received ⟨s.stderr, s.stdout, .new⟩ with
    | ok _ t => exact ⟨hs.cleared, hs.finished, hs.harmless⟩
    | error error t => exact ⟨hs.cleared, hs.finished, hs.harmless⟩
  | interactive => exact ⟨hs.cleared, hs.finished, hs.harmless⟩

/-- After a minimization, everything that happens happens without authority, except for the
    preparation itself. -/
private theorem runMinimized_spec (hkernel : kernel.Documented) :
    Triple Lltop.Preparing (Lltop.runMinimized texts env)
      (fun _ (s : Lltop kernel) => s.Unprivileged) fun _ s => s.Preparing := by
  -- The arguments are parsed before the preparation, which is the last with authority
  refine (liftExcept_spec _ fun _ _ => id).bind fun mode => .assume fun _ => ?_
  refine (prepare_spec hkernel env.resources).bind fun _ => ?_
  refine (liftExcept_spec _ fun _ _ hs => hs.preparing).bind fun _ => .assume fun _ => ?_
  refine (reach_spec .spawned).infallible.bind fun _ => ?_
  refine (reach_spec (.entered mode)).infallible.bind fun _ => ?_
  refine (runMode_spec mode).infallible.bind fun result => ?_
  cases result with
  | none => exact .pure fun _ => id
  | some result =>
    -- The mode has returned: the worker is joined, and both results are combined
    refine (reach_spec .joined).infallible.bind fun _ => ?_
    exact (liftExcept_spec _ fun _ _ hs => hs.preparing).bind fun _ => .pure fun _ => And.left

/-- At the start of `run` proper, the policy claims nothing. -/
private theorem preparing_minimized {s : Lltop kernel} (hs : s.milestones = [])
    (world : World kernel) :
    (s.minimized world).Preparing := by
  refine ⟨⟨by simp [Lltop.minimized], fun h => (by cases h)⟩, ?_⟩
  simp [Lltop.Harmless, Lltop.minimized, hs]

/-- When `run` returns, the credentials are as they were and nothing has happened, or they are
    cleared. -/
private theorem runProgram_authority (hkernel : kernel.Documented) {s t : Lltop kernel}
    {result : Except ProgramError Unit} (hs : s.milestones = [])
    (h : runProgram texts env s = .returned result t) :
    t.Harmless ∧ (t.world.credentials.Cleared ∨
      t.world.credentials = s.world.credentials ∧ t.milestones = []) := by
  rcases runProgram_returned h with
    ⟨error, world, hminimize, -, rfl⟩ | ⟨world, before, after, -, hends, hdrop, rfl⟩
  · -- a failed minimization has changed nothing or cleared everything
    refine ⟨by simp [Lltop.Harmless, hs], ?_⟩
    exact (minimize_error hkernel hminimize).symm.imp_right fun hsame => ⟨hsame, hs⟩
  -- `Drop for Privileges` clears what the policy still allows
  · have hbefore : before.Preparing := by
      cases hends with
      | ok hrun =>
        exact ((runMinimized_spec hkernel).of_ok (preparing_minimized hs world) hrun).preparing
      | error hrun =>
        exact (runMinimized_spec hkernel).of_error (preparing_minimized hs world) hrun
    exact ⟨hbefore.2, .inl (finishOrAbort_cleared hkernel hbefore.1 hdrop)⟩

/-- No other code runs with authority.  For every kernel that reads its bounding set as
    documented, every outcome of the setup and everything that the modes meet: while the program
    runs in one of its modes, the credentials of its thread are cleared, and they were when the
    worker thread was created.  When it exits, they are cleared too, or the minimization has
    failed before it changed anything and nothing else was done. -/
theorem program_authority (hkernel : kernel.Documented) (texts : ErrorTexts)
    (env : Environment) (world : World kernel) (stderr stdout : Nat → Option (Nat × IoError)) :
    (∀ t, mainProgram texts env (.start world stderr stdout) = .running t →
      t.world.credentials.Cleared ∧ ∀ m ∈ t.milestones, m.2.Cleared) ∧
    ∀ status t, mainProgram texts env (.start world stderr stdout) = .exited status t →
      (∀ m ∈ t.milestones, m.2.Cleared) ∧
      (t.world.credentials.Cleared ∨
        t.world.credentials = world.credentials ∧ t.milestones = []) := by
  refine ⟨fun t h => ?_, fun status t h => ?_⟩
  · -- a mode is only entered past a successful preparation
    obtain ⟨minimized, -, hrun⟩ := runProgram_running (mainProgram_running h)
    have hunprivileged :=
      (runMinimized_spec hkernel).of_ok (preparing_minimized rfl minimized) hrun
    exact ⟨hunprivileged.cleared, hunprivileged.harmless⟩
  · rcases mainProgram_exited h with ⟨-, hrun⟩ | ⟨error, before, after, -, hrun, rfl, -⟩
    · exact runProgram_authority hkernel rfl hrun
    · exact runProgram_authority hkernel rfl hrun

/-- A program whose user quits has no authority left. -/
theorem program_authority_quit :
    ∃ t, mainProgram System.noTexts quitEnvironment
        (.start Process.workingWorld (fun _ => none) fun _ => none) = .exited 0 t ∧
      (t.world.credentials.Cleared ∨
        t.world.credentials = Process.setupCredentials ∧ t.milestones = []) := by
  obtain ⟨t, hexits⟩ := mainProgram_quit
  exact ⟨t, hexits, ((program_authority Process.workingKernel_documented _ _ _ _ _).2 0 t hexits).2⟩

end Authority

/-! ## The terminal -/

section TerminalModes

variable {outcomes : TerminalOutcomes}

end TerminalModes

/-! ## The exit -/

section Exit

variable {kernel : Kernel} {texts : ErrorTexts} {env : Environment} {stderr : Writer IoError}

end Exit

end Landlock
