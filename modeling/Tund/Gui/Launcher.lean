import Tund.Lib.Trace
import Tund.Gui.Config

/-!
# Starting and stopping the program from the window (`gui/lib/home/controller`, `gui/lib/core/launcher`)

The window calls `_startTund` and `_stopTund`.  Every `await` of a call of `_startTund` is a
point where other clicks and completions can come in between, so the state has one
`Attempt` for each call, with the `await` that it is suspended at, and an event is a click
that the window enables or one completion.  That a child has exited and that its exit code
has been delivered are one event, together with the cancellation of the two
subscriptions; `guideTundFailure` and the texts of the log are left out.
-/

namespace Tund

open Text

/-- `enum GuiStatus`. -/
inductive GuiStatus
  | ready
  | starting
  | running
  | stopping
  | stopped
  | failed
  deriving DecidableEq

/-- What `TundLauncher.start` can throw. -/
inductive LaunchError
  | alreadyRunning
  | missingExecutable
  | missingPrivileges
  /-- `exists()`, `id -u` or `Process.start` failed. -/
  | systemError
  | keyNotSent
  deriving DecidableEq

/-- The title of the guided error, from the exception or from the last `catch` of `_startTund`. -/
def LaunchError.title : LaunchError → String
  | .missingExecutable => "tund-cli was not found"
  | .missingPrivileges => "Administrator privileges required"
  | .keyNotSent => "Could not send network key"
  | .alreadyRunning | .systemError => "Could not start tund-cli"

/-- The `await` that a call of `_startTund` is suspended at, or how it ended. -/
inductive StartPhase
  /-- `await confirmPrivileges()` -/
  | confirming
  /-- `await exe.exists()` -/
  | checking
  /-- `await Process.start(…)` -/
  | spawning
  /-- `await process.stdin.flush()` behind the key -/
  | writing
  /-- `await process.exitCode` -/
  | waiting
  | returned
  | failed (error : LaunchError)
  deriving DecidableEq

/-- The call of `launcher.start` has completed, or was never made. -/
def StartPhase.Over : StartPhase → Prop
  | .returned | .failed _ => True
  | _ => False

instance : (phase : StartPhase) → Decidable phase.Over
  | .returned | .failed _ => inferInstanceAs (Decidable True)
  | .confirming | .checking | .spawning | .writing | .waiting => inferInstanceAs (Decidable False)

/-- The process that an attempt has started. -/
inductive Child
  | notStarted
  | alive
  | exited (code : ℤ)
  deriving DecidableEq

/-- What the launcher has done to a process. -/
inductive Signal
  | line (text : Utf16)
  | kill
  | sigkill
  deriving DecidableEq

/-- One call of `_startTund`.  The last two fields are for statements only: Stop was
pressed while the call was under way, and the call set the status to running after that. -/
structure Attempt where
  config : TundConfig
  phase : StartPhase
  child : Child
  signals : List Signal
  stopAsked : Bool
  revived : Bool
  deriving DecidableEq

/-- A call behind `prepareStart` that has not completed. -/
def Attempt.underWay (a : Attempt) : Bool :=
  match a.phase with
  | .checking | .spawning | .writing | .waiting => true
  | _ => false

/-- `class TundHomeController` and its `TundLauncher`.  A process and its subscriptions are
known by the number of the call that made them. -/
structure Gui where
  status : GuiStatus
  stopRequested : Bool
  guidedError : Option String
  disposed : Bool
  process : Option ℕ
  stdout : Option ℕ
  stderr : Option ℕ
  attempts : List Attempt
  deriving DecidableEq

namespace Gui

/-- The window when it opens. -/
def init : Gui :=
  { status := .ready, stopRequested := false, guidedError := none, disposed := false,
    process := none, stdout := none, stderr := none, attempts := [] }

/-- `running` of the launcher. -/
def launcherRunning (g : Gui) : Bool := g.process.isSome

/-- `running` of the controller. -/
def running (g : Gui) : Bool := g.status == .starting || g.launcherRunning

/-- A change of the `i`-th call. -/
def modify (g : Gui) (i : ℕ) (f : Attempt → Attempt) : Gui :=
  { g with attempts := g.attempts.modify i f }

/-- `_prepareStart` -/
def prepareStart (g : Gui) : Gui :=
  { g with status := .starting, guidedError := none, stopRequested := false }

/-- `_markRunning`, called from the `i`-th call. -/
def markRunning (g : Gui) (i : ℕ) : Gui :=
  if g.disposed then g
  else { g with status := .running }.modify i fun a => { a with revived := a.revived || a.stopAsked }

/-- `statusForTundExit` -/
def statusForTundExit (exitCode : ℤ) (stopRequested : Bool) : GuiStatus :=
  if stopRequested || exitCode = 0 then .stopped else .failed

/-- `_completeExit`, without the error that it guesses from the log. -/
def completeExit (g : Gui) (exitCode : ℤ) : Gui :=
  if g.disposed then g
  else { g with status := statusForTundExit exitCode g.stopRequested, stopRequested := false }

/-- `_failWithGuidance` -/
def failWithGuidance (g : Gui) (title : String) : Gui :=
  if g.disposed then g
  else { g with status := .failed, stopRequested := false, guidedError := some title }

/-- The `i`-th call gets an exception from `launcher.start`. -/
def failStart (g : Gui) (i : ℕ) (error : LaunchError) : Gui :=
  (g.modify i fun a => { a with phase := .failed error }).failWithGuidance error.title

/-- The first check of `TundLauncher.start`. -/
def launcherStart (g : Gui) (i : ℕ) : Gui :=
  if g.launcherRunning then g.failStart i .alreadyRunning
  else g.modify i fun a => { a with phase := .checking }

/-- The end of `TundLauncher.start`, behind `await process.exitCode`. -/
def finish (g : Gui) (i : ℕ) (exitCode : ℤ) : Gui :=
  ({ g with stdout := none, stderr := none, process := none }.modify i fun a =>
    { a with phase := .returned, child := .exited exitCode }).completeExit exitCode

/-- `stop` of the launcher, up to the `await`s of `_flushStopCommand` and
`_forceKillIfStillRunning`; `written` says whether `writeln` works. -/
def launcherStop (g : Gui) (written : Bool) : Gui :=
  match g.process with
  | none => g
  | some i =>
    g.modify i fun a =>
      { a with signals := a.signals ++ [if written then .line (units "stop") else .kill] }

/-- `_stopTund` -/
def stopTund (g : Gui) (written : Bool) : Gui :=
  let g := { g with
    status := .stopping
    stopRequested := true
    guidedError := none
    attempts := g.attempts.map fun a : Attempt => { a with stopAsked := a.stopAsked || a.underWay } }
  g.launcherStop written

/-- The `i`-th call sees the key written. -/
def keyWritten (g : Gui) (i : ℕ) : Gui :=
  match (g.attempts[i]?).map Attempt.child with
  | some (.exited code) => (g.markRunning i).finish i code
  | _ => (g.markRunning i).modify i fun a => { a with phase := .waiting }

/-- The `i`-th call gets its process: the fields are set and the key is written. -/
def processStarted (g : Gui) (i : ℕ) : Gui :=
  { g with process := some i, stdout := some i, stderr := some i }.modify i fun a =>
    { a with phase := .writing, child := .alive, signals := [.line a.config.key] }

/-- The process of the `i`-th call exits. -/
def processExited (g : Gui) (i : ℕ) (code : ℤ) : Gui :=
  match (g.attempts[i]?).map Attempt.phase with
  | some .waiting => g.finish i code
  | _ => g.modify i fun a => { a with child := .exited code }

end Gui

/-- How the checks in front of `Process.start` end. -/
inductive LaunchCheck
  | passed
  | missingExecutable
  | missingPrivileges
  | systemError

/-- What is thrown. -/
def LaunchCheck.error : LaunchCheck → Option LaunchError
  | .passed => none
  | .missingExecutable => some .missingExecutable
  | .missingPrivileges => some .missingPrivileges
  | .systemError => some .systemError

/-- A click, or a completion of a call by its number. -/
inductive GuiEvent
  | start (config : TundConfig)
  | stop (written : Bool)
  | confirmed (i : ℕ) (accepted : Bool)
  | checked (i : ℕ) (result : LaunchCheck)
  | spawned (i : ℕ) (ok : Bool)
  | written (i : ℕ) (ok : Bool)
  | exited (i : ℕ) (code : ℤ)
  | stopFlushed (i : ℕ) (ok : Bool)
  | stopTimeout (i : ℕ)
  | dispose (written : Bool)

/-- The state after an event. -/
def guiStep (g : Gui) : GuiEvent → Gui
  | .start config =>
    match config.validate with
    | some _ => g
    | none => { g with attempts := g.attempts ++ [⟨config, .confirming, .notStarted, [], false, false⟩] }
  | .stop written => g.stopTund written
  | .confirmed i accepted =>
    if !accepted || g.disposed then g.modify i fun a => { a with phase := .returned }
    else g.prepareStart.launcherStart i
  | .checked i result =>
    match result.error with
    | none => g.modify i fun a => { a with phase := .spawning }
    | some error => g.failStart i error
  | .spawned i true => g.processStarted i
  | .spawned i false => g.failStart i .systemError
  | .written i true => g.keyWritten i
  | .written i false =>
    (g.modify i fun a => { a with signals := a.signals ++ [.kill] }).failStart i .keyNotSent
  | .exited i code => g.processExited i code
  | .stopFlushed i ok =>
    if ok then g else g.modify i fun a => { a with signals := a.signals ++ [.kill] }
  | .stopTimeout i =>
    if g.process = some i then g.modify i fun a => { a with signals := a.signals ++ [.sigkill] } else g
  | .dispose written => { g with disposed := true }.launcherStop written

namespace Gui

/-- The `i`-th call is suspended at the `await`, or ended so. -/
def isAt (g : Gui) (i : ℕ) (phase : StartPhase) : Prop :=
  (g.attempts[i]?).map Attempt.phase = some phase

/-- The child of the `i`-th call is alive. -/
def alive (g : Gui) (i : ℕ) : Prop :=
  (g.attempts[i]?).map Attempt.child = some .alive

/-- The launcher has written the stop command behind the key of the `i`-th call. -/
def stopWritten (g : Gui) (i : ℕ) : Prop :=
  ∃ a ∈ g.attempts[i]?, Signal.line (units "stop") ∈ a.signals.tail

instance (g : Gui) (i : ℕ) (phase : StartPhase) : Decidable (g.isAt i phase) :=
  inferInstanceAs (Decidable ((g.attempts[i]?).map Attempt.phase = some phase))

instance (g : Gui) (i : ℕ) : Decidable (g.alive i) :=
  inferInstanceAs (Decidable ((g.attempts[i]?).map Attempt.child = some .alive))

instance (g : Gui) (i : ℕ) : Decidable (g.stopWritten i) :=
  inferInstanceAs (Decidable (∃ a ∈ g.attempts[i]?, Signal.line (units "stop") ∈ a.signals.tail))

end Gui

/-- The clicks that `TundActions` enables while the window is open, and the completions of
what is under way. -/
def GuiCan (g : Gui) : GuiEvent → Prop
  | .start _ => g.disposed = false ∧ g.running = false
  | .stop _ => g.disposed = false ∧ g.running = true
  | .confirmed i _ => g.isAt i .confirming
  | .checked i _ => g.isAt i .checking
  | .spawned i _ => g.isAt i .spawning
  | .written i _ => g.isAt i .writing
  | .exited i _ => g.alive i
  | .stopFlushed i _ | .stopTimeout i => g.stopWritten i
  | .dispose _ => g.disposed = false

instance (g : Gui) : (e : GuiEvent) → Decidable (GuiCan g e)
  | .start _ => inferInstanceAs (Decidable (g.disposed = false ∧ g.running = false))
  | .stop _ => inferInstanceAs (Decidable (g.disposed = false ∧ g.running = true))
  | .confirmed i _ => inferInstanceAs (Decidable (g.isAt i .confirming))
  | .checked i _ => inferInstanceAs (Decidable (g.isAt i .checking))
  | .spawned i _ => inferInstanceAs (Decidable (g.isAt i .spawning))
  | .written i _ => inferInstanceAs (Decidable (g.isAt i .writing))
  | .exited i _ => inferInstanceAs (Decidable (g.alive i))
  | .stopFlushed i _ | .stopTimeout i =>
    inferInstanceAs (Decidable (g.stopWritten i))
  | .dispose _ => inferInstanceAs (Decidable (g.disposed = false))

theorem Gui.getElem?_modify (g : Gui) (i j : ℕ) (f : Attempt → Attempt) :
    (g.modify i f).attempts[j]? = (g.attempts[j]?).map fun a => if i = j then f a else a := by
  simp [Gui.modify, List.getElem?_modify]

/-- The states of the runs of the window whose events satisfy a condition. -/
def GuiReachable (condition : Gui → GuiEvent → Prop) (g : Gui) : Prop :=
  Trace.Reachable guiStep (fun g e => GuiCan g e ∧ condition g e) (· = Gui.init) g

theorem GuiReachable.run {condition : Gui → GuiEvent → Prop} (events : List GuiEvent)
    (h : Trace.Allowed guiStep (fun g e => GuiCan g e ∧ condition g e) Gui.init events) :
    GuiReachable condition (events.foldl guiStep Gui.init) := by
  refine Trace.Reachable.foldl ?_ events h
  exact .start rfl

/-- A configuration that the window starts. -/
def hostConfig : TundConfig :=
  { mode := .server, server := [], port := units "9909", name := [], key := units "correct horse",
    verbose := false }

end Tund
