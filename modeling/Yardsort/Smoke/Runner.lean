import Yardsort.Smoke.Store

/- The thread that carries a run out (`core/src/smoke/runner.rs`), beside everything that may be
   done to its run meanwhile: it is approved, refused, cancelled, a `manual` step of it is
   answered, the app stops and starts again.

   The thread goes on by one store operation, or one look at the stop signal, at a time. What a
   step's process does, what its servers do and whether the run's limit has passed are in the
   action, as are the port and the folder it finds; `parse` stands for the reading of a file.
   Of how a step is carried out (`exec.rs`, `browser.rs`) what it comes to is kept: a `StepEnd`.
   `PhaseEnd::Gone` is not a value here: a thread that comes to it is at `guard`. -/
namespace Yardsort.Smoke.Runner

inductive Stop where
  | cancelled
  | runTimedOut
  | serverExited (stepId exit : String)
  | serverOutputCapped (stepId : String)
  deriving DecidableEq

structure StepEnd where
  status : StepStatus
  exit : Option Int
  outputs : Pairs
  note : Option String
  screenshots : List String
  stopped : Option Stop

inductive PhaseEnd where
  | passed
  | failed
  | stopped (stop : Stop)
  deriving DecidableEq

structure Server where
  stepId : String
  ended : Option String

def OUTPUT_CAP_WORDS : String := "16 MiB"

def durationWords (secs : Nat) : String :=
  let (h, m, s) := (secs / 3600, secs % 3600 / 60, secs % 60)
  if h = 0 then
    if m = 0 then toString s ++ "s" else toString m ++ "m " ++ toString s ++ "s"
  else toString h ++ "h " ++ toString m ++ "m"

def serverExitedWords (stepId exit : String) : String :=
  "`" ++ stepId ++ "` exited with " ++ exit ++ " before the run ended."

def serverCappedWords (stepId : String) : String :=
  "`" ++ stepId ++ "` wrote more than " ++ OUTPUT_CAP_WORDS ++ " of output, so it was stopped."

def skipReason : Stop → String
  | .cancelled => "The run was cancelled."
  | .runTimedOut => "The run's time limit passed."
  | .serverExited stepId exit => serverExitedWords stepId exit
  | .serverOutputCapped stepId => serverCappedWords stepId

def waitStopNote : Stop → String
  | .cancelled => "The run was cancelled while this waited."
  | .runTimedOut => "The run's time limit passed while this waited."
  | .serverExited stepId exit =>
    "`" ++ stepId ++ "` exited with " ++ exit ++ " while this waited."
  | .serverOutputCapped stepId =>
    "`" ++ stepId ++ "` wrote more than " ++ OUTPUT_CAP_WORDS ++
      " of output while this waited, so it was stopped."

def serverStopNote (tail : String) : Stop → Option (String × String)
  | .serverExited stepId exit =>
    some (stepId, "Exited with " ++ exit ++ " before the run ended." ++
      (if tail = "" then "" else "\nlast lines:\n" ++ tail))
  | .serverOutputCapped stepId =>
    some (stepId, "Wrote more than " ++ OUTPUT_CAP_WORDS ++ " of output, so it was stopped.")
  | .cancelled | .runTimedOut => none

/-- What a step under way, or waiting, becomes when it is stopped. -/
def Stop.status : Stop → StepStatus
  | .cancelled => .cancelled
  | .runTimedOut | .serverExited .. | .serverOutputCapped .. => .failed

def Stop.skips : Stop → StepStatus
  | .cancelled => .cancelled
  | .runTimedOut | .serverExited .. | .serverOutputCapped .. => .skipped

def couldNotSee : String := "Yardsort could not see the run through."

/-- What is said where the thread's store failed, or it panicked, in the middle of a run. -/
def unfinished (message : Option String) : String :=
  message.elim couldNotSee fun message => "Yardsort could not see the run through: " ++ message

def INTERRUPTED : String := "Yardsort stopped during the run."

/-- A change that leaves the step's exit, outputs and screenshots as they are. -/
def noted (to_ : StepStatus) (note : Option String) : StepChange := ⟨to_, none, none, note, none⟩

/-- A run under way: the phase it is in, and the steps of that phase still ahead. -/
structure Going where
  test : Test
  servers : List Server
  /-- How setup and steps ended, for the teardown. -/
  outcome : PhaseEnd
  which : Phase
  rest : List Step
  /-- The id of the phase's step before. -/
  previous : Option String
  /-- How the phase ended, so far. -/
  end_ : PhaseEnd
  /-- A cancel was seen in this phase. -/
  cancelled : Bool

inductive AfterSkip where
  | errored (why : String)
  | phases (g : Going)
  | guard (why : String)

structure Skip where
  to_ : StepStatus
  why : String
  teardown : Bool
  after : AfterSkip

inductive Noting where
  | between
  | answered
  | ended

inductive Pc where
  | reading
  | preparing (test : Test)
  /-- A run that cannot start still starts, so its end is recorded the same way. -/
  | erroring (why : String)
  | starting (test : Test) (port : Nat) (outputDir : String)
  /-- The top of a phase's loop. -/
  | looping (g : Going)
  | noting (g : Going) (step : Step) (stop : Stop) (how : Noting)
  | skippingStep (g : Going) (step : Step) (stop : Stop)
  | beginning (g : Going) (step : Step)
  /-- `wait_for_answer`: before the step is read, before the stop signal is looked at, and
      before the step is stopped. -/
  | waiting (g : Going) (step : Step)
  | waitPolling (g : Going) (step : Step)
  | waitStopping (g : Going) (step : Step) (stop : Stop)
  | executing (g : Going) (step : Step)
  | ending (g : Going) (step : Step) (done : StepEnd)
  | skipReading (k : Skip)
  | skipping (k : Skip) (left : List String)
  | verdict (g : Going)
  | finishing (status : RunStatus) (error : Option String)
  | erroredEnd (why : String)
  /-- `Leftovers::drop`. -/
  | guard (why : String)
  | guardReading (why : String)
  | guardMarking (why : String) (left : List String)
  | guardEnd (why : String)

inductive Seen where
  | exited (exit : String)
  | capped

structure Look where
  now : Int := 0
  /-- Why it cannot start: the workspace, its folder, the output folder, a port. -/
  refused : Option String := none
  port : Nat := 0
  outputDir : String := ""
  /-- The store is asked at most every quarter of a second. -/
  asks : Bool := true
  late : Bool := false
  server : Option (String × Seen) := none
  tail : String := ""
  /-- A `manual` step's prompt with its variables filled in. -/
  prompt : String := ""
  done : Option StepEnd := none

namespace Going

def enter (g : Going) (which : Phase) : Going :=
  { g with which, rest := g.test.phase which, previous := none, end_ := .passed, cancelled := false }

def first (test : Test) : Going := ⟨test, [], .passed, .setup, test.setup, none, .passed, false⟩

def past (g : Going) (step : Step) (end_ : PhaseEnd) : Going :=
  { g with previous := some step.id, end_ }

def serving (g : Going) (stepId : String) : Bool :=
  g.servers.any fun server => server.stepId = stepId && server.ended.isNone

def saw (g : Going) (stepId words : String) : Going :=
  { g with servers := g.servers.map fun server =>
      if server.stepId = stepId then { server with ended := some words } else server }

def policeServers (g : Going) : Option (String × Seen) → Option Stop × Going
  | none => (none, g)
  | some (stepId, .exited exit) =>
    if g.serving stepId then (some (.serverExited stepId exit), g.saw stepId exit) else (none, g)
  | some (stepId, .capped) =>
    if g.serving stepId then
      (some (.serverOutputCapped stepId), g.saw stepId "too much output")
    else (none, g)

def stop (g : Going) (run : TestRun) (look : Look) : Option Stop × Going :=
  if g.which = .teardown then (none, (g.policeServers look.server).2)
  else if g.cancelled then (some .cancelled, g)
  else if look.asks ∧ run.row.cancelRequestedAt.isSome then
    (some .cancelled, { g with cancelled := true })
  else if look.late then (some .runTimedOut, g)
  else g.policeServers look.server

def sawStop (g : Going) : Stop → Going
  | .cancelled => { g with cancelled := true }
  | .runTimedOut => g
  | .serverExited stepId exit => g.saw stepId exit
  | .serverOutputCapped stepId => g.saw stepId "too much output"

end Going

/-- What a step can come to: it passes or fails, or is stopped by a stop that was there to be
    seen; nothing stops a teardown. -/
def StepEnd.possible (done : StepEnd) (g : Going) (run : TestRun) : Bool :=
  match done.stopped with
  | none => done.status = .passed || done.status = .failed
  | some stop => g.which ≠ .teardown && done.status = stop.status &&
      match stop with
      | .cancelled => g.cancelled || run.row.cancelRequestedAt.isSome
      | .runTimedOut => true
      | .serverExited stepId _ | .serverOutputCapped stepId => g.serving stepId

/-- Why a phase's step is skipped after an earlier one failed or stopped. -/
def skipWhy (previous : Option String) : PhaseEnd → String
  | .stopped stop => skipReason stop
  | .failed | .passed => "An earlier step failed (`" ++ previous.getD "" ++ "`)."

def PhaseEnd.skips : PhaseEnd → StepStatus
  | .stopped stop => stop.skips
  | .passed | .failed => .skipped

/-- The end of setup or steps: what they did not reach is skipped before the teardown. -/
def afterPhases (g : Going) : Pc :=
  let g := { g with outcome := g.end_ }
  match g.outcome with
  | .passed => .looping (g.enter .teardown)
  | .failed => .skipReading ⟨.skipped, "An earlier step failed.", false, .phases g⟩
  | .stopped stop => .skipReading ⟨stop.skips, skipReason stop, false, .phases g⟩

def afterPhase (g : Going) : Pc :=
  match g.which with
  | .setup => if g.end_ = .passed then .looping (g.enter .steps) else afterPhases g
  | .steps => afterPhases g
  | .teardown => .verdict g

def afterSkip (k : Skip) (ok : Bool) : Pc :=
  match k.after with
  | .errored why => .erroredEnd why
  | .phases g => if ok then .looping (g.enter .teardown) else .guard couldNotSee
  | .guard why => .guardEnd why

def StepEnd.phaseEnd (done : StepEnd) (g : Going) : PhaseEnd :=
  if g.which = .teardown then g.end_
  else match done.stopped with
    | some stop => .stopped stop
    | none => if done.status = .passed then g.end_ else .failed

def verdictOf (g : Going) (run : TestRun) : RunStatus × Option String :=
  match g.outcome with
  | .passed => (.passed, none)
  | .failed => (.failed, none)
  | .stopped .cancelled => (.cancelled, run.row.error)
  | .stopped .runTimedOut =>
    (.failed, some ("Timed out after " ++ durationWords g.test.timeoutSecs ++ "."))
  | .stopped (.serverExited stepId exit) => (.failed, some (serverExitedWords stepId exit))
  | .stopped (.serverOutputCapped stepId) => (.failed, some (serverCappedWords stepId))

/-- What a step was when it was started, and how the setup and steps before it stood. -/
structure Opened where
  id : String
  phase : Phase
  before : List StepStatus

/-! ## The machine -/

structure Machine where
  run : TestRun
  /-- The app is up, and its driver ended what the app before left running. -/
  recovered : Bool
  /-- The driver's tick read the run as queued. -/
  listed : Bool
  thread : Option Pc
  /-- The thread started the run and goes through its phases. -/
  begun : Bool
  opened : List Opened
  /-- The reason of the cancel that was answered with true. -/
  asked : Option String
  /-- The app stopped before the run ended. -/
  crashed : Bool

inductive Act where
  | approve
  | refuse (now : Int)
  | cancel (reason : String) (now : Int)
  /-- A person answers, of what they were shown the step had left. -/
  | answer (stepId : String) (outputs : Pairs) (passed : Bool) (note : Option String) (now : Int)
  | crash
  | recover (now : Int)
  | list
  | spawn
  /-- A `browser` step launched its browser. -/
  | launched (outputs : Pairs) (now : Int)
  | go (look : Look)
  /-- The thread's store fails, or it panics. -/
  | fail (message : Option String)

namespace Machine

def at_ (s : Machine) (pc : Pc) : Machine := { s with thread := some pc }

def ends (s : Machine) : Machine := { s with thread := none }

def mark (s : Machine) (stepId : String) (from_ : List StepStatus) (change : StepChange) (now : Int)
    (ok missed : Pc) : Machine :=
  let (moved, run) := s.run.moveStep stepId from_ change now
  { s with run }.at_ (if moved then ok else missed)

/-- How the setup and steps before this step stand. -/
def before (s : Machine) (stepId : String) : List StepStatus :=
  ((s.run.steps.takeWhile (·.stepId ≠ stepId)).filter (·.phase ≠ .teardown)).map (·.status)

def pendingSteps (s : Machine) (k : Skip) : List String :=
  (s.run.steps.filter fun row =>
    row.status = .pending && (k.teardown || row.phase ≠ .teardown)).map (·.stepId)

def unendedSteps (s : Machine) : List String :=
  (s.run.steps.filter fun row => row.status = .running || row.status = .waiting).map (·.stepId)

def goStep (s : Machine) (g : Going) (step : Step) (look : Look) : Machine :=
  if g.end_ ≠ .passed ∧ g.which ≠ .teardown then
    s.mark step.id [.pending] (noted g.end_.skips (some (skipWhy g.previous g.end_))) look.now
      (.looping (g.past step g.end_)) (.guard couldNotSee)
  else
    match g.stop s.run look with
    | (some stop, g) => s.at_ (.noting g step stop .between)
    | (none, g) => s.at_ (.beginning g step)

/-- What a step that begins becomes: a `manual` one waits, any other is carried out. -/
def beginChange (step : Step) (prompt : String) : StepChange :=
  if step.action.isManual then ⟨.waiting, none, some [("prompt", prompt)], none, none⟩
  else noted .running none

def begin_ (s : Machine) (g : Going) (step : Step) (look : Look) : Machine :=
  let (moved, run) :=
    s.run.moveStep step.id [.pending] (beginChange step look.prompt) look.now
  if moved then
    { s with run, opened := ⟨step.id, g.which, s.before step.id⟩ :: s.opened }.at_
      (if step.action.isManual then .waiting g step else .executing g step)
  else { s with run }.at_ (.guard couldNotSee)

def afterNoting (g : Going) (step : Step) (stop : Stop) : Noting → Pc
  | .between => .skippingStep g step stop
  | .answered => .looping (g.past step (.stopped stop))
  | .ended => .looping (g.past step (if g.which = .teardown then g.end_ else .stopped stop))

def goWaiting (s : Machine) (g : Going) (step : Step) : Option StepStatus → Machine
  | some .passed => s.at_ (.looping (g.past step g.end_))
  | some .failed =>
    s.at_ (.looping (g.past step (if g.which = .teardown then g.end_ else .failed)))
  | some .waiting => s.at_ (.waitPolling g step)
  | some .pending | some .running | some .skipped | some .cancelled | none =>
    s.at_ (.guard couldNotSee)

def goExecuting (s : Machine) (g : Going) (step : Step) (look : Look) : Option Machine :=
  match look.done with
  | none => none
  | some done =>
    if done.possible g s.run then
      let g := done.stopped.elim g g.sawStop
      let g := match step.action, done.status with
        | .start .., .passed => { g with servers := g.servers ++ [⟨step.id, none⟩] }
        | _, _ => g
      some (s.at_ (.ending g step done))
    else none

def changeOf (done : StepEnd) : StepChange where
  to_ := done.status
  exit := done.exit
  outputs := some done.outputs
  note := done.note
  screenshots := if done.screenshots = [] then none else some done.screenshots

section
variable (parse : String → Option Test)

def goPc (s : Machine) (look : Look) : Pc → Option Machine
  | .reading =>
    match parse s.run.row.definition with
    | none => some (s.at_ (.erroring "The test file no longer checks out."))
    | some test => some (s.at_ (.preparing test))
  | .preparing test =>
    match look.refused with
    | some why => some (s.at_ (.erroring why))
    | none => some (s.at_ (.starting test look.port look.outputDir))
  | .erroring why =>
    let (moved, run) := s.run.start 0 "" look.now
    if moved then some ({ s with run }.at_ (.skipReading ⟨.skipped, why, true, .errored why⟩))
    else some { s with run }.ends
  | .starting test port outputDir =>
    let (moved, run) := s.run.start port outputDir look.now
    if moved then some ({ s with run, begun := true }.at_ (.looping (Going.first test)))
    else some { s with run }.ends
  | .looping g =>
    match g.rest with
    | [] => some (s.at_ (afterPhase g))
    | step :: rest => some (s.goStep { g with rest } step look)
  | .noting g step stop how =>
    match serverStopNote look.tail stop with
    | none => some (s.at_ (afterNoting g step stop how))
    | some (stepId, note) =>
      let run := (s.run.moveStep stepId [.passed] (noted .failed (some note)) look.now).2
      some ({ s with run }.at_ (afterNoting g step stop how))
  | .skippingStep g step stop =>
    some (s.mark step.id [.pending] (noted stop.skips (some (skipReason stop))) look.now
      (.looping (g.past step (.stopped stop))) (.guard couldNotSee))
  | .beginning g step => some (s.begin_ g step look)
  | .waiting g step => some (s.goWaiting g step ((s.run.step step.id).map (·.status)))
  | .waitPolling g step =>
    match g.stop s.run look with
    | (some stop, g) => some (s.at_ (.waitStopping g step stop))
    | (none, g) => some (s.at_ (.waiting g step))
  | .waitStopping g step stop =>
    some (s.mark step.id [.waiting] (noted stop.status (some (waitStopNote stop))) look.now
      (.noting g step stop .answered) (.guard couldNotSee))
  | .executing g step => s.goExecuting g step look
  | .ending g step done =>
    some (s.mark step.id [.running] (changeOf done) look.now
      (match done.stopped with
        | some stop => .noting g step stop .ended
        | none => .looping (g.past step (done.phaseEnd g))) (.guard couldNotSee))
  | .skipReading k => some (s.at_ (.skipping k (s.pendingSteps k)))
  | .skipping k [] => some (s.at_ (afterSkip k true))
  | .skipping k (id :: left) =>
    some (s.mark id [.pending] (noted k.to_ (some k.why)) look.now (.skipping k left)
      (afterSkip k false))
  | .verdict g =>
    let (status, error) := verdictOf g s.run
    some (s.at_ (.finishing status error))
  | .finishing status error =>
    some ({ s with run := (s.run.finish status error look.now).2 }.at_ (.guard couldNotSee))
  | .erroredEnd why =>
    some { s with run := (s.run.finish .errored (some why) look.now).2 }.ends
  | .guard why =>
    if s.run.row.status = .running then some (s.at_ (.guardReading why)) else some s.ends
  | .guardReading why => some (s.at_ (.guardMarking why s.unendedSteps))
  | .guardMarking why [] => some (s.at_ (.skipReading ⟨.skipped, why, true, .guard why⟩))
  | .guardMarking why (id :: left) =>
    some (s.mark id [.running, .waiting] (noted .failed (some why)) look.now
      (.guardMarking why left) (.guardMarking why left))
  | .guardEnd why =>
    some { s with run := (s.run.finish .errored (some why) look.now).2 }.ends

/-- What becomes of the thread where its store fails, or it panics: before the run was begun it
    just ends, and later the guard sees to what it leaves. -/
def onFail (s : Machine) (message : Option String) : Pc → Option Machine
  | .reading | .preparing _ | .erroring _ | .starting .. | .erroredEnd _ => some s.ends
  | .looping _ | .noting .. | .skippingStep .. | .beginning .. | .waiting .. | .waitPolling ..
  | .waitStopping .. | .executing .. | .ending .. =>
    some (s.at_ (.guard (unfinished message)))
  | .verdict _ | .finishing .. => some (s.at_ (.guard couldNotSee))
  | .skipReading k | .skipping k _ =>
    match k.after with
    | .errored _ => some s.ends
    | .phases _ => some (s.at_ (.guard (unfinished message)))
    | .guard _ => none
  | .guard _ | .guardReading _ | .guardMarking .. | .guardEnd _ => none

def step (s : Machine) : Act → Option Machine
  | .approve => some { s with run := s.run.approve.2 }
  | .refuse now => some { s with run := (s.run.refuse now).2 }
  | .cancel reason now =>
    let (ok, run) := s.run.cancel reason now
    some { s with run, asked := if ok then some reason else s.asked }
  | .answer stepId outputs passed note now =>
    some { s with
      run := (s.run.moveStep stepId [.waiting] (TestRun.answerChange outputs passed note) now).2 }
  | .crash =>
    some { s with
      recovered := false, listed := false, thread := none,
      crashed := s.crashed || s.run.row.status.active }
  | .recover now =>
    if s.recovered then none
    else some { s with run := s.run.endInterrupted INTERRUPTED now, recovered := true }
  | .list =>
    if s.recovered ∧ s.thread = none then
      some { s with listed := decide (s.run.row.status = .queued) }
    else none
  | .spawn =>
    if s.listed ∧ s.thread = none then
      some { s with listed := false, thread := some .reading }
    else none
  | .launched outputs now =>
    match s.thread with
    | some (.executing _ step) =>
      if step.action.isBrowser then
        some { s with
          run := (s.run.moveStep step.id [.running]
            ⟨.running, none, some outputs, none, none⟩ now).2 }
      else none
    | _ => none
  | .go look => s.thread.bind (s.goPc parse look)
  | .fail message => s.thread.bind (s.onFail message)

structure Fresh (s : Machine) : Prop where
  status : s.run.row.status = .awaitingApproval ∨ s.run.row.status = .queued
  notAsked : s.run.row.cancelRequestedAt = none
  steps : ∃ test, parse s.run.row.definition = some test ∧ s.run.steps = TestRun.queuedSteps test
  ids : (s.run.steps.map (·.stepId)).Nodup
  idle : s.listed = false ∧ s.thread = none
  nothing : s.begun = false ∧ s.opened = [] ∧ s.asked = none ∧ s.crashed = false

end

end Machine

end Yardsort.Smoke.Runner
