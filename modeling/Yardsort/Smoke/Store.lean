import Yardsort.Smoke.Test

/- Smoke test runs as the store keeps them (`core/src/store/smoke.rs`): a row a run and a row a
   step of it, what was approved, and what a project asks of its runs. Each operation is one SQL
   statement or one transaction, so it happens at once; the ones that change a run say in which
   state it has to be, and whether they changed it.

   What is done to one run is a function of that run, and the store's operation is that function
   where the id matches. JSON columns are kept as what they say. -/
namespace Yardsort.Smoke

inductive RunStatus where
  | awaitingApproval
  | queued
  | running
  | passed
  | failed
  | refused
  | cancelled
  | errored
  deriving DecidableEq

def RunStatus.active : RunStatus → Bool
  | .awaitingApproval | .queued | .running => true
  | .passed | .failed | .refused | .cancelled | .errored => false

inductive StepStatus where
  | pending
  | running
  | waiting
  | passed
  | failed
  | skipped
  | cancelled
  deriving DecidableEq

def StepStatus.isFinal : StepStatus → Bool
  | .passed | .failed | .skipped | .cancelled => true
  | .pending | .running | .waiting => false

structure TestStepRow where
  stepId : String
  phase : Phase
  action : String
  status : StepStatus
  startedAt : Option Int
  endedAt : Option Int
  exit : Option Int
  outputs : Pairs
  note : Option String
  screenshots : List String

structure TestRunRow where
  id : String
  projectId : Option String
  /-- `none` once the workspace is deleted. -/
  workspaceId : Option String
  workspaceName : String
  testId : String
  testName : String
  /-- The test file as it was when the run was asked for, and its SHA-256. -/
  definition : String
  contentHash : String
  inputs : Pairs
  status : RunStatus
  requestedBy : String
  sessionRecordId : Option String
  port : Option Nat
  error : Option String
  outputDir : Option String
  cancelRequestedAt : Option Int
  createdAt : Int
  startedAt : Option Int
  endedAt : Option Int

structure TestRun where
  row : TestRunRow
  steps : List TestStepRow

structure StepChange where
  to_ : StepStatus
  exit : Option Int
  outputs : Option Pairs
  note : Option String
  screenshots : Option (List String)

def TestStepRow.moved (row : TestStepRow) (change : StepChange) (now : Int) : TestStepRow :=
  { row with
    status := change.to_
    startedAt := if change.to_.isFinal then row.startedAt else row.startedAt.or (some now)
    endedAt := if change.to_.isFinal then some now else row.endedAt
    exit := change.exit.or row.exit
    outputs := change.outputs.getD row.outputs
    note := change.note.or row.note
    screenshots := change.screenshots.getD row.screenshots }

namespace TestRun

def step (run : TestRun) (stepId : String) : Option TestStepRow :=
  run.steps.find? (·.stepId = stepId)

def mapSteps (run : TestRun) (when_ : TestStepRow → Bool) (f : TestStepRow → TestStepRow) :
    TestRun :=
  { run with steps := run.steps.map fun row => if when_ row then f row else row }

def start (run : TestRun) (port : Nat) (outputDir : String) (now : Int) : Bool × TestRun :=
  if run.row.status = .queued then
    (true, { run with row := { run.row with
      status := .running, startedAt := some now, port := some port, outputDir := some outputDir } })
  else (false, run)

def movable (stepId : String) (from_ : List StepStatus) (row : TestStepRow) : Bool :=
  row.stepId = stepId && row.status ∈ from_

def moveStep (run : TestRun) (stepId : String) (from_ : List StepStatus) (change : StepChange)
    (now : Int) : Bool × TestRun :=
  if run.row.status = .running ∧ run.steps.any (movable stepId from_) then
    (true, run.mapSteps (movable stepId from_) (·.moved change now))
  else (false, run)

def finish (run : TestRun) (status : RunStatus) (error : Option String) (now : Int) :
    Bool × TestRun :=
  if run.row.status = .running then
    (true, { run with row := { run.row with status, error, endedAt := some now } })
  else (false, run)

def cancel (run : TestRun) (reason : String) (now : Int) : Bool × TestRun :=
  if run.row.status = .awaitingApproval ∨ run.row.status = .queued then
    (true, { run.mapSteps (!·.status.isFinal)
        (fun row => { row with status := .cancelled, endedAt := some now }) with
      row := { run.row with status := .cancelled, error := some reason, endedAt := some now } })
  else if run.row.status = .running ∧ run.row.cancelRequestedAt = none then
    (true, { run with row := { run.row with
      cancelRequestedAt := some now, error := some reason } })
  else (false, run)

def endInterrupted (run : TestRun) (error : String) (now : Int) : TestRun :=
  if run.row.status = .running then
    let failed := run.mapSteps (fun row => row.status = .running || row.status = .waiting)
      fun row => { row with status := .failed, endedAt := some now, note := some error }
    { failed.mapSteps (·.status = .pending)
        (fun row => { row with status := .skipped, endedAt := some now }) with
      row := { run.row with status := .errored, error := some error, endedAt := some now } }
  else run

/-- The answer to a `manual` step, beside what the step had left. -/
def answerChange (outputs : Pairs) (passed : Bool) (note : Option String) : StepChange where
  to_ := if passed then .passed else .failed
  exit := none
  outputs := some (outputs.filter (·.1 < "note") ++ [("note", note.getD "")] ++
    outputs.filter ("note" < ·.1))
  note := note
  screenshots := none

def approve (run : TestRun) : Bool × TestRun :=
  if run.row.status = .awaitingApproval then
    (true, { run with row := { run.row with status := .queued } })
  else (false, run)

def refuse (run : TestRun) (now : Int) : Bool × TestRun :=
  if run.row.status = .awaitingApproval then
    (true, { run.mapSteps (·.status = .pending)
        (fun row => { row with status := .skipped, endedAt := some now }) with
      row := { run.row with status := .refused, endedAt := some now } })
  else (false, run)

def queuedSteps (test : Test) : List TestStepRow :=
  test.allSteps.map fun (phase, step) =>
    { stepId := step.id
      phase
      action := step.action.name
      status := .pending
      startedAt := none
      endedAt := none
      exit := none
      outputs := []
      note := none
      screenshots := [] }

end TestRun

structure WorkspaceRow where
  id : String
  projectId : String
  name : String
  path : String
  archived : Bool
  forgotten : Bool

structure TestSettings where
  askEveryTime : Bool := false
  keepDays : Nat := 30
  browser : String := ""

structure Approval where
  projectId : String
  testId : String
  contentHash : String
  deriving DecidableEq

structure Store where
  projects : List String
  workspaces : List WorkspaceRow
  runs : List TestRun
  approvals : List Approval
  settings : List (String × TestSettings)
  env : List (String × Pairs)

inductive TestQueued where
  | queued
  | alreadyRunning (id : String)

namespace Store

def testRun (s : Store) (id : String) : Option TestRun := s.runs.find? (·.row.id = id)

def workspace (s : Store) (id : String) : Option WorkspaceRow := s.workspaces.find? (·.id = id)

def onRun (s : Store) (id : String) (f : TestRun → Bool × TestRun) : Bool × Store :=
  ((s.testRun id).any (fun run => (f run).1),
    { s with runs := s.runs.map fun run => if run.row.id = id then (f run).2 else run })

/-- Queue a run and its steps, unless this test is already waiting, queued or running in this
    workspace. `none` where the insert fails: its project or workspace is gone, or an id is
    taken. -/
def queueTestRun (s : Store) (new : TestRun) : Option (TestQueued × Store) :=
  match s.runs.find? fun run =>
      run.row.testId = new.row.testId && run.row.workspaceId = new.row.workspaceId &&
        run.row.status.active with
  | some going => some (.alreadyRunning going.row.id, s)
  | none =>
    if new.row.projectId.all (· ∈ s.projects) ∧
        new.row.workspaceId.all (fun id => s.workspaces.any (·.id = id)) ∧
        (s.testRun new.row.id).isNone ∧ (new.steps.map (·.stepId)).Nodup then
      some (.queued, { s with runs := s.runs ++ [new] })
    else none

def testApproved (s : Store) (projectId testId contentHash : String) : Bool :=
  ⟨projectId, testId, contentHash⟩ ∈ s.approvals

def approveTest (s : Store) (projectId testId contentHash : String) : Option Store :=
  if projectId ∈ s.projects then
    some { s with approvals := s.approvals.insert ⟨projectId, testId, contentHash⟩ }
  else none

def approvalOf (run : TestRun) : Option Approval :=
  run.row.projectId.map fun projectId => ⟨projectId, run.row.testId, run.row.contentHash⟩

def approveTestRun (s : Store) (id : String) : Bool × Store :=
  match (s.testRun id).filter (·.row.status = .awaitingApproval) with
  | none => (false, s)
  | some run =>
    (true, { (s.onRun id TestRun.approve).2 with
      approvals := (approvalOf run).elim s.approvals fun approval => s.approvals.insert approval })

def projectTestSettings (s : Store) (projectId : String) : TestSettings :=
  (s.settings.lookup projectId).getD {}

def setProjectTestSettings (s : Store) (projectId : String) (settings : TestSettings) :
    Option Store :=
  if projectId ∈ s.projects then
    some { s with settings := (projectId, settings) :: s.settings.filter (·.1 ≠ projectId) }
  else none

def projectTestEnv (s : Store) (projectId : String) : Pairs := (s.env.lookup projectId).getD []

/-- Removing a project without its history: what was its own goes with it, and its runs stay
    without it. -/
def removeProject (s : Store) (id : String) : Store where
  projects := s.projects.filter (· ≠ id)
  workspaces := s.workspaces.filter (·.projectId ≠ id)
  runs := s.runs.map fun run => { run with row := { run.row with
    projectId := run.row.projectId.filter (· ≠ id)
    workspaceId := run.row.workspaceId.filter fun workspaceId =>
      !s.workspaces.any fun w => w.id = workspaceId && w.projectId = id } }
  approvals := s.approvals.filter (·.projectId ≠ id)
  settings := s.settings.filter (·.1 ≠ id)
  env := s.env.filter (·.1 ≠ id)

def removeWorktree (s : Store) (id : String) : Store :=
  { s with
    workspaces := s.workspaces.filter (·.id ≠ id)
    runs := s.runs.map fun run => { run with row := { run.row with
      workspaceId := run.row.workspaceId.filter (· ≠ id) } } }

def pruneTestRuns (s : Store) (projectId : Option String) (before : Int) : Store :=
  { s with
    runs := s.runs.filter fun run =>
      !(!run.row.status.active && run.row.projectId = projectId &&
        run.row.endedAt.getD run.row.createdAt < before) }

end Store

end Yardsort.Smoke
