import Yardsort.Smoke.Exec

/- A run's phases with its variables (`phases` and `phase` of `core/src/smoke/runner.rs`): which
   steps are carried out, in which order, and what each one's fields are rendered with.

   What meets a run is its `Weather`: for each step, by its id, whether its row was still the
   runner's when it was marked, whether a stop was seen before it, and how it was answered. A store
   that fails ends the phases as a row that is gone does. -/
namespace Yardsort.Smoke
open Yardsort.Lib Runner

inductive Turn where
  /-- Its row is no longer the runner's: the run goes no further. -/
  | gone
  | stopSeen (stop : Stop)
  | ended (answer : Answer)
  /-- It was carried out, and its row was no longer the runner's by then. -/
  | lost (answer : Answer)

structure Weather where
  turn : String → Turn
  /-- What `skip_rest` answers. -/
  skipped : Bool
  /-- What is in an output file where a step renders it. -/
  read : String → String → String
  outputDir : String

def Weather.files (w : Weather) (stepId : String) : Files :=
  ⟨w.outputDir ++ "/" ++ stepId ++ ".stdout", w.outputDir ++ "/" ++ stepId ++ ".stderr"⟩

/-- A step that was carried out, what its fields were rendered with, and how it was answered. -/
structure Carried where
  which : Phase
  step : Step
  vars : Vars
  answer : Answer

/-- A run so far: what was carried out, the last first. -/
structure Course where
  vars : Vars
  end_ : PhaseEnd
  carried : List Carried

def Vars.leave (vars : Vars) (stepId : String) (outputs : Pairs) : Vars :=
  { vars with steps := (stepId, outputs) :: vars.steps }

/-- How the phase goes on after a step; a teardown goes on whatever happens. -/
def phaseGoes (done : StepEnd) (which : Phase) (end_ : PhaseEnd) : PhaseEnd :=
  if which = .teardown then end_
  else match done.stopped with
    | some stop => .stopped stop
    | none => if done.status = .passed then end_ else .failed

def Course.carry (w : Weather) (which : Phase) (step : Step) (answer : Answer) (c : Course) :
    Course :=
  let carried := ⟨which, step, c.vars, answer⟩ :: c.carried
  match step.action, answer with
  | .manual prompt, .given passed note =>
    -- The prompt is in the step's row already; `answer_test_step` adds the note.
    let outputs := [("note", note.getD ""), ("prompt", c.vars.render (w.read step.id) prompt)]
    { vars := c.vars.leave step.id outputs
      end_ := if passed = false ∧ which ≠ .teardown then .failed else c.end_
      carried }
  | .manual _, .stopped stop => { c with end_ := .stopped stop, carried }
  | action, answer =>
    let done := carryOut (w.files step.id) action answer
    { vars := c.vars.leave step.id done.outputs, end_ := phaseGoes done which c.end_, carried }

/-- Everything after a failure or a stop is skipped, but not in a teardown. -/
def Course.skips (c : Course) (which : Phase) : Bool := c.end_ ≠ .passed && which ≠ .teardown

def Course.turn (w : Weather) (which : Phase) (step : Step) (c : Course) : Course × Bool :=
  match w.turn step.id with
  | .gone => (c, false)
  | .stopSeen stop => (if c.skips which then c else { c with end_ := .stopped stop }, true)
  | .ended answer => (if c.skips which then c else c.carry w which step answer, true)
  | .lost answer => (if c.skips which then c else c.carry w which step answer, false)

def Course.phaseFrom (w : Weather) (which : Phase) : List Step → Course → Course × Bool
  | [], c => (c, true)
  | step :: rest, c =>
    match c.turn w which step with
    | (c, true) => phaseFrom w which rest c
    | (c, false) => (c, false)

def Course.phase (w : Weather) (which : Phase) (steps : List Step) (c : Course) : Course × Bool :=
  { c with end_ := .passed }.phaseFrom w which steps

/-- Setup and steps, the steps only where setup passed. -/
def forward (w : Weather) (test : Test) (vars : Vars) : Course × Bool :=
  match Course.phase w .setup test.setup ⟨vars, .passed, []⟩ with
  | (c, true) => if c.end_ = .passed then c.phase w .steps test.steps else (c, true)
  | (c, false) => (c, false)

def phases (w : Weather) (test : Test) (vars : Vars) : Course :=
  match forward w test vars with
  | (c, true) =>
    if c.end_ ≠ .passed ∧ w.skipped = false then c
    else (c.phase w .teardown test.teardown).1
  | (c, false) => c

/-- The variables a run starts with, apart from what its steps leave. -/
def Vars.SameRun (vars vars' : Vars) : Prop := vars' = { vars with steps := vars'.steps }

theorem Vars.SameRun.refl (vars : Vars) : vars.SameRun vars := rfl

theorem Vars.SameRun.leave {vars vars' : Vars} (h : vars.SameRun vars') (stepId : String)
    (outputs : Pairs) : vars.SameRun (vars'.leave stepId outputs) := by
  rw [Vars.SameRun, Vars.leave, h]

theorem Vars.SameRun.processEnv {vars vars' : Vars} (h : vars.SameRun vars') :
    vars'.processEnv = vars.processEnv := by
  rw [h]
  rfl

theorem carry_carried (w : Weather) (which : Phase) (step : Step) (answer : Answer) (c : Course) :
    (c.carry w which step answer).carried = ⟨which, step, c.vars, answer⟩ :: c.carried := by
  unfold Course.carry
  dsimp only
  split <;> rfl

theorem carry_vars (w : Weather) (which : Phase) (step : Step) (answer : Answer) (c : Course) :
    (c.carry w which step answer).vars = c.vars ∨
      ∃ outputs, (c.carry w which step answer).vars = c.vars.leave step.id outputs := by
  unfold Course.carry
  dsimp only
  split
  · exact .inr ⟨_, rfl⟩
  · exact .inl rfl
  · exact .inr ⟨_, rfl⟩

/-- A run is given the inputs that were checked when it was asked for, and its environment has
    each name once; no step has left anything. -/
structure Begins (test : Test) (vars : Vars) : Prop where
  inputs : ∃ given inputs, checkInputs test given = .ok inputs ∧ vars.inputs.Perm inputs
  env : (vars.env.map (·.1)).Nodup
  steps : vars.steps = []

end Yardsort.Smoke
