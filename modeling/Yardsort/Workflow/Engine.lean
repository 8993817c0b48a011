import Yardsort.Workflow.Store

/- Moving a run on (`core/src/workflow/engine.rs`): given its steps as the store has them and what
   is true in the world now, what should change and what should be done. `advance` visits the
   steps in file order until a pass changes nothing; what it decides are moves for the store and
   effects for the driver, one for each step it moves to running. -/
namespace Yardsort.Workflow

structure SessionFacts where
  alive : Bool
  busy : Bool
  settledAt : Option Int

def SessionFacts.unknown : SessionFacts := { alive := false, busy := false, settledAt := none }

structure TestRun where
  status : String
  summary : String

def TestRun.active (t : TestRun) : Bool := t.status ∈ ["queued", "awaiting_approval", "running"]

structure PrSeen where
  count : Nat
  latestUrl : Option String

structure World where
  now : Int
  session : String → SessionFacts
  var : List String → Option String
  origin : Option String
  prActivity : PrActivity → Option PrSeen
  testRun : String → Option TestRun

inductive Effect where
  | start (step harness : String) (prompt model effort : Option String) (skipMemory : Bool)
  | paste (step ptyId text : String)
  | runTest (step test : String) (inputs : Inputs)
  | notify (step title : String) (body : Option String)

def Effect.step : Effect → String
  | .start step .. | .paste step .. | .runTest step .. | .notify step .. => step

inductive Finish where
  | succeeded
  | failed (why : String)

structure Plan where
  moves : List Move
  effects : List Effect
  finish : Option Finish

def duration (secs : Nat) : String :=
  if secs % 3600 = 0 then s!"{secs / 3600}h"
  else if secs % 60 = 0 then s!"{secs / 60}m"
  else s!"{secs}s"

def moveTo (step : String) (from_ to_ : StepStatus) : Move := ⟨step, [from_], to_, none, none⟩

def fail (step : String) (from_ : StepStatus) (why : String) : Move :=
  { moveTo step from_ .failed with note := some why }

def skip (step : String) (from_ : StepStatus) (why : String) : Move :=
  { moveTo step from_ .skipped with note := some s!"Skipped: {why}." }

/-- What a plan may look up: the inputs, the outputs as the plan leaves them, and the world. -/
structure Look where
  inputs : Inputs
  outputs : String → Option Outputs
  world : World

def Look.value (look : Look) : List String → Option String
  | ["inputs", id] => look.inputs.lookup id
  | ["steps", id, field] => (look.outputs id).bind (·.lookup field)
  | path => look.world.var path

def Look.render (look : Look) (text : String) : String := Template.render text look.value

def Look.sessionOf (look : Look) : SessionRef → Option String
  | .step from_ => (look.outputs from_).bind (·.lookup "session")
  | .origin => look.world.origin

def notBlank (text : String) : Bool := Lib.Text.trim text.toList ≠ []

def placesMemory (prompt : Option String) : Bool :=
  prompt.any fun text => (Template.placeholders text).any (fun var => var.path = ["memory"])

/-- A pending step whose needs have all succeeded (`begin`): its move, and the effects it adds. -/
def beginStep (look : Look) (step : Step) : Move × List Effect :=
  let id := step.id
  match step.action with
  | .startSession harness prompt model effort skipMemory =>
    (moveTo id .pending .running,
      [.start id (look.render harness) ((prompt.map look.render).filter notBlank)
        ((model.map look.render).filter notBlank) ((effort.map look.render).filter notBlank)
        (skipMemory || placesMemory prompt)])
  | .notify title body =>
    (moveTo id .pending .running,
      [.notify id (look.render title) ((body.map look.render).filter notBlank)])
  | .waitSession session _ _ =>
    match look.sessionOf session with
    | some _ => (moveTo id .pending .waiting, [])
    | none => (fail id .pending "There is no session to wait for.", [])
  | .sendToSession session prompt _ =>
    match look.sessionOf session with
    | none =>
      if session = .origin then
        (skip id .pending "no agent was running in the workspace when the run started", [])
      else (skip id .pending "there is no session to send to", [])
    | some pty =>
      let facts := look.world.session pty
      if !facts.alive then (skip id .pending "the session had already ended", [])
      -- a working agent is never interrupted: the step waits for it to be quiet
      else if facts.busy then (moveTo id .pending .waiting, [])
      else (moveTo id .pending .running, [.paste id pty (look.render prompt)])
  | .waitPrActivity .. => (moveTo id .pending .waiting, [])
  | .runTest test inputs _ =>
    (moveTo id .pending .running,
      [.runTest id (look.render test) (inputs.map (fun (name, value) => (name, look.render value)))])

def timedOut (limit : Option Nat) (since now : Int) : Bool :=
  limit.any fun secs => now - since ≥ secs * 1000

/-- What a waiting step that waits for a session finds. -/
def outcome (facts : SessionFacts) (till : Until) (since : Int) : Option String :=
  if !facts.alive then some "exited"
  else if till = .settled ∧ facts.settledAt.any (· ≥ since) then some "settled"
  else none

def PrActivity.word : PrActivity → String
  | .review => "review"
  | .comment => "comment"
  | .any => "review or comment"

/-- A waiting step: has what it waits for happened, or has it waited too long? -/
def wait (look : Look) (step : Step) (since : Int) : Option (Move × List Effect) :=
  let id := step.id
  let now := look.world.now
  match step.action with
  | .waitSession session till timeoutSecs =>
    let facts := ((look.sessionOf session).map look.world.session).getD .unknown
    match outcome facts till since with
    | some outcome =>
      some ({ moveTo id .waiting .succeeded with outputs := some [("outcome", outcome)] }, [])
    | none =>
      if timedOut timeoutSecs since now then
        some (fail id .waiting s!"Timed out after {duration (timeoutSecs.getD 0)}.", [])
      else none
  | .waitPrActivity kind timeoutSecs =>
    match look.world.prActivity kind with
    | some seen =>
      if 0 < seen.count then
        some ({ moveTo id .waiting .succeeded with
                  outputs := some (("count", toString seen.count) ::
                    (seen.latestUrl.map (fun url => ("latest_url", url))).toList) }, [])
      else if timedOut timeoutSecs since now then
        some (fail id .waiting (s!"No {kind.word} appeared on the pull request within " ++
          s!"{duration (timeoutSecs.getD 0)}."), [])
      else none
    | none =>
      if timedOut timeoutSecs since now then
        some (fail id .waiting (s!"No {kind.word} appeared on the pull request within " ++
          s!"{duration (timeoutSecs.getD 0)}."), [])
      else none
  | .runTest _ _ timeoutSecs =>
    match look.value ["steps", id, "run"] with
    | none => none
    | some run =>
      match look.world.testRun run with
      | none => some (fail id .waiting "The test run is gone.", [])
      | some test =>
        if test.active then
          if timedOut timeoutSecs since now then
            some (fail id .waiting
              s!"The test run did not end within {duration (timeoutSecs.getD 0)}.", [])
          else none
        else
          let outputs := some [("run", run), ("summary", test.summary), ("verdict", test.status)]
          if test.status = "passed" ∨ test.status = "failed" then
            some (⟨id, [.waiting], .succeeded, outputs, some s!"The test {test.status}."⟩, [])
          else some (⟨id, [.waiting], .failed, outputs, some s!"The test run {test.status}."⟩, [])
  | .sendToSession session prompt timeoutSecs =>
    match look.sessionOf session with
    | none => none
    | some pty =>
      let facts := look.world.session pty
      if !facts.alive then some (skip id .waiting "the session ended before it was quiet", [])
      else if !facts.busy then
        some (moveTo id .waiting .running, [.paste id pty (look.render prompt)])
      else if timedOut timeoutSecs since now then
        some (fail id .waiting
          s!"The session was still busy after {duration (timeoutSecs.getD 0)}.", [])
      else none
  | _ => none

/-- What the loop of `advance` has made so far: the plan, and each step's status and outputs as
    the plan leaves them. -/
structure Planning where
  moves : List Move
  effects : List Effect
  status : String → Option StepStatus
  outputs : String → Option Outputs

def Planning.needStatus (p : Planning) (need : String) : StepStatus := (p.status need).getD .failed

section
variable (inputs : Inputs) (world : World) (started : String → Option Int)

def decideStep (p : Planning) (step : Step) : Option (Move × List Effect) :=
  let look : Look := ⟨inputs, p.outputs, world⟩
  match p.status step.id with
  | some .pending =>
    match step.needs.find? (fun need =>
        (p.needStatus need).isFinal && p.needStatus need ≠ .succeeded) with
    | some blocked => some (skip step.id .pending s!"`{blocked}` did not succeed", [])
    | none =>
      if step.needs.all (fun need => p.needStatus need = .succeeded) then some (beginStep look step)
      else none
  | some .waiting => wait look step ((started step.id).getD world.now)
  | _ => none

def Planning.add (p : Planning) (change : Move) (effects : List Effect) : Planning where
  moves := p.moves ++ [change]
  effects := p.effects ++ effects
  status := Function.update p.status change.step (some change.to_)
  outputs := match change.outputs with
    | some left => Function.update p.outputs change.step (some left)
    | none => p.outputs

def pass : List Step → Planning → Planning
  | [], p => p
  | step :: steps, p =>
    match decideStep inputs world started p step with
    | some (change, effects) => pass steps (p.add change effects)
    | none => pass steps p

/-- Passes until one changes nothing; `none` if there are not enough. -/
def passes (steps : List Step) : Nat → Planning → Option Planning
  | 0, _ => none
  | fuel + 1, p =>
    let p' := pass inputs world started steps p
    if p'.moves.length = p.moves.length then some p' else passes steps fuel p'

end

def statusOf (rows : List WorkflowStepRow) (id : String) : Option StepStatus :=
  (rows.find? (fun row => row.stepId = id)).map (·.status)

def Planning.ofRows (rows : List WorkflowStepRow) : Planning where
  moves := []
  effects := []
  status := statusOf rows
  outputs := fun id => (rows.find? (fun row => row.stepId = id)).map (·.outputs)

def finishOf (w : Workflow) (rows : List WorkflowStepRow) (p : Planning) : Finish :=
  match w.steps.find? (fun step => p.status step.id = some .failed) with
  | none => .succeeded
  | some step =>
    let noted := (p.moves.reverse.find? (fun m => m.step = step.id)).bind (·.note)
    let note := noted.or ((rows.find? (fun row => row.stepId = step.id)).bind (·.note))
    match note with
    | some note => .failed s!"Step `{step.id}` failed: {note}"
    | none => .failed s!"Step `{step.id}` failed."

def startedOf (rows : List WorkflowStepRow) (id : String) : Option Int :=
  (rows.find? (fun row => row.stepId = id)).bind (·.startedAt)

def planOf (w : Workflow) (rows : List WorkflowStepRow) (p : Planning) : Plan where
  moves := p.moves
  effects := p.effects
  finish :=
    if rows.all (fun row => (p.status row.stepId).any StepStatus.isFinal) then
      some (finishOf w rows p)
    else none

/-- Decide what happens next in a running run. A pass that is not the last moves a step, and no
    step is moved more than twice, so one pass more than twice the steps is enough. -/
def advance (w : Workflow) (inputs : Inputs) (rows : List WorkflowStepRow) (world : World) :
    Option Plan :=
  (passes inputs world (startedOf rows) w.steps (2 * w.steps.length + 1) (.ofRows rows)).map
    (planOf w rows)

/-- Steps the driver was in the middle of when it stopped fail, rather than happen twice. -/
def recover (rows : List WorkflowStepRow) : List Move :=
  (rows.filter (·.status = .running)).map fun row =>
    ⟨row.stepId, [.running], .failed, none, some "Yardsort stopped while this step was running."⟩

def done (step : String) (outputs : Outputs) : Move :=
  ⟨step, [.running], .succeeded, some outputs, none⟩

def queued (step : String) (outputs : Outputs) : Move :=
  ⟨step, [.running], .waiting, some outputs, none⟩

/-- The driver found the step's effect no longer made sense. -/
def skipped (step why : String) : Move :=
  ⟨step, [.running], .skipped, none, some s!"Skipped: {why}."⟩

def notYet (step : String) : Move := ⟨step, [.running], .waiting, none, none⟩

def failed (step why : String) : Move := ⟨step, [.running], .failed, none, some why⟩

end Yardsort.Workflow
