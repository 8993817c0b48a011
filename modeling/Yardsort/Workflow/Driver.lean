import Yardsort.Lib.Run
import Yardsort.Workflow.Engine
import Yardsort.Workflow.Parse

/- Carrying runs out (`core/src/workflow/driver.rs`): a tick moves every active run on, one after
   another, by the engine's plans, which it applies to the store, and their effects, which it
   carries out.

   `System.turn` goes through `tick` and `move_on` a store call at a time, so that anything may
   happen between two of them: a run is queued or cancelled from another process, the app stops, or
   a store call fails, and with it what was left of that run's tick. The driver's locals are in its
   `Phase`. What sessions, the app and the disk say comes with each turn, and what was done is
   written down beside the store: the claims, and the deeds, which are the effects asked for. -/
namespace Yardsort.Workflow
open Yardsort.Lib

inductive HostError where
  | controlHeld (id : String)
  | other (message : String)

def HostError.text : HostError → String
  | .controlHeld id => s!"someone else controls session {id}"
  | .other message => message

structure SessionInfo where
  running : Bool
  busy : Bool

/-- What is answered while an effect is carried out: by the app where it starts a session (its id,
    and the activity run it is in) or notifies, by the queue of test runs, and by the host about a
    session, the message typed into it and the return after it. -/
structure Answers where
  start : Except String (String × Option String)
  notify : Except String Unit
  runTest : Except String String
  info : Option SessionInfo
  text : Except HostError Unit
  submit : Except HostError Unit

inductive Outcome where
  | done (outputs : Outputs)
  | queued (outputs : Outputs)
  | failed (why : String)
  | skipped (why : String)
  | notYet

def Outcome.change (step : String) : Outcome → Move
  | .done outputs => Workflow.done step outputs
  | .queued outputs => Workflow.queued step outputs
  | .failed why => Workflow.failed step why
  | .skipped why => Workflow.skipped step why
  | .notYet => Workflow.notYet step

def notTyped (error : HostError) : Outcome :=
  .failed s!"Could not type into the session: {error.text}"

def typeInto (answers : Answers) : Outcome :=
  match answers.text with
  | .error (.controlHeld _) => .notYet
  | .error (.other message) => notTyped (.other message)
  | .ok () =>
    match answers.submit with
    | .ok () => .done []
    -- typed already: it is not typed a second time
    | .error error => notTyped error

def Answers.quiet (answers : Answers) : Bool := answers.info.any (fun i => i.running && !i.busy)

def carryOut (answers : Answers) (typedTo : List String) : Effect → Outcome × List String
  | .start .. =>
    match answers.start with
    | .ok (session, run) =>
      (.done ((run.map (fun run => ("run", run))).toList ++ [("session", session)]), typedTo)
    | .error why => (.failed why, typedTo)
  | .paste _ ptyId _ =>
    match answers.info with
    | none => (.skipped "the session ended before it was quiet", typedTo)
    | some info =>
      if !info.running then (.skipped "the session ended before it was quiet", typedTo)
      else if info.busy || typedTo.contains ptyId then (.notYet, typedTo)
      else (typeInto answers, ptyId :: typedTo)
  | .notify .. =>
    match answers.notify with
    | .ok () => (.done [], typedTo)
    | .error why => (.failed why, typedTo)
  | .runTest .. =>
    match answers.runTest with
    | .ok id => (.queued [("run", id)], typedTo)
    | .error why => (.failed why, typedTo)

/-- Whether someone's control of the session kept the message from being typed. -/
def Answers.held (answers : Answers) : Bool :=
  match answers.text with
  | .error (.controlHeld _) => true
  | _ => false

/-- Whether carrying an effect out asked for it, so that it may have happened: all but a message
    that was not typed. -/
def asksFor (answers : Answers) (typedTo : List String) : Effect → Bool
  | .paste _ ptyId _ => answers.quiet && !typedTo.contains ptyId && !answers.held
  | _ => true

/-- What `move_on` has in hand: the run as the tick read it, what it knows, the sessions it typed
    to in this tick, and how many passes it may still make. -/
structure MoveOn where
  run : WorkflowRunRow
  facts : Facts
  typedTo : List String
  left : Nat

/-- What is left of a plan once its other moves are applied: the moves that claim a step for its
    effect, the newest first, the effects, how the run ends, and whether an effect happened. -/
structure Rest where
  claims : List Move
  effects : List Effect
  finish : Option Finish
  delivered : Bool

/-- Where the driver is: the store call or the effect that is next. -/
inductive Phase where
  | idle
  /-- In a tick, before the next of its runs. -/
  | between
  /-- About to read the steps of a run new to this driver. -/
  | reading (m : MoveOn)
  /-- About to fail a step that was interrupted, and then the others. -/
  | recovering (m : MoveOn) (change : Move) (changes : List Move)
  /-- About to read the steps, for a plan. -/
  | planning (m : MoveOn)
  /-- About to apply a move, then the others, then what is left of the plan. -/
  | moving (m : MoveOn) (change : Move) (changes : List Move) (rest : Rest)
  | claiming (m : MoveOn) (claim : Move) (effect : Effect) (rest : Rest)
  /-- A claim was refused: about to ask whether the run still runs. -/
  | checking (m : MoveOn) (rest : Rest)
  | carrying (m : MoveOn) (effect : Effect) (rest : Rest)
  /-- About to write down how an effect went. -/
  | reporting (m : MoveOn) (change : Move) (rest : Rest)
  | finishing (m : MoveOn) (finish : Finish)

def Phase.on : Phase → Option MoveOn
  | .idle | .between => none
  | .reading m | .recovering m .. | .planning m | .moving m .. | .claiming m .. | .checking m ..
  | .carrying m .. | .reporting m .. | .finishing m .. => some m

def planFrom (m : MoveOn) : Phase :=
  match m.left with
  | 0 => .between
  | left + 1 => .planning { m with left := left }

/-- The interrupted steps to fail, then the first pass. -/
def recoverFrom (m : MoveOn) : List Move → Phase
  | [] => planFrom m
  | change :: changes => .recovering m change changes

/-- The next effect that has a claim; after the last, the run's end or another pass, if an effect
    happened in this one. -/
def actFrom (m : MoveOn) (claims : List Move) (finish : Option Finish) (delivered : Bool) :
    List Effect → Phase
  | [] =>
    match finish with
    | some finish => .finishing m finish
    | none => if delivered then planFrom m else .between
  | effect :: effects =>
    match claims.find? (fun claim => claim.step = effect.step) with
    | some claim =>
      .claiming m claim effect
        ⟨claims.filter (fun claim => claim.step ≠ effect.step), effects, finish, delivered⟩
    | none => actFrom m claims finish delivered effects

/-- Only an effect that happened can let another step start. -/
def Rest.reported (rest : Rest) (change : Move) : Rest :=
  { rest with delivered := rest.delivered || decide (change.to_ ≠ .waiting) }

def Rest.next (rest : Rest) (m : MoveOn) : Phase :=
  actFrom m rest.claims rest.finish rest.delivered rest.effects

/-- The other moves of a plan, then what is left of it. -/
def moveFrom (m : MoveOn) (rest : Rest) : List Move → Phase
  | [] => rest.next m
  | change :: changes => .moving m change changes rest

/-- Whether a move is kept back, to be applied just before its step's effect is carried out. -/
def isClaim (effects : List Effect) (change : Move) : Bool :=
  change.to_ = .running && effects.any (fun effect => effect.step = change.step)

def carryFrom (m : MoveOn) (plan : Plan) : Phase :=
  moveFrom m
    ⟨(plan.moves.filter (isClaim plan.effects)).reverse, plan.effects, plan.finish, false⟩
    (plan.moves.filter (fun change => !isClaim plan.effects change))

/-- Whether a run of the workflow talks to the workspace's own agent. -/
def needsOrigin (w : Workflow) : Bool :=
  w.steps.any (fun step => step.action.session? = some .origin)

/-- What a queued run knows once it starts: with the session its workspace's agent runs in, found
    before the run starts one of its own. -/
def factsOf (run : WorkflowRunRow) (origin : Option String) : Facts :=
  if needsOrigin run.definition then { run.context with origin := origin } else run.context

/-- Why a run ends before it is moved on. -/
inductive Gone where
  | file
  | workspace

def Gone.text : Gone → String
  | .file => "The workflow file no longer checks out."
  | .workspace => "The workspace is gone."

/-- A driver, and its place in a tick with the runs that are still to be moved on. -/
structure Driver where
  /-- Runs whose interrupted steps were dealt with since this driver started. -/
  recovered : List String
  todo : List WorkflowRunRow
  phase : Phase

def Driver.new : Driver := ⟨[], [], .idle⟩

/-- An effect that was asked for, in which tick and for which run. -/
structure Deed where
  tick : Nat
  run : String
  effect : Effect

/-- The store, the driver and what was done: ticks begun, steps claimed, effects asked for. -/
structure System where
  store : Store
  driver : Driver
  ticks : Nat
  claims : List (String × String)
  deeds : List Deed

/-- What the driver does next, with what it is answered and the time it is. -/
inductive Turn where
  | tick
  /-- The tick's runs have all been moved on. -/
  | close
  /-- The next run's file no longer parses, or its workspace is gone: it ends. -/
  | refuse (why : Gone) (now : Int)
  /-- The next run is moved on; `origin` is the session its workspace's agent runs in. -/
  | moveOn (origin : Option String) (now : Int)
  /-- The steps are read, for those that were interrupted. -/
  | recover
  /-- The steps are read, and a plan is made. -/
  | plan (world : World)
  /-- The next move is applied. -/
  | apply (now : Int)
  | check
  | carry (answers : Answers)
  | finish (now : Int)
  /-- The store call that is next fails. -/
  | fail

namespace System

def goes (s : System) (phase : Phase) : System := { s with driver := { s.driver with phase } }

def leaves (s : System) (todo : List WorkflowRunRow) : System :=
  { s with driver := { s.driver with todo, phase := .between } }

def stores (s : System) (store : Store) : System := { s with store }

/-- A run that runs is taken up; its interrupted steps are looked for once in a driver's life. -/
def takesUp (s : System) (m : MoveOn) (todo : List WorkflowRunRow) : System :=
  if s.driver.recovered.contains m.run.id then
    { s with driver := { s.driver with todo, phase := planFrom m } }
  else
    { s with driver := ⟨m.run.id :: s.driver.recovered, todo, .reading m⟩ }

/-- The next run of the tick is taken up, unless it has been cancelled since it was read. -/
def moveOn (s : System) (run : WorkflowRunRow) (todo : List WorkflowRunRow)
    (origin : Option String) (now : Int) : System :=
  let passes := run.definition.steps.length * 3 + 1
  if run.status = .queued then
    let facts := factsOf run origin
    let (store, started) := s.store.startWorkflowRun run.id facts now
    if started then (s.stores store).takesUp ⟨run, facts, [], passes⟩ todo
    else (s.stores store).leaves todo
  else s.takesUp ⟨run, run.context, [], passes⟩ todo

def stillRunning (s : System) (id : String) : Bool :=
  (s.store.run id).any (fun r => r.row.status = .running)

def apply (s : System) (m : MoveOn) (change : Move) (now : Int) : System :=
  s.stores (s.store.moveWorkflowStep m.run.id change now).1

def carry (s : System) (m : MoveOn) (effect : Effect) (answers : Answers) : System :=
  if asksFor answers m.typedTo effect then
    { s with deeds := s.deeds ++ [⟨s.ticks, m.run.id, effect⟩] }
  else s

def turn (s : System) (t : Turn) : Option System :=
  match s.driver.phase, t with
  | .idle, .tick =>
    some { s with
      driver := { s.driver with todo := s.store.activeWorkflowRuns, phase := .between }
      ticks := s.ticks + 1 }
  | .between, .close => if s.driver.todo = [] then some (s.goes .idle) else none
  | .between, .refuse why now =>
    match s.driver.todo with
    | [] => none
    | run :: todo =>
      some ((s.stores (s.store.finishWorkflowRun run.id .failed (some why.text) now).1).leaves todo)
  | .between, .moveOn origin now =>
    match s.driver.todo with
    | [] => none
    | run :: todo => if run.workspaceId.isSome then some (s.moveOn run todo origin now) else none
  | .between, .fail =>
    match s.driver.todo with
    | [] => none
    | _ :: todo => some (s.leaves todo)
  | .reading m, .recover =>
    some (s.goes (recoverFrom m (recover (s.store.workflowSteps m.run.id))))
  | .recovering m change changes, .apply now =>
    some ((s.apply m change now).goes (recoverFrom m changes))
  | .planning m, .plan world =>
    (advance m.run.definition m.run.inputs (s.store.workflowSteps m.run.id)
      { world with origin := m.facts.origin }).map (fun plan => s.goes (carryFrom m plan))
  | .moving m change changes rest, .apply now =>
    some ((s.apply m change now).goes (moveFrom m rest changes))
  | .claiming m claim effect rest, .apply now =>
    if (s.store.moveWorkflowStep m.run.id claim now).2 then
      some { (s.apply m claim now).goes (.carrying m effect rest) with
        claims := s.claims ++ [(m.run.id, effect.step)] }
    else some ((s.apply m claim now).goes (.checking m rest))
  | .checking m rest, .check =>
    some (s.goes (if s.stillRunning m.run.id then rest.next m else .between))
  | .carrying m effect rest, .carry answers =>
    let (outcome, typedTo) := carryOut answers m.typedTo effect
    some ((s.carry m effect answers).goes
      (.reporting { m with typedTo } (outcome.change effect.step) rest))
  | .reporting m change rest, .apply now =>
    some ((s.apply m change now).goes ((rest.reported change).next m))
  | .finishing m finish, .finish now =>
    let (status, error) := match finish with
      | .succeeded => (RunStatus.succeeded, none)
      | .failed why => (RunStatus.failed, some why)
    some ((s.stores (s.store.finishWorkflowRun m.run.id status error now).1).goes .between)
  | .reading _, .fail | .recovering .., .fail | .planning _, .fail | .moving .., .fail
  | .claiming .., .fail | .checking .., .fail | .reporting .., .fail | .finishing .., .fail =>
    some (s.goes .between)
  | _, _ => none

end System

/-- What happens next: a run is queued or cancelled, by any process, the app stops and a new driver
    starts, or the driver takes a turn. -/
inductive Act where
  | queue (reader : Reader) (text id workspace : String) (inputs : Inputs) (context : Facts)
    (now : Int)
  | cancel (id reason : String) (now : Int)
  | stop
  | driver (turn : Turn)

namespace System

def start : System := ⟨[], .new, 0, [], []⟩

/-- A run of a file that checks out, as it is inserted, under an id of its own. -/
def queue (s : System) (w : Workflow) (id workspace : String) (inputs : Inputs) (context : Facts)
    (now : Int) : Option System :=
  if (s.store.run id).isNone then
    some (s.stores (s.store.queueWorkflowRun
      ⟨⟨id, w, some workspace, inputs, .queued, none, now, none, none, context⟩, queuedSteps w⟩).1)
  else none

def step (s : System) : Act → Option System
  | .queue reader text id workspace inputs context now =>
    match parse reader text with
    | .ok w => s.queue w id workspace inputs context now
    | .error _ => none
  | .cancel id reason now => some (s.stores (s.store.cancelWorkflowRun id reason now).1)
  | .stop => some { s with driver := .new }
  | .driver t => s.turn t

end System

end Yardsort.Workflow
