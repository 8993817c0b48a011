import Yardsort.Core.Template

/- A smoke test, as its file describes it: the types of `core/src/smoke/mod.rs`, and what
   `core/src/smoke/runs.rs` asks of them before a run (`check_inputs`, `texts`, `env_names`).

   Maps are lists of pairs in the order of their keys; JSON expected of an answer is kept as the
   text it is in the file. -/
namespace Yardsort.Smoke
open Yardsort Lib

abbrev Pairs := List (String × String)

inductive ExitExpect where
  | code (value : Int)
  | nonzero
  deriving DecidableEq

structure JsonExpect where
  path : String
  equals : String
  deriving DecidableEq

structure ProcessExpect where
  exit : ExitExpect
  stdoutContains : Option String
  stdoutMatches : Option String
  stderrEmpty : Bool
  stdoutJson : Option JsonExpect
  deriving DecidableEq

inductive StatusExpect where
  | exact (status : Nat)
  | class_ (first : Nat)
  deriving DecidableEq

structure HeaderExpect where
  name : String
  contains : String
  deriving DecidableEq

structure HttpExpect where
  status : StatusExpect
  json : Option String
  bodyContains : Option String
  bodyMatches : Option String
  header : Option HeaderExpect
  deriving DecidableEq

inductive WaitTarget where
  | port (port : String)
  | url (url : String)
  | file (file : String)
  | command (program : String) (args : List String)
  deriving DecidableEq

inductive HttpMethod where
  | get
  | post
  | put
  | delete
  | patch
  deriving DecidableEq

inductive Screenshots where
  | onFailure
  | everyStep
  | never
  deriving DecidableEq

structure Viewport where
  width : Nat
  height : Nat
  deriving DecidableEq

inductive BrowserAction where
  | goto (url : String)
  | click (selector : String)
  | fill (selector text : String)
  | press (key : String)
  | select (selector value : String)
  | waitFor (selector text : Option String)
  | expectText (text : String)
  | expectVisible (selector : String)
  | expectHidden (selector : String)
  | expectUrl (pattern : String)
  | expectTitle (title : String)
  | screenshot (name : String)
  deriving DecidableEq

inductive Action where
  | run (program : String) (args : List String) (cwd : Option String) (env : Pairs)
      (stdin : Option String) (expect : ProcessExpect) (timeoutSecs : Option Nat)
  | shell (line : String) (cwd : Option String) (env : Pairs) (expect : ProcessExpect)
      (timeoutSecs : Option Nat)
  | start (program : String) (args : List String) (cwd : Option String) (env : Pairs)
  | waitFor (target : WaitTarget) (intervalSecs : Nat) (timeoutSecs : Option Nat)
  | http (method : HttpMethod) (url : String) (headers : Pairs) (body json : Option String)
      (expect : HttpExpect) (timeoutSecs : Option Nat)
  | browser (actions : List BrowserAction) (screenshots : Screenshots)
      (viewport : Option Viewport) (headed : Bool) (timeoutSecs : Option Nat)
  | manual (prompt : String)
  deriving DecidableEq

namespace Action

def name : Action → String
  | .run .. => "run"
  | .shell .. => "shell"
  | .start .. => "start"
  | .waitFor .. => "wait_for"
  | .http .. => "http"
  | .browser .. => "browser"
  | .manual .. => "manual"

def isBrowser : Action → Bool
  | .browser .. => true
  | _ => false

def isManual : Action → Bool
  | .manual .. => true
  | _ => false

end Action

structure Step where
  id : String
  action : Action
  deriving DecidableEq

inductive Phase where
  | setup
  | steps
  | teardown
  deriving DecidableEq

inductive InputKind where
  | text
  | choice
  deriving DecidableEq

structure Input where
  id : String
  kind : InputKind
  label : String
  required : Bool
  default : Option String
  options : List String
  deriving DecidableEq

structure Test where
  id : String
  name : String
  inputs : List Input
  timeoutSecs : Nat
  setup : List Step
  steps : List Step
  teardown : List Step
  deriving DecidableEq

namespace Test

def phase (test : Test) : Phase → List Step
  | .setup => test.setup
  | .steps => test.steps
  | .teardown => test.teardown

def allSteps (test : Test) : List (Phase × Step) :=
  test.setup.map (Phase.setup, ·) ++ test.steps.map (Phase.steps, ·) ++
    test.teardown.map (Phase.teardown, ·)

end Test

structure Entry where
  id : String
  problems : List String
  test : Option Test
  text : String

def Entry.runnable (entry : Entry) : Option Test :=
  entry.test.filter fun _ => entry.problems = []

def asks (test : Test) : String :=
  if test.inputs = [] then "It asks for none."
  else "It asks for " ++ ", ".intercalate (test.inputs.map fun i => "`" ++ i.id ++ "`") ++ "."

def Input.value (input : Input) (given : Pairs) : Option String :=
  (((given.lookup input.id).map fun v => String.ofList (Text.trim v.toList)).filter (· ≠ "")).or
    input.default

def checkEach (given : Pairs) : List Input → Pairs → List String →
    Except String (Pairs × List String)
  | [], inputs, missing => .ok (inputs, missing)
  | input :: rest, inputs, missing =>
    match input.value given with
    | none =>
      checkEach given rest inputs
        (if input.required then missing ++ ["`" ++ input.id ++ "` (" ++ input.label ++ ")"]
          else missing)
    | some value =>
      if input.kind = .choice ∧ value ∉ input.options then
        .error ("`" ++ value ++ "` is not one of the answers to `" ++ input.id ++ "`: " ++
          ", ".intercalate input.options ++ ".")
      else checkEach given rest (inputs ++ [(input.id, value)]) missing

def checkInputs (test : Test) (given : Pairs) : Except String Pairs :=
  match given.find? fun (key, _) => !test.inputs.any (·.id = key) with
  | some (unknown, _) =>
    .error ("`" ++ test.id ++ "` has no input `" ++ unknown ++ "`. " ++ asks test)
  | none =>
    match checkEach given test.inputs [] [] with
    | .error why => .error why
    | .ok (inputs, []) => .ok inputs
    | .ok (_, missing) => .error ("`" ++ test.id ++ "` needs " ++ ", ".intercalate missing ++ ".")

def WaitTarget.texts : WaitTarget → List String
  | .port text | .url text | .file text => [text]
  | .command program args => program :: args

def BrowserAction.texts : BrowserAction → List String
  | .goto text | .fill _ text | .select _ text => [text]
  | .waitFor _ text => text.toList
  | .expectText text | .expectUrl text | .expectTitle text => [text]
  | .click _ | .press _ | .expectVisible _ | .expectHidden _ | .screenshot _ => []

/-- Every piece of template text a step has. A `shell` line is not one. -/
def Action.texts : Action → List String
  | .run program args _ env stdin expect _ =>
    program :: args ++ env.map (·.2) ++ stdin.toList ++ expect.stdoutContains.toList
  | .shell _ _ env expect _ => env.map (·.2) ++ expect.stdoutContains.toList
  | .start program args _ env => program :: args ++ env.map (·.2)
  | .waitFor target _ _ => target.texts
  | .http _ url headers body json expect _ =>
    url :: headers.map (·.2) ++ body.toList ++ json.toList ++ expect.json.toList ++
      expect.bodyContains.toList ++ (expect.header.map (·.contains)).toList
  | .browser actions _ _ _ _ => actions.flatMap BrowserAction.texts
  | .manual prompt => [prompt]

def envName (var : Template.Placeholder) : Option String :=
  match var.path with
  | [ns, name] => if ns = "env" then some name else none
  | _ => none

def envNames (test : Test) : List String :=
  (((test.allSteps.flatMap fun (_, step) => step.action.texts).flatMap
    Template.placeholders).filterMap envName).dedup.mergeSort (· ≤ ·)

end Yardsort.Smoke
