import Yardsort.Core.Template
import Yardsort.Core.Yaml

/- A workflow file, checked and ready to run (`core/src/workflow/mod.rs`): its inputs, and its
   steps, a graph through each step's `needs`. Every text of an action may hold
   `{{ variables }}`; `texts` lists them. -/
namespace Yardsort.Workflow

def SCHEMA_VERSION : Nat := 1

inductive TriggerKind where
  | manual
  deriving DecidableEq

inductive RunContext where
  | workspace
  deriving DecidableEq

structure Trigger where
  kind : TriggerKind
  context : RunContext
  deriving DecidableEq

inductive InputKind where
  | harness
  | test
  | text
  | choice
  deriving DecidableEq

structure Input where
  id : String
  kind : InputKind
  label : String
  required : Bool
  default : Option String
  options : List String
  deriving DecidableEq

inductive SessionRef where
  | origin
  | step (id : String)
  deriving DecidableEq

inductive Until where
  | settled
  | exited
  deriving DecidableEq

inductive PrActivity where
  | review
  | comment
  | any
  deriving DecidableEq

/-- What a step does. The inputs of a test are in the order of their names. -/
inductive Action where
  | startSession (harness : String) (prompt model effort : Option String) (skipMemory : Bool)
  | waitSession (session : SessionRef) (till : Until) (timeoutSecs : Option Nat)
  | sendToSession (session : SessionRef) (prompt : String) (timeoutSecs : Option Nat)
  | waitPrActivity (kind : PrActivity) (timeoutSecs : Option Nat)
  | runTest (test : String) (inputs : List (String × String)) (timeoutSecs : Option Nat)
  | notify (title : String) (body : Option String)
  deriving DecidableEq

namespace Action

def name : Action → String
  | startSession .. => "start_session"
  | waitSession .. => "wait_session"
  | sendToSession .. => "send_to_session"
  | waitPrActivity .. => "wait_pr_activity"
  | runTest .. => "run_test"
  | notify .. => "notify"

/-- What a finished step of this kind makes available as `{{ steps.<id>.<field> }}`. -/
def produces : String → List String
  | "start_session" => ["session", "run"]
  | "wait_session" => ["outcome"]
  | "wait_pr_activity" => ["count", "latest_url"]
  | "run_test" => ["run", "verdict", "summary"]
  | _ => []

def texts : Action → List String
  | startSession harness prompt model effort _ =>
    harness :: (prompt.toList ++ model.toList ++ effort.toList)
  | sendToSession _ prompt _ => [prompt]
  | runTest test inputs _ => test :: inputs.map Prod.snd
  | notify title body => title :: body.toList
  | waitSession .. | waitPrActivity .. => []

def session? : Action → Option SessionRef
  | waitSession session .. | sendToSession session .. => some session
  | _ => none

end Action

structure Step where
  id : String
  needs : List String
  action : Action
  deriving DecidableEq

end Yardsort.Workflow

namespace Yardsort

structure Workflow where
  id : String
  name : String
  description : Option String
  version : Nat
  trigger : Workflow.Trigger
  inputs : List Workflow.Input
  steps : List Workflow.Step
  deriving DecidableEq

end Yardsort
