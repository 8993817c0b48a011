import Yardsort.Workflow.File

/- What a run knows about where it runs (`core/src/workflow/runs.rs`, and `Seen::var` of
   `driver.rs`): the values of the variables outside `inputs` and `steps`. -/
namespace Yardsort.Workflow

structure PrFacts where
  number : Nat
  url : String
  title : String

structure Facts where
  pr : Option PrFacts
  origin : Option String
  unattended : Bool

def Facts.var (facts : Facts) (path : List String) : Option String :=
  facts.pr.bind fun pr =>
    match path with
    | ["pr", "number"] => some (toString pr.number)
    | ["pr", "url"] => some pr.url
    | ["pr", "title"] => some pr.title
    | _ => none

structure Place where
  projectName : String
  projectRoot : String
  workspaceId : String
  workspaceName : String
  workspacePath : String
  task : Option String
  branch : Option String
  baseBranch : Option String

def Place.var (place : Place) : List String → Option String
  | ["project", "name"] => some place.projectName
  | ["project", "root"] => some place.projectRoot
  | ["workspace", "name"] => some place.workspaceName
  | ["workspace", "path"] => some place.workspacePath
  | ["workspace", "branch"] => place.branch
  | ["workspace", "base_branch"] => place.baseBranch
  | ["workspace", "task"] => place.task
  | _ => none

/-- The world's variables as the engine sees them from a driver. -/
structure Seen where
  facts : Facts
  place : Place
  memory : Option String
  handoff : Option String

def Seen.var (seen : Seen) (path : List String) : Option String :=
  match path with
  | ["memory"] => seen.memory
  | ["handoff"] => seen.handoff
  | ["pr", _] => seen.facts.var path
  | _ => seen.place.var path

/-- Nothing a variable may name is missing: the workspace has a pull request, a first message
    and a branch that is based on another, and the project gives its agents its memory. -/
structure Seen.Full (seen : Seen) : Prop where
  pr : seen.facts.pr.isSome
  task : seen.place.task.isSome
  branch : seen.place.branch.isSome
  baseBranch : seen.place.baseBranch.isSome
  memory : seen.memory.isSome
  handoff : seen.handoff.isSome

end Yardsort.Workflow
