import Yardsort.Lib.Checked
import Yardsort.Lib.Graph
import Yardsort.Workflow.File

/- From YAML to a `Workflow`, with a line and a column on every mistake
   (`core/src/workflow/parse.rs`).

   What `serde-saphyr` reads of a text is a parameter, `Reader`: the head of the file, leniently,
   and the file whole in a raw form that kept each value's position, or the one problem it stopped
   at. The checks over the raw form are the source's. Its hash maps are lists in file order here:
   the first entry of an id is the one that counts. -/
namespace Yardsort.Workflow
open Yardsort.Lib Yardsort.Yaml Yardsort.Template

structure RawTrigger where
  kind : Spanned String
  context : Option (Spanned String)

structure RawInput where
  id : Spanned String
  kind : Spanned String
  label : Option String
  required : Bool
  default : Option (Spanned String)
  options : Option (Spanned (List (Spanned String)))

/-- Every key any action takes, all optional: which belong to which action is checked later. -/
structure RawStep where
  id : Spanned String
  action : Spanned String
  needs : List (Spanned String)
  harness : Option (Spanned String)
  prompt : Option (Spanned String)
  model : Option (Spanned String)
  effort : Option (Spanned String)
  skipMemory : Option (Spanned Bool)
  session : Option (Spanned String)
  till : Option (Spanned String)
  timeout : Option (Spanned String)
  kind : Option (Spanned String)
  test : Option (Spanned String)
  inputs : Option (Spanned (List (String × Spanned String)))
  title : Option (Spanned String)
  body : Option (Spanned String)

structure RawWorkflow where
  id : Spanned String
  name : Spanned String
  description : Option String
  version : Spanned Nat
  trigger : Spanned RawTrigger
  inputs : List RawInput
  steps : Spanned (List RawStep)

def RawStep.present (s : RawStep) : List (String × Location) :=
  [("harness", s.harness.map (·.referenced)), ("prompt", s.prompt.map (·.referenced)),
    ("model", s.model.map (·.referenced)), ("effort", s.effort.map (·.referenced)),
    ("skip_memory", s.skipMemory.map (·.referenced)), ("session", s.session.map (·.referenced)),
    ("until", s.till.map (·.referenced)), ("timeout", s.timeout.map (·.referenced)),
    ("kind", s.kind.map (·.referenced)), ("test", s.test.map (·.referenced)),
    ("inputs", s.inputs.map (·.referenced)), ("title", s.title.map (·.referenced)),
    ("body", s.body.map (·.referenced))].filterMap
      (fun (key, location) => location.map (key, ·))

structure Reader where
  head : String → Option Head
  file : String → Except Problem RawWorkflow

/-- What a `{{ … }}` may name, besides `inputs.*` and `steps.*`. -/
def FIELDS : List (String × List String) :=
  [("project", ["name", "root"]), ("workspace", ["name", "branch", "base_branch", "path", "task"]),
    ("pr", ["number", "url", "title"])]

def WHOLE : List String := ["memory", "handoff"]

def ACTIONS : List String :=
  ["start_session", "wait_session", "send_to_session", "wait_pr_activity", "run_test", "notify"]

/-- The keys a step of each action may have, besides `id`, `action` and `needs`. -/
def allowed : String → List String
  | "start_session" => ["harness", "prompt", "model", "effort", "skip_memory"]
  | "wait_session" => ["session", "until", "timeout"]
  | "send_to_session" => ["session", "prompt", "timeout"]
  | "wait_pr_activity" => ["kind", "timeout"]
  | "run_test" => ["test", "inputs", "timeout"]
  | "notify" => ["title", "body"]
  | _ => []

/-- What the variable check needs to know about the file around one field. -/
structure Scope where
  inputs : List (String × InputKind)
  actions : List (String × String)
  before : List String

def resolve (var : Placeholder) (scope : Scope) : Except String Unit :=
  let raw := var.raw
  match var.path with
  | [] => .error s!"`{raw}` is empty."
  | namesp :: rest =>
    match FIELDS.lookup namesp, rest with
    | some fields, [field] =>
      if field ∈ fields then .ok ()
      else .error s!"`{raw}`: `{namesp}` has no `{field}`. It has {list fields}."
    | some fields, [] =>
      let dotted := fields.map (fun field => namesp ++ "." ++ field)
      .error s!"`{raw}` needs a field: {list dotted}."
    | _, _ =>
      if namesp ∈ WHOLE then
        match rest with
        | [] => .ok ()
        | _ => .error ("`" ++ raw ++ "`: `" ++ namesp ++ "` is used whole, as `\x7b\x7b " ++ namesp
            ++ " \x7d\x7d`.")
      else if namesp = "inputs" then
        match rest with
        | [id] =>
          if (scope.inputs.lookup id).isSome then .ok ()
          else
            .error s!"`{raw}`: there is no input `{id}`{suggestion id (scope.inputs.map Prod.fst)}"
        | _ => .error ("`" ++ raw ++ "`: write an input as `\x7b\x7b inputs.<id> \x7d\x7d`.")
      else if namesp = "steps" then
        match rest with
        | [id, field] =>
          match scope.actions.lookup id with
          | none =>
            .error s!"`{raw}`: there is no step `{id}`{suggestion id (scope.actions.map Prod.fst)}"
          | some action =>
            if id ∉ scope.before then
              .error (s!"`{raw}` is used before step `{id}` is sure to have run. Add `{id}` to this "
                ++ "step's `needs`.")
            else
              let produced := Action.produces action
              if field ∈ produced then .ok ()
              else if produced = [] then
                .error s!"`{raw}`: a `{action}` step leaves nothing to use."
              else .error s!"`{raw}`: a `{action}` step leaves {list produced}."
        | _ => .error
            ("`" ++ raw ++ "`: write a step's result as `\x7b\x7b steps.<id>.<field> \x7d\x7d`.")
      else
        let known := FIELDS.map Prod.fst ++ ["inputs", "steps"] ++ WHOLE
        .error s!"`{raw}`: there is no `{namesp}`. Variables start with {list known}."

/-! ## The checks -/

structure Checker where
  source : Text

namespace Checker

abbrev Check (α : Type) := Checked Problem α

def problem (location : Location) (message : String) : Check Unit :=
  .report (problemAt location message)

def problemIf (c : Prop) [Decidable c] (location : Location) (message : String) : Check Unit :=
  .reportIf c (problemAt location message)

def find (check : Checker) (field : Location) (value raw : String) (start : Nat) : Nat × Nat :=
  Yaml.find check.source field value raw start

def checkVariable (check : Checker) (scope : Scope) (field : Spanned String) (var : Placeholder) :
    Check Unit :=
  match resolve var scope with
  | .ok () => pure ()
  | .error message =>
    let (line, column) := check.find field.referenced field.value var.raw var.start
    .report (.at line column message)

/-- Template text: every placeholder well-formed and naming something that exists. -/
def text (check : Checker) (scope : Scope) : Option (Spanned String) → Check (Option String)
  | none => pure none
  | some field =>
    match Template.parse field.value with
    | .ok _ => do
      let _ ← Checked.each (check.checkVariable scope field) (placeholders field.value)
      pure (some field.value)
    | .error malformed => do
      let _ ← Checked.each (fun (bad : Malformed) =>
        let (line, column) := check.find field.referenced field.value bad.raw bad.start
        .report (Problem.at line column bad.message)) malformed
      pure (some field.value)

def required (check : Checker) (scope : Scope) (field : Option (Spanned String)) (step : RawStep)
    (key what : String) : Check String :=
  match field with
  | some _ => do
    let text ← check.text scope field
    pure (text.getD "")
  | none => do
    problem step.action.referenced s!"A `{step.action.value}` step needs `{key}`: {what}."
    pure ""

def trimmed (text : String) : String := String.ofList (Text.trim text.toList)

def holdsBraces (value : String) : Bool := (Text.cut opening value.toList).isSome

/-- Exactly one `{{ inputs.<id> }}`, of an input of this kind. -/
def usable (kind : InputKind) (scope : Scope) (value : String) : Bool :=
  match Template.parse value with
  | .ok [.var { path := ["inputs", id], .. }] => scope.inputs.lookup id = some kind
  | _ => false

/-- A harness id as written, or exactly one `{{ inputs.<harness input> }}`. -/
def harness (scope : Scope) (step : RawStep) : Check String :=
  match step.harness with
  | none => do
    problem step.action.referenced ("A `start_session` step needs `harness`: which agent to " ++
      "start, like `claude` or `\x7b\x7b inputs.reviewer \x7d\x7d`.")
    pure ""
  | some field =>
    let value := trimmed field.value
    if holdsBraces value then do
      problemIf (usable .harness scope value = false) field.referenced
        ("`harness` is a harness id, or one `\x7b\x7b inputs.<id> \x7d\x7d` naming an input of kind "
          ++ "`harness`, and nothing else.")
      pure value
    else do
      problemIf (isName value = false) field.referenced
        s!"`{value}` is not a harness id, like `claude` or `codex`."
      pure value

/-- A test id as written, or exactly one `{{ inputs.<test input> }}`. -/
def test (scope : Scope) (step : RawStep) : Check String :=
  match step.test with
  | none => do
    problem step.action.referenced ("A `run_test` step needs `test`: which smoke test to run, " ++
      "like `login` or `\x7b\x7b inputs.suite \x7d\x7d`.")
    pure ""
  | some field =>
    let value := trimmed field.value
    if holdsBraces value then do
      problemIf (usable .test scope value = false) field.referenced
        ("`test` is a test id, or one `\x7b\x7b inputs.<id> \x7d\x7d` naming an input of kind " ++
          "`test`, and nothing else.")
      pure value
    else do
      problemIf (value = "") field.referenced "`test` is empty."
      pure value

def testInputs (check : Checker) (scope : Scope) (step : RawStep) :
    Check (List (String × String)) :=
  match step.inputs with
  | none => pure []
  | some field =>
    Checked.each (fun (name, value) => do
      let _ ← check.text scope (some value)
      pure (name, value.value)) field.value

def usage : String :=
  "`session` is `origin` — the workspace's own agent — or `\x7b\x7b steps.<id>.session \x7d\x7d` " ++
    "for a session this workflow started."

/-- Report `var`, a `steps.<id>.<part>`, if it is not the session of a step that starts one. -/
def sessionOf (check : Checker) (scope : Scope) (field : Spanned String) (var : Placeholder)
    (id part : String) : Check Unit :=
  if part ≠ "session" then problem field.referenced usage
  else
    match scope.actions.lookup id with
    | none =>
      problem field.referenced
        s!"There is no step `{id}`{suggestion id (scope.actions.map Prod.fst)}"
    | some action =>
      if action ≠ "start_session" then
        problem field.referenced s!"`{id}` is not a `start_session` step, so it has no session."
      else check.checkVariable scope field var

/-- `origin`, or exactly `{{ steps.<id>.session }}` for an earlier `start_session` step. -/
def session (check : Checker) (scope : Scope) (step : RawStep) : Check SessionRef :=
  match step.session with
  | none => do
    problem step.action.referenced s!"A `{step.action.value}` step needs `session`. {usage}"
    pure .origin
  | some field =>
    let value := trimmed field.value
    if value = "origin" then pure .origin
    else
      match Template.parse value with
      | .ok [.var var] =>
        match var.path with
        | ["steps", id, part] => do
          check.sessionOf scope { field with value := value } var id part
          pure (.step id)
        | _ => do
          problem field.referenced usage
          pure .origin
      | _ => do
        problem field.referenced usage
        pure .origin

def timeout (step : RawStep) : Check (Option Nat) :=
  match step.timeout with
  | none => pure none
  | some field =>
    match duration field.value "a timeout" with
    | .ok secs => pure (some secs)
    | .error message => do
      problem field.referenced message
      pure none

def till (step : RawStep) : Check Until :=
  match step.till with
  | none => pure .settled
  | some field =>
    match field.value with
    | "settled" => pure .settled
    | "exited" => pure .exited
    | other => do
      problem field.referenced s!"`{other}` is not a thing to wait for. Use `settled` or `exited`."
      pure .settled

def activity (step : RawStep) : Check PrActivity :=
  match step.kind with
  | none => pure .any
  | some field =>
    match field.value with
    | "any" => pure .any
    | "review" => pure .review
    | "comment" => pure .comment
    | other => do
      problem field.referenced
        (s!"`{other}` is not a kind of pull request activity. Use `review`, `comment` or " ++ "`any`.")
      pure .any

def action (check : Checker) (scope : Scope) (raw : RawStep) : Check Action :=
  match raw.action.value with
  | "start_session" => do
    let harness ← harness scope raw
    let prompt ← check.text scope raw.prompt
    let model ← check.text scope raw.model
    let effort ← check.text scope raw.effort
    pure (.startSession harness prompt model effort (raw.skipMemory.any (·.value)))
  | "wait_session" => do
    let session ← check.session scope raw
    let till ← till raw
    let timeoutSecs ← timeout raw
    pure (.waitSession session till timeoutSecs)
  | "send_to_session" => do
    let session ← check.session scope raw
    let prompt ← check.required scope raw.prompt raw "prompt" "the message to send"
    let timeoutSecs ← timeout raw
    pure (.sendToSession session prompt timeoutSecs)
  | "wait_pr_activity" => do
    let kind ← activity raw
    let timeoutSecs ← timeout raw
    pure (.waitPrActivity kind timeoutSecs)
  | "run_test" => do
    let test ← test scope raw
    let inputs ← check.testInputs scope raw
    let timeoutSecs ← timeout raw
    pure (.runTest test inputs timeoutSecs)
  | _ => do
    let title ← check.required scope raw.title raw "title" "what the notification says"
    let body ← check.text scope raw.body
    pure (.notify title body)

def step (check : Checker) (scope : Scope) (raw : RawStep) : Check Step :=
  let needs := raw.needs.map (·.value)
  if raw.action.value ∉ ACTIONS then do
    problem raw.action.referenced
      s!"`{raw.action.value}` is not an action. The actions are {list ACTIONS}."
    pure { id := raw.id.value, needs := needs, action := .notify "" none }
  else do
    let _ ← Checked.each (fun (key, location) =>
      problemIf (key ∉ allowed raw.action.value) location
        s!"`{key}` is not something a `{raw.action.value}` step takes.") raw.present
    let action ← check.action scope raw
    pure { id := raw.id.value, needs := needs, action := action }

def edgesOf (actions : List (String × String)) (id : String) :
    List String → List (Spanned String) → Check (List (String × String))
  | _, [] => pure []
  | listed, need :: needs =>
    let name := need.value
    if name = id then do
      problem need.referenced s!"`{id}` cannot need itself."
      edgesOf actions id listed needs
    else if (actions.lookup name).isNone then do
      problem need.referenced s!"There is no step `{name}`{suggestion name (actions.map Prod.fst)}"
      edgesOf actions id listed needs
    else if name ∈ listed then do
      problem need.referenced s!"`{name}` is listed twice."
      edgesOf actions id listed needs
    else do
      let edges ← edgesOf actions id (name :: listed) needs
      pure ((id, name) :: edges)

/-- Where a circle is reported: at the first need of the step it begins at. -/
def circleAt (steps : List RawStep) (circle : List String) : Location :=
  match steps.find? (fun s => s.id.value = circle.headD "") with
  | some step => (step.needs.head?.map (·.referenced)).getD step.id.referenced
  | none => ⟨0, 0⟩

def graph (steps : List RawStep) (actions : List (String × String)) :
    Check (List (String × String)) := do
  let edges ← Checked.each (fun step => edgesOf actions step.id.value [] step.needs) steps
  match Graph.circle edges.flatten (steps.map (·.id.value)) with
  | none => pure edges.flatten
  | some circle => do
    problem (circleAt steps circle) ("These steps wait for each other, so none of them could ever "
      ++ "start: " ++ " → ".intercalate circle ++ ".")
    pure edges.flatten

def ids (before : List RawStep) : List RawStep → Check Unit
  | [] => pure ()
  | step :: steps => do
    let id := step.id.value
    problemIf (isName id = false) step.id.referenced
      (s!"`{id}` cannot be a step's id. Start with a letter; use lowercase letters, digits, `_` " ++
        "and `-`.")
    match before.find? (fun s => s.id.value = id) with
    | some first =>
      problem step.id.referenced
        s!"There is already a step `{id}`, on line {first.id.referenced.line}."
    | none => pure ()
    ids (before ++ [step]) steps

def steps (check : Checker) (raw : Spanned (List RawStep)) (inputs : List Input) :
    Check (List Step) :=
  if raw.value = [] then do
    problem raw.referenced "A workflow needs at least one step."
    pure []
  else do
    let actions := raw.value.map (fun step => (step.id.value, step.action.value))
    ids [] raw.value
    let edges ← graph raw.value actions
    let inputKinds := inputs.map (fun input => (input.id, input.kind))
    Checked.each (fun s => check.step
      { inputs := inputKinds, actions := actions, before := Graph.reached edges s.id.value } s)
      raw.value

def trigger (raw : RawTrigger) : Check Trigger := do
  problemIf (raw.kind.value ≠ "manual") raw.kind.referenced
    s!"`{raw.kind.value}` is not a trigger this Yardsort has. Only `manual` for now."
  match raw.context with
  | some context =>
    problemIf (context.value ≠ "workspace") context.referenced
      s!"`{context.value}` is not a context this Yardsort has. Only `workspace` for now."
  | none => pure ()
  pure { kind := .manual, context := .workspace }

def inputKind (raw : Spanned String) : Check InputKind :=
  match raw.value with
  | "harness" => pure .harness
  | "test" => pure .test
  | "text" => pure .text
  | "choice" => pure .choice
  | other => do
    problem raw.referenced
      s!"`{other}` is not a kind of input. Use `harness`, `test`, `text` or `choice`."
    pure .text

/-- The options of a choice, each once; `above` are the ones listed before. -/
def choices (above : List String) : List (Spanned String) → Check (List String)
  | [] => pure []
  | option :: options => do
    problemIf (option.value ∈ above) option.referenced s!"`{option.value}` is listed twice."
    let rest ← choices (above ++ [option.value]) options
    pure (option.value :: rest)

def options (raw : RawInput) (kind : InputKind) : Check (List String) :=
  match raw.options, kind with
  | some given, .choice => do
    let options ← choices [] given.value
    problemIf (options = []) given.referenced "A choice needs at least one option."
    pure options
  | none, .choice => do
    problem raw.kind.referenced
      s!"The choice `{raw.id.value}` needs `options`: the answers to choose from."
    pure []
  | some given, _ => do
    problem given.referenced "Only a `choice` input has `options`."
    pure []
  | none, _ => pure []

/-- One input; `above` are the ones before it, the nearest first. -/
def input (above : List RawInput) (raw : RawInput) : Check Input := do
  let id := raw.id.value
  problemIf (isName id = false) raw.id.referenced
    (s!"`{id}` cannot be an input's id. Start with a letter; use lowercase letters, digits, `_` " ++
      "and `-`.")
  match above.find? (fun other => other.id.value = id) with
  | some first =>
    problem raw.id.referenced
      s!"There is already an input `{id}`, on line {first.id.referenced.line}."
  | none => pure ()
  let kind ← inputKind raw.kind
  let options ← options raw kind
  match raw.default with
  | some default =>
    problemIf (kind = .choice ∧ options ≠ [] ∧ default.value ∉ options) default.referenced
      s!"`{default.value}` is not one of the options."
  | none => pure ()
  let label := ((raw.label.map trimmed).filter (· ≠ "")).getD id
  pure { id := id, kind := kind, label := label, required := raw.required,
         default := raw.default.map (·.value), options := options }

def inputs (above : List RawInput) : List RawInput → Check (List Input)
  | [] => pure []
  | raw :: rest => do
    let input ← input above raw
    let inputs ← inputs (raw :: above) rest
    pure (input :: inputs)

def workflow (check : Checker) (raw : RawWorkflow) : Check Workflow := do
  problemIf (isId raw.id.value = false) raw.id.referenced
    (s!"`{raw.id.value}` cannot be an id. Use lowercase letters, digits and `-`, like " ++
      "`code-review`.")
  problemIf (trimmed raw.name.value = "") raw.name.referenced "The name is empty."
  problemIf (raw.version.value ≠ SCHEMA_VERSION) raw.version.referenced
    s!"`version` is {SCHEMA_VERSION} for this Yardsort."
  let trigger ← trigger raw.trigger.value
  let inputs ← inputs [] raw.inputs
  let steps ← check.steps raw.steps inputs
  pure { id := raw.id.value, name := trimmed raw.name.value,
         description := (raw.description.map trimmed).filter (· ≠ ""),
         version := raw.version.value, trigger := trigger, inputs := inputs, steps := steps }

end Checker

def standsBefore (a b : Problem) : Bool :=
  let (la, lb) := (a.line.getD 0, b.line.getD 0)
  la < lb || (la = lb && a.column.getD 0 ≤ b.column.getD 0)

def parse (reader : Reader) (text : String) : Except Invalid Workflow :=
  let heading := heading (reader.head text) "workflow" SCHEMA_VERSION
  match heading.laterVersion with
  | some later => .error { id := heading.id, name := heading.name, problems := [later] }
  | none =>
    match reader.file text with
    | .error problem => .error { id := heading.id, name := heading.name, problems := [problem] }
    | .ok raw =>
      let check : Checker := { source := text.toList }
      let checked := check.workflow raw
      if checked.problems = [] then .ok checked.value
      else
        .error { id := some checked.value.id, name := some checked.value.name,
                 problems := (checked.problems.mergeSort standsBefore).destutter (· ≠ ·) }

end Yardsort.Workflow
