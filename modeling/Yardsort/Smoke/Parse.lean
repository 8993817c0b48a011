import Yardsort.Core.Yaml
import Yardsort.Lib.Checked
import Yardsort.Smoke.Test

/- From YAML to a `Test`, with a line and a column on every mistake (`core/src/smoke/parse.rs`).

   What `serde-saphyr` reads of a text is a parameter, `Reader`: the head of the file, leniently,
   and the file whole in a raw form that kept each value's position, or the one problem it stopped
   at; a JSON value is the text `compact_json` writes of it. So is what `regex` has against a
   pattern. The checks over the raw form are the source's. Its maps are lists in the order of their
   keys, and its hash maps lists in file order: the first entry of an id is the one that counts. -/
namespace Yardsort.Smoke
open Yardsort.Lib Yardsort.Yaml Yardsort.Template

def SCHEMA_VERSION : Nat := 1

def DEFAULT_RUN_TIMEOUT_SECS : Nat := 30 * 60

structure RawInput where
  id : Spanned String
  kind : Spanned String
  label : Option String
  required : Bool
  default : Option (Spanned String)
  options : Option (Spanned (List (Spanned String)))

/-- `exit: 0` or `exit: nonzero`, `port: 8080` or a variable. -/
inductive NumberOrText where
  | number (n : Int)
  | text (t : String)

def NumberOrText.said : NumberOrText → String
  | number n => toString n
  | text t => t

structure RawJsonExpect where
  path : Spanned String
  equals : Spanned String

structure RawHeaderExpect where
  name : Spanned String
  contains : Spanned String

/-- Every expectation any step takes, all optional: which belong to which action is checked
    later. -/
structure RawExpect where
  exit : Option (Spanned NumberOrText)
  stdoutContains : Option (Spanned String)
  stdoutMatches : Option (Spanned String)
  stderrEmpty : Option (Spanned Bool)
  stdoutJson : Option (Spanned RawJsonExpect)
  status : Option (Spanned NumberOrText)
  json : Option (Spanned String)
  bodyContains : Option (Spanned String)
  bodyMatches : Option (Spanned String)
  header : Option (Spanned RawHeaderExpect)

inductive BrowserArg where
  | text (text : String)
  | map (entries : Pairs)

abbrev BrowserItem := Spanned (List (String × BrowserArg))

/-- Every key any action takes, all optional: which belong to which action is checked later. -/
structure RawStep where
  id : Spanned String
  action : Spanned String
  program : Option (Spanned String)
  args : Option (Spanned (List (Spanned String)))
  cwd : Option (Spanned String)
  env : Option (Spanned (List (String × Spanned String)))
  stdin : Option (Spanned String)
  expect : Option (Spanned RawExpect)
  timeout : Option (Spanned String)
  line : Option (Spanned String)
  port : Option (Spanned NumberOrText)
  url : Option (Spanned String)
  file : Option (Spanned String)
  interval : Option (Spanned String)
  get : Option (Spanned String)
  post : Option (Spanned String)
  put : Option (Spanned String)
  delete : Option (Spanned String)
  patch : Option (Spanned String)
  headers : Option (Spanned (List (String × Spanned String)))
  body : Option (Spanned String)
  json : Option (Spanned String)
  actions : Option (Spanned (List BrowserItem))
  screenshots : Option (Spanned String)
  viewport : Option (Spanned String)
  headed : Option (Spanned Bool)
  prompt : Option (Spanned String)

structure RawTest where
  id : Spanned String
  name : Spanned String
  version : Spanned Nat
  inputs : List RawInput
  timeout : Option (Spanned String)
  setup : List RawStep
  steps : Spanned (List RawStep)
  teardown : List RawStep

def present (keys : List (String × Option Location)) : List (String × Location) :=
  keys.filterMap fun (key, location) => location.map (key, ·)

def RawStep.present (s : RawStep) : List (String × Location) :=
  Smoke.present [("program", s.program.map (·.referenced)), ("args", s.args.map (·.referenced)),
    ("cwd", s.cwd.map (·.referenced)), ("env", s.env.map (·.referenced)),
    ("stdin", s.stdin.map (·.referenced)), ("expect", s.expect.map (·.referenced)),
    ("timeout", s.timeout.map (·.referenced)), ("line", s.line.map (·.referenced)),
    ("port", s.port.map (·.referenced)), ("url", s.url.map (·.referenced)),
    ("file", s.file.map (·.referenced)), ("interval", s.interval.map (·.referenced)),
    ("get", s.get.map (·.referenced)), ("post", s.post.map (·.referenced)),
    ("put", s.put.map (·.referenced)), ("delete", s.delete.map (·.referenced)),
    ("patch", s.patch.map (·.referenced)), ("headers", s.headers.map (·.referenced)),
    ("body", s.body.map (·.referenced)), ("json", s.json.map (·.referenced)),
    ("do", s.actions.map (·.referenced)), ("screenshots", s.screenshots.map (·.referenced)),
    ("viewport", s.viewport.map (·.referenced)), ("headed", s.headed.map (·.referenced)),
    ("prompt", s.prompt.map (·.referenced))]

def RawExpect.present (e : RawExpect) : List (String × Location) :=
  Smoke.present [("exit", e.exit.map (·.referenced)),
    ("stdout_contains", e.stdoutContains.map (·.referenced)),
    ("stdout_matches", e.stdoutMatches.map (·.referenced)),
    ("stderr_empty", e.stderrEmpty.map (·.referenced)),
    ("stdout_json", e.stdoutJson.map (·.referenced)), ("status", e.status.map (·.referenced)),
    ("json", e.json.map (·.referenced)), ("body_contains", e.bodyContains.map (·.referenced)),
    ("body_matches", e.bodyMatches.map (·.referenced)), ("header", e.header.map (·.referenced))]

/-- What `serde-saphyr` makes of a file's text, and what `regex` says of a bad pattern. -/
structure Reader where
  head : String → Option Head
  file : String → Except Problem RawTest
  regex : String → Option String

/-- What a `{{ … }}` may name, besides `inputs.*`, `env.*` and `steps.*`. -/
def FIELDS : List (String × List String) :=
  [("project", ["name", "root"]), ("workspace", ["name", "branch", "path"]),
    ("run", ["id", "port", "dir"])]

def ACTIONS : List String := ["run", "shell", "start", "wait_for", "http", "browser", "manual"]

def METHODS : List String := ["get", "post", "put", "delete", "patch"]

def BROWSER_ACTIONS : List String :=
  ["goto", "click", "fill", "press", "select", "wait_for", "expect_text", "expect_visible",
    "expect_hidden", "expect_url", "expect_title", "screenshot"]

def KEYS : List String :=
  ["Enter", "Tab", "Escape", "Esc", "Backspace", "Delete", "ArrowUp", "ArrowDown", "ArrowLeft",
    "ArrowRight", "Home", "End", "PageUp", "PageDown", "Space"]

/-- The keys a step of each action may have, besides `id` and `action`. -/
def allowed : String → List String
  | "run" => ["program", "args", "cwd", "env", "stdin", "expect", "timeout"]
  | "shell" => ["line", "cwd", "env", "expect", "timeout"]
  | "start" => ["program", "args", "cwd", "env"]
  | "wait_for" => ["port", "url", "file", "program", "args", "interval", "timeout"]
  | "http" =>
    ["get", "post", "put", "delete", "patch", "headers", "body", "json", "expect", "timeout"]
  | "browser" => ["do", "screenshots", "viewport", "headed", "timeout"]
  | "manual" => ["prompt"]
  | _ => []

def PROCESS_EXPECT : List String :=
  ["exit", "stdout_contains", "stdout_matches", "stderr_empty", "stdout_json"]

def HTTP_EXPECT : List String := ["status", "json", "body_contains", "body_matches", "header"]

def Action.produces : String → List String
  | "run" | "shell" => ["exit", "stdout", "stderr"]
  | "start" => ["pid", "stdout", "stderr"]
  | "wait_for" => ["waited"]
  | "http" => ["status", "body", "headers"]
  | "browser" => ["url", "title"]
  | "manual" => ["note"]
  | _ => []

def HttpMethod.name : HttpMethod → String
  | get => "get"
  | post => "post"
  | put => "put"
  | delete => "delete"
  | patch => "patch"

/-- What the variable check needs to know about the file around one field. -/
structure Scope where
  inputs : List (String × InputKind)
  actions : List (String × String)
  before : List String

def isEnvName (name : String) : Bool :=
  name ≠ "" && !(name.toList.head?.any Char.isDigit) &&
    name.toList.all fun c => c.isAlphanum || c = '_'

def resolve (var : Placeholder) (scope : Scope) : Except String Unit :=
  let raw := var.raw
  match var.path with
  | [] => .error s!"`{raw}` is empty."
  | namesp :: rest =>
    match FIELDS.lookup namesp, rest with
    | some fields, [field] =>
      if field ∈ fields then .ok ()
      else .error s!"`{raw}`: `{namesp}` has no `{field}`. It has {list fields}."
    | some fields, [] =>
      let dotted := fields.map fun field => namesp ++ "." ++ field
      .error s!"`{raw}` needs a field: {list dotted}."
    | _, _ =>
      if namesp = "inputs" then
        match rest with
        | [id] =>
          if (scope.inputs.lookup id).isSome then .ok ()
          else
            .error s!"`{raw}`: there is no input `{id}`{suggestion id (scope.inputs.map Prod.fst)}"
        | _ => .error ("`" ++ raw ++ "`: write an input as `\x7b\x7b inputs.<id> \x7d\x7d`.")
      else if namesp = "env" then
        match rest with
        | [name] =>
          if isEnvName name then .ok ()
          else .error (s!"`{raw}`: `{name}` is not an environment variable name. Use letters, digits "
            ++ "and `_`, like `\x7b\x7b env.TEST_PASSWORD \x7d\x7d`.")
        | _ => .error
            ("`" ++ raw ++ "`: write an environment value as `\x7b\x7b env.<NAME> \x7d\x7d`.")
      else if namesp = "steps" then
        match rest with
        | [id, field] =>
          match scope.actions.lookup id with
          | none =>
            .error s!"`{raw}`: there is no step `{id}`{suggestion id (scope.actions.map Prod.fst)}"
          | some action =>
            if id ∉ scope.before then
              .error (s!"`{raw}` is used before step `{id}` has run. Only steps earlier in the file "
                ++ "have results.")
            else
              let produced := Action.produces action
              if field ∈ produced then .ok ()
              else .error s!"`{raw}`: a `{action}` step leaves {list produced}."
        | _ => .error
            ("`" ++ raw ++ "`: write a step's result as `\x7b\x7b steps.<id>.<field> \x7d\x7d`.")
      else
        let known := FIELDS.map Prod.fst ++ ["inputs", "env", "steps"]
        .error s!"`{raw}`: there is no `{namesp}`. Variables start with {list known}."

structure Checker where
  source : Text
  /-- What is wrong with a pattern. -/
  reason : String → Option String

namespace Checker

abbrev Check (α : Type) := Checked Problem α

def problem (location : Location) (message : String) : Check Unit :=
  .report (problemAt location message)

def problemIf (c : Prop) [Decidable c] (location : Location) (message : String) : Check Unit :=
  .reportIf c (problemAt location message)

def trimmed (text : String) : String := String.ofList (Text.trim text.toList)

def holdsBraces (value : String) : Bool := (Text.cut opening value.toList).isSome

def checkVariable (check : Checker) (scope : Scope) (field : Location) (value : String)
    (var : Placeholder) : Check Unit :=
  match resolve var scope with
  | .ok () => pure ()
  | .error message =>
    let (line, column) := find check.source field value var.raw var.start
    .report (.at line column message)

def placeholders (check : Checker) (scope : Scope) (field : Location) (value : String) :
    Check Unit :=
  match Template.parse value with
  | .ok _ => do
    let _ ← Checked.each (check.checkVariable scope field value) (Template.placeholders value)
  | .error malformed => do
    let _ ← Checked.each (fun (bad : Malformed) =>
      let (line, column) := find check.source field value bad.raw bad.start
      .report (Problem.at line column bad.message)) malformed

/-- Template text: every placeholder well-formed and naming something that exists. -/
def text (check : Checker) (scope : Scope) : Option (Spanned String) → Check (Option String)
  | none => pure none
  | some field => do
    check.placeholders scope field.referenced field.value
    pure (some field.value)

def required (check : Checker) (scope : Scope) (field : Option (Spanned String)) (step : RawStep)
    (key what : String) : Check String :=
  match field with
  | some given => do
    problemIf (trimmed given.value = "") given.referenced s!"`{key}` is empty."
    let text ← check.text scope field
    pure (text.getD "")
  | none => do
    problem step.action.referenced s!"A `{step.action.value}` step needs `{key}`: {what}."
    pure ""

def args (check : Checker) (scope : Scope) (raw : RawStep) : Check (List String) :=
  match raw.args with
  | none => pure []
  | some args =>
    Checked.each (fun (arg : Spanned String) => do
      check.placeholders scope arg.referenced arg.value
      pure arg.value) args.value

/-- Relative to the workspace and inside it: no absolute path, no `..`, no variables. -/
def cwd (raw : RawStep) : Check (Option String) :=
  match raw.cwd with
  | none => pure none
  | some field => do
    let value := trimmed field.value
    let escapes := value.toList.head?.any (fun c => c = '/' || c = '\\') ||
      (value.toList.splitOn '/').any (· = ['.', '.'])
    problemIf (value = "" ∨ escapes = true ∨ holdsBraces value = true) field.referenced
      ("`cwd` is a folder inside the workspace, relative to it, like `web` or `packages/api`. No "
        ++ "`..`, no absolute path, no variables.")
    pure (some value)

def env (check : Checker) (scope : Scope) :
    Option (Spanned (List (String × Spanned String))) → Check Pairs
  | none => pure []
  | some given =>
    Checked.each (fun (entry : String × Spanned String) => do
      problemIf (isEnvName entry.1 = false) entry.2.referenced
        (s!"`{entry.1}` is not an environment variable name. Use letters, digits and `_`, not "
          ++ "starting with a digit.")
      check.placeholders scope entry.2.referenced entry.2.value
      pure (entry.1, entry.2.value)) given.value

/-- A `shell` line: text for the shell, with no `{{ }}` in it. -/
def line (raw : RawStep) : Check String :=
  match raw.line with
  | none => do
    problem raw.action.referenced "A `shell` step needs `line`: the command line to run."
    pure ""
  | some field => do
    problemIf (trimmed field.value = "") field.referenced "`line` is empty."
    problemIf (holdsBraces field.value = true) field.referenced
      ("A `shell` line cannot hold `\x7b\x7b … \x7d\x7d`: a value pasted into a shell line could "
        ++ "become a command. The run's variables are in the environment instead: "
        ++ "`$YS_RUN_PORT`, `$YS_INPUT_<ID>`, `$YS_ENV_<NAME>`, `$YS_WORKSPACE_PATH`. Or "
        ++ "use a `run` step, whose `args` are each one value.")
    pure field.value

def duration (field : Spanned String) (what : String) : Check (Option Nat) :=
  match Yaml.duration field.value what with
  | .ok secs => pure (some secs)
  | .error message => do
    problem field.referenced message
    pure none

def timeout (step : RawStep) : Check (Option Nat) :=
  match step.timeout with
  | none => pure none
  | some field => duration field "a timeout"

def regex (check : Checker) : Option (Spanned String) → Check (Option String)
  | none => pure none
  | some field => do
    match check.reason field.value with
    | some reason => problem field.referenced s!"`{field.value}` is not a regular expression: {reason}."
    | none => pure ()
    pure (some field.value)

def USAGE : String :=
  "A `wait_for` step waits for one thing: `port`, `url`, `file`, or `program` with `args`."

def notAPort (field : Spanned NumberOrText) : Check Unit :=
  problem field.referenced
    (s!"`{field.value.said}` is not a port. Use a number from 1 to 65535, or " ++
      "`\x7b\x7b run.port \x7d\x7d`.")

def isPort (check : Checker) (scope : Scope) (field : Spanned NumberOrText) : Check Unit :=
  match field.value with
  | .number n => if 1 ≤ n ∧ n ≤ 65535 then pure () else notAPort field
  | .text t => if holdsBraces t then check.placeholders scope field.referenced t else notAPort field

def port (check : Checker) (scope : Scope) (field : Spanned NumberOrText) : Check WaitTarget := do
  check.isPort scope field
  pure (.port field.value.said)

def argsAlone (raw : RawStep) : Check Unit :=
  match raw.args, raw.program with
  | some args, none =>
    problem args.referenced
      "`args` goes with `program`. A `wait_for` on a port, an address or a file takes none."
  | _, _ => pure ()

def waitTarget (check : Checker) (scope : Scope) (raw : RawStep) : Check WaitTarget := do
  argsAlone raw
  match present [("port", raw.port.map (·.referenced)), ("url", raw.url.map (·.referenced)),
      ("file", raw.file.map (·.referenced)), ("program", raw.program.map (·.referenced))] with
  | [] => do
    problem raw.action.referenced USAGE
    pure (.url "")
  | _ :: second :: _ => do
    problem second.2 s!"`{second.1}` is a second thing to wait for. {USAGE}"
    pure (.url "")
  | [_] =>
    match raw.port, raw.url, raw.file with
    | some field, _, _ => check.port scope field
    | none, some _, _ => do
      let url ← check.required scope raw.url raw "url" "the address"
      pure (.url url)
    | none, none, some _ => do
      let file ← check.required scope raw.file raw "file" "the path"
      pure (.file file)
    | none, none, none => do
      let program ← check.required scope raw.program raw "program" "what to run"
      let args ← check.args scope raw
      pure (.command program args)

def notExpected (e : RawExpect) (others : List String) (message : String → String) :
    Check Unit := do
  let _ ← Checked.each (fun (key, location) =>
    problemIf (key ∈ others) location (message key)) e.present

def exitCode (field : Spanned NumberOrText) : Check ExitExpect :=
  match field.value with
  | .number n =>
    if -2^31 ≤ n ∧ n < 2^31 then pure (.code n)
    else do
      problem field.referenced s!"`{n}` is not an exit code."
      pure (.code 0)
  | .text t =>
    if trimmed t = "nonzero" then pure .nonzero
    else do
      problem field.referenced s!"`{t}` is not an exit code. Use a number, or `nonzero`."
      pure (.code 0)

def exitExpect : Option (Spanned NumberOrText) → Check ExitExpect
  | none => pure (.code 0)
  | some field => exitCode field

def jsonExpect (check : Checker) (scope : Scope) :
    Option (Spanned RawJsonExpect) → Check (Option JsonExpect)
  | none => pure none
  | some json => do
    problemIf (trimmed json.value.path.value = "") json.value.path.referenced "`path` is empty."
    check.placeholders scope json.value.equals.referenced json.value.equals.value
    pure (some ⟨trimmed json.value.path.value, json.value.equals.value⟩)

def ProcessExpect.default : ProcessExpect := ⟨.code 0, none, none, false, none⟩

def processExpect (check : Checker) (scope : Scope) (raw : RawStep) : Check ProcessExpect :=
  match raw.expect with
  | none => pure ProcessExpect.default
  | some given => do
    let e := given.value
    notExpected e HTTP_EXPECT fun key =>
      s!"`{key}` is an expectation for an `http` step. A `{raw.action.value}` step expects " ++
        s!"{list PROCESS_EXPECT}."
    let exit ← exitExpect e.exit
    let stdoutContains ← check.text scope e.stdoutContains
    let stdoutMatches ← check.regex e.stdoutMatches
    let stdoutJson ← check.jsonExpect scope e.stdoutJson
    pure ⟨exit, stdoutContains, stdoutMatches, e.stderrEmpty.any (·.value), stdoutJson⟩

def statusClass (t : String) : Option Nat :=
  match t.toList with
  | [c, 'x', 'x'] => if '1' ≤ c ∧ c ≤ '5' then some (c.toNat - '0'.toNat) else none
  | _ => none

def statusOf (field : Spanned NumberOrText) : Check StatusExpect :=
  let notAStatus : Check StatusExpect := do
    problem field.referenced
      (s!"`{field.value.said}` is not a status. Use a number from 100 to 599, or a class " ++
        "like `2xx`.")
    pure (.class_ 2)
  match field.value with
  | .number n => if 100 ≤ n ∧ n ≤ 599 then pure (.exact n.toNat) else notAStatus
  | .text t =>
    match statusClass t with
    | some first => pure (.class_ first)
    | none => notAStatus

def statusExpect : Option (Spanned NumberOrText) → Check StatusExpect
  | none => pure (.class_ 2)
  | some field => statusOf field

def headerExpect (check : Checker) (scope : Scope) :
    Option (Spanned RawHeaderExpect) → Check (Option HeaderExpect)
  | none => pure none
  | some header => do
    problemIf (trimmed header.value.name.value = "") header.value.name.referenced "`name` is empty."
    check.placeholders scope header.value.contains.referenced header.value.contains.value
    pure (some ⟨trimmed header.value.name.value, header.value.contains.value⟩)

def HttpExpect.default : HttpExpect := ⟨.class_ 2, none, none, none, none⟩

def httpExpect (check : Checker) (scope : Scope) (raw : RawStep) : Check HttpExpect :=
  match raw.expect with
  | none => pure HttpExpect.default
  | some given => do
    let e := given.value
    notExpected e PROCESS_EXPECT fun key =>
      s!"`{key}` is an expectation for a `run` or `shell` step. An `http` step expects " ++
        s!"{list HTTP_EXPECT}."
    let status ← statusExpect e.status
    let json ← check.text scope e.json
    let bodyContains ← check.text scope e.bodyContains
    let bodyMatches ← check.regex e.bodyMatches
    let header ← check.headerExpect scope e.header
    pure ⟨status, json, bodyContains, bodyMatches, header⟩

def methods (raw : RawStep) : List (HttpMethod × Spanned String) :=
  [(HttpMethod.get, raw.get), (.post, raw.post), (.put, raw.put), (.delete, raw.delete),
    (.patch, raw.patch)].filterMap fun (method, field) => field.map (method, ·)

def request (check : Checker) (scope : Scope) (raw : RawStep) : Check (HttpMethod × String) :=
  match methods raw with
  | [] => do
    problem raw.action.referenced
      s!"An `http` step needs the request: one of {list METHODS}, with the address."
    pure (.get, "")
  | [(method, field)] => do
    problemIf (trimmed field.value = "") field.referenced s!"`{method.name}` is empty."
    check.placeholders scope field.referenced field.value
    pure (method, field.value)
  | (method, field) :: (second, _) :: _ => do
    problem field.referenced
      s!"An `http` step makes one request: `{method.name}` and `{second.name}` are two."
    pure (method, field.value)

def isHeaderName (name : String) : Bool :=
  trimmed name ≠ "" && !(name.toList.any fun c => Text.isWhitespace c || c = ':')

def headers (check : Checker) (scope : Scope) (raw : RawStep) : Check Pairs :=
  match raw.headers with
  | none => pure []
  | some given =>
    Checked.each (fun (entry : String × Spanned String) => do
      problemIf (isHeaderName entry.1 = false) entry.2.referenced s!"`{entry.1}` is not a header name."
      check.placeholders scope entry.2.referenced entry.2.value
      pure (entry.1, entry.2.value)) given.value

def oneBody (raw : RawStep) : Check Unit :=
  match raw.body, raw.json with
  | some _, some json =>
    problem json.referenced "A request has one body: `body` as text, or `json`. Not both."
  | _, _ => pure ()

def http (check : Checker) (scope : Scope) (raw : RawStep) : Check Action := do
  let (method, url) ← check.request scope raw
  let headers ← check.headers scope raw
  oneBody raw
  let json ← check.text scope raw.json
  let body ← check.text scope raw.body
  let expect ← check.httpExpect scope raw
  let timeoutSecs ← timeout raw
  pure (.http method url headers body json expect timeoutSecs)

/-! ### The browser -/

def mappingUsage (key : String) (wanted : List String) : String :=
  "`" ++ key ++ ": \x7b " ++ ", ".intercalate (wanted.map fun w => w ++ ": \"…\"") ++ " \x7d`"

def browserText (check : Checker) (scope : Scope) (at_ : Location) (key : String) (arg : BrowserArg)
    (what : String) : Check (Option String) :=
  let wrong : Check (Option String) := do
    problem at_ s!"`{key}` takes {what}, like `{key}: \"…\"`."
    pure none
  match arg with
  | .text text =>
    if trimmed text ≠ "" then do
      check.placeholders scope at_ text
      pure (some text)
    else wrong
  | .map _ => wrong

def browserField (check : Checker) (scope : Scope) (at_ : Location) (key : String)
    (wanted data : List String) (entries : Pairs) (name : String) : Check (Option String) :=
  let missing : Check (Option String) := do
    problem at_ s!"`{key}` needs `{name}`: {mappingUsage key wanted}."
    pure none
  match entries.lookup name with
  | some value =>
    if name ∈ data ∨ trimmed value ≠ "" then do
      check.placeholders scope at_ value
      pure (some value)
    else missing
  | none => missing

def browserFields (check : Checker) (scope : Scope) (at_ : Location) (key : String)
    (arg : BrowserArg) (wanted data : List String) : Check (Option (List String)) :=
  match arg with
  | .text _ => do
    problem at_ s!"`{key}` takes {mappingUsage key wanted}."
    pure none
  | .map entries => do
    let _ ← Checked.each (fun (entry : String × String) =>
      problemIf (entry.1 ∉ wanted) at_
        s!"`{key}` has no `{entry.1}`. It takes {mappingUsage key wanted}.") entries
    if entries.any (fun entry => entry.1 ∉ wanted) then pure none
    else do
      let values ← Checked.each (check.browserField scope at_ key wanted data entries) wanted
      pure (if values.all (·.isSome) then some (values.filterMap id) else none)

/-- One item of a `do` list: exactly one key, from the vocabulary, with the shape it takes. -/
def browserAction (check : Checker) (scope : Scope) (item : BrowserItem) :
    Check (Option BrowserAction) :=
  let at_ := item.referenced
  match item.value with
  | [(key, arg)] =>
    let text := check.browserText scope at_ key arg
    let fields := check.browserFields scope at_ key arg
    match key with
    | "goto" => do
      let url ← text "an address"
      pure (url.map .goto)
    | "click" => do
      let selector ← text "a selector"
      pure (selector.map .click)
    | "fill" => do
      let values ← fields ["selector", "text"] ["text"]
      pure (match values with
        | some [selector, text] => some (.fill selector text)
        | _ => none)
    | "press" => do
      let pressed ← text "a key, like `Enter`"
      match pressed with
      | none => pure none
      | some name =>
        if 1 < name.length ∧ name ∉ KEYS then do
          problem at_ (s!"`{name}` is not a key `press` knows. Use a single character, or one of: " ++
            ", ".intercalate KEYS ++ ".")
          pure none
        else pure (some (.press name))
    | "select" => do
      let values ← fields ["selector", "value"] ["value"]
      pure (match values with
        | some [selector, value] => some (.select selector value)
        | _ => none)
    | "wait_for" =>
      match arg with
      | .text _ => do
        let selector ← text "a selector, or `\x7b text: … \x7d`"
        pure (selector.map fun selector => .waitFor (some selector) none)
      | .map _ => do
        let values ← fields ["text"] []
        pure (values.map fun values => .waitFor none values.head?)
    | "expect_text" => do
      let text ← text "the text to find on the page"
      pure (text.map .expectText)
    | "expect_visible" => do
      let selector ← text "a selector"
      pure (selector.map .expectVisible)
    | "expect_hidden" => do
      let selector ← text "a selector"
      pure (selector.map .expectHidden)
    | "expect_url" => do
      let pattern ← text "a pattern over the address, like `**/dashboard`"
      pure (pattern.map .expectUrl)
    | "expect_title" => do
      let title ← text "the page title"
      pure (title.map .expectTitle)
    | "screenshot" => do
      let name ← text "a name for the file"
      pure (name.map .screenshot)
    | _ => do
      problem at_ s!"`{key}` is not a browser action{suggestion key BROWSER_ACTIONS}"
      pure none
  | _ => do
    problem at_ ("Each action in `do` is one key and its value, like `click: \"#save\"`. The " ++
      s!"actions are {list BROWSER_ACTIONS}.")
    pure none

def screenshots : Option (Spanned String) → Check Screenshots
  | none => pure .onFailure
  | some field =>
    match field.value with
    | "on_failure" => pure .onFailure
    | "every_step" => pure .everyStep
    | "never" => pure .never
    | other => do
      problem field.referenced
        (s!"`{other}` is not a time to take screenshots. Use `on_failure`, `every_step` or " ++
          "`never`.")
      pure .onFailure

def parseU32 (text : Text) : Option Nat :=
  let digits := if text.head? = some '+' then text.tail else text
  if digits ≠ [] ∧ digits.all Char.isDigit ∧ Yaml.digits digits < 2^32 then
    some (Yaml.digits digits)
  else none

def viewportOf (text : String) : Option Viewport :=
  (Text.cut ['x'] (Text.trim text.toList)).bind fun (w, h) =>
    ((parseU32 w).filter (0 < ·)).bind fun width =>
      ((parseU32 h).filter (0 < ·)).map fun height => ⟨width, height⟩

def viewport : Option (Spanned String) → Check (Option Viewport)
  | none => pure none
  | some field => do
    problemIf (viewportOf field.value = none) field.referenced
      s!"`{field.value}` is not a viewport. Write it as width by height, like `1280x800`."
    pure (viewportOf field.value)

def browserActions (check : Checker) (scope : Scope) (raw : RawStep) :
    Check (List (Option BrowserAction)) :=
  match raw.actions with
  | none => do
    problem raw.action.referenced "A `browser` step needs `do`: the list of actions on the page."
    pure []
  | some given => do
    problemIf (given.value.isEmpty = true) given.referenced "`do` is empty."
    Checked.each (check.browserAction scope) given.value

def browser (check : Checker) (scope : Scope) (raw : RawStep) : Check Action := do
  let actions ← check.browserActions scope raw
  let screenshots ← screenshots raw.screenshots
  let viewport ← viewport raw.viewport
  let timeoutSecs ← timeout raw
  pure (.browser (actions.filterMap id) screenshots viewport (raw.headed.any (·.value)) timeoutSecs)

def interval (raw : RawStep) : Check (Option Nat) :=
  match raw.interval with
  | none => pure none
  | some field => duration field "an interval"

def action (check : Checker) (scope : Scope) (raw : RawStep) : Check Action :=
  match raw.action.value with
  | "run" => do
    let program ← check.required scope raw.program raw "program" "what to run"
    let args ← check.args scope raw
    let cwd ← cwd raw
    let env ← check.env scope raw.env
    let stdin ← check.text scope raw.stdin
    let expect ← check.processExpect scope raw
    let timeoutSecs ← timeout raw
    pure (.run program args cwd env stdin expect timeoutSecs)
  | "shell" => do
    let line ← line raw
    let cwd ← cwd raw
    let env ← check.env scope raw.env
    let expect ← check.processExpect scope raw
    let timeoutSecs ← timeout raw
    pure (.shell line cwd env expect timeoutSecs)
  | "start" => do
    let program ← check.required scope raw.program raw "program" "what to start"
    let args ← check.args scope raw
    let cwd ← cwd raw
    let env ← check.env scope raw.env
    pure (.start program args cwd env)
  | "wait_for" => do
    let target ← check.waitTarget scope raw
    let interval ← interval raw
    let timeoutSecs ← timeout raw
    pure (.waitFor target (interval.getD 1) timeoutSecs)
  | "http" => check.http scope raw
  | "browser" => check.browser scope raw
  | _ => do
    let prompt ← check.required scope raw.prompt raw "prompt" "what the person should check"
    pure (.manual prompt)

def step (check : Checker) (scope : Scope) (raw : RawStep) : Check Step :=
  if raw.action.value ∉ ACTIONS then do
    problem raw.action.referenced
      s!"`{raw.action.value}` is not an action. The actions are {list ACTIONS}."
    pure ⟨raw.id.value, .manual ""⟩
  else do
    let _ ← Checked.each (fun (key, location) =>
      problemIf (key ∉ allowed raw.action.value) location
        s!"`{key}` is not something a `{raw.action.value}` step takes.") raw.present
    let action ← check.action scope raw
    pure ⟨raw.id.value, action⟩

def ids (before : List RawStep) : List RawStep → Check Unit
  | [] => pure ()
  | step :: steps => do
    let id := step.id.value
    problemIf (isName id = false) step.id.referenced
      (s!"`{id}` cannot be a step's id. Start with a letter; use lowercase letters, digits, `_` " ++
        "and `-`.")
    match before.find? (fun s => s.id.value = id) with
    | some first =>
      problem step.id.referenced
        s!"There is already a step `{id}`, on line {first.id.referenced.line}."
    | none => pure ()
    ids (before ++ [step]) steps

/-- The steps of a list in turn; `before` are the ids of the steps above. -/
def phase (check : Checker) (inputs : List (String × InputKind)) (actions : List (String × String))
    (before : List String) : List RawStep → Check (List Step)
  | [] => pure []
  | raw :: rest => do
    let step ← check.step ⟨inputs, actions, before⟩ raw
    let steps ← check.phase inputs actions (before ++ [raw.id.value]) rest
    pure (step :: steps)

def inputKind (raw : Spanned String) : Check InputKind :=
  match raw.value with
  | "text" => pure .text
  | "choice" => pure .choice
  | "harness" => do
    problem raw.referenced
      "A smoke test has no `harness` input: it starts no agent. Use `text` or `choice`."
    pure .text
  | other => do
    problem raw.referenced s!"`{other}` is not a kind of input. Use `text` or `choice`."
    pure .text

/-- The options of a choice, each once; `above` are the ones listed before. -/
def choices (above : List String) : List (Spanned String) → Check (List String)
  | [] => pure []
  | option :: options => do
    problemIf (option.value ∈ above) option.referenced s!"`{option.value}` is listed twice."
    let rest ← choices (above ++ [option.value]) options
    pure (option.value :: rest)

def options (raw : RawInput) (kind : InputKind) : Check (List String) :=
  match raw.options, kind with
  | some given, .choice => do
    let options ← choices [] given.value
    problemIf (options = []) given.referenced "A choice needs at least one option."
    pure options
  | none, .choice => do
    problem raw.kind.referenced
      s!"The choice `{raw.id.value}` needs `options`: the answers to choose from."
    pure []
  | some given, _ => do
    problem given.referenced "Only a `choice` input has `options`."
    pure []
  | none, _ => pure []

def inputTwice (above : List RawInput) (raw : RawInput) : Check Unit :=
  match above.find? (fun other => other.id.value = raw.id.value) with
  | some first =>
    problem raw.id.referenced
      s!"There is already an input `{raw.id.value}`, on line {first.id.referenced.line}."
  | none => pure ()

def inputDefault (raw : RawInput) (kind : InputKind) (options : List String) : Check Unit :=
  match raw.default with
  | some default =>
    problemIf (kind = .choice ∧ options ≠ [] ∧ default.value ∉ options) default.referenced
      s!"`{default.value}` is not one of the options."
  | none => pure ()

/-- One input; `above` are the ones before it, the nearest first. -/
def input (above : List RawInput) (raw : RawInput) : Check Input := do
  let id := raw.id.value
  problemIf (isName id = false) raw.id.referenced
    (s!"`{id}` cannot be an input's id. Start with a letter; use lowercase letters, digits, `_` " ++
      "and `-`.")
  inputTwice above raw
  let kind ← inputKind raw.kind
  let options ← options raw kind
  inputDefault raw kind options
  let label := ((raw.label.map trimmed).filter (· ≠ "")).getD id
  pure ⟨id, kind, label, raw.required, raw.default.map (·.value), options⟩

def inputs (above : List RawInput) : List RawInput → Check (List Input)
  | [] => pure []
  | raw :: rest => do
    let input ← input above raw
    let inputs ← inputs (raw :: above) rest
    pure (input :: inputs)

def runTimeout (raw : RawTest) : Check (Option Nat) :=
  match raw.timeout with
  | none => pure none
  | some field => duration field "a timeout"

def test (check : Checker) (raw : RawTest) : Check Test := do
  problemIf (isId raw.id.value = false) raw.id.referenced
    s!"`{raw.id.value}` cannot be an id. Use lowercase letters, digits and `-`, like `login`."
  problemIf (trimmed raw.name.value = "") raw.name.referenced "The name is empty."
  problemIf (raw.version.value ≠ SCHEMA_VERSION) raw.version.referenced
    s!"`version` is {SCHEMA_VERSION} for this Yardsort."
  let timeoutSecs ← runTimeout raw
  let inputs ← inputs [] raw.inputs
  problemIf (raw.steps.value.isEmpty = true) raw.steps.referenced
    "A smoke test needs at least one step."
  let all := raw.setup ++ raw.steps.value ++ raw.teardown
  ids [] all
  let kinds := inputs.map fun input => (input.id, input.kind)
  let actions := all.map fun step => (step.id.value, step.action.value)
  let named := fun (steps : List RawStep) => steps.map (·.id.value)
  let setup ← check.phase kinds actions [] raw.setup
  let steps ← check.phase kinds actions (named raw.setup) raw.steps.value
  let teardown ← check.phase kinds actions (named (raw.setup ++ raw.steps.value)) raw.teardown
  pure { id := raw.id.value, name := trimmed raw.name.value, inputs := inputs,
         timeoutSecs := timeoutSecs.getD DEFAULT_RUN_TIMEOUT_SECS, setup := setup, steps := steps,
         teardown := teardown }

end Checker

def standsBefore (a b : Problem) : Bool :=
  let (la, lb) := (a.line.getD 0, b.line.getD 0)
  la < lb || (la = lb && a.column.getD 0 ≤ b.column.getD 0)

def parse (reader : Reader) (text : String) : Except Invalid Test :=
  let heading := heading (reader.head text) "smoke test" SCHEMA_VERSION
  match heading.laterVersion with
  | some later => .error { id := heading.id, name := heading.name, problems := [later] }
  | none =>
    match reader.file text with
    | .error problem => .error { id := heading.id, name := heading.name, problems := [problem] }
    | .ok raw =>
      let check : Checker := { source := text.toList, reason := reader.regex }
      let checked := check.test raw
      if checked.problems = [] then .ok checked.value
      else
        .error { id := some checked.value.id, name := some checked.value.name,
                 problems := (checked.problems.mergeSort standsBefore).destutter (· ≠ ·) }

end Yardsort.Smoke
