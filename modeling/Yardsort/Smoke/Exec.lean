import Yardsort.Smoke.Runner
import Yardsort.Workflow.Place

/- Carrying out one step (`core/src/smoke/exec.rs`): what a run's variables mean, what is rendered
   of a step's fields, the command a step starts with its environment, and what the step comes to.

   What the machine does is a parameter or an answer: the user's environment, where a program and
   a folder are found (`Context`), what is in an output file (`read`), and how a process, a request
   or a page ended (`Answer`). A browser is started by `browser.rs` with none of the run's
   environment. -/
namespace Yardsort.Smoke
open Yardsort.Lib Runner

structure Vars where
  place : Workflow.Place
  runId : String
  port : Nat
  dir : String
  inputs : Pairs
  /-- The project's test environment. -/
  env : Pairs
  /-- What each finished step left, by step id, the last first. -/
  steps : List (String × Pairs)

def keptAsFile (field : String) : Bool := field = "stdout" || field = "stderr"

def trimLines (text : String) : String :=
  String.ofList (text.toList.reverse.dropWhile fun c => c = '\n' || c = '\r').reverse

section
variable (read : String → String)

def Vars.lookup (vars : Vars) : List String → Option String
  | ["run", "id"] => some vars.runId
  | ["run", "port"] => some (toString vars.port)
  | ["run", "dir"] => some vars.dir
  | ["inputs", id] => vars.inputs.lookup id
  | ["env", name] => vars.env.lookup name
  | ["steps", id, field] =>
    ((vars.steps.lookup id).bind fun outputs => outputs.lookup field).map fun value =>
      -- The variable is the text of the file.
      if keptAsFile field then trimLines (read value) else value
  | path => vars.place.var path

def Vars.render (vars : Vars) (text : String) : String :=
  Template.render text (vars.lookup read)

end

def envSuffix (id : String) : String :=
  String.ofList (id.toList.map fun c => if c.isAlphanum then c.toUpper else '_')

def inputName (id : String) : String := "YS_INPUT_" ++ envSuffix id

def envVariable (name : String) : String := "YS_ENV_" ++ name

def Vars.own (vars : Vars) : Pairs :=
  [("YS_RUN_ID", vars.runId), ("YS_RUN_PORT", toString vars.port), ("YS_RUN_DIR", vars.dir),
    ("YS_WORKSPACE_PATH", vars.place.workspacePath)]

def Vars.processEnv (vars : Vars) : Pairs :=
  vars.own ++ vars.inputs.map (fun (id, value) => (inputName id, value)) ++
    vars.env.map fun (name, value) => (envVariable name, value)

/-! ## What is rendered -/

def BrowserAction.filled (r : String → String) : BrowserAction → BrowserAction
  | goto url => goto (r url)
  | click selector => click (r selector)
  | fill selector text => .fill (r selector) (r text)
  | press key => press key
  | select selector value => select (r selector) (r value)
  | waitFor selector text => waitFor (selector.map r) (text.map r)
  | expectText text => expectText (r text)
  | expectVisible selector => expectVisible (r selector)
  | expectHidden selector => expectHidden (r selector)
  | expectUrl pattern => expectUrl (r pattern)
  | expectTitle title => expectTitle (r title)
  | screenshot name => screenshot name

/-- `rendered`: expectations with their variables filled in. -/
def ProcessExpect.filled (r : String → String) (e : ProcessExpect) : ProcessExpect :=
  { e with
    stdoutContains := e.stdoutContains.map r
    stdoutJson := e.stdoutJson.map fun json => ⟨json.path, r json.equals⟩ }

def HttpExpect.filled (r : String → String) (e : HttpExpect) : HttpExpect :=
  { e with
    json := e.json.map r
    bodyContains := e.bodyContains.map r
    header := e.header.map fun header => ⟨header.name, r header.contains⟩ }

def WaitTarget.filled (r : String → String) : WaitTarget → WaitTarget
  | port text => port (r text)
  | url text => url (r text)
  | file text => file (r text)
  | command program args => command (r program) (args.map r)

def filledPairs (r : String → String) (pairs : Pairs) : Pairs := pairs.map fun (k, v) => (k, r v)

/-- A step's action as it is carried out. A `shell` line goes to the shell as written. -/
def Action.filled (r : String → String) : Action → Action
  | run program args cwd env stdin expect timeoutSecs =>
    run (r program) (args.map r) cwd (filledPairs r env) (stdin.map r) (expect.filled r) timeoutSecs
  | shell line cwd env expect timeoutSecs =>
    shell line cwd (filledPairs r env) (expect.filled r) timeoutSecs
  | start program args cwd env => start (r program) (args.map r) cwd (filledPairs r env)
  | waitFor target intervalSecs timeoutSecs => waitFor (target.filled r) intervalSecs timeoutSecs
  | http method url headers body json expect timeoutSecs =>
    http method (r url) (filledPairs r headers) (body.map r) (json.map r) (expect.filled r) timeoutSecs
  | browser actions screenshots viewport headed timeoutSecs =>
    browser (actions.map (·.filled r)) screenshots viewport headed timeoutSecs
  | manual prompt => manual (r prompt)

def ProcessExpect.rendered (e : ProcessExpect) : List String :=
  e.stdoutContains.toList ++ (e.stdoutJson.map (·.equals)).toList

def HttpExpect.rendered (e : HttpExpect) : List String :=
  e.json.toList ++ e.bodyContains.toList ++ (e.header.map (·.contains)).toList

def BrowserAction.rendered : BrowserAction → List String
  | goto text | click text | expectText text | expectVisible text | expectHidden text
  | expectUrl text | expectTitle text => [text]
  | fill selector text | select selector text => [selector, text]
  | waitFor selector text => selector.toList ++ text.toList
  | press _ | screenshot _ => []

def Action.rendered : Action → List String
  | run program args _ env stdin expect _ =>
    program :: args ++ env.map (·.2) ++ stdin.toList ++ expect.rendered
  | shell _ _ env expect _ => env.map (·.2) ++ expect.rendered
  | start program args _ env => program :: args ++ env.map (·.2)
  | waitFor target _ _ => target.texts
  | http _ url headers body json expect _ =>
    url :: headers.map (·.2) ++ body.toList ++ json.toList ++ expect.rendered
  | browser actions _ _ _ _ => actions.flatMap BrowserAction.rendered
  | manual prompt => [prompt]

section
variable {r r' : String → String}

theorem map_rendered {text : Option String} (h : ∀ t ∈ text.toList, r t = r' t) :
    text.map r = text.map r' :=
  Option.map_congr fun t ht => h t (Option.mem_toList.mpr ht)

theorem filledPairs_congr {pairs : Pairs} (h : ∀ t ∈ pairs.map (·.2), r t = r' t) :
    filledPairs r pairs = filledPairs r' pairs := by
  apply map_congr_left
  intro entry hentry
  show (entry.1, r entry.2) = (entry.1, r' entry.2)
  rw [h entry.2 (mem_map_of_mem hentry)]

theorem ProcessExpect.filled_congr {e : ProcessExpect} (h : ∀ t ∈ e.rendered, r t = r' t) :
    e.filled r = e.filled r' := by
  obtain ⟨exit, contains, matches_, empty, json⟩ := e
  have hcontains : contains.map r = contains.map r' :=
    map_rendered fun t ht => h t (mem_append_left _ ht)
  cases json with
  | none => simp [filled, hcontains]
  | some json =>
    have hjson : r json.equals = r' json.equals := h _ (by simp [rendered])
    simp [filled, hcontains, hjson]

theorem HttpExpect.filled_congr {e : HttpExpect} (h : ∀ t ∈ e.rendered, r t = r' t) :
    e.filled r = e.filled r' := by
  obtain ⟨status, json, contains, matches_, header⟩ := e
  have hjson : json.map r = json.map r' := map_rendered fun t ht => h t (by simp_all [rendered])
  have hcontains : contains.map r = contains.map r' :=
    map_rendered fun t ht => h t (by simp_all [rendered])
  cases header with
  | none => simp [filled, hjson, hcontains]
  | some header =>
    have hheader : r header.contains = r' header.contains := h _ (by simp [rendered])
    simp [filled, hjson, hcontains, hheader]

theorem BrowserAction.filled_congr {action : BrowserAction}
    (h : ∀ t ∈ action.rendered, r t = r' t) : action.filled r = action.filled r' := by
  cases action with
  | waitFor selector text =>
    have hselector : selector.map r = selector.map r' :=
      map_rendered fun t ht => h t (mem_append_left _ ht)
    have htext : text.map r = text.map r' :=
      map_rendered fun t ht => h t (mem_append_right _ ht)
    simp [filled, hselector, htext]
  | _ => simp_all [filled, rendered]

theorem Action.filled_congr {action : Action} (h : ∀ t ∈ action.rendered, r t = r' t) :
    action.filled r = action.filled r' := by
  cases action with
  | run program args cwd env stdin expect timeoutSecs =>
    simp only [rendered, mem_cons, mem_append] at h
    have hargs : args.map r = args.map r' := map_congr_left fun t ht => h t (by simp [ht])
    have henv : filledPairs r env = filledPairs r' env :=
      filledPairs_congr fun t ht => h t (.inl (.inl (.inr ht)))
    have hstdin : stdin.map r = stdin.map r' := map_rendered fun t ht => h t (.inl (.inr ht))
    have hexpect := ProcessExpect.filled_congr fun t ht => h t (.inr ht)
    simp [filled, h program (by simp), hargs, henv, hstdin, hexpect]
  | shell line cwd env expect timeoutSecs =>
    simp only [rendered, mem_append] at h
    have henv := filledPairs_congr fun t ht => h t (Or.inl ht)
    have hexpect := ProcessExpect.filled_congr fun t ht => h t (Or.inr ht)
    simp [filled, henv, hexpect]
  | start program args cwd env =>
    simp only [rendered, mem_cons, mem_append] at h
    have hargs : args.map r = args.map r' := map_congr_left fun t ht => h t (by simp [ht])
    have henv : filledPairs r env = filledPairs r' env :=
      filledPairs_congr fun t ht => h t (.inr ht)
    simp [filled, h program (by simp), hargs, henv]
  | waitFor target intervalSecs timeoutSecs =>
    cases target with
    | command program args =>
      have hargs : args.map r = args.map r' :=
        map_congr_left fun t ht => h t (mem_cons_of_mem _ ht)
      simp [filled, WaitTarget.filled, h program (mem_cons_self ..), hargs]
    | _ => simp_all [filled, WaitTarget.filled, rendered, WaitTarget.texts]
  | http method url headers body json expect timeoutSecs =>
    simp only [rendered, mem_cons, mem_append] at h
    have hheaders : filledPairs r headers = filledPairs r' headers :=
      filledPairs_congr fun t ht => h t (.inl (.inl (.inl (.inr ht))))
    have hbody : body.map r = body.map r' := map_rendered fun t ht => h t (.inl (.inl (.inr ht)))
    have hjson : json.map r = json.map r' := map_rendered fun t ht => h t (.inl (.inr ht))
    have hexpect := HttpExpect.filled_congr fun t ht => h t (.inr ht)
    simp [filled, h url (by simp), hheaders, hbody, hjson, hexpect]
  | browser actions screenshots viewport headed timeoutSecs =>
    have hactions : actions.map (·.filled r) = actions.map (·.filled r') := by
      apply map_congr_left
      intro action haction
      exact BrowserAction.filled_congr fun t ht => h t (mem_flatMap.mpr ⟨action, haction, ht⟩)
    simp [filled, hactions]
  | manual prompt => simp [filled, h prompt (List.mem_singleton_self _)]

end

/-- A process to start. Of its environment, what is set later counts. -/
structure Command where
  program : String
  args : List String
  cwd : String
  env : Pairs

def getEnv (env : Pairs) (name : String) : Option String := env.reverse.lookup name

structure Context where
  env : Pairs
  worktree : String
  stepDir : String → Except String String
  /-- A program by name, as the user's shell would find it. -/
  findProgram : String → String → Option String
  shell : String

def Context.cwd (ctx : Context) : Option String → Except String String
  | none => .ok ctx.worktree
  | some cwd => ctx.stepDir cwd

def Context.program (ctx : Context) (name cwd : String) : Except String String :=
  match ctx.findProgram name cwd with
  | some path => .ok path
  | none => .error ("`" ++ name ++ "` is not on your PATH.")

def Context.base (ctx : Context) (vars : Vars) : Pairs := ctx.env ++ vars.processEnv

def Context.command (ctx : Context) (vars : Vars) (program : String) (args : List String)
    (cwd : String) (env : Pairs) : Command :=
  ⟨program, args, cwd, ctx.base vars ++ env⟩

def Context.shellAt (ctx : Context) (cwd : String) : Except String (String × List String) := do
  let path ← if '/' ∈ ctx.shell.toList then pure ctx.shell else ctx.program ctx.shell cwd
  pure (path, ["-l", "-c"])

def Context.start (ctx : Context) (vars : Vars) (read : String → String) (action : Action) :
    Except String (Option Command) :=
  match action.filled (vars.render read) with
  | .run program args cwd env _ _ _ | .start program args cwd env => do
    let cwd ← ctx.cwd cwd
    let program ← ctx.program program cwd
    pure (some (ctx.command vars program args cwd env))
  | .shell line cwd env _ _ => do
    let cwd ← ctx.cwd cwd
    let (shell, args) ← ctx.shellAt cwd
    pure (some (ctx.command vars shell (args ++ [line]) cwd env))
  | .waitFor (.command program args) _ _ => do
    let program ← ctx.program program ctx.worktree
    pure (some (ctx.command vars program args ctx.worktree []))
  | _ => pure none

inductive Answer where
  /-- It was not started, was not answered, or was given up. -/
  | failed (why : String)
  | exited (exit : Option Int) (notes : List String)
  /-- It ran for too long, or wrote too much. -/
  | cut (why : String)
  | stopped (stop : Stop)
  | started (pid : Nat) (process : Option String)
  | ready (waited : String)
  | responded (status : Nat) (body headers : String) (notes : List String)
  | browsed (url title : Option String) (passed : Bool) (note : Option String)
      (screenshots : List String) (stopped : Option Stop)
  /-- A `manual` step's answer, which the runner waits for. -/
  | given (passed : Bool) (note : Option String)

structure Files where
  stdout : String
  stderr : String

def Files.outputs (files : Files) : Pairs := [("stderr", files.stderr), ("stdout", files.stdout)]

def endFailed (why : String) : StepEnd := ⟨.failed, none, [], some why, [], none⟩

def endStopped (stop : Stop) (outputs : Pairs) : StepEnd :=
  let note := match stop with
    | .cancelled => "Cancelled while this ran."
    | .runTimedOut => "The run's time limit passed while this ran."
    | .serverExited stepId exit => "`" ++ stepId ++ "` exited with " ++ exit ++ " while this ran."
    | .serverOutputCapped stepId => "`" ++ stepId ++ "` wrote more than " ++ OUTPUT_CAP_WORDS ++
        " of output while this ran, so it was stopped."
  ⟨stop.status, none, outputs, some note, [], some stop⟩

def exitWords : Option Int → String
  | some code => toString code
  | none => "signal"

def ended (outputs : Pairs) (exit : Option Int) (notes : List String) : StepEnd :=
  ⟨if notes = [] then .passed else .failed, exit, outputs,
    if notes = [] then none else some ("\n".intercalate notes), [], none⟩

/-- What a body that was cut is noted with: a long body is not a failure by itself. -/
def LONG_BODY : String := "The body is longer than 256 KiB; only the start is kept."

def respondedEnd (outputs : Pairs) (notes : List String) : StepEnd :=
  if notes = [LONG_BODY] then ⟨.passed, none, outputs, some LONG_BODY, [], none⟩
  else ended outputs none notes

def browsedEnd (url title : Option String) (passed : Bool) (note : Option String)
    (screenshots : List String) (stopped : Option Stop) : StepEnd :=
  let outputs : Pairs := (title.map (("title", ·))).toList ++ (url.map (("url", ·))).toList
  match stopped with
  | some .cancelled =>
    ⟨.cancelled, none, outputs, some "Cancelled while this ran.", screenshots, stopped⟩
  | some _ =>
    ⟨.failed, none, outputs, some "The run's time limit passed while this ran.", screenshots,
      stopped⟩
  | none =>
    if passed then ⟨.passed, none, outputs, none, screenshots, none⟩
    else ⟨.failed, none, outputs, note, screenshots, none⟩

/-- What `carry_out` hands back, for each answer its action may have. -/
def carryOut (files : Files) : Action → Answer → StepEnd
  | _, .failed why => endFailed why
  | .run .., .exited exit notes | .shell .., .exited exit notes =>
    ended (("exit", exitWords exit) :: files.outputs) exit notes
  | .run .., .cut why | .shell .., .cut why => { endFailed why with outputs := files.outputs }
  | .run .., .stopped stop | .shell .., .stopped stop => endStopped stop files.outputs
  | .start .., .started pid process =>
    ⟨.passed, none, ("pid", toString pid) :: (process.map (("process", ·))).toList ++ files.outputs,
      none, [], none⟩
  | .waitFor .., .ready waited => ⟨.passed, none, [("waited", waited)], none, [], none⟩
  | .waitFor .., .stopped stop | .http .., .stopped stop => endStopped stop []
  | .http .., .responded status body headers notes =>
    respondedEnd [("body", body), ("headers", headers), ("status", toString status)] notes
  | .browser .., .browsed url title passed note screenshots stopped =>
    browsedEnd url title passed note screenshots stopped
  -- Its action has no such answer.
  | _, _ => endFailed ""

end Yardsort.Smoke
