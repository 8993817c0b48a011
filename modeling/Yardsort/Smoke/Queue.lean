import Yardsort.Smoke.Store

/- Asking for a smoke test run (`core/src/smoke/runs.rs`): `queue`, whoever asks, `queue_seen`
   and `approve_seen`, by any number of callers in any number of processes, beside whatever else
   is done to runs, projects and settings.

   A caller goes on by one store operation, or one look at the worktree, at a time. What it finds
   outside the store (the file as it is then, the browser, a new id, the clock) is in the action.
   `hash` stands for SHA-256. The system also keeps what is only looked at: the texts a person
   approved and of what (`named`, `approvedRuns`), and how each run came into the queue
   (`entered`). -/
namespace Yardsort.Smoke

structure IpcError where
  code : String
  message : String

structure Request where
  testId : String
  workspaceId : String
  inputs : Pairs
  requestedBy : String
  sessionRecordId : Option String
  /-- Nobody is there to approve the file or answer a step. -/
  unattended : Bool

structure Queued where
  id : String
  awaitingApproval : Bool

structure Asked where
  request : Request
  /-- The file's text as the dialog showed it, for `queue_seen`. -/
  shown : Option String
  workspace : WorkspaceRow
  entry : Entry
  test : Test

inductive Job where
  | queue (request : Request) (shown : Option String)
  | finding (request : Request) (shown : Option String) (workspace : WorkspaceRow)
  | browser (asked : Asked)
  | env (asked : Asked) (inputs : Pairs)
  | settings (asked : Asked) (inputs : Pairs)
  | approved (asked : Asked) (inputs : Pairs) (settings : TestSettings)
  | inserting (asked : Asked) (inputs : Pairs) (approved : Bool)
  /-- `queue_seen`, with its run waiting for approval: before it reads and approves it. -/
  | seen (id shown : String)
  | approving (id shown : String)
  | approveSeen (workspaceId testId shown : String)
  | approveFinding (workspace : WorkspaceRow) (testId shown : String)
  | approveTest (projectId testId shown : String)
  | atEnd (result : Except IpcError Queued)
  | overSeen (approved : Bool)

structure Look where
  entry : Option Entry
  known : List String
  browserFound : Bool
  missingBrowser : String
  id : String
  now : Int

/-- A run came into the queue: as which, and how. -/
structure Entered where
  id : String
  projectId : Option String
  testId : String
  definition : String
  /-- Through the approval of this run. -/
  byApproval : Bool
  /-- An approval of its file was recorded when it came. -/
  recorded : Bool
  /-- The project asked every time when it came. -/
  asking : Bool

structure Doors where
  store : Store
  callers : List Job
  /-- The texts a person approved, for a project and a test. -/
  named : List (String × String × String)
  /-- The runs a person approved, and the text that was shown of each. -/
  approvedRuns : List (String × String)
  entered : List Entered
  made : List String

inductive Act where
  | queue (request : Request)
  /-- The Run dialog, of a file that was shown. -/
  | queueSeen (request : Request) (shown : String)
  /-- The schedule dialog. -/
  | approveSeen (workspaceId testId shown : String)
  | go (caller : Nat) (look : Look)
  | approveRun (id : String)
  | refuseRun (id : String) (now : Int)
  | cancelRun (id reason : String) (now : Int)
  | startRun (id : String) (port : Nat) (outputDir : String) (now : Int)
  | moveStep (id stepId : String) (from_ : List StepStatus) (change : StepChange) (now : Int)
  | finishRun (id : String) (status : RunStatus) (error : Option String) (now : Int)
  | endInterrupted (error : String) (now : Int)
  | prune (projectId : Option String) (before : Int)
  | addProject (id : String)
  | removeProject (id : String)
  | addWorkspace (row : WorkspaceRow)
  | updateWorkspace (id : String) (archived forgotten : Bool)
  | removeWorktree (id : String)
  | setSettings (projectId : String) (settings : TestSettings)
  | setEnv (projectId : String) (entries : Pairs)

/-! ## The door -/

def notThere : IpcError := ⟨"workspace_not_found", "That workspace is not there."⟩

def isArchived (workspace : WorkspaceRow) : IpcError :=
  ⟨"workspace_archived", "`" ++ workspace.name ++
    "` is archived. Restore it before running a smoke test in it."⟩

def notFound (request : Request) (workspace : WorkspaceRow) (known : List String) : IpcError :=
  ⟨"test_not_found",
    if known = [] then
      "There is no smoke test `" ++ request.testId ++ "`: " ++ workspace.path ++
        "/.yardsort/tests has none."
    else
      "There is no smoke test `" ++ request.testId ++ "`. There are: " ++
        ", ".intercalate known ++ "."⟩

def notValid (entry : Entry) : IpcError :=
  ⟨"test_invalid", "`" ++ entry.id ++ "` has problems and cannot run. `ys test show " ++
    entry.id ++ "` lists them."⟩

def needsBrowser (entry : Entry) (step : Step) (missing : String) : IpcError :=
  ⟨"test_needs_browser", "`" ++ entry.id ++ "` has a `browser` step (`" ++ step.id ++ "`), and " ++
    missing ++ ". Name one under the project's smoke test settings."⟩

def envMissing (entry : Entry) (missing : List String) : IpcError :=
  let one := missing.length = 1
  ⟨"test_env_missing", "`" ++ entry.id ++ "` uses " ++
    ", ".intercalate (missing.map fun name => "`\x7b\x7b env." ++ name ++ " \x7d\x7d`") ++
    ", which " ++ (if one then "is" else "are") ++
    " not set in the project's test environment. Set " ++ (if one then "it" else "them") ++
    " in Yardsort, under the project's smoke test settings."⟩

def alreadyRunning (asked : Asked) (other : String) : IpcError :=
  ⟨"test_already_running", "`" ++ asked.entry.id ++ "` is already going in `" ++
    asked.workspace.name ++ "` (run " ++ String.ofList (other.toList.take 8) ++
    "). Wait for it, or cancel it."⟩

/-- Why a run would wait for a person, when it would. -/
def personNeeded (test : Test) (workspaceName : String) (askEveryTime approved : Bool) :
    Option String :=
  match test.allSteps.find? fun (_, step) => step.action.isManual with
  | some (_, step) =>
    some ("The smoke test `" ++ test.id ++ "` has a step a person does (`" ++ step.id ++
      "`), and nobody is there to answer it.")
  | none =>
    if askEveryTime then
      some ("This project asks before every run of a smoke test, and nobody is there to say yes " ++
        "to `" ++ test.id ++ "`.")
    else if approved then none
    else
      some ("The smoke test `" ++ test.id ++ "` is new, or has changed since you approved it. " ++
        "Run it once in `" ++ workspaceName ++ "` to approve it.")

section
variable (hash : String → String)

def afterWorkspace (request : Request) (shown : Option String) (row : Option WorkspaceRow) : Job :=
  match row.filter (!·.forgotten) with
  | none => .atEnd (.error notThere)
  | some workspace =>
    if workspace.archived then .atEnd (.error (isArchived workspace))
    else .finding request shown workspace

def afterInputs (asked : Asked) : Job :=
  match checkInputs asked.test asked.request.inputs with
  | .error why => .atEnd (.error ⟨"test_inputs", why⟩)
  | .ok inputs => .env asked inputs

def afterFind (request : Request) (shown : Option String) (workspace : WorkspaceRow)
    (look : Look) : Job :=
  match look.entry.filter (·.id = request.testId) with
  | none => .atEnd (.error (notFound request workspace look.known))
  | some entry =>
    match entry.runnable with
    | none => .atEnd (.error (notValid entry))
    | some test =>
      let asked : Asked := ⟨request, shown, workspace, entry, test⟩
      if test.allSteps.any fun (_, step) => step.action.isBrowser then .browser asked
      else afterInputs asked

def afterBrowser (asked : Asked) (look : Look) : Job :=
  match asked.test.allSteps.find? fun (_, step) => step.action.isBrowser with
  | some (_, step) =>
    if look.browserFound then afterInputs asked
    else .atEnd (.error (needsBrowser asked.entry step look.missingBrowser))
  | none => afterInputs asked

def afterEnv (asked : Asked) (inputs : Pairs) (env : Pairs) : Job :=
  let missing := (envNames asked.test).filter fun name => !env.any (·.1 = name)
  if missing = [] then .settings asked inputs
  else .atEnd (.error (envMissing asked.entry missing))

/-- After the approval was looked up: approved, and the project does not ask to see every run. -/
def afterApproved (asked : Asked) (inputs : Pairs) (settings : TestSettings) (row : Bool) : Job :=
  let approved := row && !settings.askEveryTime
  match asked.request.unattended,
      personNeeded asked.test asked.workspace.name settings.askEveryTime approved with
  | true, some why => .atEnd (.error ⟨"test_needs_person", why⟩)
  | _, _ => .inserting asked inputs approved

def newRun (asked : Asked) (inputs : Pairs) (approved : Bool) (id : String) (now : Int) :
    TestRun where
  row :=
    { id
      projectId := some asked.workspace.projectId
      workspaceId := some asked.workspace.id
      workspaceName := asked.workspace.name
      testId := asked.entry.id
      testName := asked.test.name
      definition := asked.entry.text
      contentHash := hash asked.entry.text
      inputs
      status := if approved then .queued else .awaitingApproval
      requestedBy := asked.request.requestedBy
      sessionRecordId := asked.request.sessionRecordId
      port := none
      error := none
      outputDir := none
      cancelRequestedAt := none
      createdAt := now
      startedAt := none
      endedAt := none }
  steps := TestRun.queuedSteps asked.test

/-- After the run was inserted: `queue_seen` goes on where its run waits for approval. -/
def afterInsert (asked : Asked) (approved : Bool) (id : String) : Job :=
  match asked.shown with
  | some shown => if approved then .atEnd (.ok ⟨id, false⟩) else .seen id shown
  | none => .atEnd (.ok ⟨id, !approved⟩)

namespace Doors

def enter (s : Doors) (run : TestRun) (byApproval : Bool) (store : Store) : Entered where
  id := run.row.id
  projectId := run.row.projectId
  testId := run.row.testId
  definition := run.row.definition
  byApproval := byApproval
  recorded := run.row.projectId.any fun projectId =>
    store.testApproved projectId run.row.testId run.row.contentHash
  asking := run.row.projectId.any fun projectId =>
    (s.store.projectTestSettings projectId).askEveryTime

def approve (s : Doors) (id shown : String) : Doors :=
  let (ok, store) := s.store.approveTestRun id
  match s.store.testRun id with
  | some run =>
    if ok then
      { s with
        store
        approvedRuns := (id, shown) :: s.approvedRuns
        named := (run.row.projectId.map fun projectId =>
          (projectId, run.row.testId, shown)).toList ++ s.named
        entered := s.enter run true store :: s.entered }
    else s
  | none => s

def setJob (s : Doors) (i : Nat) (job : Job) : Doors := { s with callers := s.callers.set i job }

def insert (s : Doors) (i : Nat) (asked : Asked) (inputs : Pairs) (approved : Bool)
    (look : Look) : Option Doors :=
  let new := newRun hash asked inputs approved look.id look.now
  if look.id ∈ s.made then none
  else match s.store.queueTestRun new with
    | none => some (s.setJob i (.atEnd (.error ⟨"store", "The run could not be recorded."⟩)))
    | some (.alreadyRunning other, _) =>
      some (s.setJob i (.atEnd (.error (alreadyRunning asked other))))
    | some (.queued, store) =>
      some
        { (s.setJob i (afterInsert asked approved look.id)) with
          store
          made := look.id :: s.made
          entered := if approved then s.enter new false store :: s.entered else s.entered }

def goJob (s : Doors) (i : Nat) (look : Look) : Job → Option Doors
  | .queue request shown =>
    some (s.setJob i (afterWorkspace request shown (s.store.workspace request.workspaceId)))
  | .finding request shown workspace =>
    some (s.setJob i (afterFind request shown workspace look))
  | .browser asked => some (s.setJob i (afterBrowser asked look))
  | .env asked inputs =>
    some (s.setJob i (afterEnv asked inputs (s.store.projectTestEnv asked.workspace.projectId)))
  | .settings asked inputs =>
    some (s.setJob i
      (.approved asked inputs (s.store.projectTestSettings asked.workspace.projectId)))
  | .approved asked inputs settings =>
    some (s.setJob i (afterApproved asked inputs settings
      (s.store.testApproved asked.workspace.projectId asked.entry.id (hash asked.entry.text))))
  | .inserting asked inputs approved => s.insert hash i asked inputs approved look
  | .seen id shown =>
    if (s.store.testRun id).any (·.row.contentHash = hash shown) then
      some (s.setJob i (.approving id shown))
    else some (s.setJob i (.atEnd (.ok ⟨id, true⟩)))
  | .approving id shown => some ((s.approve id shown).setJob i (.atEnd (.ok ⟨id, false⟩)))
  | .approveSeen workspaceId testId shown =>
    match (s.store.workspace workspaceId).filter (!·.forgotten) with
    | none => some (s.setJob i (.overSeen false))
    | some workspace => some (s.setJob i (.approveFinding workspace testId shown))
  | .approveFinding workspace testId shown =>
    match (look.entry.filter (·.id = testId)).filter fun entry =>
        entry.runnable.isSome && hash entry.text = hash shown with
    | none => some (s.setJob i (.overSeen false))
    | some entry => some (s.setJob i (.approveTest workspace.projectId entry.id shown))
  | .approveTest projectId testId shown =>
    match s.store.approveTest projectId testId (hash shown) with
    | none => some (s.setJob i (.atEnd (.error ⟨"store", "The approval could not be recorded."⟩)))
    | some store =>
      some
        { (s.setJob i (.overSeen true)) with
          store
          named := (projectId, testId, shown) :: s.named }
  | .atEnd _ => none
  | .overSeen _ => none

def begin_ (s : Doors) (job : Job) : Doors := { s with callers := s.callers ++ [job] }

def onRun (s : Doors) (id : String) (f : TestRun → Bool × TestRun) : Doors :=
  { s with store := (s.store.onRun id f).2 }

def verdict (status : RunStatus) : Bool :=
  status = .passed || status = .failed || status = .cancelled || status = .errored

def step (s : Doors) : Act → Option Doors
  | .queue request => some (s.begin_ (.queue request none))
  | .queueSeen request shown => some (s.begin_ (.queue request (some shown)))
  | .approveSeen workspaceId testId shown =>
    some (s.begin_ (.approveSeen workspaceId testId shown))
  | .go i look => s.callers[i]?.bind (s.goJob hash i look)
  | .approveRun id =>
    (s.store.testRun id).map fun run => s.approve id run.row.definition
  | .refuseRun id now => some (s.onRun id (·.refuse now))
  | .cancelRun id reason now => some (s.onRun id (·.cancel reason now))
  | .startRun id port outputDir now => some (s.onRun id (·.start port outputDir now))
  | .moveStep id stepId from_ change now =>
    some (s.onRun id (·.moveStep stepId from_ change now))
  | .finishRun id status error now =>
    if verdict status then some (s.onRun id (·.finish status error now)) else none
  | .endInterrupted error now =>
    some { s with store := { s.store with runs := s.store.runs.map (·.endInterrupted error now) } }
  | .prune projectId before => some { s with store := s.store.pruneTestRuns projectId before }
  | .addProject id =>
    if id ∈ s.made then none
    else some
      { s with
        store := { s.store with projects := s.store.projects ++ [id] }
        made := id :: s.made }
  | .removeProject id => some { s with store := s.store.removeProject id }
  | .addWorkspace row =>
    if row.id ∈ s.made ∨ row.projectId ∉ s.store.projects then none
    else some
      { s with
        store := { s.store with workspaces := s.store.workspaces ++ [row] }
        made := row.id :: s.made }
  | .updateWorkspace id archived forgotten =>
    some { s with store := { s.store with
      workspaces := s.store.workspaces.map fun row =>
        if row.id = id then { row with archived, forgotten } else row } }
  | .removeWorktree id => some { s with store := s.store.removeWorktree id }
  | .setSettings projectId settings =>
    (s.store.setProjectTestSettings projectId settings).map fun store => { s with store }
  | .setEnv projectId entries =>
    if projectId ∈ s.store.projects then
      some { s with store := { s.store with
        env := (projectId, entries) :: s.store.env.filter (·.1 ≠ projectId) } }
    else none

def start : Doors where
  store := ⟨[], [], [], [], [], []⟩
  callers := []
  named := []
  approvedRuns := []
  entered := []
  made := []

end Doors

end

end Yardsort.Smoke
