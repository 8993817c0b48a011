import Yardsort.Schedule.Store

/- What becomes of a time that has come, and of the run it started: `tick`, `run_now`, `settle`
   and `rezone` of `core/src/schedule/fire.rs`, `change` and `set_enabled` of
   `core/src/schedule/mod.rs`, by any number of callers in any number of processes.

   A caller reads the clock once, when it begins, and goes on by one store operation at a time;
   between two of them anything else may happen, and a caller that is never taken up again is one
   whose process ended. What the doors answer, the checks an edit passes, and what becomes of runs
   are in the actions. The system also keeps what is only looked at: the times that were acted on
   (`acted`), the ids that were made (`made`), as what a run was started (`started`) and how runs
   ended (`ended`). -/
namespace Yardsort.Schedule

/-- How late a time can be acted on and still count as on time. -/
def LATE_AFTER_MS : Int := 5 * 60000

structure IpcError where
  code : String
  message : String

structure Notice where
  scheduleId : String
  title : String
  body : String

structure RunStep where
  stepId : String
  status : String
  note : Option String
  deriving DecidableEq

structure RunRow where
  status : String
  error : Option String
  steps : List RunStep
  deriving DecidableEq

def ScheduleTarget.statuses : ScheduleTarget → List String
  | .workflow => ["queued", "running", "succeeded", "failed", "cancelled"]
  | .test =>
    ["awaiting_approval", "queued", "running", "passed", "failed", "refused", "cancelled",
      "errored"]

def RunRow.active (kind : ScheduleTarget) (run : RunRow) : Bool :=
  match kind with
  | .workflow => run.status = "queued" || run.status = "running"
  | .test => run.status = "awaiting_approval" || run.status = "queued" || run.status = "running"

def failedStep (stepId : String) : Option String → String
  | some note => "`" ++ stepId ++ "`: " ++ note
  | none => "The step `" ++ stepId ++ "` failed."

def RunRow.reason (run : RunRow) : Option String :=
  run.error.or
    ((run.steps.find? (·.status = "failed")).map fun step => failedStep step.stepId step.note)

structure Runs where
  workflows : List (String × RunRow)
  tests : List (String × RunRow)

namespace Runs

def table (runs : Runs) : ScheduleTarget → List (String × RunRow)
  | .workflow => runs.workflows
  | .test => runs.tests

def setTable (runs : Runs) (kind : ScheduleTarget) (table : List (String × RunRow)) : Runs :=
  match kind with
  | .workflow => { runs with workflows := table }
  | .test => { runs with tests := table }

def find (runs : Runs) (kind : ScheduleTarget) (id : String) : Option RunRow :=
  ((runs.table kind).find? (·.1 = id)).map (·.2)

def add (runs : Runs) (kind : ScheduleTarget) (id : String) (run : RunRow) : Runs :=
  runs.setTable kind (runs.table kind ++ [(id, run)])

def update (runs : Runs) (kind : ScheduleTarget) (id : String) (run : RunRow) : Runs :=
  runs.setTable kind ((runs.table kind).map fun entry => if entry.1 = id then (id, run) else entry)

def remove (runs : Runs) (kind : ScheduleTarget) (id : String) : Runs :=
  runs.setTable kind ((runs.table kind).filter (·.1 ≠ id))

end Runs

def endingWords : String → String
  | "succeeded" => "finished"
  | "passed" => "passed"
  | "failed" => "failed"
  | "errored" => "could not finish"
  | "cancelled" => "was cancelled"
  | "refused" => "was not approved"
  | "gone" => "is gone"
  | other => other

def ScheduleTarget.words : ScheduleTarget → String
  | .workflow => "workflow"
  | .test => "smoke test"

def tells (notify : ScheduleNotify) (status : String) : Bool :=
  status ≠ "gone" && match notify with
    | .always => true
    | .failure => status = "failed" || status = "errored"
    | .never => false

def endingNotice (schedule : ScheduleRow) (status : String) (reason : Option String) : Notice :=
  { scheduleId := schedule.id
    title := schedule.name ++ " " ++ endingWords status
    body := (reason.filter fun _ => status = "failed" || status = "errored").getD
      ("The " ++ schedule.targetKind.words ++ " `" ++ schedule.targetId ++ "` in `" ++
        schedule.workspaceName ++ "`.") }

def waitingNotice (schedule : ScheduleRow) : Notice :=
  { scheduleId := schedule.id
    title := schedule.name ++ " is waiting for your approval"
    body := "The smoke test `" ++ schedule.targetId ++
      "` is new, or has changed since you approved it. Open Yardsort to look at it and run it." }

def refusedNotice (schedule : ScheduleRow) (why : String) : Notice :=
  { scheduleId := schedule.id, title := schedule.name ++ " could not start", body := why }

def nowhereToRun (schedule : ScheduleRow) : IpcError :=
  ⟨"workspace_not_found", "`" ++ schedule.workspaceName ++
    "` was deleted, so this has nowhere to run. Edit it to pick a workspace."⟩

/-! ## Callers -/

/-- A time that was taken: by whom, and what is left to do after it. -/
structure Taken (Z : Type) where
  now : Moment Z
  schedule : ScheduleRow
  dueAt : Int
  /-- A person asked (`run_now`). -/
  manual : Bool
  rest : List ScheduleRow

inductive Job (Z : Type) where
  /-- `tick`, before it reads what is due, and with the schedules still to look at. -/
  | tick (now : Moment Z) (due : Option (List ScheduleRow))
  | asking (taken : Taken Z)
  | switchingOff (taken : Taken Z) (note : String)
  | telling (taken : Taken Z) (note : String)
  | recording (taken : Taken Z) (outcome : ScheduleOutcome) (runId note : Option String)
      (notice : Option Notice)
  | runNow (now : Moment Z) (id : String)
  | rezone (now : Moment Z) (waiting : Option (List ScheduleRow))
  | change (now : Moment Z) (id : String) (fields : ScheduleFields)
  /-- `set_enabled`, before it reads the schedule and before it writes. -/
  | enable (now : Moment Z) (id : String) (enabled : Bool)
  | enabling (now : Moment Z) (id : String) (enabled : Bool) (nextAt : Option Int)
  | settle (lines : Option (List ScheduleRunRow))
  | looking (line : ScheduleRunRow) (schedule : ScheduleRow) (runId : String)
      (rest : List ScheduleRunRow)
  | marking (line : ScheduleRunRow) (schedule : ScheduleRow) (rest : List ScheduleRunRow)
  | ending (line : ScheduleRunRow) (schedule : ScheduleRow) (status : String)
      (reason : Option String) (rest : List ScheduleRunRow)
  | atEnd

/-- A caller, and how many times had been acted on when it read the clock. -/
structure Caller (Z : Type) where
  job : Job Z
  since : Nat

structure System (Z : Type) where
  now : Moment Z
  store : Store
  runs : Runs
  callers : List (Caller Z)
  told : List Notice
  acted : List (String × Int)
  made : List String
  started : List (String × ScheduleTarget)
  ended : List (ScheduleTarget × String × String)

inductive Act (Z : Type) where
  | clock (now : Moment Z)
  | tick
  | runNow (id : String)
  | rezone
  /-- An edit that passes every check; its next time is worked out here. -/
  | change (id : String) (fields : ScheduleFields)
  | enable (id : String) (enabled : Bool)
  | settle
  | go (caller : Nat)
  | door (caller : Nat) (answer : Except IpcError (String × RunRow))
  | record (caller : Nat) (id : String)
  | add (id : String) (fields : ScheduleFields)
  | remove (id : String)
  | forgetWorkspace (id : String)
  | setProjects (live : List String)
  /-- A run asked for elsewhere, one that goes on or ends, and one that is removed. -/
  | queueRun (kind : ScheduleTarget) (id : String) (run : RunRow)
  | moveRun (kind : ScheduleTarget) (id : String) (run : RunRow)
  | pruneRun (kind : ScheduleTarget) (id : String)

section
variable {Z : Type} (c : Calendar Z)

def nextOf (schedule : ScheduleRow) (now : Moment Z) (dueAt : Int) : Except String (Option Int) :=
  match schedule.spec with
  | some spec => nextAfter c spec now (some dueAt)
  | none => .error "This Yardsort cannot read when this schedule runs."

def claim (store : Store) (schedule : ScheduleRow) (dueAt : Int)
    (next : Except String (Option Int)) : Bool × Store :=
  match next with
  | .ok nextAt => store.claimSchedule schedule.id dueAt nextAt
  -- having no next time is how a `once` ends, and this is not that
  | .error _ => store.stallSchedule schedule.id dueAt

theorem claim_spec (store : Store) (schedule : ScheduleRow) (dueAt : Int)
    (next : Except String (Option Int)) :
    ∃ f nextAt, (∀ row : ScheduleRow, (f row).id = row.id) ∧
      (∀ row : ScheduleRow, (f row).nextAt = nextAt) ∧ (∀ n ∈ nextAt, next = .ok (some n)) ∧
      claim store schedule dueAt next =
        store.updateWhere schedule.id (Store.waitsFor dueAt) f := by
  cases next with
  | ok nextAt =>
    exact ⟨fun row => { row with nextAt, enabled := nextAt.isSome && row.enabled }, nextAt,
      fun _ => rfl, fun _ => rfl, fun n hn => by rw [Option.mem_def.mp hn], rfl⟩
  | error why =>
    exact ⟨fun row => { row with nextAt := none }, none, fun _ => rfl, fun _ => rfl, nofun, rfl⟩

def afterClaim (taken : Taken Z) (next : Except String (Option Int)) : Job Z :=
  match next with
  | .error why => .telling taken
      (why ++ " Its next time cannot be worked out, so it fires nothing until you edit it.")
  | .ok _ =>
    if LATE_AFTER_MS < taken.now.ms - taken.dueAt ∧ taken.schedule.missed = .skip then
      .recording taken .missed none none none
    else .asking taken

def afterRefusal (taken : Taken Z) (error : IpcError) : Job Z :=
  if taken.manual then .atEnd
  else if "_already_running".toList <:+ error.code.toList then
    .recording taken .skipped none (some "The previous run was still going.") none
  -- no later time can do better with no workspace, so it stops asking
  else if taken.schedule.workspaceId = none then .switchingOff taken error.message
  else .telling taken error.message

/-- What is told of a refusal: that it could not start, once for as long as it is refused. -/
def refusal (store : Store) (schedule : ScheduleRow) (note : String) : Option Notice :=
  if schedule.notify ≠ .never ∧
      ¬ (store.scheduleRuns schedule.id 1).head?.any (·.outcome = .refused) then
    some (refusedNotice schedule note)
  else none

def lineOf (taken : Taken Z) (id : String) (outcome : ScheduleOutcome)
    (runId note : Option String) : ScheduleRunRow :=
  { id
    scheduleId := taken.schedule.id
    dueAt := taken.dueAt
    firedAt := taken.now.ms
    outcome
    manual := taken.manual
    runId
    note
    result := none
    notifiedAt := none
    toldWaiting := false }

def afterLine (taken : Taken Z) : Job Z :=
  if taken.manual then .atEnd else .tick taken.now (some taken.rest)

def enabledNext (schedule : ScheduleRow) (enabled : Bool) (now : Moment Z) : Option (Option Int) :=
  if enabled then
    if schedule.workspaceId = none then none
    else match schedule.spec.map fun spec => nextAfter c spec now none with
      | some (.ok (some next)) => some (some next)
      | _ => none
  else some none

/-- What `rezone` works out for a schedule: the time it waits for, and the one it should. -/
def rezoned (schedule : ScheduleRow) (now : Moment Z) : Option (Int × Int) := do
  let time ← schedule.nextAt.filter (now.ms < ·)
  let spec ← schedule.spec.filter fun spec => (cronOf spec).isSome
  match nextAfter c spec now none with
  | .ok (some next) => if next = time then none else some (time, next)
  | _ => none

/-- What `settle` finds of the run in the table of the schedule's kind. -/
def lookedUp (runs : Runs) (line : ScheduleRunRow) (schedule : ScheduleRow) (runId : String)
    (rest : List ScheduleRunRow) : Job Z :=
  match runs.find schedule.targetKind runId with
  | none => .ending line schedule "gone" none rest
  | some run =>
    if schedule.targetKind = .test ∧ run.status = "awaiting_approval" then
      if line.toldWaiting then .settle (some rest) else .marking line schedule rest
    else if run.active schedule.targetKind then .settle (some rest)
    else .ending line schedule run.status run.reason rest

def System.goJob (s : System Z) : Job Z → Option (Job Z × System Z)
  | .tick now none => some (.tick now (some (s.store.dueSchedules now.ms)), s)
  | .tick _ (some []) => some (.atEnd, s)
  | .tick now (some (schedule :: rest)) =>
    match schedule.nextAt with
    | none => some (.tick now (some rest), s)
    | some dueAt =>
      let next := nextOf c schedule now dueAt
      let (taken, store) := claim s.store schedule dueAt next
      if taken then
        some (afterClaim ⟨now, schedule, dueAt, false, rest⟩ next,
          { s with store, acted := s.acted ++ [(schedule.id, dueAt)] })
      else some (.tick now (some rest), { s with store })
  | .asking taken =>
    if taken.schedule.workspaceId = none then
      some (afterRefusal taken (nowhereToRun taken.schedule), s)
    else none
  | .switchingOff taken note =>
    some (.telling taken note,
      { s with store := (s.store.setScheduleEnabled taken.schedule.id false none).2 })
  | .telling taken note =>
    some (.recording taken .refused none (some note) (refusal s.store taken.schedule note), s)
  | .recording .. => none
  | .runNow now id =>
    match s.store.schedule id with
    | none => some (.atEnd, s)
    | some schedule => some (.asking ⟨now, schedule, now.ms, true, []⟩, s)
  | .rezone now none => some (.rezone now (some s.store.waitingSchedules), s)
  | .rezone _ (some []) => some (.atEnd, s)
  | .rezone now (some (schedule :: rest)) =>
    match rezoned c schedule now with
    | none => some (.rezone now (some rest), s)
    | some (time, next) =>
      some (.rezone now (some rest),
        { s with store := (s.store.moveSchedule schedule.id time (some next)).2 })
  | .change _ id fields => some (.atEnd, { s with store := (s.store.updateSchedule id fields).2 })
  | .enable now id enabled =>
    match (s.store.schedule id).bind fun schedule => enabledNext c schedule enabled now with
    | none => some (.atEnd, s)
    | some nextAt => some (.enabling now id enabled nextAt, s)
  | .enabling _ id enabled nextAt =>
    some (.atEnd, { s with store := (s.store.setScheduleEnabled id enabled nextAt).2 })
  | .settle none => some (.settle (some s.store.unsettledScheduleRuns), s)
  | .settle (some []) => some (.atEnd, s)
  | .settle (some (line :: rest)) =>
    match s.store.schedule line.scheduleId with
    | none => some (.settle (some rest), s)
    | some schedule =>
      match line.runId with
      | none => some (.ending line schedule "gone" none rest, s)
      | some runId => some (.looking line schedule runId rest, s)
  | .looking line schedule runId rest => some (lookedUp s.runs line schedule runId rest, s)
  | .marking line schedule rest =>
    let (marked, store) := s.store.markScheduleRunToldWaiting line.id
    some (.settle (some rest),
      { s with
        store
        told := s.told ++
          if marked ∧ schedule.notify ≠ .never then [waitingNotice schedule] else [] })
  | .ending line schedule status reason rest =>
    let tell := tells schedule.notify status
    let (written, store) :=
      s.store.settleScheduleRun line.id status (if tell then some s.now.ms else none)
    some (.settle (some rest),
      { s with
        store
        told := s.told ++ if written ∧ tell then [endingNotice schedule status reason] else [] })
  | .atEnd => none

namespace System

def setJob (s : System Z) (i : Nat) (caller : Caller Z) (job : Job Z) : System Z :=
  { s with callers := s.callers.set i { caller with job } }

def begin_ (s : System Z) (job : Job Z) : System Z :=
  { s with callers := s.callers ++ [⟨job, s.acted.length⟩] }

def answerDoor (s : System Z) (i : Nat) (caller : Caller Z) (taken : Taken Z) :
    Except IpcError (String × RunRow) → Option (System Z)
  | .error error => some (s.setJob i caller (afterRefusal taken error))
  | .ok (runId, run) =>
    let kind := taken.schedule.targetKind
    if runId ∈ s.made ∨ ¬ run.active kind then none
    else some
      { (s.setJob i caller (.recording taken .started (some runId) none none)) with
        runs := s.runs.add kind runId run
        made := runId :: s.made
        started := (runId, kind) :: s.started }

def step (s : System Z) : Act Z → Option (System Z)
  | .clock now => if s.now.ms ≤ now.ms then some { s with now } else none
  | .tick => some (s.begin_ (.tick s.now none))
  | .runNow id => some (s.begin_ (.runNow s.now id))
  | .rezone => some (s.begin_ (.rezone s.now none))
  | .change id fields =>
    match check c fields.spec s.now, nextAfter c fields.spec s.now none with
    | .ok (), .ok nextAt => some (s.begin_ (.change s.now id { fields with nextAt }))
    | _, _ => none
  | .enable id enabled => some (s.begin_ (.enable s.now id enabled))
  | .settle => some (s.begin_ (.settle none))
  | .go i => s.callers[i]?.bind fun caller =>
      (s.goJob c caller.job).map fun (job, s') => s'.setJob i caller job
  | .door i answer => s.callers[i]?.bind fun caller =>
      match caller.job with
      | .asking taken =>
        if taken.schedule.workspaceId = none then none else s.answerDoor i caller taken answer
      | _ => none
  | .record i id => s.callers[i]?.bind fun caller =>
      match caller.job with
      | .recording taken outcome runId note notice =>
        if id ∈ s.made then none
        else match s.store.recordScheduleRun (lineOf taken id outcome runId note) with
          -- the call fails, and the caller with it
          | none => some (s.setJob i caller .atEnd)
          | some (_, store) => some
            { (s.setJob i caller (afterLine taken)) with
              store
              told := s.told ++ notice.toList
              made := id :: s.made }
      | _ => none
  | .add id fields =>
    match check c fields.spec s.now, nextAfter c fields.spec s.now none with
    | .ok (), .ok nextAt =>
      if id ∈ s.made then none
      else some
        { s with
          store := s.store.addSchedule id s.now.ms { fields with nextAt }
          made := id :: s.made }
    | _, _ => none
  | .remove id => some { s with store := s.store.removeSchedule id }
  | .forgetWorkspace id => some { s with store := s.store.forgetWorkspace id }
  | .setProjects live => some { s with store := { s.store with liveProjects := live } }
  | .queueRun kind id run =>
    if id ∈ s.made ∨ ¬ run.active kind then none
    else some { s with runs := s.runs.add kind id run, made := id :: s.made }
  | .moveRun kind id run =>
    match s.runs.find kind id with
    | none => none
    | some old =>
      if old.active kind ∧ run.status ∈ kind.statuses then
        some
          { s with
            runs := s.runs.update kind id run
            ended := if run.active kind then s.ended else (kind, id, run.status) :: s.ended }
      else none
  | .pruneRun kind id => some { s with runs := s.runs.remove kind id }

def start (now : Moment Z) : System Z :=
  { now, store := ⟨[], [], []⟩, runs := ⟨[], []⟩, callers := [], told := [], acted := [],
    made := [], started := [], ended := [] }

end System

end

end Yardsort.Schedule
