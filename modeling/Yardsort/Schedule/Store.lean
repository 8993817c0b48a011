import Yardsort.Schedule.When

/- Schedules and the times they came due, as the store keeps them
   (`core/src/store/schedules.rs`): one row a schedule, and one line a time of it. Each
   operation is one SQL statement or one transaction, so it happens at once.

   A time is taken by moving `nextAt` on in a conditional update (`claimSchedule`,
   `stallSchedule`); an edit and switching a schedule on set it whatever it is. A row's JSON
   is kept as what it says. -/
namespace Yardsort.Schedule

inductive ScheduleTarget where
  | workflow
  | test
  deriving DecidableEq

inductive IfMissed where
  | runOnce
  | skip
  deriving DecidableEq

inductive ScheduleNotify where
  | failure
  | always
  | never
  deriving DecidableEq

structure ScheduleRow where
  id : String
  name : String
  targetKind : ScheduleTarget
  targetId : String
  projectId : String
  /-- `none` once the workspace is deleted. -/
  workspaceId : Option String
  workspaceName : String
  inputs : List (String × String)
  /-- `none` for one this Yardsort cannot read. -/
  spec : Option ScheduleSpec
  missed : IfMissed
  notify : ScheduleNotify
  enabled : Bool
  nextAt : Option Int
  createdAt : Int

structure ScheduleFields where
  name : String
  targetKind : ScheduleTarget
  targetId : String
  projectId : String
  workspaceId : String
  workspaceName : String
  inputs : List (String × String)
  spec : ScheduleSpec
  missed : IfMissed
  notify : ScheduleNotify
  nextAt : Option Int

inductive ScheduleOutcome where
  | started
  | skipped
  | missed
  | refused
  deriving DecidableEq

structure ScheduleRunRow where
  id : String
  scheduleId : String
  dueAt : Int
  firedAt : Int
  outcome : ScheduleOutcome
  manual : Bool
  runId : Option String
  note : Option String
  result : Option String
  notifiedAt : Option Int
  toldWaiting : Bool

def SCHEDULE_RUNS_KEPT : Nat := 200

/-- The two tables, lines in the order they were written, and the projects still in the app. -/
structure Store where
  schedules : List ScheduleRow
  lines : List ScheduleRunRow
  liveProjects : List String

namespace Store

def schedule (s : Store) (id : String) : Option ScheduleRow := s.schedules.find? (·.id = id)

/-- One schedule changed, where it is there and `when_` holds of it; and whether it was. -/
def updateWhere (s : Store) (id : String) (when_ : ScheduleRow → Bool)
    (f : ScheduleRow → ScheduleRow) : Bool × Store :=
  (s.schedules.any fun row => row.id = id && when_ row,
    { s with
      schedules := s.schedules.map fun row => if row.id = id && when_ row then f row else row })

def dueSchedules (s : Store) (now : Int) : List ScheduleRow :=
  (s.schedules.filter fun row =>
    row.enabled && row.nextAt.any (· ≤ now) && row.projectId ∈ s.liveProjects).insertionSort
    fun a b => a.nextAt.getD 0 < b.nextAt.getD 0 ∨
      (a.nextAt.getD 0 = b.nextAt.getD 0 ∧ a.createdAt ≤ b.createdAt)

def waitingSchedules (s : Store) : List ScheduleRow :=
  s.schedules.filter fun row => row.enabled && row.nextAt.isSome && row.projectId ∈ s.liveProjects

def waitsFor (dueAt : Int) (row : ScheduleRow) : Bool := row.enabled && row.nextAt = some dueAt

def claimSchedule (s : Store) (id : String) (dueAt : Int) (nextAt : Option Int) : Bool × Store :=
  s.updateWhere id (waitsFor dueAt) fun row =>
    { row with nextAt, enabled := nextAt.isSome && row.enabled }

def stallSchedule (s : Store) (id : String) (dueAt : Int) : Bool × Store :=
  s.updateWhere id (waitsFor dueAt) fun row => { row with nextAt := none }

def moveSchedule (s : Store) (id : String) (from_ : Int) (to_ : Option Int) : Bool × Store :=
  s.updateWhere id (waitsFor from_) fun row => { row with nextAt := to_ }

def setScheduleEnabled (s : Store) (id : String) (enabled : Bool) (nextAt : Option Int) :
    Bool × Store :=
  s.updateWhere id (fun _ => true) fun row =>
    if enabled then { row with enabled := true, nextAt } else { row with enabled := false }

def updateSchedule (s : Store) (id : String) (fields : ScheduleFields) : Bool × Store :=
  s.updateWhere id (fun _ => true) fun row =>
    { row with
      name := fields.name
      targetKind := fields.targetKind
      targetId := fields.targetId
      projectId := fields.projectId
      workspaceId := some fields.workspaceId
      workspaceName := fields.workspaceName
      inputs := fields.inputs
      spec := some fields.spec
      missed := fields.missed
      notify := fields.notify
      nextAt := fields.nextAt }

def addSchedule (s : Store) (id : String) (createdAt : Int) (fields : ScheduleFields) : Store :=
  { s with
    schedules := s.schedules ++
      [{ id
         name := fields.name
         targetKind := fields.targetKind
         targetId := fields.targetId
         projectId := fields.projectId
         workspaceId := some fields.workspaceId
         workspaceName := fields.workspaceName
         inputs := fields.inputs
         spec := some fields.spec
         missed := fields.missed
         notify := fields.notify
         enabled := true
         nextAt := fields.nextAt
         createdAt }] }

def removeSchedule (s : Store) (id : String) : Store :=
  { s with
    schedules := s.schedules.filter (·.id ≠ id)
    lines := s.lines.filter (·.scheduleId ≠ id) }

def forgetWorkspace (s : Store) (workspaceId : String) : Store :=
  { s with
    schedules := s.schedules.map fun row =>
      if row.workspaceId = some workspaceId then { row with workspaceId := none } else row }

def unsettled (line : ScheduleRunRow) : Bool := line.outcome = .started && line.result.isNone

def newestFirst (lines : List ScheduleRunRow) : List ScheduleRunRow :=
  lines.reverse.insertionSort fun a b => b.firedAt ≤ a.firedAt

def scheduleRuns (s : Store) (scheduleId : String) (limit : Nat) : List ScheduleRunRow :=
  (newestFirst (s.lines.filter (·.scheduleId = scheduleId))).take limit

/-- Record what became of a time, and drop the schedule's oldest beyond what is kept. It is one
    transaction that ends by reading the line back: a line that was dropped itself is not there, and
    nothing is changed. Nor is it for a schedule that is not there. -/
def recordScheduleRun (s : Store) (line : ScheduleRunRow) : Option (ScheduleRunRow × Store) :=
  if (s.schedule line.scheduleId).isNone then none
  else
    let s := { s with lines := s.lines ++ [line] }
    let kept := (s.scheduleRuns line.scheduleId SCHEDULE_RUNS_KEPT).map (·.id)
    let s := { s with
      lines := s.lines.filter fun other =>
        !(other.scheduleId = line.scheduleId && !unsettled other && other.id ∉ kept) }
    (s.lines.find? (·.id = line.id)).map fun row => (row, s)

theorem recordScheduleRun_some {s s' : Store} {line row : ScheduleRunRow}
    (h : s.recordScheduleRun line = some (row, s')) :
    (s.schedule line.scheduleId).isSome ∧ ∃ lines, s' = { s with lines } ∧
      lines.Sublist (s.lines ++ [line]) ∧ row ∈ lines ∧ row.id = line.id := by
  unfold recordScheduleRun at h
  split at h
  · cases h
  rename_i hthere
  obtain ⟨found, hfound, heq⟩ := Option.map_eq_some_iff.mp h
  cases heq
  refine ⟨by simpa [Option.isSome_iff_ne_none] using hthere, _, rfl, List.filter_sublist,
    List.mem_of_find?_eq_some hfound, ?_⟩
  simpa using List.find?_some hfound

/-- Times that started a run whose ending has not been copied here yet. -/
def unsettledScheduleRuns (s : Store) : List ScheduleRunRow :=
  (s.lines.filter unsettled).insertionSort fun a b => a.firedAt ≤ b.firedAt

/-- One line changed, where it is there and `when_` holds of it; and whether it was. -/
def updateLine (s : Store) (id : String) (when_ : ScheduleRunRow → Bool)
    (f : ScheduleRunRow → ScheduleRunRow) : Bool × Store :=
  (s.lines.any fun line => line.id = id && when_ line,
    { s with lines := s.lines.map fun line => if line.id = id && when_ line then f line else line })

def settleScheduleRun (s : Store) (id result : String) (notifiedAt : Option Int) : Bool × Store :=
  s.updateLine id (·.result.isNone) fun line => { line with result := some result, notifiedAt }

def markScheduleRunToldWaiting (s : Store) (id : String) : Bool × Store :=
  s.updateLine id (!·.toldWaiting) fun line => { line with toldWaiting := true }

end Store

end Yardsort.Schedule
