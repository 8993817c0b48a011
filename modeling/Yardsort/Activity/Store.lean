import Yardsort.Lib.Table

/- Runs, session records and exits as the store keeps them (`core/src/store.rs`). Each operation
   is one statement or one transaction of the source. A run is a launch of a process; a session
   record is a conversation, which may be resumed in another process.

   The tables are lists of rows. An update is a map over the rows, so what a statement does to a
   row is read off the function that is mapped. -/
namespace Yardsort.Activity
open Yardsort.Lib

inductive EndReason where
  | exited
  | interrupted
  | spawnFailed
  deriving DecidableEq

structure RunRow where
  id : String
  /-- `none` until the host has spawned the process, and afterwards if it never did. -/
  ptySessionId : Option String
  startedAt : Int
  endedAt : Option Int
  exitCode : Option Int
  endReason : Option EndReason
  deriving DecidableEq

structure SessionRow where
  id : String
  running : Bool
  exitCode : Option Int
  /-- The live PTY session, while running. -/
  ptySessionId : Option String
  startedAt : Int
  endedAt : Option Int
  deriving DecidableEq

inductive Via where
  | live
  | settle
  | spool
  | reconcile
  deriving DecidableEq

structure ExitEvent where
  runId : String
  occurredAt : Int
  sourceKey : String
  exitCode : Option Int
  success : Bool
  signal : Option String
  reason : EndReason
  via : Via

structure Store where
  runs : List RunRow
  sessions : List SessionRow
  events : List ExitEvent
  runKey : (runs.map (·.id)).Nodup
  sessionKey : (sessions.map (·.id)).Nodup
  sourceKey : (events.map (·.sourceKey)).Nodup

namespace RunRow

def isOpen (row : RunRow) : Bool := row.endedAt.isNone

def attached (row : RunRow) (pty : String) : RunRow := { row with ptySessionId := some pty }

def ended (row : RunRow) (code : Option Int) (reason : EndReason) (at' : Int) : RunRow :=
  { row with endedAt := some at', exitCode := code, endReason := some reason }

@[simp] theorem attached_id (row : RunRow) (pty : String) : (row.attached pty).id = row.id := rfl
@[simp] theorem attached_pty (row : RunRow) (pty : String) :
    (row.attached pty).ptySessionId = some pty := rfl
@[simp] theorem attached_isOpen (row : RunRow) (pty : String) :
    (row.attached pty).isOpen = row.isOpen := rfl
@[simp] theorem ended_id (row : RunRow) (code : Option Int) (reason : EndReason) (at' : Int) :
    (row.ended code reason at').id = row.id := rfl
@[simp] theorem ended_pty (row : RunRow) (code : Option Int) (reason : EndReason) (at' : Int) :
    (row.ended code reason at').ptySessionId = row.ptySessionId := rfl
@[simp] theorem ended_isOpen (row : RunRow) (code : Option Int) (reason : EndReason) (at' : Int) :
    (row.ended code reason at').isOpen = false := rfl
@[simp] theorem ended_reason (row : RunRow) (code : Option Int) (reason : EndReason) (at' : Int) :
    (row.ended code reason at').endReason = some reason := rfl
@[simp] theorem ended_code (row : RunRow) (code : Option Int) (reason : EndReason) (at' : Int) :
    (row.ended code reason at').exitCode = code := rfl

def interrupted (alive : List String) (grace now : Int) (row : RunRow) : Bool :=
  row.isOpen && match row.ptySessionId with
    | none => row.startedAt < now - grace
    | some pty => pty ∉ alive

end RunRow

namespace SessionRow

def markedRunning (row : SessionRow) (pty : String) (now : Int) : SessionRow :=
  { row with
    running := true, ptySessionId := some pty, exitCode := none, endedAt := none, startedAt := now }

def exited (row : SessionRow) (code : Option Int) (at' : Int) : SessionRow :=
  { row with running := false, exitCode := code, ptySessionId := none, endedAt := some at' }

def cutShort (row : SessionRow) (now : Int) : SessionRow :=
  { row with
    running := false, exitCode := none, ptySessionId := none, endedAt := row.endedAt.or (some now) }

def interrupted (alive : List String) (row : SessionRow) : Bool :=
  row.running && match row.ptySessionId with
    | none => true
    | some pty => pty ∉ alive

end SessionRow

namespace Store

def empty : Store := ⟨[], [], [], .nil, .nil, .nil⟩

def mapRuns (store : Store) (f : RunRow → RunRow) (hf : ∀ row, (f row).id = row.id) : Store :=
  { store with runs := store.runs.map f, runKey := nodup_map store.runKey hf }

def mapSessions (store : Store) (f : SessionRow → SessionRow) (hf : ∀ row, (f row).id = row.id) :
    Store :=
  { store with sessions := store.sessions.map f, sessionKey := nodup_map store.sessionKey hf }

def addRun (store : Store) (id : String) (now : Int) : Option Store :=
  if h : id ∈ store.runs.map (·.id) then none
  else some { store with
    runs := store.runs ++ [⟨id, none, now, none, none, none⟩]
    runKey := nodup_snoc store.runKey h }

def run (store : Store) (id : String) : Option RunRow := store.runs.find? (·.id = id)

def runByPty (store : Store) (pty : String) : Option RunRow :=
  store.runs.find? (·.ptySessionId = some pty)

def attach (id pty : String) (row : RunRow) : RunRow :=
  if row.id = id then row.attached pty else row

def runSpawned (store : Store) (id pty : String) : Option Store :=
  if store.runs.any fun row => row.ptySessionId = some pty && row.id ≠ id then none
  else some (store.mapRuns (attach id pty) fun row => by unfold attach; split <;> rfl)

def endById (id : String) (code : Option Int) (reason : EndReason) (at' : Int) (row : RunRow) :
    RunRow :=
  if row.id = id then row.ended code reason at' else row

def endRun (store : Store) (id : String) (code : Option Int) (reason : EndReason) (now : Int) :
    Store :=
  store.mapRuns (fun row => if row.isOpen then endById id code reason now row else row)
    fun row => by unfold endById; split <;> [split <;> rfl; rfl]

def endRunByPty (store : Store) (pty : String) (code : Option Int) (reason : EndReason)
    (at' : Int) : Option RunRow × Store :=
  match store.runs.find? fun row => row.ptySessionId = some pty && row.isOpen with
  | none => (none, store)
  | some run =>
    (some run, store.mapRuns (endById run.id code reason at') fun row => by
      unfold endById; split <;> rfl)

def endInterrupted (alive : List String) (grace now : Int) (row : RunRow) : RunRow :=
  if row.interrupted alive grace now then row.ended none .interrupted now else row

def endInterruptedRuns (store : Store) (alive : List String) (grace now : Int) :
    List RunRow × Store :=
  (store.runs.filter (·.interrupted alive grace now),
    store.mapRuns (endInterrupted alive grace now) fun row => by
      unfold endInterrupted; split <;> rfl)

def addEvent (store : Store) (event : ExitEvent) : Store :=
  if h : event.sourceKey ∈ store.events.map (·.sourceKey) then store
  else { store with
    events := store.events ++ [event]
    sourceKey := nodup_snoc store.sourceKey h }

def session (store : Store) (id : String) : Option SessionRow := store.sessions.find? (·.id = id)

def addSession (store : Store) (id pty : String) (now : Int) : Option Store :=
  if h : id ∈ store.sessions.map (·.id) then none
  else some { store with
    sessions := store.sessions ++ [⟨id, true, none, some pty, now, none⟩]
    sessionKey := nodup_snoc store.sessionKey h }

def markSessionRunning (store : Store) (id pty : String) (now : Int) : Store :=
  store.mapSessions (fun row => if row.id = id then row.markedRunning pty now else row)
    fun row => by split <;> rfl

/-- The first statement of `end_session_by_pty_at`: the record a PTY is running for. -/
def runningByPty (store : Store) (pty : String) : Option String :=
  (store.sessions.find? fun row => row.ptySessionId = some pty && row.running).map (·.id)

def endSession (store : Store) (id : String) (code : Option Int) (at' : Int) : Store :=
  store.mapSessions (fun row => if row.id = id then row.exited code at' else row)
    fun row => by split <;> rfl

def endInterruptedSessions (store : Store) (alive : List String) (now : Int) : Store :=
  store.mapSessions (fun row => if row.interrupted alive then row.cutShort now else row)
    fun row => by split <;> rfl

end Store

end Yardsort.Activity
