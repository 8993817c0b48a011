import Yardsort.Activity.Store
import Yardsort.Lib.Run

/- The clients of one profile and the daemon that runs their processes: launching and resuming
   (`core/src/launch.rs`, `src-tauri/src/sessions.rs`), delivering an exit (`record_exit`,
   `import_spool` and `adopt_early_exit` of `core/src/activity.rs`), and starting up
   (`src-tauri/src/lib.rs`), over one store.

   A client is any number of threads, and a thread is the list of statements it has yet to make.
   One step makes the first of them, which may put others in front of the rest; a store call that
   fails, or a thread that is gone, is in the action. A process is spawned, exits, has its exit
   spooled and announced, and is dropped from the daemon's list, each at any moment. -/
namespace Yardsort.Activity
open Yardsort.Lib

/-- How long a run may wait for its PTY before it counts as gone, in milliseconds. -/
def PENDING_GRACE_MS : Int := 60000

structure ExitInfo where
  code : Nat
  success : Bool
  signal : Option String
  deriving DecidableEq

structure ExitFacts where
  code : Option Int
  success : Bool
  signal : Option String
  /-- When it ended, on the clock of whoever saw it; `none` means now. -/
  at' : Option Int
  deriving DecidableEq

def ExitFacts.ofExit (exit : ExitInfo) : ExitFacts :=
  ⟨some exit.code, exit.success, exit.signal, none⟩

def ExitFacts.reason (facts : ExitFacts) : EndReason :=
  if facts.code.isSome then .exited else .interrupted

def ExitFacts.interrupted : ExitFacts := ⟨none, false, none, none⟩

def exitEvent (run : RunRow) (facts : ExitFacts) (reason : EndReason) (via : Via)
    (occurredAt : Int) : ExitEvent where
  runId := run.id
  occurredAt := occurredAt
  sourceKey := match run.ptySessionId with
    | some pty => "pty:" ++ pty ++ ":exited"
    | none => "run:" ++ run.id ++ ":exited"
  exitCode := facts.code
  success := facts.success
  signal := facts.signal
  reason := reason
  via := via

inductive Life where
  | running
  | exited (exit : ExitInfo)
  /-- Gone with the daemon, with no exit. -/
  | lost
  deriving DecidableEq

structure SpoolEntry where
  session : String
  /-- `RUN_LABEL` among the labels. -/
  run : Option String
  exit : ExitInfo
  atMs : Nat
  deriving DecidableEq

def SpoolEntry.facts (entry : SpoolEntry) : ExitFacts :=
  { ExitFacts.ofExit entry.exit with at' := some entry.atMs }

/-- Where the exit of a process is on its way into the spool. -/
inductive Spooling where
  | waiting
  | written (entry : SpoolEntry)
  | refused
  deriving DecidableEq

def Spooling.isWritten : Spooling → Bool
  | written _ => true
  | waiting | refused => false

structure Process where
  pty : String
  /-- The labels `RUN_LABEL` and `RECORD_LABEL`. -/
  run : Option String
  record : Option String
  life : Life
  /-- Still in the daemon's list, as an exited session is too. -/
  listed : Bool
  spooling : Spooling
  /-- Its exit was announced to a client. -/
  told : Bool
  deriving DecidableEq

def Process.running (p : Process) : Prop := p.life = .running

instance (p : Process) : Decidable p.running := inferInstanceAs (Decidable (_ = _))

def Process.waits (p : Process) : Prop := p.life ≠ .lost ∧ p.spooling = .waiting

def Process.reported (p : Process) (exit : ExitInfo) : Prop :=
  p.life = .exited exit ∧ (p.spooling.isWritten = true ∨ p.told = true)

/-- Ids are never given out twice: not to two PTYs, and not to two runs. -/
def Process.Apart (p q : Process) : Prop := p.pty ≠ q.pty ∧ (p.run = none ∨ p.run ≠ q.run)

instance (p q : Process) : Decidable (p.Apart q) := inferInstanceAs (Decidable (_ ∧ _))

structure Daemon where
  processes : List Process
  apart : processes.Pairwise Process.Apart

namespace Daemon

def empty : Daemon := ⟨[], .nil⟩

def process (daemon : Daemon) (pty : String) : Option Process :=
  daemon.processes.find? (·.pty = pty)

def spawn (daemon : Daemon) (pty : String) (run record : Option String) : Option Daemon :=
  let p : Process := ⟨pty, run, record, .running, true, .waiting, false⟩
  if h : ∀ q ∈ daemon.processes, q.Apart p then
    some ⟨daemon.processes ++ [p], pairwise_append.mpr
      ⟨daemon.apart, pairwise_singleton .., fun q hq _ hr =>
        mem_singleton.mp hr ▸ h q hq⟩⟩
  else none

def change (pty : String) (f : Process → Process) (p : Process) : Process :=
  if p.pty = pty then { f p with pty := p.pty, run := p.run, record := p.record } else p

theorem change_labels (pty : String) (f : Process → Process) (p : Process) :
    (change pty f p).pty = p.pty ∧ (change pty f p).run = p.run ∧
      (change pty f p).record = p.record := by
  unfold change
  split <;> exact ⟨rfl, rfl, rfl⟩

def update (daemon : Daemon) (pty : String) (f : Process → Process) : Daemon where
  processes := daemon.processes.map (change pty f)
  apart := by
    refine pairwise_map.mpr (daemon.apart.imp fun {p q} h => ?_)
    unfold Process.Apart
    rw [(change_labels pty f p).1, (change_labels pty f q).1, (change_labels pty f p).2.1,
      (change_labels pty f q).2.1]
    exact h

def list (daemon : Daemon) : List String :=
  (daemon.processes.filter (·.listed)).map (·.pty)

def exitOf (daemon : Daemon) (pty : String) : Option ExitInfo :=
  match daemon.process pty with
  | some ⟨_, _, _, .exited exit, true, _, _⟩ => some exit
  | _ => none

end Daemon

/-! ## Threads -/

inductive Record where
  | none
  | new (id : String)
  | old (id : String)
  deriving DecidableEq

def Record.id : Record → Option String
  | none => Option.none
  | new id => some id
  | old id => some id

structure Launch where
  /-- `none` when recording is off. -/
  run : Option String
  pty : String
  record : Record
  deriving DecidableEq

inductive After where
  | nothing
  /-- An entry of the spool: adopted if no run is recorded for it, and then removed. -/
  | adopts (entry : SpoolEntry)
  | removes (entry : SpoolEntry)
  deriving DecidableEq

inductive Job where
  | resume (launch : Launch)
  | begin (launch : Launch)
  | spawn (launch : Launch)
  | spawnFailed (run : String)
  | runSpawned (run pty : String)
  | check (pty : String)
  | record (record : Record) (pty : String)
  | settle (pty : String)
  | endSession (pty : String) (facts : ExitFacts)
  | endSessionRow (id : String) (facts : ExitFacts)
  | endRun (pty : String) (facts : ExitFacts) (via : Via) (after : After)
  | writeExit (run : RunRow) (facts : ExitFacts) (reason : EndReason) (via : Via)
  /-- `record_exit` looks whether the run had ended already. -/
  | lookup (pty : String) (after : After)
  | adopt (entry : SpoolEntry)
  | adoptSpawned (run : String) (entry : SpoolEntry)
  | remove (entry : SpoolEntry)
  /-- `import_spool`, and what start does after it. -/
  | openSpool (starting : Bool)
  | drain (entries : List SpoolEntry)
  /-- Start asks for the live PTYs. `seen` are those whose exit was spooled before. -/
  | list (seen : List String)
  /-- `known` are the PTYs the list could hold. -/
  | endSessions (alive known seen : List String)
  | endRuns (alive known seen : List String)
  deriving DecidableEq

def After.recorded : After → List Job
  | nothing => []
  | adopts entry => [.remove entry]
  | removes entry => [.remove entry]

def After.noRun : After → List Job
  | nothing => []
  | adopts entry => [.adopt entry]
  | removes entry => [.remove entry]

structure World where
  store : Store
  daemon : Daemon
  spool : List SpoolEntry
  now : Int

def World.spawned (w : World) : List String := w.daemon.processes.map (·.pty)

def World.spooled (w : World) : List String :=
  (w.daemon.processes.filter (·.spooling.isWritten)).map (·.pty)

def recordExit (pty : String) : Option ExitInfo → List Job
  | none => []
  | some exit => [.endRun pty (.ofExit exit) .settle .nothing]

def settleExit (pty : String) : Option ExitInfo → List Job
  | none => []
  | some exit =>
    [.endSession pty (.ofExit exit), .endRun pty (.ofExit exit) .settle .nothing]

def spawnedJobs (launch : Launch) : List Job :=
  (match launch.run with
    | none => []
    | some run => [.runSpawned run launch.pty, .check launch.pty]) ++
  match launch.record with
    | .none => []
    | record => [.record record launch.pty]

/-- One statement: the world after it, and the statements it puts first. A call that fails and
    makes the caller return puts none. -/
def perform (w : World) (ok : Bool) : Job → Option (World × List Job)
  | .resume launch =>
    match launch.record.id.bind w.store.session with
    | none => some (w, [])
    | some row => some (w, if ok && !row.running then [.begin launch] else [])
  | .begin launch =>
    match launch.run with
    | none => some (w, [.spawn launch])
    | some run =>
      match if ok then w.store.addRun run w.now else none with
      | none => some (w, [.spawn { launch with run := none }])
      | some store => some ({ w with store }, [.spawn launch])
  | .spawn launch =>
    if ok then
      (w.daemon.spawn launch.pty launch.run launch.record.id).map fun daemon =>
        ({ w with daemon }, spawnedJobs launch)
    else
      match launch.run with
      | none => some (w, [])
      | some run => some (w, [.spawnFailed run])
  | .spawnFailed run =>
    some (if ok then { w with store := w.store.endRun run none .spawnFailed w.now } else w, [])
  | .runSpawned run pty =>
    match if ok then w.store.runSpawned run pty else none with
    | none => some (w, [])
    | some store => some ({ w with store }, [])
  | .check pty => some (w, recordExit pty (if ok then w.daemon.exitOf pty else none))
  | .record .none _ => some (w, [])
  | .record (.new id) pty =>
    match if ok then w.store.addSession id pty w.now else none with
    | none => some (w, [])
    | some store => some ({ w with store }, [.settle pty])
  | .record (.old id) pty =>
    if ok then
      some ({ w with store := w.store.markSessionRunning id pty w.now }, [.settle pty])
    else some (w, [])
  | .settle pty => some (w, settleExit pty (if ok then w.daemon.exitOf pty else none))
  | .endSession pty facts =>
    match if ok then w.store.runningByPty pty else none with
    | none => some (w, [])
    | some id => some (w, [.endSessionRow id facts])
  | .endSessionRow id facts =>
    some (if ok then
      { w with store := w.store.endSession id facts.code (facts.at'.getD w.now) } else w, [])
  | .endRun pty facts via after =>
    if ok then
      match w.store.endRunByPty pty facts.code facts.reason (facts.at'.getD w.now) with
      | (none, _) => some (w, [.lookup pty after])
      | (some run, store) =>
        some ({ w with store }, .writeExit run facts facts.reason via :: after.recorded)
    else some (w, after.noRun)
  | .writeExit run facts reason via =>
    let event := exitEvent run facts reason via (facts.at'.getD w.now)
    some (if ok then { w with store := w.store.addEvent event } else w, [])
  | .lookup pty after =>
    match if ok then w.store.runByPty pty else none with
    | none => some (w, after.noRun)
    | some _ => some (w, after.recorded)
  | .adopt entry =>
    match if ok then entry.run.bind w.store.run else none with
    | none => some (w, [.remove entry])
    | some run =>
      some (w, [if run.ptySessionId = none ∧ run.isOpen then .adoptSpawned run.id entry
        else .remove entry])
  | .adoptSpawned run entry =>
    match if ok then w.store.runSpawned run entry.session else none with
    | none => some (w, [.remove entry])
    | some store =>
      some ({ w with store }, [.endRun entry.session entry.facts .spool (.removes entry)])
  | .remove entry => some ({ w with spool := w.spool.filter (· ≠ entry) }, [])
  | .openSpool starting =>
    some (w, .drain w.spool :: if starting then [.list w.spooled] else [])
  | .drain [] => some (w, [])
  | .drain (entry :: entries) =>
    if entry ∈ w.spool then
      some (w, [.endSession entry.session entry.facts,
        .endRun entry.session entry.facts .spool (.adopts entry), .drain entries])
    else some (w, [.drain entries])
  | .list seen =>
    -- A list that is not answered is empty.
    let alive := if ok then w.daemon.list else []
    let known := if ok then w.spawned else []
    some (w, [.endSessions alive known seen])
  | .endSessions alive known seen =>
    if ok then
      some ({ w with store := w.store.endInterruptedSessions alive w.now },
        [.endRuns alive known seen])
    else some (w, [])
  | .endRuns alive _ _ =>
    if ok then
      let (gone, store) := w.store.endInterruptedRuns alive PENDING_GRACE_MS w.now
      some ({ w with store },
        gone.map fun run => .writeExit run .interrupted .interrupted .reconcile)
    else some (w, [])

structure System where
  world : World
  threads : List (List Job)

inductive Call where
  | launch (launch : Launch)
  | resume (launch : Launch)
  | drain
  | start

def Call.jobs : Call → List Job
  | launch l => [.begin l]
  | resume l => [.resume l]
  | drain => [.openSpool false]
  | start => [.openSpool true]

inductive Act where
  | calls (call : Call)
  /-- A thread makes its next statement, which answers or fails. -/
  | does (thread : Nat) (ok : Bool)
  /-- The client of a thread crashes. -/
  | dies (thread : Nat)
  | exits (pty : String) (exit : ExitInfo)
  /-- The daemon writes the exit to its spool, which may be full; a host that is going away gives
      no labels. -/
  | spools (pty : String) (written labelled : Bool) (atMs : Nat)
  /-- A connected client hears of the exit. -/
  | announces (pty : String)
  /-- The daemon is gone, and the process with it. -/
  | loses (pty : String)
  /-- The session is dropped from the daemon's list. -/
  | drops (pty : String)
  | clock (now : Int)

def liveJobs (pty : String) (exit : ExitInfo) : List Job :=
  [.endSession pty (.ofExit exit), .endRun pty (.ofExit exit) .live .nothing, .openSpool false]

def World.update (w : World) (pty : String) (f : Process → Process) : World :=
  { w with daemon := w.daemon.update pty f }

def step (s : System) : Act → Option System
  | .calls call => some { s with threads := s.threads ++ [call.jobs] }
  | .does thread ok =>
    match s.threads[thread]? with
    | some (job :: rest) =>
      (perform s.world ok job).map fun done =>
        { world := done.1
          threads := s.threads.set thread (done.2 ++ rest) }
    | _ => none
  | .dies thread => some { s with threads := s.threads.set thread [] }
  | .exits pty exit =>
    match s.world.daemon.process pty with
    | none => none
    | some p =>
      if p.life = .running then
        some { s with world := s.world.update pty fun p => { p with life := .exited exit } }
      else none
  | .spools pty written labelled atMs =>
    match s.world.daemon.process pty with
    | none => none
    | some p =>
      match p.life, p.spooling with
      | .exited exit, .waiting =>
        let entry : SpoolEntry := ⟨pty, if labelled then p.run else none, exit, atMs⟩
        let spooling := if written then .written entry else .refused
        let world := s.world.update pty fun p => { p with spooling }
        some { s with world := { world with
          spool := if written then world.spool ++ [entry] else world.spool } }
      | _, _ => none
  | .announces pty =>
    match s.world.daemon.process pty with
    | none => none
    | some p =>
      match p.life with
      | .exited exit =>
        if p.spooling = .waiting then none
        else some
          { world := s.world.update pty fun p => { p with told := true }
            threads := s.threads ++ [liveJobs pty exit] }
      | _ => none
  | .loses pty =>
    match s.world.daemon.process pty with
    | none => none
    | some p =>
      if p.life = .running then
        some { s with world := s.world.update pty fun p =>
          { p with life := .lost, listed := false } }
      else none
  | .drops pty =>
    match s.world.daemon.process pty with
    | none => none
    | some p =>
      match p.life, p.spooling with
      | .exited _, .waiting => none
      | .exited _, _ =>
        some { s with world := s.world.update pty fun p => { p with listed := false } }
      | _, _ => none
  | .clock now => some { s with world := { s.world with now } }

def System.empty : System := ⟨⟨.empty, .empty, [], 0⟩, []⟩

end Yardsort.Activity
