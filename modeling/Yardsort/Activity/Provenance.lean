import Mathlib
import Yardsort.Lib.Groups

/- Which of a workspace's files an agent said it wrote (`core/src/activity/provenance.rs`): the
   agents' events, in the order they were recorded, joined by path with the files git shows as
   changed.

   A payload is the fields the join reads of it; one that is no JSON has none of them. Maps are
   lists in the order of their keys, and a key that is inserted twice has its last value. Moments
   are integers, an open end is the largest of 64 bits, and counts are natural numbers. -/
namespace Yardsort.Activity.Provenance
open Yardsort.Lib

inductive Kind where
  | reportedWrite
  | toolStarted
  | toolCompleted
  | toolFailed
  | processStarted
  | other (kind : String)
  deriving DecidableEq

structure Payload where
  tool : Option String := none
  toolUseId : Option String := none
  path : Option String := none
  /-- `pathOutsideWorkspace` is true. -/
  outside : Bool := false
  status : Option String := none
  durationMs : Option Int := none
  capture : Option String := none
  deriving DecidableEq

structure Event where
  runId : Option String
  occurredAt : Int
  kind : Kind
  producer : String
  method : String
  fidelity : String
  payload : Payload
  deriving DecidableEq

structure RunRow where
  id : String
  kind : String
  harnessId : Option String
  ptySessionId : Option String
  startedAt : Int
  endedAt : Option Int

def I64_MAX : Int := 2^63 - 1

def runOf (runs : List RunRow) (id : String) : Option RunRow := runs.reverse.find? (·.id = id)

/-- A start and the end it is paired with: one that has not ended, or an end without a start, has
    only the one. -/
structure Call where
  start : Option Event
  finish : Option Event

structure Window where
  runId : String
  tool : Option String
  /-- A tool that reported its own file is a window for that file alone. -/
  path : Option String
  from_ : Int
  to_ : Int

def Event.isEnd (e : Event) : Bool := e.kind = .toolCompleted || e.kind = .toolFailed

/-- Whether an end is a start's: of the same run, and with the same tool-use id when both have one,
    else of the same tool. -/
def Event.matches_ (start finish : Event) : Bool :=
  start.runId = finish.runId &&
    match start.payload.toolUseId, finish.payload.toolUseId with
    | some a, some b => a = b
    | _, _ => start.payload.tool = finish.payload.tool

structure Pairing where
  waiting : List Event
  calls : List Call

def Pairing.step (p : Pairing) (e : Event) : Pairing :=
  if e.runId = none then p
  else if e.kind = .toolStarted then { p with waiting := p.waiting ++ [e] }
  else if e.isEnd then
    match p.waiting.find? (·.matches_ e) with
    | some start =>
      { waiting := p.waiting.eraseP (·.matches_ e), calls := p.calls ++ [⟨some start, some e⟩] }
    | none => { p with calls := p.calls ++ [⟨none, some e⟩] }
  else p

def pairing (events : List Event) : Pairing := events.foldl Pairing.step ⟨[], []⟩

def calls (events : List Event) : List Call :=
  (pairing events).calls ++ (pairing events).waiting.map fun start => ⟨some start, none⟩

def runEnd (runs : List RunRow) (id : String) : Int :=
  ((runOf runs id).bind (·.endedAt)).getD I64_MAX

/-- A call's window. An end with no start is bounded by its own duration; without either, it is no
    window. -/
def Call.window (runs : List RunRow) : Call → Option Window
  | ⟨some start, some finish⟩ =>
    start.runId.map fun run =>
      ⟨run, start.payload.tool, finish.payload.path.or start.payload.path, start.occurredAt,
        finish.occurredAt⟩
  | ⟨none, some finish⟩ =>
    finish.runId.bind fun run => finish.payload.durationMs.map fun duration =>
      ⟨run, finish.payload.tool, finish.payload.path, finish.occurredAt - max duration 0,
        finish.occurredAt⟩
  | ⟨some start, none⟩ =>
    start.runId.map fun run =>
      ⟨run, start.payload.tool, start.payload.path, start.occurredAt, runEnd runs run⟩
  | ⟨none, none⟩ => none

def windows (runs : List RunRow) (events : List Event) : List Window :=
  ((calls events).filterMap (·.window runs)).mergeSort fun a b =>
    a.from_ < b.from_ || (a.from_ = b.from_ && a.to_ ≤ b.to_)

def isWrite (e : Event) : Bool :=
  match e.kind with
  | .reportedWrite => e.payload.status.all (· = "completed")
  | .toolCompleted =>
    match e.producer, e.payload.tool with
    | "claude", some tool =>
      tool = "Write" || tool = "Edit" || tool = "MultiEdit" || tool = "NotebookEdit"
    | "pi", some tool | "omp", some tool => tool = "write" || tool = "edit"
    | _, _ => false
  | _ => false

def startedEntry (e : Event) : Option ((String × String) × String) :=
  if e.kind = .toolStarted then
    e.runId.bind fun run => e.payload.toolUseId.bind fun id => e.payload.path.map fun path =>
      ((run, id), path)
  else none

def startedPath (events : List Event) (run id : String) : Option String :=
  (events.filterMap startedEntry).reverse.lookup (run, id)

/-- The file a write is credited to: its own, or, unless it went outside the workspace, the one a
    start of its run with its tool-use id named. -/
def credited (events : List Event) (e : Event) : Option String :=
  e.payload.path.or
    (if e.payload.outside then none
    else e.runId.bind fun run => e.payload.toolUseId.bind fun id => startedPath events run id)

structure Report where
  runId : Option String
  harnessId : Option String
  producer : String
  method : String
  fidelity : String
  firstAt : Int
  lastAt : Int
  /-- A `u32` in the code, which fewer events than it holds never fill. -/
  writes : Nat

/-- A run's reports of one path are one row. -/
structure ReportKey where
  path : String
  runId : Option String
  producer : String
  deriving DecidableEq

def harnessOf (runs : List RunRow) (runId : Option String) : Option String :=
  runId.bind fun id => (runOf runs id).bind (·.harnessId)

def Report.first (runs : List RunRow) (e : Event) : Report :=
  ⟨e.runId, harnessOf runs e.runId, e.producer, e.method, e.fidelity, e.occurredAt, e.occurredAt, 1⟩

def Report.add (r : Report) (e : Event) : Report :=
  { r with
    firstAt := min r.firstAt e.occurredAt
    lastAt := max r.lastAt e.occurredAt
    writes := r.writes + 1 }

def credits (events : List Event) : List (String × Event) :=
  events.filterMap fun e => if isWrite e then (credited events e).map (·, e) else none

def creditKey (c : String × Event) : ReportKey := ⟨c.1, c.2.runId, c.2.producer⟩

def reportRows (runs : List RunRow) (events : List Event) : List (ReportKey × Report) :=
  Groups.groups creditKey (fun c => Report.first runs c.2) (fun r c => r.add c.2) (credits events)

structure ObservedMatch where
  runId : String
  harnessId : Option String
  tool : Option String
  from_ : Int
  to_ : Option Int

structure Observed where
  at_ : Int
  matches_ : List ObservedMatch

def harnessRun (runs : List RunRow) (id : String) : Option RunRow :=
  runOf (runs.filter (·.kind = "harness")) id

/-- Whether a window is one for this file's last write: the tool was running then, and named no
    file, or this one. -/
def Window.holds (window : Window) (file : String × Int) : Bool :=
  window.from_ ≤ file.2 && file.2 ≤ window.to_ && window.path.all (· = file.1)

def Window.observes (runs : List RunRow) (file : String × Int) (window : Window) :
    Option ObservedMatch :=
  if window.holds file then
    (harnessRun runs window.runId).map fun run =>
      ⟨window.runId, run.harnessId, window.tool, window.from_,
        if window.to_ = I64_MAX then none else some window.to_⟩
  else none

def observedOf (runs : List RunRow) (events : List Event) (file : String × Int) :
    Option (String × Observed) :=
  let found := (windows runs events).filterMap (·.observes runs file)
  if found = [] then none else some (file.1, ⟨file.2, found⟩)

def observedRows (runs : List RunRow) (events : List Event) (files : List (String × Int)) :
    List (String × Observed) :=
  (files.filterMap (observedOf runs events)).reverse

structure FileReports where
  path : String
  reports : List Report
  observed : Option Observed

structure RunCoverage where
  runId : String
  harnessId : Option String
  startedAt : Int
  endedAt : Option Int
  capture : Option String
  captureKnown : Bool

structure Provenance where
  files : List FileReports
  runs : List RunCoverage

def Report.le (a b : Report) : Bool :=
  a.firstAt < b.firstAt || (a.firstAt = b.firstAt &&
    match a.runId, b.runId with
    | none, some _ => true
    | some _, none => false
    | none, none => a.producer ≤ b.producer
    | some run, some run' => run < run' || (run = run' && a.producer ≤ b.producer))

def captureOf (events : List Event) (native : List (String × String)) (id : String) :
    Option String × Bool :=
  match events.reverse.find? fun e => e.kind = .processStarted && e.runId = some id with
  | some e => (e.payload.capture, true)
  | none =>
    match native.lookup id with
    | some method => (some method, true)
    | none => (none, false)

def join (runs : List RunRow) (events : List Event) (native : List (String × String))
    (files : List (String × Int)) : Provenance where
  files :=
    let rows := reportRows runs events
    let observed := observedRows runs events files
    let paths := (rows.map (·.1.path) ++ observed.map (·.1)).dedup.mergeSort (· ≤ ·)
    paths.map fun path =>
      { path := path
        reports := ((rows.filter (·.1.path = path)).map (·.2)).mergeSort Report.le
        observed := observed.lookup path }
  runs :=
    (runs.filter fun run => run.kind = "harness" && run.ptySessionId.isSome).reverse.map fun run =>
      let (capture, captureKnown) := captureOf events native run.id
      ⟨run.id, run.harnessId, run.startedAt, run.endedAt, capture, captureKnown⟩

end Yardsort.Activity.Provenance
