import Yardsort.Remote.Proto

/- What a host says (`remote-proto/src/model.rs`, `terminal.rs`, `start.rs` and the replies and
   events of `lib.rs`), and the JSON it says it in.

   A type's `json` is the text `serde_json` writes of it: an object's fields in their order,
   an enumeration's name, `null` for what is absent (or nothing at all for a field that is
   skipped then). -/
namespace Yardsort.Remote
open Yardsort.Lib Yardsort.Proto

def written (field : String × Option Bytes) : Option (String × Bytes) :=
  field.2.map fun value => (field.1, value)

def objectOf (fields : List (String × Option Bytes)) : Bytes :=
  Json.object (fields.filterMap written)

def idJson (id : Proto.Id) : Bytes := Json.string id.text

def cursorJson (cursor : Option Cursor) : Bytes := Json.option (fun c => Json.string c.text) cursor

def int64Json (n : Int64) : Bytes := Json.int n.toInt

structure Provenance where
  producer : String
  method : String
  fidelity : String
  deriving DecidableEq

def Provenance.json (p : Provenance) : Bytes :=
  Json.object [
    ("producer", Json.string p.producer), ("method", Json.string p.method),
    ("fidelity", Json.string p.fidelity)]

structure ActivityDetail where
  harness : Option String
  runKind : Option String
  program : Option String
  model : Option String
  continuation : Option String
  launchedBy : Option String
  capture : Option String
  forkedFrom : Option SessionRecordId
  exitCode : Option Int64
  success : Option Bool
  signal : Option String
  via : Option String
  reason : Option String
  tool : Option String
  subagentType : Option String
  path : Option String
  pathOutsideWorkspace : Option Bool
  change : Option String
  status : Option String
  durationMs : Option UInt64
  chars : Option UInt64
  decision : Option String
  waitMs : Option UInt64
  notification : Option String
  errorType : Option String
  agentType : Option String
  trigger : Option String
  outcome : Option String
  turnNumber : Option UInt64
  contextTokens : Option UInt64
  contextWindow : Option UInt64
  totalTokens : Option UInt64
  outputTokens : Option UInt64
  note : Option String
  deriving DecidableEq

def uint64Json (n : UInt64) : Bytes := Json.number n.toNat

def ActivityDetail.fields (d : ActivityDetail) : List (String × Option Bytes) := [
  ("harness", d.harness.map Json.string),
  ("runKind", d.runKind.map Json.string),
  ("program", d.program.map Json.string),
  ("model", d.model.map Json.string),
  ("continuation", d.continuation.map Json.string),
  ("launchedBy", d.launchedBy.map Json.string),
  ("capture", d.capture.map Json.string),
  ("forkedFrom", d.forkedFrom.map idJson),
  ("exitCode", d.exitCode.map int64Json),
  ("success", d.success.map Json.bool),
  ("signal", d.signal.map Json.string),
  ("via", d.via.map Json.string),
  ("reason", d.reason.map Json.string),
  ("tool", d.tool.map Json.string),
  ("subagentType", d.subagentType.map Json.string),
  ("path", d.path.map Json.string),
  ("pathOutsideWorkspace", d.pathOutsideWorkspace.map Json.bool),
  ("change", d.change.map Json.string),
  ("status", d.status.map Json.string),
  ("durationMs", d.durationMs.map uint64Json),
  ("chars", d.chars.map uint64Json),
  ("decision", d.decision.map Json.string),
  ("waitMs", d.waitMs.map uint64Json),
  ("notification", d.notification.map Json.string),
  ("errorType", d.errorType.map Json.string),
  ("agentType", d.agentType.map Json.string),
  ("trigger", d.trigger.map Json.string),
  ("outcome", d.outcome.map Json.string),
  ("turnNumber", d.turnNumber.map uint64Json),
  ("contextTokens", d.contextTokens.map uint64Json),
  ("contextWindow", d.contextWindow.map uint64Json),
  ("totalTokens", d.totalTokens.map uint64Json),
  ("outputTokens", d.outputTokens.map uint64Json),
  ("note", d.note.map Json.string)]

structure ActivityEvent where
  id : EventId
  workspace : WorkspaceId
  session : Option SessionRecordId
  run : Option RunId
  occurredAt : Int64
  kind : String
  source : Provenance
  detail : ActivityDetail
  deriving DecidableEq

def ActivityEvent.json (e : ActivityEvent) : Bytes :=
  Json.object [
    ("id", idJson e.id),
    ("workspace", idJson e.workspace),
    ("session", Json.option idJson e.session),
    ("run", Json.option idJson e.run),
    ("occurredAt", int64Json e.occurredAt),
    ("kind", Json.string e.kind),
    ("source", e.source.json),
    ("detail", objectOf e.detail.fields)]

/-- Events oldest first, whichever way the request walked. -/
structure ActivityPage where
  events : List ActivityEvent
  /-- The page before this one; absent when nothing older is kept. -/
  older : Option Cursor
  /-- What was recorded after this page; absent only when there was nothing at all. -/
  newer : Option Cursor
  deriving DecidableEq

def ActivityPage.fields (page : ActivityPage) : List (String × Bytes) := [
  ("events", Json.array (page.events.map ActivityEvent.json)),
  ("older", cursorJson page.older),
  ("newer", cursorJson page.newer)]

end Yardsort.Remote
