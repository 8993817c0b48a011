import Yardsort.Lib.Text
import Yardsort.Remote.Events
import Yardsort.Remote.Model

/- A recorded event, as a remote client may see it (`core/src/remote/activity.rs`).

   Nothing of an event's payload is copied across whole: each field of the detail is read from a
   named field of it, and kept only if its value passes the check for its class. What
   `serde_json` reads of a payload is a parameter, `Payload`. -/
namespace Yardsort.Remote.Activity
open Yardsort.Lib

def SHOWN_CLASS : String := "metadata"

def MAX_CODE : Nat := 64
def MAX_NAME : Nat := 128
def MAX_PATH : Nat := 1024

/-- A value of a payload's field, as far as it is looked at. -/
inductive Value where
  | bool (b : Bool)
  | integer (n : Int)
  | text (s : String)
  | other

abbrev Payload := String → Option Value

namespace Value

def asStr : Value → Option String
  | text s => some s
  | _ => none

def asBool : Value → Option Bool
  | bool b => some b
  | _ => none

def asU64 : Value → Option UInt64
  | integer n => if 0 ≤ n ∧ n < 2 ^ 64 then some (UInt64.ofNat n.toNat) else none
  | _ => none

def asI64 : Value → Option Int64
  | integer n => if -2 ^ 63 ≤ n ∧ n < 2 ^ 63 then some (Int64.ofInt n) else none
  | _ => none

end Value

def code (text : String) : Option String :=
  if text ≠ "" ∧ (utf8 text).length ≤ MAX_CODE ∧ (utf8 text).all Proto.idByte then some text
  else none

def isControl (c : Char) : Bool :=
  let n := c.val.toNat
  n < 0x20 || (0x7f ≤ n && n ≤ 0x9f)

def looksAbsolute : List Char → Bool
  | c :: rest => c = '/' || c = '\\' || c = '~' || (c.isAlpha && rest.head? = some ':')
  | [] => false

def name (text : String) : Option String :=
  let text := Text.trim text.toList
  if text ≠ [] ∧ text.length ≤ MAX_NAME ∧ !text.any isControl ∧ !looksAbsolute text then
    some (String.ofList text)
  else none

/-- A path relative to the workspace, as the adapters record it, checked again here. -/
def insideWorkspace (path : String) : Option String :=
  if path ≠ "" ∧ (utf8 path).length ≤ MAX_PATH ∧ !path.toList.any isControl ∧
      !looksAbsolute path.toList ∧
      !(path.toList.splitOnP fun c => c = '/' || c = '\\').any (· = ['.', '.']) then
    some path
  else none

def id? (text : String) : Option Proto.Id := (Proto.Id.new text).toOption

def detail (kind : String) (p : Payload) : ActivityDetail :=
  let codes field := (p field).bind Value.asStr |>.bind code
  let names field := (p field).bind Value.asStr |>.bind name
  let count field := (p field).bind Value.asU64
  let (runKind, change) :=
    if "process.".toList.isPrefixOf kind.toList then (codes "kind", none)
    else if kind = "file.reported_write" then (none, codes "kind")
    else (none, none)
  { harness := names "harnessId"
    runKind
    program := (names "program").filter fun n => !n.toList.any (fun c => c = '/' || c = '\\')
    model := names "model"
    continuation := codes "continuation"
    launchedBy := codes "launchedBy"
    capture := codes "capture"
    forkedFrom :=
      if kind = "session.forked" then (p "fromSessionId").bind Value.asStr |>.bind id? else none
    exitCode := (p "exitCode").bind Value.asI64
    success := (p "success").bind Value.asBool
    signal := codes "signal"
    via := codes "via"
    reason := codes "reason"
    tool := (names "tool").or (names "permission")
    subagentType := names "subagentType"
    path := (p "path").bind Value.asStr |>.bind insideWorkspace
    pathOutsideWorkspace := (p "pathOutsideWorkspace").bind Value.asBool
    change
    status := codes "status"
    durationMs := count "durationMs"
    chars := count "chars"
    decision := codes "decision"
    waitMs := count "waitMs"
    notification := if kind = "agent.notified" then codes "type" else none
    errorType := codes "errorType"
    agentType := names "agentType"
    trigger := codes "trigger"
    outcome := codes "outcome"
    turnNumber := count "turnNumber"
    contextTokens := count "contextTokens"
    contextWindow := count "contextWindow"
    totalTokens := count "totalTokens"
    outputTokens := count "outputTokens"
    note := codes "detail" }

/-- The event as a client sees it, or `none` when it is not to be shown, or its own ids or codes
    cannot be. -/
def event (read : String → Payload) (row : EventRow) : Option ActivityEvent :=
  if row.privacyClass ≠ SHOWN_CLASS then none
  else do
    let id ← id? row.id
    let workspace ← id? row.workspaceId
    let kind ← code row.kind
    let producer ← code row.producer
    let method ← code row.method
    let fidelity ← code row.fidelity
    some
      { id
        workspace
        session := row.sessionId.bind id?
        run := row.runId.bind id?
        occurredAt := row.occurredAt
        kind
        source := ⟨producer, method, fidelity⟩
        detail := detail row.kind (read row.payload) }

end Yardsort.Remote.Activity
