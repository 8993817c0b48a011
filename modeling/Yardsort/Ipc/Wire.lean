import Yardsort.Lib.Json
import Yardsort.Pty.View

/- The messages that cross the daemon's socket as JSON, and their texts
   (`pty-ipc/src/proto.rs`, and the types of `pty-host/src/types.rs` and `control.rs` they
   carry).

   Each type's text is what `serde_json::to_vec` writes of it: the fields in the order the
   source declares them, in camel case, a variant's tag first. A path is its text: one that
   is not UTF-8 has none, and a message with it is not sent. -/
namespace Yardsort.Ipc
open Yardsort.Lib Yardsort.Pty

abbrev SessionId := String
abbrev StreamId := UInt32

structure PendingPrompt where
  text : String
  quietMs : Nat

structure LaunchPlan where
  program : String
  args : List String
  cwd : Option String
  env : List (String × String)
  clearEnv : Bool
  size : TermSize
  labels : List (String × String)
  prompt : Option PendingPrompt

inductive SessionState where
  | running
  | exited (exit : ExitInfo)

structure SessionInfo where
  id : SessionId
  program : String
  args : List String
  cwd : Option String
  pid : Option Nat
  size : TermSize
  labels : List (String × String)
  state : SessionState
  hasOutput : Bool
  busy : Bool
  idleMs : Nat

structure DaemonInfo where
  protocol : Nat
  version : String
  pid : Nat
  startedAt : Nat
  runningSessions : Nat

inductive WireError where
  | unknownSession (id : SessionId)
  | sessionExited (id : SessionId)
  | openPty (message : String)
  | spawn (program reason : String)
  | io (message : String)
  | leaseLost (id : SessionId)
  | controlHeld (id : SessionId) (by_ : Controller)
  | inputOutOfOrder (id : SessionId) (expected got : Nat)
  | invalidHolder
  | controlUnavailable

/-- What a client asks (`Op`; `Pty.Op` is an operation on control). -/
inductive Command where
  | hello (protocol : Nat) (client : String)
  | spawn (plan : LaunchPlan)
  | attach (session : SessionId) (stream : StreamId)
  | detach (session : SessionId) (stream : StreamId)
  | write (session : SessionId) (data : Bytes)
  | paste (session : SessionId) (text : String)
  | resize (session : SessionId) (size : TermSize)
  | kill (session : SessionId)
  | remove (session : SessionId)
  | info (session : SessionId)
  | list
  | goodbye
  | shutdown (stopSessions : Bool)
  | watch (session : SessionId) (stream : StreamId) (after : Option Nat)
  | controller (session : SessionId)
  | acquire (session : SessionId) (holder : String) (takeOver : Bool)
  | renew (session : SessionId) (lease : LeaseRef)
  | release (session : SessionId) (lease : LeaseRef)
  | input (session : SessionId) (lease : LeaseRef) (seq : Nat) (data : String) (paste : Bool)
  | typeUnattended (session : SessionId) (text : String) (paste : Bool)
  | resizeLeased (session : SessionId) (lease : LeaseRef) (size : TermSize)

inductive OpResult where
  | welcome (daemon : DaemonInfo)
  | session (session : SessionInfo)
  | sessions (sessions : List SessionInfo)
  | done
  | failed (error : WireError)
  | controller (controller : Controller)
  | leased (lease : Lease)

open Json

def tagged (tag name : String) (fields : List (String × Bytes)) : Bytes :=
  object ((tag, string name) :: fields)

def TermSize.json (s : TermSize) : Bytes := object [("cols", number s.cols), ("rows", number s.rows)]

def strings (items : List String) : Bytes := array (items.map string)

def map (entries : List (String × String)) : Bytes :=
  object (entries.map (fun e => (e.1, string e.2)))

def Controller.json : Controller → Bytes
  | .nobody => tagged "kind" "nobody" []
  | .here => tagged "kind" "local" []
  | .leased holder => tagged "kind" "leased" [("holder", string holder)]

def ExitInfo.json (e : ExitInfo) : Bytes :=
  object [("code", number e.code), ("success", bool e.success), ("signal", option string e.signal)]

def LeaseRef.json (l : LeaseRef) : Bytes :=
  object [("id", string l.id), ("generation", number l.generation)]

def Lease.json (l : Lease) : Bytes :=
  object [("id", string l.id), ("generation", number l.generation), ("ttlMs", number l.ttlMs),
    ("renewEveryMs", number l.renewEveryMs)]

def PendingPrompt.json (p : PendingPrompt) : Bytes :=
  object [("text", string p.text), ("quietMs", number p.quietMs)]

def LaunchPlan.json (p : LaunchPlan) : Bytes :=
  object [("program", string p.program), ("args", strings p.args), ("cwd", option string p.cwd),
    ("env", array (p.env.map (fun e => array [string e.1, string e.2]))),
    ("clearEnv", bool p.clearEnv), ("size", TermSize.json p.size), ("labels", map p.labels),
    ("prompt", option PendingPrompt.json p.prompt)]

def SessionState.json : SessionState → Bytes
  | .running => tagged "status" "running" []
  | .exited exit => tagged "status" "exited" [("exit", ExitInfo.json exit)]

def SessionInfo.json (s : SessionInfo) : Bytes :=
  object [("id", string s.id), ("program", string s.program), ("args", strings s.args),
    ("cwd", option string s.cwd), ("pid", option number s.pid), ("size", TermSize.json s.size),
    ("labels", map s.labels), ("state", s.state.json), ("hasOutput", bool s.hasOutput),
    ("busy", bool s.busy), ("idleMs", number s.idleMs)]

def DaemonInfo.json (d : DaemonInfo) : Bytes :=
  object [("protocol", number d.protocol), ("version", string d.version), ("pid", number d.pid),
    ("startedAt", number d.startedAt), ("runningSessions", number d.runningSessions)]

def WireError.json : WireError → Bytes
  | .unknownSession id => tagged "kind" "unknownSession" [("id", string id)]
  | .sessionExited id => tagged "kind" "sessionExited" [("id", string id)]
  | .openPty message => tagged "kind" "openPty" [("message", string message)]
  | .spawn program reason =>
    tagged "kind" "spawn" [("program", string program), ("reason", string reason)]
  | .io message => tagged "kind" "io" [("message", string message)]
  | .leaseLost id => tagged "kind" "leaseLost" [("id", string id)]
  | .controlHeld id by_ =>
    tagged "kind" "controlHeld" [("id", string id), ("by", Controller.json by_)]
  | .inputOutOfOrder id expected got =>
    tagged "kind" "inputOutOfOrder"
      [("id", string id), ("expected", number expected), ("got", number got)]
  | .invalidHolder => tagged "kind" "invalidHolder" []
  | .controlUnavailable => tagged "kind" "controlUnavailable" []

def Command.json : Command → Bytes
  | .hello protocol client =>
    tagged "op" "hello" [("protocol", number protocol), ("client", string client)]
  | .spawn plan => tagged "op" "spawn" [("plan", plan.json)]
  | .attach session stream =>
    tagged "op" "attach" [("session", string session), ("stream", number stream.toNat)]
  | .detach session stream =>
    tagged "op" "detach" [("session", string session), ("stream", number stream.toNat)]
  | .write session data =>
    tagged "op" "write" [("session", string session),
      ("data", array (data.map (fun b => number b.toNat)))]
  | .paste session text => tagged "op" "paste" [("session", string session), ("text", string text)]
  | .resize session size =>
    tagged "op" "resize" [("session", string session), ("size", TermSize.json size)]
  | .kill session => tagged "op" "kill" [("session", string session)]
  | .remove session => tagged "op" "remove" [("session", string session)]
  | .info session => tagged "op" "info" [("session", string session)]
  | .list => tagged "op" "list" []
  | .goodbye => tagged "op" "goodbye" []
  | .shutdown stopSessions => tagged "op" "shutdown" [("stopSessions", bool stopSessions)]
  | .watch session stream after =>
    tagged "op" "watch" ([("session", string session), ("stream", number stream.toNat)] ++
      -- left out when there is none
      after.toList.map (fun after => ("after", number after)))
  | .controller session => tagged "op" "controller" [("session", string session)]
  | .acquire session holder takeOver =>
    tagged "op" "acquire"
      [("session", string session), ("holder", string holder), ("takeOver", bool takeOver)]
  | .renew session lease =>
    tagged "op" "renew" [("session", string session), ("lease", LeaseRef.json lease)]
  | .release session lease =>
    tagged "op" "release" [("session", string session), ("lease", LeaseRef.json lease)]
  | .input session lease seq data asPaste =>
    tagged "op" "input" [("session", string session), ("lease", LeaseRef.json lease),
      ("seq", number seq), ("data", string data), ("paste", bool asPaste)]
  | .typeUnattended session text asPaste =>
    tagged "op" "typeUnattended"
      [("session", string session), ("text", string text), ("paste", bool asPaste)]
  | .resizeLeased session lease size =>
    tagged "op" "resizeLeased" [("session", string session), ("lease", LeaseRef.json lease),
      ("size", TermSize.json size)]

def OpResult.json : OpResult → Bytes
  | .welcome daemon => tagged "ok" "welcome" [("daemon", daemon.json)]
  | .session info => tagged "ok" "session" [("session", info.json)]
  | .sessions infos => tagged "ok" "sessions" [("sessions", array (infos.map SessionInfo.json))]
  | .done => tagged "ok" "done" []
  | .failed error => tagged "ok" "failed" [("error", error.json)]
  | .controller by_ => tagged "ok" "controller" [("controller", Controller.json by_)]
  | .leased lease => tagged "ok" "leased" [("lease", Lease.json lease)]

def requestJson (id : Nat) (op : Command) : Bytes := object [("id", number id), ("op", op.json)]

def responseJson (id : Nat) (result : OpResult) : Bytes :=
  object [("id", number id), ("result", result.json)]

theorem paste_length (id : Nat) (session : SessionId) (text : String) :
    (utf8 text).length ≤ (requestJson id (.paste session text)).length := by
  have hop : (Command.paste session text).json.length + 2 ≤
      (requestJson id (.paste session text)).length :=
    object_length (mem_cons_of_mem _ mem_cons_self)
  have htext : (string text).length + 2 ≤ (object [("op", string "paste"),
      ("session", string session), ("text", string text)]).length :=
    object_length (mem_cons_of_mem _ (mem_cons_of_mem _ mem_cons_self))
  have hjson : (Command.paste session text).json = object [("op", string "paste"),
      ("session", string session), ("text", string text)] := rfl
  have := string_length text
  rw [hjson] at hop
  omega

end Yardsort.Ipc
