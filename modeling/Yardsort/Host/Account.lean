import Yardsort.Server.Pairing

/- A host's grants: `requests`, `answer` and `revoke` of `remote-host/src/account.rs`,
   over the host's own record of `core/src/store.rs`.

   A call goes on by steps: one for each look at the server or the record that stands
   alone. It has the session lock (`session`) only around one request to the server, so
   between `host_grants`, `decide` and the record's own transaction other calls go on,
   and the server's records change at any time. A request to the server can fail before
   or after it was served; the host's own store does not fail. -/
namespace Yardsort.Host
open Yardsort.Lib Yardsort.Proto Yardsort.Server

structure Failure where
  code : String
  message : String
  deriving DecidableEq

def refusedHere (e : RemoteError) : Failure := ⟨"remote_refused", e.message⟩

structure RemoteGrantRow where
  id : String
  deviceId : String
  deviceName : String
  scopes : Finset Scope
  projects : ProjectGrant
  approvedAt : Int

def keepRemoteGrant (rows : List RemoteGrantRow) (grant : RemoteGrantRow) :
    List RemoteGrantRow :=
  rows.filter (fun r => !(r.deviceId = grant.deviceId || r.id = grant.id)) ++ [grant]

def retainRemoteGrants (rows : List RemoteGrantRow) (inForce : List String) :
    Nat × List RemoteGrantRow :=
  ((rows.filter (fun r => r.id ∉ inForce)).length, rows.filter (fun r => r.id ∈ inForce))

def dropRemoteGrant (rows : List RemoteGrantRow) (id : String) : Bool × List RemoteGrantRow :=
  (rows.any (fun r => r.id = id), rows.filter (fun r => r.id ≠ id))

/-- What viewing gives: everything a device can read, nothing it can type. -/
def VIEW : Finset Scope := {.workspaceRead, .activityRead, .memoryRead, .terminalRead}

inductive Answer where
  | deny
  | allow (control : Bool) (projects : Option (List String))
  deriving DecidableEq

def Answer.allows : Answer → Bool
  | .deny => false
  | .allow _ _ => true

def offered (control : Bool) : Finset Scope := if control then insert .terminalControl VIEW else VIEW

def Answer.decision (requested : Finset Scope) : Answer → Except Failure (Option GrantDecision)
  | .deny => .ok none
  | .allow control projects =>
    let scopes := requested ∩ offered control
    if scopes = ∅ then
      .error ⟨"remote_refused", "That device asked for nothing this computer gives."⟩
    else match projects with
      | none => .ok (some ⟨scopes, .all⟩)
      | some ids => match ids.mapM Proto.Id.new with
        | .ok ids => .ok (some ⟨scopes, .only ids.toFinset⟩)
        | .error _ => .error ⟨"remote_refused", "Not a project."⟩

structure Request where
  grantId : String
  deviceName : String
  wantsControl : Bool
  expiresInMs : Nat
  deriving DecidableEq

def OFFER_TTL_MS : Nat := 5 * 60 * 1000

def request (g : GrantSummary) : Request :=
  { grantId := g.id.text
    deviceName := g.deviceName
    wantsControl := .terminalControl ∈ g.requested
    expiresInMs := min (g.expiresInMs.getD 0) OFFER_TTL_MS }

/-- This computer as a host: the device it is signed in as, and the host it is. -/
structure RemoteHostRow where
  device : DeviceId
  host : HostId

/-- What the calls share: the server's records, the host's own, and which call has the
    session. -/
structure Home where
  server : Records
  kept : List RemoteGrantRow
  session : Option Nat

inductive Listing where
  | started
  | owned
  | listed (grants : List GrantSummary)
  | returned (result : Except Failure (List Request))
  deriving DecidableEq

inductive Answering where
  | started
  | owned
  | listed (grants : List GrantSummary)
  | asked (decision : Option GrantDecision)
  | checked (decision : Option GrantDecision)
  | decided (decision : Option GrantDecision)
  | viewed (decision : Option GrantDecision) (decided : GrantSummary)
  | returned (result : Except Failure Unit)
  deriving DecidableEq

inductive Revoking where
  | started
  | dropped
  | seen
  | told
  | returned (result : Except Failure Unit)
  deriving DecidableEq

namespace Home

/-- Take the session, if no call has it, and `ask` the server. It is kept for the next
    step of the request, or given back with a refusal. -/
def asking {α β : Type} (home : Home) (me : Nat) (ask : Except RemoteError α) (next : α → β)
    (refused : Failure → β) : Option (Home × β) :=
  match home.session with
  | some _ => none
  | none => match ask with
    | .ok a => some ({ home with session := some me }, next a)
    | .error e => some (home, refused (refusedHere e))

variable (row : RemoteHostRow)

def requests (home : Home) (me : Nat) (now : Int) : Listing → Option (Home × Listing)
  | .started =>
    home.asking me (home.server.ownHost row.device row.host) (fun _ => .owned)
      (.returned ∘ .error)
  | .owned =>
    some ({ home with session := none }, .listed (home.server.hostGrants row.host now))
  | .listed grants =>
    let inForce := (grants.filter (·.state = .approved)).map (·.id.text)
    some ({ home with kept := (retainRemoteGrants home.kept inForce).2 },
      .returned (.ok ((grants.filter (·.state = .pending)).map request)))
  | .returned _ => none

def answer (grant : String) (said : Answer) (home : Home) (me : Nat) (now : Int) :
    Answering → Option (Home × Answering)
  | .started =>
    match Id.new grant with
    | .error _ => some (home, .returned (.error ⟨"remote_refused", "No such request."⟩))
    | .ok _ =>
      home.asking me (home.server.ownHost row.device row.host) (fun _ => .owned)
        (.returned ∘ .error)
  | .owned =>
    some ({ home with session := none }, .listed (home.server.hostGrants row.host now))
  | .listed grants =>
    match grants.find? (fun g => g.id.text = grant && g.state = .pending) with
    | none =>
      some (home, .returned (.error
        ⟨"remote_refused", "That device is no longer waiting. Show a new code to pair it."⟩))
    | some asked => match said.decision asked.requested with
      | .error e => some (home, .returned (.error e))
      | .ok decision => some (home, .asked decision)
  | .asked decision =>
    match Id.new grant with
    | .error _ => none
    | .ok id =>
      home.asking me (home.server.checkDecision row.device id decision now)
        (fun _ => .checked decision) (.returned ∘ .error)
  | .checked decision =>
    match Id.new grant with
    | .error _ => none
    | .ok id => match home.server.decide id decision now with
      | some server => some ({ home with server }, .decided decision)
      | none =>
        some ({ home with session := none },
          .returned (.error (refusedHere Records.notWaiting)))
  | .decided decision =>
    match Id.new grant with
    | .error _ => none
    | .ok id => match home.server.grantView row.device id with
      | .ok view => some ({ home with session := none }, .viewed decision (grantSummary view now))
      | .error e => some ({ home with session := none }, .returned (.error (refusedHere e)))
  | .viewed decision decided =>
    match decision, decided.state with
    | some d, .approved =>
      let keep : RemoteGrantRow :=
        { id := decided.id.text
          deviceId := decided.device.text
          deviceName := decided.deviceName
          scopes := d.scopes
          projects := d.projects
          approvedAt := now }
      some ({ home with kept := keepRemoteGrant home.kept keep }, .returned (.ok ()))
    | _, _ => some (home, .returned (.ok ()))
  | .returned _ => none

def revoke (grant : String) (home : Home) (me : Nat) (now : Int) :
    Revoking → Option (Home × Revoking)
  | .started => some ({ home with kept := (dropRemoteGrant home.kept grant).2 }, .dropped)
  | .dropped =>
    match Id.new grant with
    | .error _ => some (home, .returned (.error ⟨"remote_refused", "No such device."⟩))
    | .ok id =>
      home.asking me (home.server.grantView row.device id) (fun _ => .seen) (.returned ∘ .error)
  | .seen =>
    match Id.new grant with
    | .error _ => none
    | .ok id => some ({ home with server := home.server.revokeGrant id now }, .told)
  | .told => some ({ home with session := none }, .returned (.ok ()))
  | .returned _ => none

def leaves (home : Home) (me : Nat) : Home :=
  { home with session := if home.session = some me then none else home.session }

end Home

inductive Call where
  | requests (phase : Listing)
  | answer (grant : String) (said : Answer) (phase : Answering)
  | revoke (grant : String) (phase : Revoking)
  deriving DecidableEq

namespace Call

def next (row : RemoteHostRow) (home : Home) (me : Nat) (now : Int) : Call → Option (Home × Call)
  | .requests phase =>
    (home.requests row me now phase).map fun (home, phase) => (home, .requests phase)
  | .answer grant said phase =>
    (home.answer row grant said me now phase).map fun (home, phase) =>
      (home, .answer grant said phase)
  | .revoke grant phase =>
    (home.revoke row grant me now phase).map fun (home, phase) => (home, .revoke grant phase)

def fails (why : Failure) : Call → Option Call
  | .requests .started | .requests .owned => some (.requests (.returned (.error why)))
  | .answer grant said .started | .answer grant said .owned | .answer grant said (.asked _)
  | .answer grant said (.checked _) | .answer grant said (.decided _) =>
    some (.answer grant said (.returned (.error why)))
  | .revoke grant .dropped | .revoke grant .seen | .revoke grant .told =>
    some (.revoke grant (.returned (.error why)))
  | _ => none

def returned : Call → Bool
  | .requests (.returned _) | .answer _ _ (.returned _) | .revoke _ (.returned _) => true
  | _ => false

end Call

end Yardsort.Host
