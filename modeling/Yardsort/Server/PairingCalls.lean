import Yardsort.Server.Tables

/- The pairing calls of the control service (`server/src/pairing.rs`, and `revoke` of
   `server/src/service.rs`), any number of them at once.

   A call is the method of the records it is to use next; one step is one method, and between two
   methods of a call anything else may happen. The time of a call is read when it comes in. The log
   is for what is said of offers: it tells which was made, missed and taken, newest first. -/
namespace Yardsort.Server.Pairings
open Yardsort.Lib Yardsort.Proto Yardsort.Server.Credentials

structure Caller where
  account : AccountId
  device : DeviceId
  kind : DeviceKind

inductive Presented where
  | malformed (error : RemoteError)
  | foreign
  | key (hash : TokenHash)

inductive Request where
  /-- The name as `check_name` has it, and the id a new host gets. -/
  | register (host : Option HostId) (name : Except RemoteError String) (fresh : HostId)
  | offer (host : HostId) (secret code : TokenHash)
  | pair (offer : Presented) (scopes : Finset Scope) (fresh : GrantId)
  | grant (id : GrantId)
  | decide (id : GrantId) (decision : Option GrantDecision)
  | revokeGrant (id : GrantId)
  | removeHost (id : HostId)
  | revoke (device : DeviceId)

structure HostSummary where
  id : HostId
  name : String
  current : Bool

inductive Answer where
  | host (summary : HostSummary)
  | offer (secret code : TokenHash)
  | grant (summary : GrantSummary) (hostName : String)
  | done
  /-- "Only a device signed in as a host can register as one." -/
  | forbidden
  | refused (error : RemoteError)

/-- What a grant is looked at for. -/
inductive Purpose where
  | sees
  | decides (decision : Option GrantDecision)
  | revokes

inductive Job where
  | addHost (name : String) (fresh : HostId)
  | rebindHost (id : HostId) (name : String)
  | offerHost (id : HostId) (secret code : TokenHash)
  | putOffer (host : HostId) (secret code : TokenHash)
  | redeemOffer (key : TokenHash) (scopes : Finset Scope) (fresh : GrantId)
  | pairHost (offer : HostOffer) (scopes : Finset Scope) (fresh : GrantId)
  | addGrant (host : HostId) (scopes : Finset Scope) (fresh : GrantId)
  | grants (id : GrantId) (purpose : Purpose)
  | grantHost (view : NamedView) (purpose : Purpose)
  | decideHost (view : NamedView) (decision : Option GrantDecision)
  | decide (id : GrantId) (decision : Option GrantDecision)
  | revokeGrant (id : GrantId)
  | removeOwn (id : HostId)
  | removeHost (id : HostId)
  | revoke (device : DeviceId)

inductive Next where
  | goes (job : Job)
  | answers (answer : Answer)

inductive Event where
  | made (offer : Nat)
  | missed (account : AccountId) (now : Int)
  | taken (offer : HostOffer) (now : Int)

def notFound : Next := .answers (.refused .notFound)

def wrong : RemoteError :=
  ⟨.notFound, "That pairing code is wrong or has expired. Ask the host for a new one."⟩

def hostSummary (host : HostRow) (caller : Caller) : HostSummary :=
  ⟨host.id, host.name, host.device = caller.device⟩

def Request.start (caller : Caller) : Request → Next
  | .register host name fresh =>
    match name with
    | .error error => .answers (.refused error)
    | .ok name =>
      if caller.kind ≠ .host then .answers .forbidden
      else match host with
        | some id => .goes (.rebindHost id name)
        | none => .goes (.addHost name fresh)
  | .offer host secret code => .goes (.offerHost host secret code)
  | .pair presented scopes fresh =>
    match presented with
    | .malformed error => .answers (.refused error)
    | .foreign =>
      if scopes = ∅ then .answers (.refused (invalid "A pairing asks for at least one scope."))
      else .answers (.refused wrong)
    | .key hash =>
      if scopes = ∅ then .answers (.refused (invalid "A pairing asks for at least one scope."))
      else .goes (.redeemOffer hash scopes fresh)
  | .grant id => .goes (.grants id .sees)
  | .decide id decision => .goes (.grants id (.decides decision))
  | .revokeGrant id => .goes (.grants id .revokes)
  | .removeHost id => .goes (.removeOwn id)
  | .revoke device => .goes (.revoke device)

/-- What follows once a grant may be seen. -/
def Purpose.next (view : NamedView) (now : Int) : Purpose → Next
  | .sees => .answers (.grant (grantSummary view.toGrantView now) view.hostName)
  | .decides decision => .goes (.decideHost view decision)
  | .revokes => .goes (.revokeGrant view.grant.id)

structure Outcome where
  tables : Tables
  next : Next
  event : Option Event

def reads (t : Tables) (next : Next) : Outcome := ⟨t, next, none⟩

def ifOwn (t : Tables) (caller : Caller) (id : HostId) (next : HostRow → Next) : Outcome :=
  match t.host caller.account id with
  | some host => reads t (if host.device = caller.device then next host else notFound)
  | none => reads t notFound

def checked (view : NamedView) (decision : Option GrantDecision) (now : Int) : Next :=
  if (grantSummary view.toGrantView now).state ≠ .pending then
    .answers (.refused Records.notWaiting)
  else match decision with
    | none => .goes (.decide view.grant.id none)
    | some d =>
      match d.validate view.grant.requested with
      | .error error => .answers (.refused error)
      | .ok () => .goes (.decide view.grant.id (some d))

/-- One method of the records, in a call of `caller` that came in at `now`; `serial` is for an
    offer that is made. -/
def perform (t : Tables) (serial : Nat) (caller : Caller) (now : Int) : Job → Outcome
  | .addHost name fresh =>
    let host : HostRow := ⟨⟨fresh, caller.device, false⟩, caller.account, name⟩
    reads (t.addHost host) (.answers (.host (hostSummary host caller)))
  | .rebindHost id name =>
    match t.rebindHost caller.account id caller.device name with
    | (t', some host) => reads t' (.answers (.host (hostSummary host caller)))
    | (t', none) => reads t' notFound
  | .offerHost id secret code => ifOwn t caller id fun host => .goes (.putOffer host.id secret code)
  | .putOffer host secret code =>
    let offer : HostOffer :=
      ⟨serial, host, caller.account, secret, code, now + OFFER_TTL_MS, 0⟩
    ⟨t.putOffer offer now, .answers (.offer secret code), some (.made serial)⟩
  | .redeemOffer key scopes fresh =>
    match t.redeemOffer caller.account key now with
    | (t', some offer) => ⟨t', .goes (.pairHost offer scopes fresh), some (.taken offer now)⟩
    | (t', none) => ⟨t', .answers (.refused wrong), some (.missed caller.account now)⟩
  | .pairHost offer scopes fresh =>
    match t.host caller.account offer.host with
    | none => reads t (.answers (.refused wrong))
    | some host =>
      if host.device = caller.device then
        reads t (.answers (.refused
          (invalid "A host cannot pair with itself. Use the code on another device.")))
      else reads t (.goes (.addGrant host.id scopes fresh))
  | .addGrant host scopes fresh =>
    let grant : GrantRow :=
      ⟨⟨fresh, host, caller.device, scopes, ∅, none, .pending, now, now + OFFER_TTL_MS, none⟩,
        caller.account⟩
    reads (t.addGrant grant) (.goes (.grants fresh .sees))
  | .grants id purpose =>
    match (t.grantsOne caller.account id).head? with
    | none => reads t notFound
    | some view =>
      if view.grant.device = caller.device then reads t (purpose.next view now)
      else reads t (.goes (.grantHost view purpose))
  | .grantHost view purpose => ifOwn t caller view.grant.host fun _ => purpose.next view now
  | .decideHost view decision => ifOwn t caller view.grant.host fun _ => checked view decision now
  | .decide id decision =>
    match t.decide caller.account id decision now with
    | none => reads t (.answers (.refused Records.notWaiting))
    | some t' => reads t' (.goes (.grants id .sees))
  | .revokeGrant id => reads (t.revokeGrant caller.account id now).1 (.answers .done)
  | .removeOwn id => ifOwn t caller id fun host => .goes (.removeHost host.id)
  | .removeHost id => reads (t.removeHost caller.account id now).1 (.answers .done)
  | .revoke device =>
    match t.revoke caller.account device with
    | (t', true) => reads t' (.answers .done)
    | (t', false) => reads t' notFound

/-- Ids are drawn anew: what the method adds is under an id nothing has. -/
def Job.Fresh (t : Tables) : Job → Prop
  | addHost _ fresh => fresh ∉ t.hosts.map (·.id)
  | addGrant _ _ fresh => fresh ∉ t.grants.map (·.id)
  | _ => True

instance (t : Tables) : (job : Job) → Decidable (job.Fresh t)
  | .addHost _ fresh => inferInstanceAs (Decidable (fresh ∉ t.hosts.map (·.id)))
  | .addGrant _ _ fresh => inferInstanceAs (Decidable (fresh ∉ t.grants.map (·.id)))
  | .rebindHost .. | .offerHost .. | .putOffer .. | .redeemOffer .. | .pairHost .. | .grants ..
  | .grantHost .. | .decideHost .. | .decide .. | .revokeGrant .. | .removeOwn .. | .removeHost ..
  | .revoke .. => isTrue trivial

structure Call where
  caller : Caller
  now : Int
  next : Next

structure System where
  tables : Tables
  calls : List Call
  log : List Event
  clock : Int

inductive Act where
  | signsIn (device : DeviceRow)
  | calls (device : DeviceId) (request : Request)
  | does (call : Nat)
  | clock (now : Int)

def DeviceRow.caller (device : DeviceRow) : Caller := ⟨device.account, device.id, device.kind⟩

def step (s : System) : Act → Option System
  | .signsIn device =>
    if device.id ∈ s.tables.devices.map (·.id) ∨ device.revoked then none
    else some { s with tables := s.tables.addDevice device }
  | .calls id request =>
    match s.tables.device id with
    | none => none
    | some device =>
      if device.revoked then none
      else some { s with
        calls := s.calls ++ [⟨device.caller, s.clock, request.start device.caller⟩] }
  | .does k =>
    match s.calls[k]? with
    | some ⟨caller, now, .goes job⟩ =>
      if job.Fresh s.tables then
        let done := perform s.tables s.log.length caller now job
        some { s with
          tables := done.tables
          calls := s.calls.set k ⟨caller, now, done.next⟩
          log := done.event.toList ++ s.log }
      else none
    | _ => none
  | .clock now => if s.clock ≤ now then some { s with clock := now } else none

def System.empty : System := ⟨.empty, [], [], 0⟩

end Yardsort.Server.Pairings
