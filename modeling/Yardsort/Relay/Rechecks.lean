import Yardsort.Lib.Run
import Yardsort.Lib.Table
import Yardsort.Proto.Frame

/- Who stays connected through the relay: tickets, the joining of `serve_socket`, `nudge`
   and `recheck` of `server/src/relay.rs`, against what the records say of devices, hosts
   and grants.

   An account's rows are its own (no method of the records changes another's), so the
   records are kept by account; and a host's id is one account's, so its link is looked up
   by both. Every lock section and every call of the records is one
   step. A change that revokes something is followed by its nudge in a step of its own
   (`unsent`), and `drain` and `heard` start the checks of nudges and signals; a check is
   started at any time, as a round would. A socket is open until it is closed (`closing`)
   or let go of (`gone`). -/
namespace Yardsort.Relay.Rechecks
open Yardsort.Lib Yardsort.Proto

abbrev AccountId := String

structure Device where
  id : DeviceId
  revoked : Bool
  deriving DecidableEq

structure Host where
  id : HostId
  device : DeviceId
  removed : Bool

inductive GrantStatus where
  | pending
  | approved
  | denied
  | revoked
  deriving DecidableEq

structure Grant where
  id : GrantId
  host : HostId
  device : DeviceId
  status : GrantStatus

structure Ledger where
  devices : List Device
  hosts : List Host
  grants : List Grant

def signedIn (devices : List Device) (id : DeviceId) : Bool :=
  devices.any fun d => d.id = id && !d.revoked

def Grant.takenBack (g : Grant) : Grant :=
  if g.status = .pending ∨ g.status = .approved then { g with status := .revoked } else g

namespace Ledger

def empty : Ledger := ⟨[], [], []⟩

def host (l : Ledger) (id : HostId) : Option Host :=
  l.hosts.find? fun h => h.id = id && !h.removed

def grant (l : Ledger) (id : GrantId) : Option Grant := l.grants.find? (·.id = id)

def deviceRevoked (l : Ledger) (g : Grant) : Bool :=
  ((l.devices.find? (·.id = g.device)).map (·.revoked)).getD true

def inForce (l : Ledger) (g : Grant) : Bool := g.status = .approved && !l.deviceRevoked g

def hostInForce (l : Ledger) (host : HostId) (device : DeviceId) : Bool :=
  (l.host host).any (·.device = device) && signedIn l.devices device

/-- A device's channel is in force: its grant is approved, of this host and of a device that is
    not revoked. -/
def deviceInForce (l : Ledger) (host : HostId) (device : DeviceId) (grant : GrantId) : Bool :=
  (l.grant grant).any fun g => l.inForce g && g.device = device && g.host = host

end Ledger

inductive Method where
  | addDevice (id : DeviceId)
  | addHost (id : HostId) (device : DeviceId)
  | rebindHost (id : HostId) (device : DeviceId)
  | addGrant (id : GrantId) (host : HostId) (device : DeviceId)
  | decide (id : GrantId) (approve : Bool)
  | revokeGrant (id : GrantId)
  | removeHost (id : HostId)
  /-- `revoke`, and `rotate` of a credential that was reused. -/
  | revoke (id : DeviceId)

def Method.nudges : Method → Bool
  | .decide .. | .revokeGrant _ | .removeHost _ | .revoke _ => true
  | .addDevice _ | .addHost .. | .rebindHost .. | .addGrant .. => false

def Ledger.decide (l : Ledger) (id : GrantId) (approve : Bool) : Ledger :=
  match l.grants.find? fun g => g.id = id && g.status = .pending with
  | none => l
  | some grant =>
    { l with grants := l.grants.map fun g =>
        if g.id = id then { g with status := if approve then .approved else .denied }
        -- an approval revokes the device's earlier grant on this host
        else if approve && g.host = grant.host && g.device = grant.device && g.status = .approved then
          { g with status := .revoked }
        else g }

def Ledger.apply (l : Ledger) : Method → Ledger
  | .addDevice id => { l with devices := l.devices ++ [⟨id, false⟩] }
  | .addHost id device => { l with hosts := l.hosts ++ [⟨id, device, false⟩] }
  | .rebindHost id device =>
    { l with hosts := l.hosts.map fun h =>
        if h.id = id ∧ h.removed = false then { h with device := device } else h }
  | .addGrant id host device => { l with grants := l.grants ++ [⟨id, host, device, .pending⟩] }
  | .decide id approve => l.decide id approve
  | .revokeGrant id =>
    { l with grants := l.grants.map fun g => if g.id = id then g.takenBack else g }
  | .removeHost id =>
    { l with
      hosts := l.hosts.map fun h => if h.id = id then { h with removed := true } else h
      grants := l.grants.map fun g => if g.host = id then g.takenBack else g }
  | .revoke id =>
    { l with devices := l.devices.map fun d => if d.id = id then { d with revoked := true } else d }

def TICKET_TTL_MS : Nat := 60000

inductive Role where
  | host (account : AccountId) (host : HostId) (device : DeviceId)
  | device (account : AccountId) (host : HostId) (device : DeviceId) (grant : GrantId)

def Role.account : Role → AccountId
  | .host account .. => account
  | .device account .. => account

structure Pending where
  role : Role
  expiresAt : Nat

/-- A ticket request: from a host or from a device, for `host`. -/
structure Request where
  account : AccountId
  caller : DeviceId
  isHost : Bool
  asHost : Bool
  host : HostId

/-- Where a ticket request is: it asks for its host, then for its grant, and is to be issued. -/
inductive Ticketing where
  | asked (request : Request)
  | found (request : Request)
  | granted (role : Role)
  | atEnd

def Request.found (r : Request) (l : Ledger) : Ticketing :=
  match l.host r.host with
  | none => .atEnd
  | some host =>
    if r.asHost then
      if !r.isHost || host.device ≠ r.caller then .atEnd
      else .granted (.host r.account r.host r.caller)
    else .found r

def Request.granted (r : Request) (l : Ledger) : Ticketing :=
  match l.grants.find? fun g => g.device = r.caller && g.host = r.host && l.inForce g with
  | none => .atEnd
  | some g => .granted (.device r.account r.host r.caller g.id)

/-- Where a host's task is: its ticket is spent, its account is nudged, its place is noted
    (`put_link`), and its link is in `hosts`. -/
inductive HostStage where
  | redeemed
  | nudged
  | noted
  | joined
  | refused
  deriving DecidableEq

structure HostSocket where
  account : AccountId
  host : HostId
  device : DeviceId
  stage : HostStage
  inHosts : Bool
  closing : Bool
  gone : Bool

def HostSocket.isOpen (s : HostSocket) : Bool := s.stage = .joined && !s.closing && !s.gone

/-- Where a device's task is: its ticket is spent, its account is nudged, it has found its host's
    link, is on the link's channels, and its `Open` was queued. -/
inductive DeviceStage where
  | redeemed
  | nudged
  | found (link : Nat)
  | inserted (link : Nat)
  | joined (link : Nat)
  | refused
  deriving DecidableEq

def DeviceStage.link : DeviceStage → Option Nat
  | .inserted link | .joined link => some link
  | _ => none

structure DeviceSocket where
  account : AccountId
  host : HostId
  device : DeviceId
  grant : GrantId
  stage : DeviceStage
  onChannel : Bool
  closing : Bool
  gone : Bool

def DeviceSocket.isOpen (s : DeviceSocket) : Bool := s.stage.link.isSome && !s.closing && !s.gone

/-! ## Checks -/

/-- Where a check of an account is: it lists the account's links, reads its devices, and takes the
    links in order. It reads a link's host; not in force, the link's devices are closed
    (`sweep`) and then its own socket (`shut`); in force, its channels are listed (`passed`), and
    each one's grant is read and, not in force, its channel is closed (`closing`). -/
inductive Stage where
  | started
  | listed (links : List Nat)
  | atLink (devices : List Device) (links : List Nat)
  | sweep (devices : List Device) (link : Nat) (rest : List Nat)
  | shut (devices : List Device) (link : Nat) (rest : List Nat)
  | passed (devices : List Device) (link : Nat) (rest : List Nat)
  | atDevice (devices : List Device) (link : Nat) (joined : List Nat) (rest : List Nat)
  | closing (devices : List Device) (link : Nat) (device : Nat) (joined : List Nat)
    (rest : List Nat)
  | atEnd
  deriving DecidableEq

structure Check where
  account : AccountId
  stage : Stage

structure World where
  now : Nat
  records : AccountId → Ledger
  requests : List Ticketing
  tickets : List Pending
  hosts : List HostSocket
  devices : List DeviceSocket
  /-- Calls that revoked something and are to nudge. -/
  unsent : List AccountId
  dirty : List AccountId
  checks : List Check

inductive Action where
  | later (ms : Nat)
  | change (account : AccountId) (method : Method)
  | nudge (account : AccountId)
  | ask (request : Request)
  | readHost (request : Nat)
  | readGrants (request : Nat)
  | issue (request : Nat)
  | present (ticket : Nat)
  | nudgeHost (socket : Nat)
  | note (socket : Nat)
  | attach (socket : Nat)
  | refuseHost (socket : Nat)
  | nudgeDevice (socket : Nat)
  | find (socket : Nat)
  | insert (socket : Nat)
  | opens (socket : Nat) (room : Bool)
  | refuseDevice (socket : Nat)
  /-- A link's devices are closed: it was replaced or detached. -/
  | sweepLink (link : Nat)
  | closeLink (link : Nat)
  | leaveHost (link : Nat)
  | detach (link : Nat)
  /-- The host's frame takes a device off its channel, and then closes it. -/
  | takeOff (socket : Nat)
  | closeDevice (socket : Nat)
  | leaveDevice (socket : Nat)
  | drain
  | heard (account : AccountId)
  | go (check : Nat)

namespace World

def new : World :=
  { now := 0, records := fun _ => .empty, requests := [], tickets := [], hosts := [], devices := []
    unsent := [], dirty := [], checks := [] }

def current (w : World) (account : AccountId) (host : HostId) : Option Nat :=
  w.hosts.findIdx? fun s => s.account = account && s.host = host && s.inHosts

def linksOf (w : World) (account : AccountId) : List Nat :=
  (List.range w.hosts.length).filter fun i =>
    w.hosts[i]?.any fun s => s.account = account && s.inHosts

def channels (w : World) (link : Nat) : List Nat :=
  (List.range w.devices.length).filter fun j =>
    w.devices[j]?.any fun s => s.stage.link = some link && s.onChannel

def putHost (w : World) (i : Nat) (s : HostSocket) : World := { w with hosts := w.hosts.set i s }

def putDevice (w : World) (j : Nat) (s : DeviceSocket) : World :=
  { w with devices := w.devices.set j s }

def putCheck (w : World) (r : Nat) (c : Check) (stage : Stage) : World :=
  { w with checks := w.checks.set r { c with stage := stage } }

def DeviceSocket.shut (s : DeviceSocket) : DeviceSocket := { s with onChannel := false, closing := true }

def closeAll (w : World) (link : Nat) : World :=
  { w with devices := w.devices.map fun s =>
      if s.stage.link = some link ∧ s.onChannel = true then DeviceSocket.shut s else s }

def shutLink (w : World) (link : Nat) : World :=
  { w with hosts := w.hosts.modify link fun s => { s with closing := true } }

def closeChannel (w : World) (j : Nat) : World :=
  { w with devices := w.devices.modify j fun s =>
      if s.onChannel then DeviceSocket.shut s else s }

def attach (w : World) (i : Nat) (s : HostSocket) : World :=
  let hosts := w.hosts.map fun x =>
    if x.account = s.account ∧ x.host = s.host then { x with inHosts := false } else x
  { w with hosts := hosts.set i { s with stage := .joined, inHosts := true } }

def change (w : World) (account : AccountId) (method : Method) : World :=
  { w with
    records := Function.update w.records account ((w.records account).apply method)
    unsent := if method.nudges then account :: w.unsent else w.unsent }

def present (w : World) (t : Nat) (p : Pending) : World :=
  let w := { w with tickets := w.tickets.eraseIdx t }
  if w.now < p.expiresAt then
    match p.role with
    | .host account host device =>
      { w with hosts := w.hosts ++ [⟨account, host, device, .redeemed, false, false, false⟩] }
    | .device account host device grant =>
      { w with devices :=
          w.devices ++ [⟨account, host, device, grant, .redeemed, false, false, false⟩] }
  else w

def go (w : World) (r : Nat) (c : Check) : Option World :=
  match c.stage with
  | .started => some (w.putCheck r c (match w.linksOf c.account with
    | [] => .atEnd
    | links => .listed links))
  | .listed links => some (w.putCheck r c (.atLink (w.records c.account).devices links))
  | .atLink _ [] => some (w.putCheck r c .atEnd)
  | .atLink devices (link :: rest) => match w.hosts[link]? with
    | none => none
    | some s =>
      let host := (w.records c.account).host s.host
      some (w.putCheck r c (
        if !host.any (·.device = s.device) || !signedIn devices s.device then .sweep devices link rest
        else .passed devices link rest))
  | .sweep devices link rest => some ((w.closeAll link).putCheck r c (.shut devices link rest))
  | .shut devices link rest => some ((w.shutLink link).putCheck r c (.atLink devices rest))
  | .passed devices link rest =>
    some (w.putCheck r c (.atDevice devices link (w.channels link) rest))
  | .atDevice devices _ [] rest => some (w.putCheck r c (.atLink devices rest))
  | .atDevice devices link (j :: joined) rest => match w.hosts[link]?, w.devices[j]? with
    | some l, some s =>
      some (w.putCheck r c (
        if (w.records c.account).deviceInForce l.host s.device s.grant then
          .atDevice devices link joined rest
        else .closing devices link j joined rest))
    | _, _ => none
  | .closing devices link j joined rest =>
    some ((w.closeChannel j).putCheck r c (.atDevice devices link joined rest))
  | .atEnd => none

theorem sees_links {links : List Nat} {k : Nat} {sees : Stage → Bool} (hk : k ∈ links)
    (hsees : ∀ links, k ∈ links → sees (.listed links) = true) :
    sees (match links with | [] => .atEnd | links => .listed links) = true := by
  cases links with
  | nil => cases hk
  | cons i rest => exact hsees _ hk

def step (w : World) : Action → Option World
  | .later ms => some { w with now := w.now + ms }
  | .change account method => some (w.change account method)
  | .nudge account =>
    if account ∈ w.unsent then
      some { w with unsent := w.unsent.erase account, dirty := account :: w.dirty }
    else none
  | .ask request => some { w with requests := w.requests ++ [.asked request] }
  | .readHost i => match w.requests[i]? with
    | some (.asked request) =>
      some { w with requests := w.requests.set i (request.found (w.records request.account)) }
    | _ => none
  | .readGrants i => match w.requests[i]? with
    | some (.found request) =>
      some { w with requests := w.requests.set i (request.granted (w.records request.account)) }
    | _ => none
  | .issue i => match w.requests[i]? with
    | some (.granted role) =>
      some { w with
        requests := w.requests.set i .atEnd
        tickets := w.tickets ++ [⟨role, w.now + TICKET_TTL_MS⟩] }
    | _ => none
  | .present t => (w.tickets[t]?).map (w.present t)
  | .nudgeHost i => match w.hosts[i]? with
    | some s =>
      if s.stage = .redeemed then
        some { w.putHost i { s with stage := .nudged } with dirty := s.account :: w.dirty }
      else none
    | none => none
  | .note i => match w.hosts[i]? with
    | some s => if s.stage = .nudged then some (w.putHost i { s with stage := .noted }) else none
    | none => none
  | .attach i => match w.hosts[i]? with
    | some s => if s.stage = .noted then some (w.attach i s) else none
    | none => none
  | .refuseHost i => match w.hosts[i]? with
    | some s => if s.stage = .nudged then some (w.putHost i { s with stage := .refused }) else none
    | none => none
  | .nudgeDevice j => match w.devices[j]? with
    | some s =>
      if s.stage = .redeemed then
        some { w.putDevice j { s with stage := .nudged } with dirty := s.account :: w.dirty }
      else none
    | none => none
  | .find j => match w.devices[j]? with
    | some s =>
      if s.stage = .nudged then
        some (w.putDevice j { s with stage := match w.current s.account s.host with
          | some link => .found link
          | none => .refused })
      else none
    | none => none
  | .insert j => match w.devices[j]? with
    | some s => match s.stage with
      | .found link => some (w.putDevice j { s with stage := .inserted link, onChannel := true })
      | _ => none
    | none => none
  | .opens j room => match w.devices[j]? with
    | some s => match s.stage with
      | .inserted link =>
        let queued := room && w.hosts[link]?.any fun l => !l.closing
        some (w.putDevice j { s with stage := .joined link, closing := s.closing || !queued })
      | _ => none
    | none => none
  | .refuseDevice j => match w.devices[j]? with
    | some s => match s.stage with
      | .found _ => some (w.putDevice j { s with stage := .refused })
      | _ => none
    | none => none
  | .sweepLink link => some (w.closeAll link)
  | .closeLink link => some (w.shutLink link)
  | .leaveHost i => match w.hosts[i]? with
    | some s => if s.stage = .joined then some (w.putHost i { s with gone := true }) else none
    | none => none
  | .detach i => match w.hosts[i]? with
    | some s => if s.gone then some (w.putHost i { s with inHosts := false }) else none
    | none => none
  | .takeOff j => match w.devices[j]? with
    | some s => if s.stage.link.isSome then some (w.putDevice j { s with onChannel := false }) else none
    | none => none
  | .closeDevice j => match w.devices[j]? with
    | some s => some (w.putDevice j { s with closing := true })
    | none => none
  | .leaveDevice j => match w.devices[j]? with
    | some s => if s.stage.link.isSome then some (w.putDevice j { s with gone := true }) else none
    | none => none
  | .drain => some { w with dirty := [], checks := w.checks ++ w.dirty.map fun a => ⟨a, .started⟩ }
  | .heard account => some { w with checks := w.checks ++ [⟨account, .started⟩] }
  | .go r => match w.checks[r]? with
    | some c => w.go r c
    | none => none

def hostInForce (w : World) (s : HostSocket) : Bool :=
  (w.records s.account).hostInForce s.host s.device

def deviceInForce (w : World) (s : DeviceSocket) : Bool :=
  (w.records s.account).deviceInForce s.host s.device s.grant

/-- No join is under way, and every nudge has been handled. -/
def Settled (w : World) : Prop :=
  (∀ s ∈ w.hosts, s.stage = .joined ∨ s.stage = .refused) ∧
    (∀ s ∈ w.devices, s.stage = .refused ∨ ∃ link, s.stage = .joined link) ∧
    w.unsent = [] ∧ w.dirty = [] ∧ ∀ c ∈ w.checks, c.stage = .atEnd

def AllInForce (w : World) : Prop :=
  (∀ s ∈ w.hosts, s.isOpen = true → w.hostInForce s = true) ∧
    ∀ s ∈ w.devices, s.isOpen = true → w.deviceInForce s = true

end World

namespace Stage

/-- It will read the host of this link. -/
def seesHost (i : Nat) : Stage → Bool
  | .listed links | .atLink _ links => i ∈ links
  | .sweep _ link rest | .shut _ link rest => link = i || i ∈ rest
  | .passed _ _ rest | .atDevice _ _ _ rest | .closing _ _ _ _ rest => i ∈ rest
  | .started | .atEnd => false

def seesGone (i : Nat) (device : DeviceId) : Stage → Bool
  | .listed links => i ∈ links
  | .atLink devices links => i ∈ links && !signedIn devices device
  | .sweep devices link rest | .shut devices link rest =>
    link = i || (i ∈ rest && !signedIn devices device)
  | .passed devices _ rest | .atDevice devices _ _ rest | .closing devices _ _ _ rest =>
    i ∈ rest && !signedIn devices device
  | .started | .atEnd => false

/-- It will look at this device's channel on this link. -/
def seesDevice (j k : Nat) : Stage → Bool
  | .listed links | .atLink _ links => k ∈ links
  | .sweep _ link rest | .passed _ link rest => link = k || k ∈ rest
  | .shut _ _ rest => k ∈ rest
  | .atDevice _ _ joined rest => j ∈ joined || k ∈ rest
  | .closing _ _ device joined rest => device = j || j ∈ joined || k ∈ rest
  | .started | .atEnd => false

end Stage

namespace World

def coming (w : World) (account : AccountId) : Bool :=
  account ∈ w.unsent || account ∈ w.dirty

/-- Or one is about to start, or is where `sees` says. -/
def due (w : World) (account : AccountId) (sees : Stage → Bool) : Bool :=
  w.coming account || w.checks.any fun c => c.account = account && (c.stage = .started || sees c.stage)

/-- Every open link of the account that is out of force, and the link of every such device, is in
    `hosts`. -/
def Listed (w : World) (account : AccountId) : Prop :=
  (∀ s ∈ w.hosts, s.account = account → s.isOpen = true → w.hostInForce s = false →
    s.inHosts = true) ∧
  ∀ s ∈ w.devices, s.account = account → s.isOpen = true → w.deviceInForce s = false →
    ∀ k ∈ s.stage.link, ∀ l ∈ w.hosts[k]?, l.inHosts = true

/-- Every open device of a link that is out of force is on its channel. -/
def OnChannels (w : World) (link : Nat) : Prop :=
  ∀ s ∈ w.devices, s.stage.link = some link → s.isOpen = true → w.deviceInForce s = false →
    s.onChannel = true

end World

def Stage.looksAt : Stage → Option Nat
  | .sweep _ link _ | .passed _ link _ | .closing _ link _ _ _ => some link
  | _ => none

def DeviceStage.at? : DeviceStage → Option Nat
  | .found link | .inserted link | .joined link => some link
  | _ => none

/-- A link that joins is in force, or a check is to come. -/
def LinkWatched (w : World) (i : Nat) : Prop :=
  ∀ s ∈ w.hosts[i]?, w.hostInForce s = true ∨ w.due s.account (fun _ => false) = true

/-- A device that joins is in force, or a check that will look at its channel is to come. -/
def DeviceWatched (w : World) (j : Nat) : Prop :=
  ∀ s ∈ w.devices[j]?, ∀ k ∈ s.stage.at?,
    w.deviceInForce s = true ∨ w.due s.account (Stage.seesDevice j k) = true

/-- Where a host is bound to another device, a check that will read it is to come for each open
    link the earlier one left behind. -/
def BindingWatched (w : World) (account : AccountId) (id : HostId) (device : DeviceId) : Prop :=
  ∀ i ∈ List.range w.hosts.length, ∀ s ∈ w.hosts[i]?, s.account = account → s.host = id →
    s.isOpen = true → s.device ≠ device → w.due account (Stage.seesHost i) = true

/-- A check finds every open socket that it is to close where it looks for it, or another check
    is to come. -/
def CheckFinds (w : World) (c : Check) : Prop :=
  w.coming c.account = true ∨
    ((c.stage = .started → w.Listed c.account) ∧ ∀ k ∈ c.stage.looksAt, w.OnChannels k)

/-- Where a check comes in time. -/
def Careful (w : World) : Action → Prop
  | .attach i => LinkWatched w i
  | .insert j => DeviceWatched w j
  | .change account (.rebindHost id device) => BindingWatched w account id device
  | .go r => ∀ c ∈ w.checks[r]?, CheckFinds w c
  | _ => True

instance (w : World) (account : AccountId) : Decidable (w.Listed account) :=
  inferInstanceAs (Decidable (
    (∀ s ∈ w.hosts, s.account = account → s.isOpen = true → w.hostInForce s = false →
      s.inHosts = true) ∧
    ∀ s ∈ w.devices, s.account = account → s.isOpen = true → w.deviceInForce s = false →
      ∀ k ∈ s.stage.link, ∀ l ∈ w.hosts[k]?, l.inHosts = true))

instance (w : World) (link : Nat) : Decidable (w.OnChannels link) :=
  inferInstanceAs (Decidable (∀ s ∈ w.devices, s.stage.link = some link → s.isOpen = true →
    w.deviceInForce s = false → s.onChannel = true))

instance (w : World) (i : Nat) : Decidable (LinkWatched w i) :=
  inferInstanceAs (Decidable (∀ s ∈ w.hosts[i]?,
    w.hostInForce s = true ∨ w.due s.account (fun _ => false) = true))

instance (w : World) (j : Nat) : Decidable (DeviceWatched w j) :=
  inferInstanceAs (Decidable (∀ s ∈ w.devices[j]?, ∀ k ∈ s.stage.at?,
    w.deviceInForce s = true ∨ w.due s.account (Stage.seesDevice j k) = true))

instance (w : World) (account : AccountId) (id : HostId) (device : DeviceId) :
    Decidable (BindingWatched w account id device) :=
  inferInstanceAs (Decidable (∀ i ∈ List.range w.hosts.length, ∀ s ∈ w.hosts[i]?,
    s.account = account → s.host = id → s.isOpen = true → s.device ≠ device →
      w.due account (Stage.seesHost i) = true))

instance (w : World) (c : Check) : Decidable (CheckFinds w c) :=
  inferInstanceAs (Decidable (w.coming c.account = true ∨
    ((c.stage = .started → w.Listed c.account) ∧ ∀ k ∈ c.stage.looksAt, w.OnChannels k)))

instance (w : World) : (a : Action) → Decidable (Careful w a)
  | .attach i => inferInstanceAs (Decidable (LinkWatched w i))
  | .insert j => inferInstanceAs (Decidable (DeviceWatched w j))
  | .change account (.rebindHost id device) =>
    inferInstanceAs (Decidable (BindingWatched w account id device))
  | .go r => inferInstanceAs (Decidable (∀ c ∈ w.checks[r]?, CheckFinds w c))
  | .change _ (.addDevice _) | .change _ (.addHost _ _) | .change _ (.addGrant _ _ _)
  | .change _ (.decide _ _) | .change _ (.revokeGrant _) | .change _ (.removeHost _)
  | .change _ (.revoke _) | .later _ | .nudge _ | .ask _ | .readHost _ | .readGrants _ | .issue _
  | .present _ | .nudgeHost _ | .note _ | .refuseHost _ | .nudgeDevice _ | .find _ | .opens _ _
  | .refuseDevice _ | .sweepLink _ | .closeLink _ | .leaveHost _ | .detach _ | .takeOff _
  | .closeDevice _ | .leaveDevice _ | .drain | .heard _ => isTrue trivial

end Yardsort.Relay.Rechecks
