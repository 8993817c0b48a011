import Mathlib.Data.List.AList
import Yardsort.Relay.Roster

/- The relay's hub: `Hub`, `attach_host`, `detach_host`, `shutdown` and the host's part of
   `serve_socket` in `server/src/relay.rs`, over every link and its devices.

   A host's task goes from lock section to lock section by its `stage`, and a shutdown by
   `Shutdown`, which holds the lock on `hosts` while it closes what it drained. What the
   tasks of one link do there is `HostLink.step`. Sockets are named by the order they came
   in, as `next_link` names links.

   `swept` is not in the source: attaching, detaching or shutting down has closed the
   devices of a link that `hosts` does not hold any more. -/
namespace Yardsort.Relay
open Yardsort.Lib Yardsort.Proto

/-- Where a host's task is: it is past the check of `stopping`, or was refused after it; it
    took an earlier link's place, whose devices (`sweeping`) and socket (`replacing`) it is
    to close; its socket is carried, or is not any more; its link is not in `hosts`; and its
    devices are closed. -/
inductive Stage where
  | waiting
  | refused
  | sweeping (earlier : Nat)
  | replacing (earlier : Nat)
  | pumping
  | left
  | detached
  | gone
  deriving DecidableEq

def Stage.attached : Stage → Bool
  | .waiting | .refused => false
  | _ => true

def Stage.carried : Stage → Bool
  | .sweeping _ | .replacing _ | .pumping => true
  | _ => false

structure HostSocket where
  host : HostId
  link : HostLink
  stage : Stage
  swept : Bool

/-- A device's socket that is past the check of `stopping` and has no link yet. -/
structure Caller where
  host : HostId
  device : DeviceId
  grant : GrantId

/-- Where `shutdown` is: `stopping` is set, and then the links it drained are closed, each
    first its devices and then its own socket. -/
inductive Shutdown where
  | idle
  | flagged
  | sweeping (links : List Nat)
  | closing (link : Nat) (links : List Nat)
  | returned
  deriving DecidableEq

namespace Shutdown

def locks : Shutdown → Bool
  | .sweeping _ | .closing .. => true
  | _ => false

def drained : Shutdown → Bool
  | .idle | .flagged => false
  | _ => true

def toSweep : Shutdown → List Nat
  | .sweeping links | .closing _ links => links
  | _ => []

def toClose : Shutdown → List Nat
  | .sweeping links => links
  | .closing link links => link :: links
  | _ => []

end Shutdown

structure Hub where
  stopping : Bool
  hosts : AList fun _ : HostId => Nat
  sockets : List HostSocket
  callers : List Caller
  shutdown : Shutdown

namespace Hub

def new : Hub :=
  { stopping := false, hosts := ∅, sockets := [], callers := [], shutdown := .idle }

def put (h : Hub) (k : Nat) (x : HostSocket) : Hub := { h with sockets := h.sockets.set k x }

def task (h : Hub) (k : Nat) (next : HostSocket → Option Hub) : Option Hub :=
  match h.sockets[k]? with
  | some x => next x
  | none => none

def closeDevices (h : Hub) (k : Nat) (reason : CloseReason) : Option Hub :=
  h.task k fun x =>
    (x.link.closeAll reason).map fun link => h.put k { x with link, swept := true }

def closeSocket (h : Hub) (k : Nat) (reason : CloseReason) : Option Hub :=
  h.task k fun x => some (h.put k { x with link := x.link.shut reason })

def goTo (h : Hub) (k : Nat) (stage : Stage) : Option Hub :=
  h.task k fun x => some (h.put k { x with stage })

def connect (h : Hub) (host : HostId) (hello : Message) : Option Hub :=
  if h.stopping then none
  else
    let x := { host, link := .new hello, stage := .waiting, swept := false }
    some { h with sockets := h.sockets ++ [x] }

/-- No message in time, a ticket that is no good, or the link could not be noted. -/
def refuse (h : Hub) (k : Nat) : Option Hub :=
  h.task k fun x => if x.stage = .waiting then h.goTo k .refused else none

def attach (h : Hub) (k : Nat) : Option Hub :=
  h.task k fun x =>
    if x.stage ≠ .waiting ∨ h.shutdown.locks then none
    else
      let stage := match h.hosts.lookup x.host with
        | some earlier => .sweeping earlier
        | none => .pumping
      some { h.put k { x with stage } with hosts := h.hosts.insert x.host k }

def sweep (h : Hub) (k : Nat) : Option Hub :=
  h.task k fun x => match x.stage with
    | .sweeping earlier =>
      (h.closeDevices earlier .hostOffline).bind (·.goTo k (.replacing earlier))
    | _ => none

def replace (h : Hub) (k : Nat) : Option Hub :=
  h.task k fun x => match x.stage with
    | .replacing earlier => (h.closeSocket earlier .replaced).bind (·.goTo k .pumping)
    | _ => none

/-- `pump` returned, for whatever reason: its writer can fail with the link not closing. -/
def leave (h : Hub) (k : Nat) : Option Hub :=
  h.task k fun x =>
    if x.stage = .pumping ∧ x.link.hearing = .idle then h.goTo k .left else none

def detach (h : Hub) (k : Nat) : Option Hub :=
  h.task k fun x =>
    if x.stage ≠ .left ∨ h.shutdown.locks then none
    else
      let hosts := if h.hosts.lookup x.host = some k then h.hosts.erase x.host else h.hosts
      some { h.put k { x with stage := .detached } with hosts }

/-- `detach_host`: its devices are closed. -/
def forget (h : Hub) (k : Nat) : Option Hub :=
  h.task k fun x =>
    if x.stage = .detached then (h.closeDevices k .hostOffline).bind (·.goTo k .gone) else none

def call (h : Hub) (c : Caller) : Option Hub :=
  if h.stopping then none else some { h with callers := h.callers ++ [c] }

def turnAway (h : Hub) (n : Nat) : Option Hub :=
  if n < h.callers.length then some { h with callers := h.callers.eraseIdx n } else none

def find (h : Hub) (n : Nat) : Option Hub :=
  match h.callers[n]? with
  | none => none
  | some c =>
    if h.shutdown.locks then none
    else
      let h := { h with callers := h.callers.eraseIdx n }
      match h.hosts.lookup c.host with
      | none => some h
      | some k => h.task k fun x => some (h.put k { x with link := x.link.find c.device c.grant })

def ofHost : LinkAct → Bool
  | .hear _ | .act | .send => true
  | _ => false

/-- A section of a task on a link, or of a round of checks: a device takes a link only from
    `hosts`, and a host's socket is carried only by `pump`. -/
def onLink (h : Hub) (k : Nat) (a : LinkAct) : Option Hub :=
  h.task k fun x => match a with
    | .find .. => none
    | a =>
      if ofHost a ∧ x.stage ≠ .pumping then none
      else (x.link.step a).map fun link => h.put k { x with link }

def stop (h : Hub) : Option Hub :=
  if h.shutdown = .idle then some { h with stopping := true, shutdown := .flagged } else none

def drain (h : Hub) (order : List Nat) : Option Hub :=
  if h.shutdown = .flagged ∧ order.Perm (h.hosts.entries.map (·.2)) then
    some { h with hosts := ∅, shutdown := .sweeping order }
  else none

def wind (h : Hub) : Option Hub :=
  match h.shutdown with
  | .sweeping [] => some { h with shutdown := .returned }
  | .sweeping (k :: rest) =>
    (h.closeDevices k .restarting).map ({ · with shutdown := .closing k rest })
  | .closing k rest => (h.closeSocket k .restarting).map ({ · with shutdown := .sweeping rest })
  | _ => none

end Hub

inductive HubAct where
  | connect (host : HostId) (hello : Message)
  | refuse (k : Nat)
  | attach (k : Nat)
  | sweep (k : Nat)
  | replace (k : Nat)
  | leave (k : Nat)
  | detach (k : Nat)
  | forget (k : Nat)
  | call (c : Caller)
  | turnAway (n : Nat)
  | find (n : Nat)
  | link (k : Nat) (a : LinkAct)
  | stop
  | drain (order : List Nat)
  | wind

def Hub.step (h : Hub) : HubAct → Option Hub
  | .connect host hello => h.connect host hello
  | .refuse k => h.refuse k
  | .attach k => h.attach k
  | .sweep k => h.sweep k
  | .replace k => h.replace k
  | .leave k => h.leave k
  | .detach k => h.detach k
  | .forget k => h.forget k
  | .call c => h.call c
  | .turnAway n => h.turnAway n
  | .find n => h.find n
  | .link k a => h.onLink k a
  | .stop => h.stop
  | .drain order => h.drain order
  | .wind => h.wind

end Yardsort.Relay
