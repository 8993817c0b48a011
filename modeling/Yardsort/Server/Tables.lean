import Mathlib.Data.List.Perm.Basic
import Yardsort.Server.Credentials
import Yardsort.Server.Pairing

/- The devices, hosts, offers and grants of every account, as `MemoryRecords` of
   `server/src/records.rs` keeps them: each method is one step under the store's lock. A row names
   its account; which of the methods look at the name, and which take an id for enough, is the
   source's. -/
namespace Yardsort.Server.Pairings
open Yardsort.Proto Yardsort.Server.Credentials

def OFFER_TTL_MS : Int := 5 * 60000

def MAX_OFFER_MISSES : Nat := 5

structure DeviceRow extends Server.Device where
  account : AccountId
  kind : DeviceKind

structure HostRow extends Host where
  account : AccountId
  name : String

structure HostOffer where
  /-- Which offer it is: they are numbered as they are made. -/
  serial : Nat
  host : HostId
  account : AccountId
  secret : TokenHash
  code : TokenHash
  expiresAt : Int
  misses : Nat

structure GrantRow extends GrantRecord where
  account : AccountId

structure NamedView extends GrantView where
  hostName : String

/-- Open to this account: not lapsed, and not missed too often. -/
def HostOffer.open' (offer : HostOffer) (account : AccountId) (now : Int) : Bool :=
  offer.account = account && now < offer.expiresAt && offer.misses < MAX_OFFER_MISSES

def HostOffer.answers (offer : HostOffer) (key : TokenHash) : Bool :=
  offer.secret = key || offer.code = key

def HostOffer.missed (offer : HostOffer) (account : AccountId) (now : Int) : HostOffer :=
  if offer.open' account now then { offer with misses := offer.misses + 1 } else offer

structure Tables where
  devices : List DeviceRow
  hosts : List HostRow
  offers : List HostOffer
  grants : List GrantRow

def swapRemove {α : Type} (l : List α) (i : Nat) : List α :=
  match l.getLast? with
  | none => l
  | some last => (l.set i last).dropLast

namespace Tables

def empty : Tables := ⟨[], [], [], []⟩

def addDevice (t : Tables) (device : DeviceRow) : Tables :=
  { t with devices := t.devices ++ [device] }

def revoke (t : Tables) (account : AccountId) (id : DeviceId) : Tables × Bool :=
  match t.devices.find? (·.id = id) with
  | none => (t, false)
  | some device =>
    if device.account = account then
      ({ t with devices := t.devices.map fun d =>
          if d.id = id then { d with revoked := true } else d }, true)
    else (t, false)

def host (t : Tables) (account : AccountId) (id : HostId) : Option HostRow :=
  t.hosts.find? fun h => h.id = id && h.account = account && !h.removed

def addHost (t : Tables) (host : HostRow) : Tables := { t with hosts := t.hosts ++ [host] }

def rebindHost (t : Tables) (account : AccountId) (id : HostId) (device : DeviceId)
    (name : String) : Tables × Option HostRow :=
  match t.host account id with
  | none => (t, none)
  | some _ =>
    let t' := { t with hosts := t.hosts.map fun h =>
      if h.id = id ∧ h.account = account ∧ h.removed = false then { h with device, name } else h }
    (t', t'.host account id)

def putOffer (t : Tables) (offer : HostOffer) (now : Int) : Tables :=
  { t with offers :=
      (t.offers.filter fun o => now < o.expiresAt && o.host ≠ offer.host) ++ [offer] }

def redeemOffer (t : Tables) (account : AccountId) (key : TokenHash) (now : Int) :
    Tables × Option HostOffer :=
  match t.offers.findIdx? fun o => o.open' account now && o.answers key with
  | some i => ({ t with offers := swapRemove t.offers i }, t.offers[i]?)
  | none => ({ t with offers := t.offers.map (·.missed account now) }, none)

def addGrant (t : Tables) (grant : GrantRow) : Tables := { t with grants := t.grants ++ [grant] }

def device (t : Tables) (id : DeviceId) : Option DeviceRow := t.devices.find? (·.id = id)

def view (t : Tables) (grant : GrantRow) : NamedView where
  grant := grant.toGrantRecord
  deviceName := ((t.device grant.device).map (·.name)).getD ""
  deviceRevoked := ((t.device grant.device).map (·.revoked)).getD true
  hostName := ((t.hosts.find? (·.id = grant.host)).map (·.name)).getD ""

def grantsOne (t : Tables) (account : AccountId) (id : GrantId) : List NamedView :=
  (((t.grants.filter (·.account = account)).filter (·.id = id)).map t.view).insertionSort
    fun a b => b.grant.createdAt ≤ a.grant.createdAt

def mapGrants (t : Tables) (f : GrantRecord → GrantRecord) : Tables :=
  { t with grants := t.grants.map fun g => { g with toGrantRecord := f g.toGrantRecord } }

def decide (t : Tables) (account : AccountId) (id : GrantId) (decision : Option GrantDecision)
    (now : Int) : Option Tables :=
  (t.grants.find? fun g => g.id = id && g.account = account && g.waits now).map fun grant =>
    t.mapGrants fun g =>
      if g.id = id then g.decided now decision
      else if decision.isSome && grant.replaces g then g.revokedAt now
      else g

def revokeGrant (t : Tables) (account : AccountId) (id : GrantId) (now : Int) : Tables × Bool :=
  match t.grants.find? fun g => g.id = id && g.account = account with
  | none => (t, false)
  | some _ => (t.mapGrants fun g => if g.id = id then g.takenBack now else g, true)

def removeHost (t : Tables) (account : AccountId) (id : HostId) (now : Int) : Tables × Bool :=
  match t.host account id with
  | none => (t, false)
  | some _ =>
    let hosts := t.hosts.map fun h =>
      if h.id = id ∧ h.account = account ∧ h.removed = false then { h with removed := true } else h
    let taken := t.mapGrants fun g => if g.host = id then g.takenBack now else g
    ({ taken with hosts, offers := t.offers.filter (·.host ≠ id) }, true)

end Tables

end Yardsort.Server.Pairings
