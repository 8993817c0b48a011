import Mathlib.Data.Finset.Card
import Mathlib.Data.List.Sort
import Yardsort.Proto.Frame

/- One account's grants at the server: `server/src/pairing.rs` over the records of
   `server/src/records.rs`.

   A grant is asked for, then approved or denied by its host, and taken back by
   either side; its host is told only of those that wait and those in force. What
   every change keeps is `Records.Evolves`: a grant keeps its id, its host, its
   device and what it asked for, it is answered once, and once it is not in force
   after its answer it never is again. -/
namespace Yardsort.Server
open Yardsort.Lib Yardsort.Proto

inductive Scope where
  | workspaceRead
  | activityRead
  | memoryRead
  | terminalRead
  | terminalControl
  | deviceManage
  deriving DecidableEq

abbrev ProjectId := Proto.Id

inductive ProjectGrant where
  | all
  | only (projects : Finset ProjectId)
  deriving DecidableEq

/-- What the host's person chose. -/
structure GrantDecision where
  scopes : Finset Scope
  projects : ProjectGrant
  deriving DecidableEq

inductive ErrorCode where
  | notFound
  | invalidRequest

structure RemoteError where
  code : ErrorCode
  message : String

def RemoteError.notFound : RemoteError := ⟨.notFound, "There is nothing by that id here."⟩

def invalid (message : String) : RemoteError := ⟨.invalidRequest, message⟩

def MAX_GRANT_PROJECTS : Nat := 200
def MAX_LISTED_GRANTS : Nat := 100

def GrantDecision.validate (d : GrantDecision) (requested : Finset Scope) :
    Except RemoteError Unit :=
  if d.scopes = ∅ then .error (invalid "An approval gives at least one scope.")
  else if ¬ d.scopes ⊆ requested then
    .error (invalid "An approval cannot give more than the device asked for.")
  else match d.projects with
    | .all => .ok ()
    | .only projects =>
      if projects = ∅ ∨ MAX_GRANT_PROJECTS < projects.card then
        .error (invalid "An approval names between one and 200 projects, or all of them.")
      else .ok ()

structure Device where
  id : DeviceId
  name : String
  revoked : Bool

structure Host where
  id : HostId
  device : DeviceId
  removed : Bool

inductive GrantStatus where
  | pending
  | approved
  | denied
  | revoked
  deriving DecidableEq

structure GrantRecord where
  id : GrantId
  host : HostId
  device : DeviceId
  requested : Finset Scope
  scopes : Finset Scope
  projects : Option ProjectGrant
  status : GrantStatus
  createdAt : Int
  expiresAt : Int
  decidedAt : Option Int

namespace GrantRecord

def waits (g : GrantRecord) (now : Int) : Bool := g.status = .pending && now < g.expiresAt

def revokedAt (g : GrantRecord) (now : Int) : GrantRecord :=
  { g with status := .revoked, decidedAt := some now }

/-- Pending and approved grants can be taken back; another stays as it is. -/
def takenBack (g : GrantRecord) (now : Int) : GrantRecord :=
  if g.status = .pending ∨ g.status = .approved then g.revokedAt now else g

def decided (g : GrantRecord) (now : Int) : Option GrantDecision → GrantRecord
  | some d =>
    { g with
      status := .approved, scopes := d.scopes, projects := some d.projects, decidedAt := some now }
  | none => { g with status := .denied, decidedAt := some now }

/-- The same device's grant on the same host, in force: an approval of `g` takes it back. -/
def replaces (g other : GrantRecord) : Bool :=
  other.host = g.host && other.device = g.device && other.status = .approved

end GrantRecord

/-- One account's rows. Ids are unique: the server makes them. -/
structure Records where
  devices : List Device
  hosts : List Host
  grants : List GrantRecord

structure GrantView where
  grant : GrantRecord
  deviceName : String
  deviceRevoked : Bool

inductive GrantFilter where
  | one (id : GrantId)
  | ofHost (host : HostId)

def GrantFilter.admits : GrantFilter → GrantRecord → Bool
  | .one id, g => g.id = id
  | .ofHost host, g => g.host = host

namespace Records

def device (s : Records) (id : DeviceId) : Option Device := s.devices.find? (·.id = id)

def host (s : Records) (id : HostId) : Option Host :=
  s.hosts.find? (fun h => h.id = id && !h.removed)

def deviceRevoked (s : Records) (id : DeviceId) : Bool := ((s.device id).map (·.revoked)).getD true

def view (s : Records) (grant : GrantRecord) : GrantView :=
  { grant
    deviceName := ((s.device grant.device).map (·.name)).getD ""
    deviceRevoked := s.deviceRevoked grant.device }

/-- `Records::grants`: newest first, and as they were added where that is the same. -/
def views (s : Records) (filter : GrantFilter) : List GrantView :=
  ((s.grants.filter filter.admits).map s.view).insertionSort
    (fun a b => b.grant.createdAt ≤ a.grant.createdAt)

def mapGrants (s : Records) (f : GrantRecord → GrantRecord) : Records :=
  { s with grants := s.grants.map f }

/-- A decision on a grant that waits. An approval takes back the device's earlier grant. -/
def decide (s : Records) (id : GrantId) (decision : Option GrantDecision) (now : Int) :
    Option Records :=
  (s.grants.find? (fun g => g.id = id && g.waits now)).map fun grant =>
    s.mapGrants fun g =>
      if g.id = id then g.decided now decision
      else if decision.isSome && grant.replaces g then g.revokedAt now
      else g

def revokeGrant (s : Records) (id : GrantId) (now : Int) : Records :=
  s.mapGrants fun g => if g.id = id then g.takenBack now else g

def removeHost (s : Records) (id : HostId) (now : Int) : Records :=
  match s.host id with
  | none => s
  | some _ =>
    { devices := s.devices
      hosts := s.hosts.map fun h => if h.id = id then { h with removed := true } else h
      grants := s.grants.map fun g => if g.host = id then g.takenBack now else g }

def rebindHost (s : Records) (id : HostId) (device : DeviceId) : Records :=
  { s with
    hosts := s.hosts.map fun h => if h.id = id ∧ h.removed = false then { h with device } else h }

def revoke (s : Records) (id : DeviceId) : Records :=
  { s with devices := s.devices.map fun d => if d.id = id then { d with revoked := true } else d }

end Records

inductive GrantState where
  | pending
  | approved
  | denied
  | expired
  | revoked
  deriving DecidableEq

structure GrantSummary where
  id : GrantId
  host : HostId
  device : DeviceId
  deviceName : String
  state : GrantState
  requested : Finset Scope
  scopes : Finset Scope
  projects : Option ProjectGrant
  createdAt : Int
  decidedAt : Option Int
  expiresInMs : Option Nat
  deriving DecidableEq

def grantState (view : GrantView) (now : Int) : GrantState :=
  match view.grant.status with
  | .pending =>
    if view.deviceRevoked then .revoked
    else if view.grant.expiresAt ≤ now then .expired
    else .pending
  | .approved => if view.deviceRevoked then .revoked else .approved
  | .denied => .denied
  | .revoked => .revoked

def grantSummary (view : GrantView) (now : Int) : GrantSummary :=
  let state := grantState view now
  { id := view.grant.id
    host := view.grant.host
    device := view.grant.device
    deviceName := view.deviceName
    state
    requested := view.grant.requested
    scopes := view.grant.scopes
    projects := view.grant.projects
    createdAt := view.grant.createdAt
    decidedAt := view.grant.decidedAt
    expiresInMs := if state = .pending then some (view.grant.expiresAt - now).toNat else none }

namespace Records

def ownHost (s : Records) (caller : DeviceId) (id : HostId) : Except RemoteError Host :=
  match s.host id with
  | some h => if h.device = caller then .ok h else .error .notFound
  | none => .error .notFound

def grantView (s : Records) (caller : DeviceId) (id : GrantId) : Except RemoteError GrantView :=
  match (s.views (.one id)).head? with
  | none => .error .notFound
  | some view =>
    if view.grant.device = caller then .ok view
    else match s.ownHost caller view.grant.host with
      | .ok _ => .ok view
      | .error e => .error e

def hostGrants (s : Records) (host : HostId) (now : Int) : List GrantSummary :=
  (((s.views (.ofHost host)).map (grantSummary · now)).filter
    (fun g => g.state = .pending || g.state = .approved)).take MAX_LISTED_GRANTS

def notWaiting : RemoteError := invalid "This request is no longer waiting for an answer."

def checkDecision (s : Records) (caller : DeviceId) (id : GrantId)
    (decision : Option GrantDecision) (now : Int) : Except RemoteError Unit := do
  let view ← s.grantView caller id
  let _ ← s.ownHost caller view.grant.host
  if (grantSummary view now).state ≠ .pending then throw notWaiting
  match decision with
  | some d => d.validate view.grant.requested
  | none => pure ()

end Records

/-- What anyone but the host's own calls may do to the records. -/
inductive Change where
  | enrolled (device : Device)
  | signedOut (device : DeviceId)
  | hostAdded (host : Host)
  | hostRebound (host : HostId) (device : DeviceId)
  | hostRemoved (host : HostId) (now : Int)
  /-- A device redeemed a host's offer, and asks. -/
  | asked (grant : GrantRecord)
  | decided (grant : GrantId) (decision : Option GrantDecision) (now : Int)
  | takenBack (grant : GrantId) (now : Int)

namespace Records

def change (s : Records) : Change → Option Records
  | .enrolled device =>
    if s.device device.id = none then some { s with devices := s.devices ++ [device] } else none
  | .signedOut device => some (s.revoke device)
  | .hostAdded host => some { s with hosts := s.hosts ++ [host] }
  | .hostRebound host device => some (s.rebindHost host device)
  | .hostRemoved host now => some (s.removeHost host now)
  | .asked grant =>
    if grant.status = .pending ∧ s.device grant.device ≠ none ∧
        ∀ g ∈ s.grants, g.id ≠ grant.id then
      some { s with grants := s.grants ++ [grant] }
    else none
  | .decided grant decision now => s.decide grant decision now
  | .takenBack grant now => some (s.revokeGrant grant now)

end Records

/-- What may become of a grant: it stays the request it is, and an answered one is as it
    was or taken back. -/
structure GrantRecord.Becomes (g g' : GrantRecord) : Prop where
  id : g'.id = g.id
  host : g'.host = g.host
  device : g'.device = g.device
  requested : g'.requested = g.requested
  status : g.status ≠ .pending → g'.status = g.status ∨ g'.status = .revoked

theorem GrantRecord.Becomes.refl (g : GrantRecord) : g.Becomes g :=
  ⟨rfl, rfl, rfl, rfl, fun _ => .inl rfl⟩

theorem GrantRecord.becomes_revokedAt (g : GrantRecord) (now : Int) : g.Becomes (g.revokedAt now) :=
  ⟨rfl, rfl, rfl, rfl, fun _ => .inr rfl⟩

theorem GrantRecord.becomes_takenBack (g : GrantRecord) (now : Int) :
    g.Becomes (g.takenBack now) := by
  unfold takenBack
  split
  · exact g.becomes_revokedAt now
  · exact .refl g

theorem GrantRecord.becomes_decided {g : GrantRecord} (now : Int) (d : Option GrantDecision)
    (hg : g.status = .pending) : g.Becomes (g.decided now d) := by
  cases d with
  | some d | none => exact ⟨rfl, rfl, rfl, rfl, fun h => absurd hg h⟩

theorem GrantRecord.decided_status (g : GrantRecord) (now : Int) (d : Option GrantDecision) :
    (g.decided now d).status ≠ .pending := by
  cases d with
  | some d => exact (fun h => nomatch (h : GrantStatus.approved = .pending))
  | none => exact (fun h => nomatch (h : GrantStatus.denied = .pending))

variable {s : Records}

namespace Records

/-- Ids are unique, and a grant's device is one of the account's. -/
structure WellFormed (s : Records) : Prop where
  unique : (s.grants.map (·.id)).Nodup
  known : ∀ g ∈ s.grants, s.device g.device ≠ none

structure Evolves (s s' : Records) : Prop where
  grants : ∀ g ∈ s.grants, ∃ g' ∈ s'.grants, g.Becomes g'
  devices : ∀ id, s.device id ≠ none → s.deviceRevoked id = true → s'.deviceRevoked id = true

/-- In force, as the server sees it: approved, and its device not signed out. -/
def InForce (s : Records) (g : GrantRecord) : Prop :=
  g.status = .approved ∧ s.deviceRevoked g.device = false

instance (s : Records) (g : GrantRecord) : Decidable (s.InForce g) := inferInstanceAs (Decidable (_ ∧ _))

theorem WellFormed.eq (h : s.WellFormed) {g g' : GrantRecord} (hg : g ∈ s.grants)
    (hg' : g' ∈ s.grants) (hid : g.id = g'.id) : g = g' :=
  List.inj_on_of_nodup_map h.unique hg hg' hid

theorem Evolves.refl (s : Records) : s.Evolves s :=
  ⟨fun g hg => ⟨g, hg, .refl g⟩, fun _ _ h => h⟩

theorem Evolves.notInForce {s' : Records} (h : s.Evolves s') (hs : s.WellFormed)
    {g g' : GrantRecord} (hg : g ∈ s.grants) (hb : g.Becomes g') (ha : g.status ≠ .pending)
    (hf : ¬ s.InForce g) : ¬ s'.InForce g' := by
  intro ⟨hst, hdev⟩
  rcases hb.status ha with heq | hrev
  · have hgst : g.status = .approved := heq ▸ hst
    have hgdev : s.deviceRevoked g.device = true := by
      cases hd : s.deviceRevoked g.device with
      | true => rfl
      | false => exact absurd ⟨hgst, hd⟩ hf
    have := h.devices g.device (hs.known g hg) hgdev
    rw [← hb.device, hdev] at this
    exact absurd this (by decide)
  · rw [hrev] at hst
    exact absurd hst (by decide)

theorem mapGrants_evolves {f : GrantRecord → GrantRecord} (hf : ∀ g ∈ s.grants, g.Becomes (f g)) :
    s.Evolves (s.mapGrants f) :=
  ⟨fun g hg => ⟨f g, mem_map_of_mem hg, hf g hg⟩, fun _ _ h => h⟩

theorem mapGrants_wellFormed {f : GrantRecord → GrantRecord} (h : s.WellFormed)
    (hf : ∀ g ∈ s.grants, g.Becomes (f g)) : (s.mapGrants f).WellFormed := by
  refine ⟨?_, ?_⟩
  · have : (s.mapGrants f).grants.map (·.id) = s.grants.map (·.id) := by
      rw [mapGrants, map_map]
      exact map_congr_left fun g hg => (hf g hg).id
    rw [this]
    exact h.unique
  · intro g' hg'
    obtain ⟨g, hg, rfl⟩ := mem_map.mp hg'
    rw [(hf g hg).device]
    exact h.known g hg

theorem WellFormed.of_eq {s' : Records} (h : s.WellFormed) (hd : s'.devices = s.devices)
    (hg : s'.grants = s.grants) : s'.WellFormed :=
  ⟨hg ▸ h.unique, fun g hmem => by
    have := h.known g (hg ▸ hmem)
    simpa only [device, hd] using this⟩

theorem Evolves.of_eq {s' : Records} (hd : s'.devices = s.devices) (hg : s'.grants = s.grants) :
    s.Evolves s' := by
  refine ⟨fun g hmem => ⟨g, hg ▸ hmem, .refl g⟩, fun id _ h => ?_⟩
  simpa only [deviceRevoked, device, hd] using h

theorem decide_spec {s' : Records} {id : GrantId} {d : Option GrantDecision} {now : Int}
    (hs : s.WellFormed) (h : s.decide id d now = some s') :
    ∃ f, s' = s.mapGrants f ∧ (∀ g ∈ s.grants, g.Becomes (f g)) ∧
      ∃ g ∈ s.grants, g.id = id ∧ g.status = .pending ∧ f g = g.decided now d := by
  obtain ⟨grant, hfind, rfl⟩ := map_eq_some_iff.mp h
  have hmem := mem_of_find?_eq_some hfind
  have hp := List.find?_some hfind
  simp only [GrantRecord.waits, Bool.and_eq_true, decide_eq_true_eq] at hp
  obtain ⟨hid, hst, -⟩ := hp
  refine ⟨_, rfl, ?_, grant, hmem, hid, hst, if_pos hid⟩
  intro g hg
  split
  · rename_i hgid
    have : g = grant := hs.eq hg hmem (hgid.trans hid.symm)
    exact g.becomes_decided now d (this ▸ hst)
  · split
    · exact g.becomes_revokedAt now
    · exact .refl g

theorem becomes_revokeGrant (id : GrantId) (now : Int) (g : GrantRecord) :
    g.Becomes (if g.id = id then g.takenBack now else g) := by
  split
  · exact g.becomes_takenBack now
  · exact .refl g

theorem revokeGrant_notInForce {id : GrantId} {now : Int} {g : GrantRecord}
    (hg : g ∈ (s.revokeGrant id now).grants) (hid : g.id = id) :
    ¬ (s.revokeGrant id now).InForce g := by
  obtain ⟨g₀, -, hf⟩ := mem_map.mp hg
  have hid₀ : g₀.id = id := by rw [← hid, ← hf, (becomes_revokeGrant id now g₀).id]
  rw [if_pos hid₀] at hf
  rintro ⟨hst, -⟩
  rw [← hf, GrantRecord.takenBack] at hst
  split at hst
  · exact GrantStatus.noConfusion hst
  · rename_i hno
    exact hno (.inr hst)

theorem removeHost_cases (s : Records) (id : HostId) (now : Int) :
    s.removeHost id now = s ∨
      ∃ hosts, s.removeHost id now =
        { s.mapGrants (fun g => if g.host = id then g.takenBack now else g) with hosts } := by
  unfold removeHost
  split
  · exact .inl rfl
  · exact .inr ⟨_, rfl⟩

theorem device_revoke (s : Records) (id id' : DeviceId) :
    (s.revoke id).device id' =
      (s.device id').map (fun d => if d.id = id then { d with revoked := true } else d) := by
  unfold revoke device
  rw [List.find?_map]
  congr 2
  funext d
  simp only [Function.comp]
  split <;> rfl

theorem revoke_evolves (s : Records) (id : DeviceId) : s.Evolves (s.revoke id) := by
  refine ⟨fun g hg => ⟨g, hg, .refl g⟩, fun id' _ h => ?_⟩
  rw [deviceRevoked, device_revoke]
  rw [deviceRevoked] at h
  cases hd : s.device id' with
  | none => rfl
  | some d =>
    rw [hd] at h
    simp only [map_some, getD_some] at h ⊢
    split
    · rfl
    · exact h

theorem enrolled_device {d : Device} {id : DeviceId} (h : s.device id ≠ none) :
    { s with devices := s.devices ++ [d] : Records }.device id = s.device id := by
  obtain ⟨d', hd'⟩ := Option.ne_none_iff_exists'.mp h
  have hfind : s.devices.find? (·.id = id) = some d' := hd'
  rw [hd', device, List.find?_append, hfind, Option.some_or]

theorem change_keeps {s' : Records} {c : Change} (hs : s.WellFormed) (h : s.change c = some s') :
    s'.WellFormed ∧ s.Evolves s' := by
  cases c with
  | enrolled d =>
    simp only [change] at h
    split at h
    · cases h
      refine ⟨⟨hs.unique, fun g hg => ?_⟩, ⟨fun g hg => ⟨g, hg, .refl g⟩, fun id hid h => ?_⟩⟩
      · rw [enrolled_device (hs.known g hg)]
        exact hs.known g hg
      · rw [deviceRevoked, enrolled_device hid]
        exact h
    · exact absurd h nofun
  | signedOut id =>
    cases h
    refine ⟨⟨hs.unique, fun g hg => ?_⟩, s.revoke_evolves id⟩
    rw [device_revoke]
    simpa using hs.known g hg
  | hostAdded host | hostRebound host d =>
    cases h
    exact ⟨hs.of_eq rfl rfl, .of_eq rfl rfl⟩
  | hostRemoved host now =>
    cases h
    have hf : ∀ g ∈ s.grants, g.Becomes (if g.host = host then g.takenBack now else g) := by
      intro g _
      split
      · exact g.becomes_takenBack now
      · exact .refl g
    rcases s.removeHost_cases host now with heq | ⟨hosts, heq⟩
    · rw [heq]
      exact ⟨hs, .refl s⟩
    · rw [heq]
      exact ⟨(mapGrants_wellFormed hs hf).of_eq rfl rfl,
        ⟨(mapGrants_evolves hf).grants, (mapGrants_evolves hf).devices⟩⟩
  | asked grant =>
    simp only [change] at h
    split at h
    · rename_i hok
      cases h
      refine ⟨⟨?_, fun g hg => ?_⟩, ⟨fun g hg => ⟨g, mem_append_left _ hg, .refl g⟩,
        fun _ _ h => h⟩⟩
      · rw [map_append, map_singleton]
        refine nodup_append.mpr ⟨hs.unique, List.nodup_singleton _, ?_⟩
        intro a ha b hb
        obtain ⟨g, hg, rfl⟩ := mem_map.mp ha
        rw [mem_singleton.mp hb]
        exact hok.2.2 g hg
      · rcases mem_append.mp hg with hg | hg
        · exact hs.known g hg
        · exact mem_singleton.mp hg ▸ hok.2.1
    · exact absurd h nofun
  | decided id d now =>
    obtain ⟨f, rfl, hf, -⟩ := decide_spec hs h
    exact ⟨mapGrants_wellFormed hs hf, mapGrants_evolves hf⟩
  | takenBack id now =>
    cases h
    have hf := fun g (_ : g ∈ s.grants) => becomes_revokeGrant id now g
    exact ⟨mapGrants_wellFormed hs hf, mapGrants_evolves hf⟩

theorem mem_views {filter : GrantFilter} {v : GrantView} :
    v ∈ s.views filter ↔ ∃ g ∈ s.grants, filter.admits g = true ∧ s.view g = v := by
  simp only [views, List.mem_insertionSort, mem_map, mem_filter, and_assoc]

theorem grantSummary_approved {g : GrantRecord} {now : Int} :
    (grantSummary (s.view g) now).state = .approved ↔ s.InForce g := by
  unfold InForce
  show grantState (s.view g) now = .approved ↔ _
  unfold grantState
  have hdev : (s.view g).deviceRevoked = s.deviceRevoked g.device := rfl
  have hgrant : (s.view g).grant = g := rfl
  rw [hdev, hgrant]
  cases hst : g.status with
  | pending =>
    constructor
    · intro h
      -- A request is shown revoked, expired or pending.
      cases hd : s.deviceRevoked g.device with
      | true => simp [hd] at h
      | false =>
        simp only [hd] at h
        by_cases he : g.expiresAt ≤ now <;> simp [he] at h
    · intro h
      exact absurd h.1 (by decide)
  | approved => cases hd : s.deviceRevoked g.device <;> simp
  | denied => simp
  | revoked => simp

theorem hostGrants_mem {host : HostId} {now : Int} {summary : GrantSummary}
    (h : summary ∈ s.hostGrants host now) :
    ∃ g ∈ s.grants, g.host = host ∧ summary = grantSummary (s.view g) now := by
  have := (mem_filter.mp (mem_of_mem_take h)).1
  obtain ⟨v, hv, rfl⟩ := mem_map.mp this
  obtain ⟨g, hg, hhost, rfl⟩ := mem_views.mp hv
  exact ⟨g, hg, by simpa [GrantFilter.admits] using hhost, rfl⟩

theorem grantView_ok {caller : DeviceId} {id : GrantId} {v : GrantView}
    (h : s.grantView caller id = .ok v) : ∃ g ∈ s.grants, g.id = id ∧ s.view g = v := by
  simp only [grantView] at h
  split at h
  · exact absurd h nofun
  rename_i v' hv'
  obtain ⟨g, hg, hid, hview⟩ := mem_views.mp (mem_of_head? hv')
  have hid : g.id = id := by simpa [GrantFilter.admits] using hid
  split at h
  · exact ⟨g, hg, hid, hview.trans (Except.ok.inj h)⟩
  · split at h
    · exact ⟨g, hg, hid, hview.trans (Except.ok.inj h)⟩
    · exact absurd h nofun

end Records

end Yardsort.Server
