import Yardsort.Lib.Table
import Yardsort.Server.PairingCalls

/- What every method of the records keeps, whatever calls are under way: ids are given out once, a
   grant and an offer are of the account of their host, one grant is in force for a device on a
   host, and an approval is within what was asked for and in time (`Tables.Good`). -/
namespace Yardsort.Server.Pairings
open Yardsort.Lib Yardsort.Proto Yardsort.Server.Credentials

/-- A request is answered or taken back; what is in force is taken back. -/
def MayBecome : GrantStatus → GrantStatus → Prop
  | .pending, _ => True
  | .approved, status => status = .approved ∨ status = .revoked
  | .denied, status => status = .denied
  | .revoked, status => status = .revoked

theorem MayBecome.refl (status : GrantStatus) : MayBecome status status := by
  cases status <;> simp [MayBecome]

theorem MayBecome.trans {a b c : GrantStatus} (hab : MayBecome a b) (hbc : MayBecome b c) :
    MayBecome a c := by
  cases a with
  | pending => trivial
  | approved => obtain rfl | rfl := hab <;> simp_all [MayBecome]
  | denied | revoked => cases hab; exact hbc

structure GrantRow.Becomes (g g' : GrantRow) : Prop where
  id : g'.id = g.id
  account : g'.account = g.account
  host : g'.host = g.host
  device : g'.device = g.device
  requested : g'.requested = g.requested
  expiresAt : g'.expiresAt = g.expiresAt
  status : MayBecome g.status g'.status

theorem GrantRow.Becomes.refl (g : GrantRow) : g.Becomes g :=
  ⟨rfl, rfl, rfl, rfl, rfl, rfl, .refl _⟩

theorem GrantRow.Becomes.trans {a b c : GrantRow} (hab : a.Becomes b) (hbc : b.Becomes c) :
    a.Becomes c :=
  ⟨hbc.id.trans hab.id, hbc.account.trans hab.account, hbc.host.trans hab.host,
    hbc.device.trans hab.device, hbc.requested.trans hab.requested,
    hbc.expiresAt.trans hab.expiresAt, hab.status.trans hbc.status⟩

namespace Tables

def HasDevice (t : Tables) (account : AccountId) (id : DeviceId) : Prop :=
  ∃ d ∈ t.devices, d.id = id ∧ d.account = account

def HasHost (t : Tables) (account : AccountId) (id : HostId) : Prop :=
  ∃ h ∈ t.hosts, h.id = id ∧ h.account = account

/-- Nothing is ever taken out but offers. -/
structure Grows (t t' : Tables) : Prop where
  devices : ∀ account id, t.HasDevice account id → t'.HasDevice account id
  hosts : ∀ account id, t.HasHost account id → t'.HasHost account id
  grants : ∀ g ∈ t.grants, ∃ g' ∈ t'.grants, g.Becomes g'

theorem Grows.refl (t : Tables) : t.Grows t :=
  ⟨fun _ _ h => h, fun _ _ h => h, fun g hg => ⟨g, hg, .refl g⟩⟩

theorem Grows.trans {a b c : Tables} (hab : a.Grows b) (hbc : b.Grows c) : a.Grows c := by
  refine ⟨fun account id h => hbc.devices _ _ (hab.devices account id h),
    fun account id h => hbc.hosts _ _ (hab.hosts account id h), fun g hg => ?_⟩
  obtain ⟨g', hg', hbecomes⟩ := hab.grants g hg
  obtain ⟨g'', hg'', hnext⟩ := hbc.grants g' hg'
  exact ⟨g'', hg'', hbecomes.trans hnext⟩

/-- An approval was given, for some of what was asked for, in time. -/
structure Approved (g : GrantRow) : Prop where
  some' : g.scopes ≠ ∅
  asked : g.scopes ⊆ g.requested
  inTime : ∃ at', g.decidedAt = some at' ∧ at' < g.expiresAt

/-- At most one grant is in force for a device on a host. -/
def Single (t : Tables) : Prop :=
  ∀ a ∈ t.grants, ∀ b ∈ t.grants, a.status = .approved → b.status = .approved →
    a.host = b.host → a.device = b.device → a.id = b.id

structure Good (t : Tables) : Prop where
  deviceIds : (t.devices.map (·.id)).Nodup
  hostIds : (t.hosts.map (·.id)).Nodup
  grantIds : (t.grants.map (·.id)).Nodup
  offerHosts : (t.offers.map (·.host)).Nodup
  offers : ∀ o ∈ t.offers, t.HasHost o.account o.host
  grantHosts : ∀ g ∈ t.grants, t.HasHost g.account g.host
  grantDevices : ∀ g ∈ t.grants, t.HasDevice g.account g.device
  single : t.Single
  approved : ∀ g ∈ t.grants, g.status = .approved → Approved g

/-- A host that was removed has no grant that waits or is in force. -/
def Cleared (t : Tables) : Prop :=
  ∀ h ∈ t.hosts, h.removed = true → ∀ g ∈ t.grants, g.host = h.id →
    g.status ≠ .pending ∧ g.status ≠ .approved

theorem empty_good : empty.Good :=
  ⟨.nil, .nil, .nil, .nil, by simp [empty], by simp [empty], by simp [empty],
    by simp [empty, Single], by simp [empty]⟩

section
variable {t t' : Tables}

theorem Good.grant_eq (h : t.Good) {a b : GrantRow} (ha : a ∈ t.grants) (hb : b ∈ t.grants)
    (hid : a.id = b.id) : a = b :=
  List.inj_on_of_nodup_map h.grantIds ha hb hid

theorem Good.host_eq (h : t.Good) {a b : HostRow} (ha : a ∈ t.hosts) (hb : b ∈ t.hosts)
    (hid : a.id = b.id) : a = b :=
  List.inj_on_of_nodup_map h.hostIds ha hb hid

theorem host_mem {account : AccountId} {id : HostId} {host : HostRow}
    (h : t.host account id = some host) :
    host ∈ t.hosts ∧ host.id = id ∧ host.account = account ∧ host.removed = false := by
  have hfound := List.find?_some h
  simp only [Bool.and_eq_true, decide_eq_true_eq, Bool.not_eq_true'] at hfound
  exact ⟨mem_of_find?_eq_some h, hfound.1.1, hfound.1.2, hfound.2⟩

theorem mapGrants_grows {f : GrantRecord → GrantRecord}
    (hf : ∀ g ∈ t.grants, g.Becomes { g with toGrantRecord := f g.toGrantRecord }) :
    t.Grows (t.mapGrants f) :=
  ⟨fun _ _ h => h, fun _ _ h => h, fun g hg => ⟨_, mem_map_of_mem hg, hf g hg⟩⟩

theorem mapGrants_good (h : t.Good) {f : GrantRecord → GrantRecord}
    (hf : ∀ g ∈ t.grants, g.Becomes { g with toGrantRecord := f g.toGrantRecord })
    (hsingle : (t.mapGrants f).Single)
    (happroved : ∀ g ∈ (t.mapGrants f).grants, g.status = .approved → Approved g) :
    (t.mapGrants f).Good := by
  refine ⟨h.deviceIds, h.hostIds, ?_, h.offerHosts, h.offers, ?_, ?_, hsingle, happroved⟩
  · have hids : (t.mapGrants f).grants.map (·.id) = t.grants.map (·.id) := by
      rw [mapGrants, map_map]
      exact map_congr_left fun g hg => (hf g hg).id
    rw [hids]
    exact h.grantIds
  · intro g' hg'
    obtain ⟨g, hg, rfl⟩ := mem_map.mp hg'
    have hhost := h.grantHosts g hg
    rwa [← (hf g hg).host] at hhost
  · intro g' hg'
    obtain ⟨g, hg, rfl⟩ := mem_map.mp hg'
    have hdevice := h.grantDevices g hg
    rwa [← (hf g hg).device] at hdevice

theorem mapGrants_less (h : t.Good) {f : GrantRecord → GrantRecord}
    (hf : ∀ g ∈ t.grants, g.Becomes { g with toGrantRecord := f g.toGrantRecord })
    (hless : ∀ g : GrantRecord, (f g).status = .approved → f g = g) : (t.mapGrants f).Good := by
  refine mapGrants_good h hf ?_ fun g' hg' hstatus => ?_
  · intro a' ha' b' hb' ha hb hhost hdevice
    obtain ⟨a, hmem_a, rfl⟩ := mem_map.mp ha'
    obtain ⟨b, hmem_b, rfl⟩ := mem_map.mp hb'
    have hsame_a := hless a.toGrantRecord ha
    have hsame_b := hless b.toGrantRecord hb
    simp only [hsame_a, hsame_b] at ha hb hhost hdevice ⊢
    exact h.single a hmem_a b hmem_b ha hb hhost hdevice
  · obtain ⟨g, hg, rfl⟩ := mem_map.mp hg'
    have hsame := hless g.toGrantRecord hstatus
    simp only [hsame] at hstatus ⊢
    exact h.approved g hg hstatus

theorem takenBack_becomes (g : GrantRow) (now : Int) :
    g.Becomes { g with toGrantRecord := g.takenBack now } := by
  unfold GrantRecord.takenBack
  split
  · rename_i hstatus
    refine ⟨rfl, rfl, rfl, rfl, rfl, rfl, ?_⟩
    obtain hpending | happroved := hstatus
    · rw [hpending]
      trivial
    · rw [happroved]
      exact .inr rfl
  · exact .refl g

theorem takenBack_less {g : GrantRecord} {now : Int} (h : (g.takenBack now).status = .approved) :
    g.takenBack now = g := by
  unfold GrantRecord.takenBack at h ⊢
  split
  · rename_i hstatus
    rw [if_pos hstatus] at h
    cases h
  · rfl

theorem takeBack_good (h : t.Good) (p : GrantRecord → Bool) (now : Int) :
    (t.mapGrants fun g => if p g then g.takenBack now else g).Good ∧
      t.Grows (t.mapGrants fun g => if p g then g.takenBack now else g) := by
  have hf : ∀ g ∈ t.grants, g.Becomes
      { g with toGrantRecord := if p g.toGrantRecord then g.takenBack now else g.toGrantRecord } := by
    intro g _
    split
    · exact takenBack_becomes g now
    · exact .refl g
  refine ⟨mapGrants_less h hf fun g hstatus => ?_, mapGrants_grows hf⟩
  split at hstatus
  · rename_i hp
    rw [if_pos hp]
    exact takenBack_less hstatus
  · rename_i hp
    rw [if_neg hp]

/-! ## Each method -/

theorem grows_of_eq (hdevices : t'.devices = t.devices) (hhosts : t'.hosts = t.hosts)
    (hgrants : t'.grants = t.grants) : t.Grows t' :=
  ⟨fun _ _ h => by rwa [HasDevice, hdevices], fun _ _ h => by rwa [HasHost, hhosts],
    fun g hg => ⟨g, hgrants ▸ hg, .refl g⟩⟩

theorem Approved.congr {g : GrantRow} {r : GrantRecord} (h : Approved g)
    (hr : r = g.toGrantRecord) : Approved { g with toGrantRecord := r } := by
  subst hr
  exact h

theorem decided_approved {g : GrantRow} {r : GrantRecord} {d : GrantDecision} {now : Int}
    (hr : r = g.decided now (some d)) (hsome : d.scopes ≠ ∅) (hsub : d.scopes ⊆ g.requested)
    (hintime : now < g.expiresAt) : Approved { g with toGrantRecord := r } := by
  subst hr
  exact ⟨hsome, hsub, now, rfl, hintime⟩

theorem decide_keeps (h : t.Good) {account : AccountId} {id : GrantId}
    {decision : Option GrantDecision} {now : Int} (ht : t.decide account id decision now = some t')
    (hdecision : ∀ d, decision = some d → ∃ g ∈ t.grants, g.id = id ∧ d.scopes ≠ ∅ ∧
      d.scopes ⊆ g.requested) : t'.Good ∧ t.Grows t' := by
  obtain ⟨grant, hfind, rfl⟩ := map_eq_some_iff.mp ht
  have hgrant := mem_of_find?_eq_some hfind
  have hwaits := List.find?_some hfind
  simp only [GrantRecord.waits, Bool.and_eq_true, decide_eq_true_eq] at hwaits
  obtain ⟨⟨hid, -⟩, hpending, hintime⟩ := hwaits
  have hone : ∀ g ∈ t.grants, g.id = id → g = grant := fun g hg hgid =>
    h.grant_eq hg hgrant (hgid.trans hid.symm)
  let f : GrantRecord → GrantRecord := fun g =>
    if g.id = id then g.decided now decision
    else if decision.isSome && grant.replaces g then g.revokedAt now
    else g
  have hbecomes : ∀ g ∈ t.grants, g.Becomes { g with toGrantRecord := f g.toGrantRecord } := by
    intro g hg
    dsimp only [f]
    split
    · rename_i hgid
      obtain rfl := hone g hg hgid
      cases decision <;> refine ⟨rfl, rfl, rfl, rfl, rfl, rfl, ?_⟩ <;> rw [hpending] <;> trivial
    · split
      · rename_i hreplaces
        simp only [GrantRecord.replaces, Bool.and_eq_true, decide_eq_true_eq] at hreplaces
        refine ⟨rfl, rfl, rfl, rfl, rfl, rfl, ?_⟩
        rw [hreplaces.2.2]
        exact .inr rfl
      · exact .refl g
  -- what is in force afterwards: the grant that was approved, or one it does not replace
  have happroved : ∀ g ∈ t.grants, (f g.toGrantRecord).status = .approved →
      (g = grant ∧ ∃ d, decision = some d ∧ f g.toGrantRecord = g.decided now (some d)) ∨
        (g ≠ grant ∧ f g.toGrantRecord = g.toGrantRecord ∧
          (decision.isSome = true → grant.host = g.host → grant.device ≠ g.device)) := by
    intro g hg hstatus
    dsimp only [f] at hstatus ⊢
    by_cases hgid : g.id = id
    · rw [if_pos hgid] at hstatus ⊢
      refine .inl ⟨hone g hg hgid, ?_⟩
      cases decision with
      | none => cases hstatus
      | some d => exact ⟨d, rfl, rfl⟩
    · rw [if_neg hgid] at hstatus ⊢
      right
      split at hstatus
      · cases hstatus
      rename_i hnot
      rw [if_neg hnot]
      refine ⟨fun heq => hgid (heq ▸ hid), rfl, fun hsome hhost hdevice => hnot ?_⟩
      simp [GrantRecord.replaces, hsome, hhost, hdevice, hstatus]
  refine ⟨mapGrants_good h hbecomes ?_ ?_, mapGrants_grows hbecomes⟩
  · intro a' ha' b' hb' ha hb hhost hdevice
    obtain ⟨a, hmem_a, rfl⟩ := mem_map.mp ha'
    obtain ⟨b, hmem_b, rfl⟩ := mem_map.mp hb'
    have hbecomes_a := hbecomes a hmem_a
    have hbecomes_b := hbecomes b hmem_b
    rw [hbecomes_a.host, hbecomes_b.host] at hhost
    rw [hbecomes_a.device, hbecomes_b.device] at hdevice
    rw [hbecomes_a.id, hbecomes_b.id]
    obtain ⟨rfl, d, rfl, -⟩ | ⟨-, hsame_a, hother_a⟩ := happroved a hmem_a ha
    · obtain ⟨rfl, -⟩ | ⟨-, -, hother⟩ := happroved b hmem_b hb
      · rfl
      · exact absurd hdevice (hother rfl hhost)
    · obtain ⟨rfl, d, rfl, -⟩ | ⟨-, hsame_b, -⟩ := happroved b hmem_b hb
      · exact absurd hdevice.symm (hother_a rfl hhost.symm)
      · have ha' := (congrArg GrantRecord.status hsame_a).symm.trans ha
        have hb' := (congrArg GrantRecord.status hsame_b).symm.trans hb
        exact h.single a hmem_a b hmem_b ha' hb' hhost hdevice
  · intro g' hg' hstatus
    obtain ⟨g, hg, rfl⟩ := mem_map.mp hg'
    obtain ⟨rfl, d, rfl, hf⟩ | ⟨-, hsame, -⟩ := happroved g hg hstatus
    · obtain ⟨asked, hasked, haid, hsome, hsub⟩ := hdecision d rfl
      obtain rfl := hone asked hasked haid
      exact decided_approved hf hsome hsub hintime
    · have hstatus' := (congrArg GrantRecord.status hsame).symm.trans hstatus
      exact (h.approved g hg hstatus').congr hsame

theorem addDevice_keeps (h : t.Good) {device : DeviceRow}
    (hfresh : device.id ∉ t.devices.map (·.id)) :
    (t.addDevice device).Good ∧ t.Grows (t.addDevice device) := by
  have hdevices : ∀ account id, t.HasDevice account id →
      (t.addDevice device).HasDevice account id := fun _ _ ⟨d, hd, h⟩ =>
    ⟨d, mem_append_left _ hd, h⟩
  refine ⟨⟨?_, h.hostIds, h.grantIds, h.offerHosts, h.offers, h.grantHosts,
    fun g hg => hdevices _ _ (h.grantDevices g hg), h.single, h.approved⟩, hdevices,
    fun _ _ h => h, fun g hg => ⟨g, hg, .refl g⟩⟩
  exact nodup_snoc h.deviceIds hfresh

theorem addHost_keeps (h : t.Good) {host : HostRow} (hfresh : host.id ∉ t.hosts.map (·.id)) :
    (t.addHost host).Good ∧ t.Grows (t.addHost host) := by
  have hhosts : ∀ account id, t.HasHost account id → (t.addHost host).HasHost account id :=
    fun _ _ ⟨d, hd, h⟩ => ⟨d, mem_append_left _ hd, h⟩
  refine ⟨⟨h.deviceIds, ?_, h.grantIds, h.offerHosts, fun o ho => hhosts _ _ (h.offers o ho),
    fun g hg => hhosts _ _ (h.grantHosts g hg), h.grantDevices, h.single, h.approved⟩,
    fun _ _ h => h, hhosts, fun g hg => ⟨g, hg, .refl g⟩⟩
  exact nodup_snoc h.hostIds hfresh

theorem addGrant_keeps (h : t.Good) {grant : GrantRow} (hfresh : grant.id ∉ t.grants.map (·.id))
    (hpending : grant.status = .pending) (hhost : t.HasHost grant.account grant.host)
    (hdevice : t.HasDevice grant.account grant.device) :
    (t.addGrant grant).Good ∧ t.Grows (t.addGrant grant) := by
  have hnot : grant.status ≠ .approved := by
    rw [hpending]
    exact GrantStatus.noConfusion
  refine ⟨⟨h.deviceIds, h.hostIds, ?_, h.offerHosts, h.offers, fun g hg => ?_, fun g hg => ?_,
    fun a ha b hb happroved_a happroved_b => ?_, fun g hg happroved => ?_⟩, fun _ _ h => h,
    fun _ _ h => h, fun g hg => ⟨g, mem_append_left _ hg, .refl g⟩⟩
  · exact nodup_snoc h.grantIds hfresh
  · obtain hold | hnew := mem_snoc.mp hg
    · exact h.grantHosts g hold
    · exact hnew ▸ hhost
  · obtain hold | hnew := mem_snoc.mp hg
    · exact h.grantDevices g hold
    · exact hnew ▸ hdevice
  · obtain hold_a | hnew := mem_snoc.mp ha
    · obtain hold_b | hnew := mem_snoc.mp hb
      · exact h.single a hold_a b hold_b happroved_a happroved_b
      · exact absurd (hnew ▸ happroved_b) hnot
    · exact absurd (hnew ▸ happroved_a) hnot
  · obtain hold | hnew := mem_snoc.mp hg
    · exact h.approved g hold happroved
    · exact absurd (hnew ▸ happroved) hnot

theorem mapHosts_keeps (h : t.Good) {f : HostRow → HostRow}
    (hf : ∀ host, (f host).id = host.id ∧ (f host).account = host.account) :
    { t with hosts := t.hosts.map f : Tables }.Good ∧
      t.Grows { t with hosts := t.hosts.map f } := by
  have hhosts : ∀ account id, t.HasHost account id →
      { t with hosts := t.hosts.map f : Tables }.HasHost account id := by
    rintro account id ⟨host, hmem, rfl, rfl⟩
    exact ⟨f host, mem_map_of_mem hmem, (hf host).1, (hf host).2⟩
  refine ⟨⟨h.deviceIds, ?_, h.grantIds, h.offerHosts, fun o ho => hhosts _ _ (h.offers o ho),
    fun g hg => hhosts _ _ (h.grantHosts g hg), h.grantDevices, h.single, h.approved⟩,
    fun _ _ h => h, hhosts, fun g hg => ⟨g, hg, .refl g⟩⟩
  exact nodup_map h.hostIds fun host => (hf host).1

theorem offers_keep (h : t.Good) {offers : List HostOffer}
    (hhosts : (offers.map (·.host)).Nodup)
    (hmem : ∀ o ∈ offers, t.HasHost o.account o.host) :
    { t with offers : Tables }.Good ∧ t.Grows { t with offers } :=
  ⟨⟨h.deviceIds, h.hostIds, h.grantIds, hhosts, hmem, h.grantHosts, h.grantDevices, h.single,
    h.approved⟩, grows_of_eq rfl rfl rfl⟩

theorem revoke_keeps (h : t.Good) (account : AccountId) (id : DeviceId) :
    (t.revoke account id).1.Good ∧ t.Grows (t.revoke account id).1 := by
  unfold revoke
  split
  · exact ⟨h, .refl t⟩
  split
  · have hsame : ∀ d : DeviceRow,
        (if d.id = id then { d with revoked := true } else d).id = d.id ∧
          (if d.id = id then { d with revoked := true } else d).account = d.account := by
      intro d
      split <;> exact ⟨rfl, rfl⟩
    have hdevices : ∀ account' id', t.HasDevice account' id' → HasDevice
        { t with devices := t.devices.map fun d =>
            if d.id = id then { d with revoked := true } else d } account' id' := by
      rintro _ _ ⟨d, hd, rfl, rfl⟩
      exact ⟨_, mem_map_of_mem hd, hsame d⟩
    exact ⟨⟨nodup_map h.deviceIds fun d => (hsame d).1, h.hostIds, h.grantIds, h.offerHosts,
      h.offers, h.grantHosts, fun g hg => hdevices _ _ (h.grantDevices g hg), h.single,
      h.approved⟩, hdevices, fun _ _ h => h, fun g hg => ⟨g, hg, .refl g⟩⟩
  · exact ⟨h, .refl t⟩

theorem rebindHost_keeps (h : t.Good) (account : AccountId) (id : HostId) (device : DeviceId)
    (name : String) : (t.rebindHost account id device name).1.Good ∧
      t.Grows (t.rebindHost account id device name).1 := by
  unfold rebindHost
  split
  · exact ⟨h, .refl t⟩
  · refine mapHosts_keeps h fun host => ?_
    split <;> exact ⟨rfl, rfl⟩

theorem revokeGrant_keeps (h : t.Good) (account : AccountId) (id : GrantId) (now : Int) :
    (t.revokeGrant account id now).1.Good ∧ t.Grows (t.revokeGrant account id now).1 := by
  unfold revokeGrant
  split
  · exact ⟨h, .refl t⟩
  · simpa using takeBack_good h (fun g => g.id = id) now

theorem removeHost_keeps (h : t.Good) (account : AccountId) (id : HostId) (now : Int) :
    (t.removeHost account id now).1.Good ∧ t.Grows (t.removeHost account id now).1 := by
  unfold removeHost
  split
  · exact ⟨h, .refl t⟩
  obtain ⟨htaken, hgrows⟩ := takeBack_good h (fun g => g.host = id) now
  simp only [decide_eq_true_eq] at htaken hgrows
  have hhosts : ∀ host : HostRow,
      (if host.id = id ∧ host.account = account ∧ host.removed = false then
        { host with removed := true } else host).id = host.id ∧
      (if host.id = id ∧ host.account = account ∧ host.removed = false then
        { host with removed := true } else host).account = host.account := by
    intro host
    split <;> exact ⟨rfl, rfl⟩
  obtain ⟨hmapped, hgrows'⟩ := mapHosts_keeps htaken hhosts
  obtain ⟨hgood, hgrows''⟩ := @offers_keep _ hmapped (t.offers.filter (·.host ≠ id))
    (h.offerHosts.sublist (filter_sublist.map _))
    fun o ho => hgrows'.hosts _ _ (h.offers o (mem_of_mem_filter ho))
  exact ⟨hgood, ⟨fun _ _ h => h, fun _ _ h => hgrows'.hosts _ _ h, hgrows.grants⟩⟩

theorem swapRemove_perm {α : Type} {l : List α} {i : Nat} (hi : i < l.length) :
    (swapRemove l i).Perm (l.eraseIdx i) := by
  obtain ⟨init, last, rfl⟩ : ∃ init last, l = init ++ [last] := by
    cases l using List.reverseRecOn with
    | nil => simp at hi
    | append_singleton init last => exact ⟨init, last, rfl⟩
  unfold swapRemove
  simp only [List.getLast?_append, List.getLast?_singleton, Option.some_or]
  by_cases hlast : i = init.length
  · subst hlast
    rw [List.set_append_right _ _ (Nat.le_refl _), List.eraseIdx_append_of_length_le (Nat.le_refl _)]
    simp
  · have hlt : i < init.length := by
      simp only [length_append, length_singleton] at hi
      omega
    rw [List.set_append_left _ _ hlt, dropLast_concat, List.eraseIdx_append_of_lt_length hlt]
    have hset : i < (init.set i last).length := by simpa using hlt
    have hperm := List.getElem_cons_eraseIdx_perm hset
    rw [List.getElem_set_self, List.eraseIdx_set_eq] at hperm
    exact hperm.symm.trans (@List.perm_append_comm _ [last] _)

theorem redeemOffer_cases {account : AccountId} {key : TokenHash} {now : Int}
    {found : Option HostOffer} (h : t.redeemOffer account key now = (t', found)) :
    (∃ offer ∈ t.offers, found = some offer ∧ offer.open' account now = true ∧
      ∃ offers, t' = { t with offers } ∧ ∃ i, t.offers[i]? = some offer ∧
        offers.Perm (t.offers.eraseIdx i)) ∨
    (found = none ∧ t' = { t with offers := t.offers.map (·.missed account now) }) := by
  unfold redeemOffer at h
  split at h
  · rename_i i hfind
    cases h
    obtain ⟨hi, hp, -⟩ := List.findIdx?_eq_some_iff_getElem.mp hfind
    simp only [Bool.and_eq_true] at hp
    exact .inl ⟨t.offers[i], List.getElem_mem hi, List.getElem?_eq_getElem hi, hp.1, _, rfl, i,
      List.getElem?_eq_getElem hi, swapRemove_perm hi⟩
  · cases h
    exact .inr ⟨rfl, rfl⟩

theorem missed_same (offer : HostOffer) (account : AccountId) (now : Int) :
    (offer.missed account now).serial = offer.serial ∧
      (offer.missed account now).host = offer.host ∧
      (offer.missed account now).account = offer.account ∧
      (offer.missed account now).expiresAt = offer.expiresAt := by
  unfold HostOffer.missed
  split <;> exact ⟨rfl, rfl, rfl, rfl⟩

theorem redeemOffer_keeps (h : t.Good) {account : AccountId} {key : TokenHash} {now : Int}
    {found : Option HostOffer} (ht : t.redeemOffer account key now = (t', found)) :
    t'.Good ∧ t.Grows t' := by
  obtain ⟨offer, -, -, -, offers, rfl, i, -, hperm⟩ | ⟨-, rfl⟩ := redeemOffer_cases ht
  · have hsub : ∀ o ∈ offers, o ∈ t.offers := fun o ho =>
      (eraseIdx_sublist ..).subset (hperm.subset ho)
    refine offers_keep h ?_ fun o ho => h.offers o (hsub o ho)
    exact (hperm.map _).nodup_iff.mpr (h.offerHosts.sublist ((eraseIdx_sublist ..).map _))
  · refine offers_keep h (nodup_map h.offerHosts fun o => (missed_same o account now).2.1) ?_
    intro o' ho'
    obtain ⟨o, ho, rfl⟩ := mem_map.mp ho'
    rw [(missed_same o account now).2.1, (missed_same o account now).2.2.1]
    exact h.offers o ho

theorem putOffer_keeps (h : t.Good) {offer : HostOffer} {now : Int}
    (hhost : t.HasHost offer.account offer.host) :
    (t.putOffer offer now).Good ∧ t.Grows (t.putOffer offer now) := by
  refine offers_keep h ?_ fun o ho => ?_
  · refine nodup_snoc (h.offerHosts.sublist (filter_sublist.map _)) fun hmem => ?_
    obtain ⟨o, ho, hsame⟩ := mem_map.mp hmem
    have hkept := (mem_filter.mp ho).2
    simp [hsame] at hkept
  · obtain hold | hnew := mem_snoc.mp ho
    · exact h.offers o (mem_of_mem_filter hold)
    · exact hnew ▸ hhost

end

end Tables

/-- Whose it is, and what was asked for, of a grant that was read. -/
def Seen (t : Tables) (account : AccountId) (g : GrantRecord) : Prop :=
  ∃ row ∈ t.grants, row.id = g.id ∧ row.account = account ∧ row.requested = g.requested

def Job.Sound (t : Tables) (account : AccountId) : Job → Prop
  | putOffer host _ _ => t.HasHost account host
  | addGrant host _ _ => t.HasHost account host
  | grantHost view _ => Seen t account view.grant
  | decideHost view _ => Seen t account view.grant
  | decide id decision => ∀ d, decision = some d →
      ∃ g ∈ t.grants, g.id = id ∧ d.scopes ≠ ∅ ∧ d.scopes ⊆ g.requested
  | _ => True

def Next.Sound (t : Tables) (account : AccountId) : Next → Prop
  | goes job => job.Sound t account
  | answers _ => True

section
variable {t t' : Tables} {account : AccountId}

theorem Seen.mono (h : t.Grows t') {g : GrantRecord} (hg : Seen t account g) :
    Seen t' account g := by
  obtain ⟨row, hrow, hid, haccount, hrequested⟩ := hg
  obtain ⟨row', hrow', hbecomes⟩ := h.grants row hrow
  exact ⟨row', hrow', hbecomes.id.trans hid, hbecomes.account.trans haccount,
    hbecomes.requested.trans hrequested⟩

theorem Next.Sound.mono (h : t.Grows t') {next : Next} (hn : next.Sound t account) :
    next.Sound t' account := by
  cases next with
  | answers _ => trivial
  | goes job =>
    cases job with
    | putOffer host _ _ | addGrant host _ _ => exact h.hosts _ _ hn
    | grantHost view _ | decideHost view _ => exact Seen.mono h hn
    | decide id decision =>
      intro d hd
      obtain ⟨g, hg, hid, hsome, hsub⟩ := hn d hd
      obtain ⟨g', hg', hbecomes⟩ := h.grants g hg
      exact ⟨g', hg', hbecomes.id.trans hid, hsome, hbecomes.requested ▸ hsub⟩
    | _ => trivial

theorem start_sound (caller : Caller) (request : Request) :
    (request.start caller).Sound t account := by
  cases request with
  | register host name fresh | pair presented scopes fresh =>
    unfold Request.start
    repeat' split
    all_goals trivial
  | _ => trivial

theorem Purpose.next_sound {view : NamedView} {now : Int} (hview : Seen t account view.grant)
    (purpose : Purpose) : (purpose.next view now).Sound t account := by
  cases purpose with
  | sees => trivial
  | decides decision => exact hview
  | revokes => trivial

theorem validate_ok {d : GrantDecision} {requested : Finset Scope} {u : Unit}
    (h : d.validate requested = .ok u) : d.scopes ≠ ∅ ∧ d.scopes ⊆ requested := by
  unfold GrantDecision.validate at h
  split at h
  · cases h
  rename_i hsome
  split at h
  · cases h
  · rename_i hsub
    exact ⟨hsome, by simpa using hsub⟩

theorem checked_sound {view : NamedView} {decision : Option GrantDecision} {now : Int}
    (hview : Seen t account view.grant) : (checked view decision now).Sound t account := by
  unfold checked
  split
  · trivial
  split
  · exact fun d hd => nomatch hd
  · rename_i d
    split
    · trivial
    rename_i hvalid
    rintro d' hd'
    cases hd'
    obtain ⟨hsome, hsub⟩ := validate_ok hvalid
    obtain ⟨row, hrow, hid, -, hrequested⟩ := hview
    exact ⟨row, hrow, hid, hsome, hrequested ▸ hsub⟩

theorem ifOwn_keeps {caller : Caller} {id : HostId} {next : HostRow → Next}
    (hnext : ∀ host, t.HasHost caller.account host.id → (next host).Sound t caller.account) :
    (ifOwn t caller id next).tables = t ∧
      (ifOwn t caller id next).next.Sound t caller.account := by
  unfold ifOwn
  split
  · rename_i host hhost
    obtain ⟨hmem, -, haccount, -⟩ := Tables.host_mem hhost
    refine ⟨rfl, ?_⟩
    unfold reads
    dsimp only
    split
    · exact hnext host ⟨host, hmem, rfl, haccount⟩
    · trivial
  · exact ⟨rfl, trivial⟩

theorem grantsOne_seen {id : GrantId} {view : NamedView}
    (h : (t.grantsOne account id).head? = some view) : Seen t account view.grant := by
  have hmem := mem_of_head? h
  rw [Tables.grantsOne, List.mem_insertionSort] at hmem
  obtain ⟨g, hg, rfl⟩ := mem_map.mp hmem
  obtain ⟨hg, -⟩ := mem_filter.mp hg
  obtain ⟨hg, haccount⟩ := mem_filter.mp hg
  exact ⟨g, hg, rfl, by simpa using haccount, rfl⟩

end

/-- **What a method keeps.** The tables stay good, nothing but offers goes, and what the call does
    next is told what is true. -/
theorem perform_keeps {t : Tables} {serial : Nat} {caller : Caller} {now : Int} {job : Job}
    (h : t.Good) (hjob : job.Sound t caller.account) (hfresh : job.Fresh t)
    (hcaller : t.HasDevice caller.account caller.device) :
    let done := perform t serial caller now job
    done.tables.Good ∧ t.Grows done.tables ∧ done.next.Sound done.tables caller.account := by
  intro done
  cases job with
  | addHost name fresh =>
    obtain ⟨hgood, hgrows⟩ := @Tables.addHost_keeps t h
      ⟨⟨fresh, caller.device, false⟩, caller.account, name⟩ hfresh
    exact ⟨hgood, hgrows, trivial⟩
  | rebindHost id name =>
    obtain ⟨hgood, hgrows⟩ := Tables.rebindHost_keeps h caller.account id caller.device name
    dsimp only [done, perform]
    split
    · rename_i heq
      rw [heq] at hgood hgrows
      exact ⟨hgood, hgrows, trivial⟩
    · rename_i heq
      rw [heq] at hgood hgrows
      exact ⟨hgood, hgrows, trivial⟩
  | offerHost id secret code =>
    obtain ⟨htables, hnext⟩ := @ifOwn_keeps t caller id
      (fun host => .goes (.putOffer host.id secret code)) fun _ hhost => hhost
    exact ⟨htables ▸ h, htables ▸ .refl t, htables ▸ hnext⟩
  | putOffer host secret code =>
    obtain ⟨hgood, hgrows⟩ := @Tables.putOffer_keeps t h
      ⟨serial, host, caller.account, secret, code, now + OFFER_TTL_MS, 0⟩ now hjob
    exact ⟨hgood, hgrows, trivial⟩
  | redeemOffer key scopes fresh =>
    dsimp only [done, perform]
    split
    · rename_i heq
      obtain ⟨hgood, hgrows⟩ := Tables.redeemOffer_keeps h heq
      exact ⟨hgood, hgrows, trivial⟩
    · rename_i heq
      obtain ⟨hgood, hgrows⟩ := Tables.redeemOffer_keeps h heq
      exact ⟨hgood, hgrows, trivial⟩
  | pairHost offer scopes fresh =>
    dsimp only [done, perform]
    split
    · exact ⟨h, .refl t, trivial⟩
    rename_i host hhost
    obtain ⟨hmem, -, haccount, -⟩ := Tables.host_mem hhost
    split
    · exact ⟨h, .refl t, trivial⟩
    · exact ⟨h, .refl t, host, hmem, rfl, haccount⟩
  | addGrant host scopes fresh =>
    obtain ⟨hgood, hgrows⟩ := @Tables.addGrant_keeps t h
      ⟨⟨fresh, host, caller.device, scopes, ∅, none, .pending, now, now + OFFER_TTL_MS, none⟩,
        caller.account⟩ hfresh rfl hjob hcaller
    exact ⟨hgood, hgrows, trivial⟩
  | grants id purpose =>
    dsimp only [done, perform]
    split
    · exact ⟨h, .refl t, trivial⟩
    rename_i view hview
    have hseen := grantsOne_seen hview
    split
    · exact ⟨h, .refl t, purpose.next_sound hseen⟩
    · exact ⟨h, .refl t, hseen⟩
  | grantHost view purpose =>
    obtain ⟨htables, hnext⟩ := @ifOwn_keeps t caller view.grant.host
      (fun _ => purpose.next view now) fun _ _ => purpose.next_sound hjob
    exact ⟨htables ▸ h, htables ▸ .refl t, htables ▸ hnext⟩
  | decideHost view decision =>
    obtain ⟨htables, hnext⟩ := @ifOwn_keeps t caller view.grant.host
      (fun _ => checked view decision now) fun _ _ => checked_sound hjob
    exact ⟨htables ▸ h, htables ▸ .refl t, htables ▸ hnext⟩
  | decide id decision =>
    dsimp only [done, perform]
    split
    · exact ⟨h, .refl t, trivial⟩
    · rename_i heq
      obtain ⟨hgood, hgrows⟩ := Tables.decide_keeps h heq hjob
      exact ⟨hgood, hgrows, trivial⟩
  | revokeGrant id =>
    obtain ⟨hgood, hgrows⟩ := Tables.revokeGrant_keeps h caller.account id now
    exact ⟨hgood, hgrows, trivial⟩
  | removeOwn id =>
    obtain ⟨htables, hnext⟩ := @ifOwn_keeps t caller id
      (fun host => .goes (.removeHost host.id)) fun _ _ => trivial
    exact ⟨htables ▸ h, htables ▸ .refl t, htables ▸ hnext⟩
  | removeHost id =>
    obtain ⟨hgood, hgrows⟩ := Tables.removeHost_keeps h caller.account id now
    exact ⟨hgood, hgrows, trivial⟩
  | revoke device =>
    obtain ⟨hgood, hgrows⟩ := Tables.revoke_keeps h caller.account device
    dsimp only [done, perform]
    split
    · rename_i heq
      rw [heq] at hgood hgrows
      exact ⟨hgood, hgrows, trivial⟩
    · rename_i heq
      rw [heq] at hgood hgrows
      exact ⟨hgood, hgrows, trivial⟩

end Yardsort.Server.Pairings
