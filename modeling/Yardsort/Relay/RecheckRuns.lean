import Yardsort.Relay.Rechecks

/- What the relay's checks keep. As long as every step is careful, an open socket that is
   out of force is one a check to come will find (`Watched`): it counts as found by a check
   for each of the three ways it can be out of force, since a host that is bound back to
   its device is in force again only if that device was not revoked meanwhile. -/
namespace Yardsort.Relay.Rechecks
open Yardsort.Lib Yardsort.Proto

variable {w w' : World} {a : Action}

variable {account : AccountId}

theorem coming_iff :
    w.coming account = true ↔ account ∈ w.unsent ∨ account ∈ w.dirty := by
  simp [World.coming]

theorem due_iff {sees : Stage → Bool} :
    w.due account sees = true ↔ w.coming account = true ∨
      ∃ c ∈ w.checks, c.account = account ∧ (c.stage = .started ∨ sees c.stage = true) := by
  simp [World.due]

theorem due_of_none {sees : Stage → Bool} (h : w.due account (fun _ => false) = true) :
    w.due account sees = true := by
  obtain hcoming | ⟨c, hc, haccount, hstage⟩ := due_iff.mp h
  · exact due_iff.mpr (.inl hcoming)
  · exact due_iff.mpr (.inr ⟨c, hc, haccount, .inl (by simpa using hstage)⟩)

def Stage.mentions : Stage → List Nat
  | .listed links | .atLink _ links => links
  | .sweep _ link rest | .shut _ link rest | .passed _ link rest | .atDevice _ link _ rest
  | .closing _ link _ _ rest => link :: rest
  | .started | .atEnd => []

def Stage.joined : Stage → Option (Nat × List Nat)
  | .atDevice _ link joined _ => some (link, joined)
  | .closing _ link device joined _ => some (link, device :: joined)
  | _ => none

theorem DeviceStage.at_of_link {s : DeviceStage} {k : Nat} (h : s.link = some k) :
    s.at? = some k := by
  cases s <;> simp_all [DeviceStage.link, DeviceStage.at?]

/-- Links, devices and checks are of the accounts they are taken for. -/
structure Sound (w : World) : Prop where
  placed : ∀ (j : Nat) (s : DeviceSocket), w.devices[j]? = some s → ∀ k, s.stage.at? = some k →
    ∃ l, w.hosts[k]? = some l ∧ l.account = s.account ∧ l.host = s.host
  checks : ∀ c ∈ w.checks, ∀ k ∈ c.stage.mentions, ∃ l, w.hosts[k]? = some l ∧ l.account = c.account
  joined : ∀ c ∈ w.checks, ∀ k joined, c.stage.joined = some (k, joined) → ∀ j ∈ joined,
    ∃ s, w.devices[j]? = some s ∧ s.stage.link = some k

/-- What is open and out of force is about to be checked. -/
structure Watched (w : World) : Prop where
  gone : ∀ (i : Nat) (s : HostSocket), w.hosts[i]? = some s → s.isOpen = true →
    signedIn (w.records s.account).devices s.device = false →
      w.due s.account (Stage.seesGone i s.device) = true
  moved : ∀ (i : Nat) (s : HostSocket), w.hosts[i]? = some s → s.isOpen = true →
    ((w.records s.account).host s.host).any (·.device = s.device) = false →
      w.due s.account (Stage.seesHost i) = true
  channel : ∀ (j : Nat) (s : DeviceSocket), w.devices[j]? = some s → s.isOpen = true →
    ∀ k, s.stage.link = some k → w.deviceInForce s = false →
      w.due s.account (Stage.seesDevice j k) = true

theorem sound_new : Sound .new where
  placed j s h := by simp [World.new] at h
  checks c h := by simp [World.new] at h
  joined c h := by simp [World.new] at h

theorem watched_new : Watched .new where
  gone i s h := by simp [World.new] at h
  moved i s h := by simp [World.new] at h
  channel j s h := by simp [World.new] at h

theorem Watched.settled (h : Watched w) (hs : w.Settled) : w.AllInForce := by
  obtain ⟨-, -, hunsent, hdirty, hchecks⟩ := hs
  -- nothing is due: every check is over
  have hnone {account : AccountId} {sees : Stage → Bool} (hover : sees .atEnd = false) :
      w.due account sees = false := by
    rw [Bool.eq_false_iff, Ne, due_iff, coming_iff, hunsent, hdirty]
    rintro (hmem | ⟨c, hc, -, hstage⟩)
    · simp at hmem
    · rw [hchecks c hc, hover] at hstage
      simp at hstage
  constructor
  · intro s hs hopen
    obtain ⟨i, hi⟩ := mem_iff_getElem?.mp hs
    by_contra hout
    rw [World.hostInForce, Ledger.hostInForce, Bool.and_eq_true, not_and_or, Bool.not_eq_true,
      Bool.not_eq_true] at hout
    obtain hmoved | hgone := hout
    · have := h.moved i s hi hopen hmoved
      rw [hnone rfl] at this
      cases this
    · have := h.gone i s hi hopen hgone
      rw [hnone rfl] at this
      cases this
  · intro s hs hopen
    obtain ⟨j, hj⟩ := mem_iff_getElem?.mp hs
    by_contra hout
    rw [Bool.not_eq_true] at hout
    have hlink : s.stage.link.isSome = true := by
      simp only [DeviceSocket.isOpen, Bool.and_eq_true] at hopen
      exact hopen.1.1
    obtain ⟨k, hk⟩ := isSome_iff_exists.mp hlink
    have := h.channel j s hj hopen k hk hout
    rw [hnone rfl] at this
    cases this

/-! ## Steps that leave the records -/

def SameHost (s s' : HostSocket) : Prop :=
  s'.account = s.account ∧ s'.host = s.host ∧ s'.device = s.device

def SameDevice (s s' : DeviceSocket) : Prop :=
  s'.account = s.account ∧ s'.host = s.host ∧ s'.device = s.device ∧ s'.grant = s.grant

/-- The records stay, no check goes on, and what is newly open is in force or due to be
    checked. -/
structure Mild (w w' : World) : Prop where
  records : w'.records = w.records
  due : ∀ account sees, w.due account sees = true → w'.due account sees = true
  checks : ∀ c ∈ w'.checks, c ∈ w.checks ∨ c.stage = .started
  hosts : ∀ (i : Nat) (s : HostSocket), w.hosts[i]? = some s →
    ∃ s', w'.hosts[i]? = some s' ∧ SameHost s s' ∧ (s'.isOpen = true →
      s.isOpen = true ∨ w.hostInForce s = true ∨ w.due s.account (fun _ => false) = true)
  newHosts : ∀ (i : Nat) (s' : HostSocket), w'.hosts[i]? = some s' →
    (w.hosts[i]?).isSome = true ∨ s'.isOpen = false
  devices : ∀ (j : Nat) (s : DeviceSocket), w.devices[j]? = some s →
    ∃ s', w'.devices[j]? = some s' ∧ SameDevice s s' ∧
      (∀ k, s.stage.link = some k → s'.stage.link = some k) ∧
      (∀ k, s'.stage.at? = some k → s.stage.at? = some k ∨
        ∃ l, w.hosts[k]? = some l ∧ l.account = s.account ∧ l.host = s.host) ∧
      (s'.isOpen = true → ∀ k, s'.stage.link = some k →
        (s.isOpen = true ∧ s.stage.link = some k) ∨ w.deviceInForce s = true ∨
          w.due s.account (Stage.seesDevice j k) = true)
  newDevices : ∀ (j : Nat) (s' : DeviceSocket), w'.devices[j]? = some s' →
    (w.devices[j]?).isSome = true ∨ s'.stage.at? = none

theorem Sound.mild (h : Sound w) (hm : Mild w w') : Sound w' where
  placed j s' hs' k hk := by
    have forth {l : HostSocket} (hl : w.hosts[k]? = some l) (ha : l.account = s'.account)
        (hh : l.host = s'.host) :
        ∃ l, w'.hosts[k]? = some l ∧ l.account = s'.account ∧ l.host = s'.host := by
      obtain ⟨l', hl', hsame, -⟩ := hm.hosts k l hl
      exact ⟨l', hl', hsame.1.trans ha, hsame.2.1.trans hh⟩
    obtain hold | hnew := hm.newDevices j s' hs'
    · obtain ⟨s, hs⟩ := isSome_iff_exists.mp hold
      obtain ⟨s'', hs'', hsame, -, hat, -⟩ := hm.devices j s hs
      cases hs'.symm.trans hs''
      obtain hk | ⟨l, hl, ha, hh⟩ := hat k hk
      · obtain ⟨l, hl, ha, hh⟩ := h.placed j s hs k hk
        exact forth hl (ha.trans hsame.1.symm) (hh.trans hsame.2.1.symm)
      · exact forth hl (ha.trans hsame.1.symm) (hh.trans hsame.2.1.symm)
    · rw [hnew] at hk
      cases hk
  checks c hc k hk := by
    obtain hc | hstarted := hm.checks c hc
    · obtain ⟨l, hl, ha⟩ := h.checks c hc k hk
      obtain ⟨l', hl', hsame, -⟩ := hm.hosts k l hl
      exact ⟨l', hl', hsame.1.trans ha⟩
    · simp [hstarted, Stage.mentions] at hk
  joined c hc k joined hjoined j hj := by
    obtain hc | hstarted := hm.checks c hc
    · obtain ⟨s, hs, hlink⟩ := h.joined c hc k joined hjoined j hj
      obtain ⟨s', hs', -, hlink', -⟩ := hm.devices j s hs
      exact ⟨s', hs', hlink' k hlink⟩
    · simp [hstarted, Stage.joined] at hjoined

theorem Watched.mild (h : Watched w) (hm : Mild w w') : Watched w' := by
  have back {i : Nat} {s' : HostSocket} (hs' : w'.hosts[i]? = some s') (hopen : s'.isOpen = true) :
      ∃ s, w.hosts[i]? = some s ∧ SameHost s s' ∧
        (s.isOpen = true ∨ w.hostInForce s = true ∨ w.due s.account (fun _ => false) = true) := by
    obtain hold | hclosed := hm.newHosts i s' hs'
    · obtain ⟨s, hs⟩ := isSome_iff_exists.mp hold
      obtain ⟨s'', hs'', hsame, hwas⟩ := hm.hosts i s hs
      cases hs'.symm.trans hs''
      exact ⟨s, hs, hsame, hwas hopen⟩
    · rw [hclosed] at hopen
      cases hopen
  refine ⟨?_, ?_, ?_⟩
  · intro i s' hs' hopen hout
    obtain ⟨s, hs, ⟨ha, -, hd⟩, hwas⟩ := back hs' hopen
    rw [hm.records, ha, hd] at hout
    rw [ha, hd]
    apply hm.due
    obtain hopen | hin | hdue := hwas
    · exact h.gone i s hs hopen hout
    · rw [World.hostInForce, Ledger.hostInForce, hout, Bool.and_false] at hin
      cases hin
    · exact due_of_none hdue
  · intro i s' hs' hopen hout
    obtain ⟨s, hs, ⟨ha, hh, hd⟩, hwas⟩ := back hs' hopen
    rw [hm.records, ha, hh, hd] at hout
    rw [ha]
    apply hm.due
    obtain hopen | hin | hdue := hwas
    · exact h.moved i s hs hopen hout
    · rw [World.hostInForce, Ledger.hostInForce, hout, Bool.false_and] at hin
      cases hin
    · exact due_of_none hdue
  · intro j s' hs' hopen k hk hout
    obtain hold | hnew := hm.newDevices j s' hs'
    · obtain ⟨s, hs⟩ := isSome_iff_exists.mp hold
      obtain ⟨s'', hs'', ⟨ha, hh, hd, hg⟩, -, -, hwas⟩ := hm.devices j s hs
      cases hs'.symm.trans hs''
      rw [World.deviceInForce, hm.records, ha, hh, hd, hg] at hout
      rw [ha]
      apply hm.due
      obtain ⟨hopen, hlink⟩ | hin | hdue := hwas hopen k hk
      · exact h.channel j s hs hopen k hlink hout
      · rw [World.deviceInForce, hout] at hin
        cases hin
      · exact hdue
    · rw [DeviceStage.at_of_link hk] at hnew
      cases hnew

theorem due_mono (hunsent : ∀ x ∈ w.unsent, x ∈ w'.unsent ∨ x ∈ w'.dirty)
    (hdirty : ∀ x ∈ w.dirty, x ∈ w'.dirty ∨ ⟨x, .started⟩ ∈ w'.checks)
    (hchecks : ∀ c ∈ w.checks, c ∈ w'.checks) (account : AccountId) (sees : Stage → Bool)
    (h : w.due account sees = true) : w'.due account sees = true := by
  rw [due_iff, coming_iff] at *
  obtain (hmem | hmem) | ⟨c, hc, haccount, hstage⟩ := h
  · exact .inl (hunsent account hmem)
  · obtain hmem | hmem := hdirty account hmem
    · exact .inl (.inr hmem)
    · exact .inr ⟨_, hmem, rfl, .inl rfl⟩
  · exact .inr ⟨c, hchecks c hc, haccount, hstage⟩

theorem Mild.of_same (hrecords : w'.records = w.records) (hhosts : w'.hosts = w.hosts)
    (hdevices : w'.devices = w.devices)
    (hdue : ∀ account sees, w.due account sees = true → w'.due account sees = true)
    (hchecks : ∀ c ∈ w'.checks, c ∈ w.checks ∨ c.stage = .started) : Mild w w' where
  records := hrecords
  due := hdue
  checks := hchecks
  hosts i s hs := ⟨s, hhosts ▸ hs, ⟨rfl, rfl, rfl⟩, .inl⟩
  newHosts i s hs := .inl (by rw [← hhosts, hs]; rfl)
  devices j s hs := ⟨s, hdevices ▸ hs, ⟨rfl, rfl, rfl, rfl⟩, fun _ => id, fun _ => .inl,
    fun hopen _ hk => .inl ⟨hopen, hk⟩⟩
  newDevices j s hs := .inl (by rw [← hdevices, hs]; rfl)

theorem Mild.of_hosts {f : Nat → HostSocket → HostSocket} (hrecords : w'.records = w.records)
    (hhosts : ∀ i, w'.hosts[i]? = (w.hosts[i]?).map (f i)) (hdevices : w'.devices = w.devices)
    (hdue : ∀ account sees, w.due account sees = true → w'.due account sees = true)
    (hchecks : w'.checks = w.checks)
    (hf : ∀ i s, w.hosts[i]? = some s → SameHost s (f i s) ∧ ((f i s).isOpen = true →
      s.isOpen = true ∨ w.hostInForce s = true ∨ w.due s.account (fun _ => false) = true)) :
    Mild w w' where
  records := hrecords
  due := hdue
  checks c hc := .inl (hchecks ▸ hc)
  hosts i s hs := ⟨f i s, by rw [hhosts, hs]; rfl, hf i s hs⟩
  newHosts i s hs := by
    rw [hhosts] at hs
    obtain ⟨s₀, hs₀, -⟩ := map_eq_some_iff.mp hs
    exact .inl (by rw [hs₀]; rfl)
  devices j s hs := ⟨s, hdevices ▸ hs, ⟨rfl, rfl, rfl, rfl⟩, fun _ => id, fun _ => .inl,
    fun hopen _ hk => .inl ⟨hopen, hk⟩⟩
  newDevices j s hs := .inl (by rw [← hdevices, hs]; rfl)

theorem Mild.of_devices {f : Nat → DeviceSocket → DeviceSocket} (hrecords : w'.records = w.records)
    (hhosts : w'.hosts = w.hosts) (hdevices : ∀ j, w'.devices[j]? = (w.devices[j]?).map (f j))
    (hdue : ∀ account sees, w.due account sees = true → w'.due account sees = true)
    (hchecks : w'.checks = w.checks)
    (hf : ∀ j s, w.devices[j]? = some s → SameDevice s (f j s) ∧
      (∀ k, s.stage.link = some k → (f j s).stage.link = some k) ∧
      (∀ k, (f j s).stage.at? = some k → s.stage.at? = some k ∨
        ∃ l, w.hosts[k]? = some l ∧ l.account = s.account ∧ l.host = s.host) ∧
      ((f j s).isOpen = true → ∀ k, (f j s).stage.link = some k →
        (s.isOpen = true ∧ s.stage.link = some k) ∨ w.deviceInForce s = true ∨
          w.due s.account (Stage.seesDevice j k) = true)) : Mild w w' where
  records := hrecords
  due := hdue
  checks c hc := .inl (hchecks ▸ hc)
  hosts i s hs := ⟨s, hhosts ▸ hs, ⟨rfl, rfl, rfl⟩, .inl⟩
  newHosts i s hs := .inl (by rw [← hhosts, hs]; rfl)
  devices j s hs := ⟨f j s, by rw [hdevices, hs]; rfl, hf j s hs⟩
  newDevices j s hs := by
    rw [hdevices] at hs
    obtain ⟨s₀, hs₀, -⟩ := map_eq_some_iff.mp hs
    exact .inl (by rw [hs₀]; rfl)

theorem set_eq_map {α : Type} {l : List α} {i : Nat} {x y : α} (h : l[i]? = some x) (j : Nat) :
    (l.set i y)[j]? = (l[j]?).map fun z => if j = i then y else z := by
  by_cases hij : j = i
  · subst hij
    rw [get_set_self h, h]
    simp
  · rw [get_set_ne hij]
    simp [hij]

theorem modify_eq_map {α : Type} {l : List α} {i : Nat} {f : α → α} (j : Nat) :
    (l.modify i f)[j]? = (l[j]?).map fun z => if j = i then f z else z := by
  rw [List.getElem?_modify]
  by_cases hij : i = j
  · simp [hij]
  · have hji : j ≠ i := fun h => hij h.symm
    cases l[j]? <;> simp [hij, hji]

theorem Mild.putHost {i : Nat} {s s' : HostSocket} {dirty : List AccountId}
    (hs : w.hosts[i]? = some s) (hsame : SameHost s s')
    (hopen : s'.isOpen = true → s.isOpen = true) (hdirty : ∀ x ∈ w.dirty, x ∈ dirty) :
    Mild w { w.putHost i s' with dirty := dirty } := by
  refine .of_hosts (f := fun j x => if j = i then s' else x) rfl (set_eq_map hs) rfl
    (due_mono (fun _ => .inl) (fun x hx => .inl (hdirty x hx)) fun _ => id) rfl ?_
  intro j x hx
  split
  · rename_i hj
    subst hj
    cases hs.symm.trans hx
    exact ⟨hsame, fun h => .inl (hopen h)⟩
  · exact ⟨⟨rfl, rfl, rfl⟩, .inl⟩

theorem Mild.putDevice {j : Nat} {s s' : DeviceSocket} {dirty : List AccountId}
    (hs : w.devices[j]? = some s) (hsame : SameDevice s s')
    (hlink : ∀ k, s.stage.link = some k → s'.stage.link = some k)
    (hat : ∀ k, s'.stage.at? = some k → s.stage.at? = some k ∨
      ∃ l, w.hosts[k]? = some l ∧ l.account = s.account ∧ l.host = s.host)
    (hopen : s'.isOpen = true → ∀ k, s'.stage.link = some k →
      (s.isOpen = true ∧ s.stage.link = some k) ∨ w.deviceInForce s = true ∨
        w.due s.account (Stage.seesDevice j k) = true)
    (hdirty : ∀ x ∈ w.dirty, x ∈ dirty) : Mild w { w.putDevice j s' with dirty := dirty } := by
  refine .of_devices (f := fun m x => if m = j then s' else x) rfl rfl (set_eq_map hs)
    (due_mono (fun _ => .inl) (fun x hx => .inl (hdirty x hx)) fun _ => id) rfl ?_
  intro m x hx
  split
  · rename_i hm
    subst hm
    cases hs.symm.trans hx
    exact ⟨hsame, hlink, hat, hopen⟩
  · exact ⟨⟨rfl, rfl, rfl, rfl⟩, fun _ => id, fun _ => .inl, fun h _ hk => .inl ⟨h, hk⟩⟩

theorem Mild.closeAll (w : World) (link : Nat) : Mild w (w.closeAll link) := by
  refine .of_devices rfl rfl (fun j => List.getElem?_map) (fun _ _ => id) rfl ?_
  intro j s hs
  split
  · exact ⟨⟨rfl, rfl, rfl, rfl⟩, fun _ => id, fun _ => .inl, fun h => by
      simp [DeviceSocket.isOpen, World.DeviceSocket.shut] at h⟩
  · exact ⟨⟨rfl, rfl, rfl, rfl⟩, fun _ => id, fun _ => .inl, fun h _ hk => .inl ⟨h, hk⟩⟩

theorem Mild.shutLink (w : World) (link : Nat) : Mild w (w.shutLink link) := by
  refine .of_hosts rfl modify_eq_map rfl (fun _ _ => id) rfl ?_
  intro i s hs
  split
  · exact ⟨⟨rfl, rfl, rfl⟩, fun h => by simp [HostSocket.isOpen] at h⟩
  · exact ⟨⟨rfl, rfl, rfl⟩, .inl⟩

theorem Mild.closeChannel (w : World) (j : Nat) : Mild w (w.closeChannel j) := by
  refine .of_devices rfl rfl modify_eq_map (fun _ _ => id) rfl ?_
  intro m s hs
  split
  · split
    · exact ⟨⟨rfl, rfl, rfl, rfl⟩, fun _ => id, fun _ => .inl, fun h => by
        simp [DeviceSocket.isOpen, World.DeviceSocket.shut] at h⟩
    · exact ⟨⟨rfl, rfl, rfl, rfl⟩, fun _ => id, fun _ => .inl, fun h _ hk => .inl ⟨h, hk⟩⟩
  · exact ⟨⟨rfl, rfl, rfl, rfl⟩, fun _ => id, fun _ => .inl, fun h _ hk => .inl ⟨h, hk⟩⟩

theorem Mild.attach {i : Nat} {s : HostSocket} (hs : w.hosts[i]? = some s)
    (hc : w.hostInForce s = true ∨ w.due s.account (fun _ => false) = true) :
    Mild w (w.attach i s) := by
  let out (x : HostSocket) : HostSocket :=
    if x.account = s.account ∧ x.host = s.host then { x with inHosts := false } else x
  have hmap : (w.hosts.map out)[i]? = some (out s) := by rw [List.getElem?_map, hs]; rfl
  have hhosts (m : Nat) : (w.attach i s).hosts[m]? = (w.hosts[m]?).map fun x =>
      if m = i then { s with stage := .joined, inHosts := true } else out x := by
    show ((w.hosts.map out).set i _)[m]? = _
    rw [set_eq_map hmap, List.getElem?_map, Option.map_map]
    congr 1
  refine .of_hosts rfl hhosts rfl (fun _ _ => id) rfl ?_
  intro m x hx
  split
  · rename_i hm
    subst hm
    cases hs.symm.trans hx
    exact ⟨⟨rfl, rfl, rfl⟩, fun _ => .inr hc⟩
  · unfold out
    split
    · exact ⟨⟨rfl, rfl, rfl⟩, .inl⟩
    · exact ⟨⟨rfl, rfl, rfl⟩, .inl⟩

theorem current_spec {host : HostId} {k : Nat} (h : w.current account host = some k) :
    ∃ l, w.hosts[k]? = some l ∧ l.account = account ∧ l.host = host := by
  obtain ⟨hlt, hp, -⟩ := List.findIdx?_eq_some_iff_getElem.mp h
  simp only [Bool.and_eq_true, decide_eq_true_eq] at hp
  exact ⟨w.hosts[k], List.getElem?_eq_getElem hlt, hp.1.1, hp.1.2⟩

theorem Mild.present (w : World) (t : Nat) (p : Pending) : Mild w (w.present t p) := by
  unfold World.present
  dsimp only
  split
  · split
    · refine ⟨rfl, fun _ _ => id, fun _ => .inl, ?_, ?_, ?_, ?_⟩
      · exact fun i s hs => ⟨s, get_append_left hs, ⟨rfl, rfl, rfl⟩, .inl⟩
      · intro i s hs
        obtain hs | ⟨-, rfl⟩ := get_append hs
        · exact .inl (by rw [hs]; rfl)
        · exact .inr rfl
      · exact fun j s hs => ⟨s, hs, ⟨rfl, rfl, rfl, rfl⟩, fun _ => id, fun _ => .inl,
          fun hopen _ hk => .inl ⟨hopen, hk⟩⟩
      · exact fun j s hs => .inl (by rw [hs]; rfl)
    · refine ⟨rfl, fun _ _ => id, fun _ => .inl, ?_, ?_, ?_, ?_⟩
      · exact fun i s hs => ⟨s, hs, ⟨rfl, rfl, rfl⟩, .inl⟩
      · exact fun i s hs => .inl (by rw [hs]; rfl)
      · exact fun j s hs => ⟨s, get_append_left hs, ⟨rfl, rfl, rfl, rfl⟩, fun _ => id, fun _ => .inl,
          fun hopen _ hk => .inl ⟨hopen, hk⟩⟩
      · intro j s hs
        obtain hs | ⟨-, rfl⟩ := get_append hs
        · exact .inl (by rw [hs]; rfl)
        · exact .inr rfl
  · exact .of_same rfl rfl rfl (fun _ _ => id) fun _ => .inl

section
variable {l : Ledger} {m : Method}

theorem signedIn_apply (hm : m.nudges = false) {device : DeviceId}
    (h : signedIn l.devices device = true) : signedIn (l.apply m).devices device = true := by
  cases m with
  | addDevice id =>
    simp only [signedIn, Ledger.apply, List.any_append, Bool.or_eq_true]
    exact .inl h
  | addHost id device => exact h
  | rebindHost id device => exact h
  | addGrant id host device => exact h
  | decide id approve => cases hm
  | revokeGrant id => cases hm
  | removeHost id => cases hm
  | revoke id => cases hm

theorem host_apply (hm : m.nudges = false) {host : HostId} {device : DeviceId}
    (hrebind : ∀ id device', m = .rebindHost id device' → id = host → device' = device)
    (h : (l.host host).any (·.device = device) = true) :
    ((l.apply m).host host).any (·.device = device) = true := by
  obtain ⟨found, hfound, hdevice⟩ := (any_eq_true _ _).mp h
  cases m with
  | addDevice id => exact h
  | addHost id device' =>
    have hsame : (l.apply (.addHost id device')).host host = some found := by
      simp only [Ledger.host, Ledger.apply, List.find?_append]
      rw [Ledger.host] at hfound
      rw [hfound]
      rfl
    rw [hsame]
    exact hdevice
  | rebindHost id device' =>
    have hsame : (l.apply (.rebindHost id device')).host host =
        some (if found.id = id ∧ found.removed = false then { found with device := device' }
          else found) := by
      simp only [Ledger.host, Ledger.apply, List.find?_map]
      rw [Ledger.host] at hfound
      have hp : ((fun h : Host => decide (h.id = host) && !h.removed) ∘ fun h : Host =>
          if h.id = id ∧ h.removed = false then { h with device := device' } else h) =
            fun h : Host => decide (h.id = host) && !h.removed := by
        funext h
        simp only [Function.comp]
        split <;> rfl
      rw [hp, hfound]
      rfl
    rw [hsame, any_some]
    have hid : found.id = host := by
      have := List.find?_some hfound
      simp only [Bool.and_eq_true, decide_eq_true_eq] at this
      exact this.1
    split
    · rename_i hsame
      simp [hrebind id device' rfl (hsame.1.symm.trans hid)]
    · exact hdevice
  | addGrant id host device => exact h
  | decide id approve => cases hm
  | revokeGrant id => cases hm
  | removeHost id => cases hm
  | revoke id => cases hm

theorem device_apply (hm : m.nudges = false) {host : HostId} {device : DeviceId} {grant : GrantId}
    (h : l.deviceInForce host device grant = true) :
    (l.apply m).deviceInForce host device grant = true := by
  cases m with
  | addDevice id =>
    obtain ⟨g, hg, hin⟩ := (any_eq_true _ _).mp h
    refine (any_eq_true _ _).mpr ⟨g, hg, ?_⟩
    simp only [Ledger.inForce, Bool.and_eq_true, decide_eq_true_eq, Bool.not_eq_true'] at hin ⊢
    refine ⟨⟨⟨hin.1.1.1, ?_⟩, hin.1.2⟩, hin.2⟩
    -- the device was there
    have hthere := hin.1.1.2
    simp only [Ledger.deviceRevoked, Ledger.apply, List.find?_append] at hthere ⊢
    cases hfind : l.devices.find? (·.id = g.device) with
    | none => simp [hfind] at hthere
    | some d => simpa [hfind] using hthere
  | addHost id device => exact h
  | rebindHost id device => exact h
  | addGrant id host' device' =>
    obtain ⟨g, hg, hin⟩ := (any_eq_true _ _).mp h
    refine (any_eq_true _ _).mpr ⟨g, ?_, hin⟩
    simp only [Ledger.grant, Ledger.apply, List.find?_append]
    rw [Ledger.grant] at hg
    rw [hg]
    rfl
  | decide id approve => cases hm
  | revokeGrant id => cases hm
  | removeHost id => cases hm
  | revoke id => cases hm

end

/-- A change that revokes something is followed by a nudge; the others leave in force what was,
    but for a host's old device. -/
theorem Watched.change (h : Watched w) {method : Method} (hc : Careful w (.change account method)) :
    Watched (w.change account method) := by
  -- what was due is due
  have hdue {x : AccountId} {sees : Stage → Bool} (hx : w.due x sees = true) :
      (w.change account method).due x sees = true := by
    refine @due_mono w (w.change account method) ?_ (fun _ => .inl) (fun _ => id) x sees hx
    intro y hy
    left
    show y ∈ if method.nudges then account :: w.unsent else w.unsent
    split
    · exact mem_cons_of_mem _ hy
    · exact hy
  have hnudged {sees : Stage → Bool} (hm : method.nudges = true) :
      (w.change account method).due account sees = true := by
    rw [due_iff, coming_iff]
    exact .inl (.inl (by simp [World.change, hm]))
  have hsame : (w.change account method).records account = (w.records account).apply method :=
    update_self ..
  have hother {x : AccountId} (hx : x ≠ account) :
      (w.change account method).records x = w.records x :=
    update_of_ne hx ..
  refine ⟨?_, ?_, ?_⟩
  · intro i s hs hopen hout
    by_cases hx : s.account = account
    · rw [hx, hsame] at hout
      by_cases hm : method.nudges = true
      · rw [hx]
        exact hnudged hm
      · rw [Bool.not_eq_true] at hm
        refine hdue (h.gone i s hs hopen ?_)
        rw [hx]
        exact Bool.eq_false_iff.mpr fun hin => Bool.eq_false_iff.mp hout (signedIn_apply hm hin)
    · rw [hother hx] at hout
      exact hdue (h.gone i s hs hopen hout)
  · intro i s hs hopen hout
    by_cases hx : s.account = account
    · rw [hx, hsame] at hout
      by_cases hm : method.nudges = true
      · rw [hx]
        exact hnudged hm
      · rw [Bool.not_eq_true] at hm
        by_cases hrebind : ∀ id device', method = .rebindHost id device' → id = s.host →
            device' = s.device
        · refine hdue (h.moved i s hs hopen ?_)
          rw [hx]
          exact Bool.eq_false_iff.mpr fun hin =>
            Bool.eq_false_iff.mp hout (host_apply hm hrebind hin)
        · push Not at hrebind
          obtain ⟨id, device', rfl, hid, hne⟩ := hrebind
          refine hdue ?_
          rw [hx]
          have hi : i ∈ List.range w.hosts.length :=
            mem_range.mpr (List.getElem?_eq_some_iff.mp hs).1
          exact hc i hi s hs hx hid.symm hopen fun heq => hne heq.symm
    · rw [hother hx] at hout
      exact hdue (h.moved i s hs hopen hout)
  · intro j s hs hopen k hk hout
    rw [World.deviceInForce] at hout
    by_cases hx : s.account = account
    · rw [hx, hsame] at hout
      by_cases hm : method.nudges = true
      · rw [hx]
        exact hnudged hm
      · rw [Bool.not_eq_true] at hm
        refine hdue (h.channel j s hs hopen k hk ?_)
        rw [World.deviceInForce, hx]
        exact Bool.eq_false_iff.mpr fun hin => Bool.eq_false_iff.mp hout (device_apply hm hin)
    · rw [hother hx] at hout
      exact hdue (h.channel j s hs hopen k hk hout)

/-! ## A check goes on -/

theorem mem_channels {k j : Nat} : j ∈ w.channels k ↔
    ∃ s, w.devices[j]? = some s ∧ s.stage.link = some k ∧ s.onChannel = true := by
  unfold World.channels
  rw [mem_filter, mem_range]
  constructor
  · rintro ⟨-, h⟩
    obtain ⟨s, hs, hp⟩ := (any_eq_true _ _).mp h
    exact ⟨s, hs, by simpa using hp⟩
  · rintro ⟨s, hs, hp⟩
    exact ⟨(List.getElem?_eq_some_iff.mp hs).1, by simp [hs, hp]⟩

theorem mem_linksOf {k : Nat} : k ∈ w.linksOf account ↔
    ∃ l, w.hosts[k]? = some l ∧ l.account = account ∧ l.inHosts = true := by
  unfold World.linksOf
  rw [mem_filter, mem_range]
  constructor
  · rintro ⟨-, h⟩
    obtain ⟨l, hl, hp⟩ := (any_eq_true _ _).mp h
    exact ⟨l, hl, by simpa using hp⟩
  · rintro ⟨l, hl, hp⟩
    exact ⟨(List.getElem?_eq_some_iff.mp hl).1, by simp [hl, hp]⟩

variable {r : Nat} {c : Check} {stage : Stage}

theorem due_putCheck (hr : w.checks[r]? = some c) {sees : Stage → Bool}
    (h : w.due account sees = true) (hsees : w.coming c.account = false → account = c.account →
        (c.stage = .started ∨ sees c.stage = true) → stage = .started ∨ sees stage = true) :
    (w.putCheck r c stage).due account sees = true := by
  rw [due_iff] at h ⊢
  obtain hcoming | ⟨d, hd, haccount, hstage⟩ := h
  · exact .inl hcoming
  · obtain rfl | hd := mem_set_or (b := { c with stage := stage }) hr hd
    · by_cases hcoming : w.coming d.account = true
      · exact .inl (haccount ▸ hcoming)
      · rw [Bool.not_eq_true] at hcoming
        exact .inr ⟨_, mem_set_self hr, haccount, hsees hcoming haccount.symm hstage⟩
    · exact .inr ⟨d, hd, haccount, hstage⟩

theorem Watched.putCheck (h : Watched w) (hr : w.checks[r]? = some c)
    (hgone : w.coming c.account = false → ∀ i s, w.hosts[i]? = some s → s.isOpen = true →
      s.account = c.account → signedIn (w.records c.account).devices s.device = false →
      (c.stage = .started ∨ Stage.seesGone i s.device c.stage = true) →
      Stage.seesGone i s.device stage = true)
    (hmoved : w.coming c.account = false → ∀ i s, w.hosts[i]? = some s → s.isOpen = true →
      s.account = c.account →
      ((w.records c.account).host s.host).any (·.device = s.device) = false →
      (c.stage = .started ∨ Stage.seesHost i c.stage = true) → Stage.seesHost i stage = true)
    (hchannel : w.coming c.account = false → ∀ j s, w.devices[j]? = some s → s.isOpen = true →
      s.account = c.account → ∀ k, s.stage.link = some k → w.deviceInForce s = false →
      (c.stage = .started ∨ Stage.seesDevice j k c.stage = true) →
      Stage.seesDevice j k stage = true) : Watched (w.putCheck r c stage) where
  gone i s hs hopen hout := by
    refine due_putCheck hr (h.gone i s hs hopen hout) fun hcoming haccount hsees => .inr ?_
    exact hgone hcoming i s hs hopen haccount (haccount ▸ hout) hsees
  moved i s hs hopen hout := by
    refine due_putCheck hr (h.moved i s hs hopen hout) fun hcoming haccount hsees => .inr ?_
    exact hmoved hcoming i s hs hopen haccount (haccount ▸ hout) hsees
  channel j s hs hopen k hk hout := by
    refine due_putCheck hr (h.channel j s hs hopen k hk hout) fun hcoming haccount hsees => .inr ?_
    exact hchannel hcoming j s hs hopen haccount k hk hout hsees

theorem Sound.putCheck (h : Sound w) (hr : w.checks[r]? = some c)
    (hmentions : ∀ k ∈ stage.mentions, ∃ l, w.hosts[k]? = some l ∧ l.account = c.account)
    (hjoined : ∀ k joined, stage.joined = some (k, joined) → ∀ j ∈ joined,
      ∃ s, w.devices[j]? = some s ∧ s.stage.link = some k) : Sound (w.putCheck r c stage) where
  placed := h.placed
  checks d hd := by
    obtain ⟨q, hq⟩ := mem_iff_getElem?.mp hd
    obtain ⟨-, rfl⟩ | ⟨-, hq⟩ := get_set hr hq
    · exact hmentions
    · exact h.checks d (mem_of_getElem? hq)
  joined d hd := by
    obtain ⟨q, hq⟩ := mem_iff_getElem?.mp hd
    obtain ⟨-, rfl⟩ | ⟨-, hq⟩ := get_set hr hq
    · exact hjoined
    · exact h.joined d (mem_of_getElem? hq)

theorem sound_go (h : Sound w) (hr : w.checks[r]? = some c) (hs : w.go r c = some w') : Sound w' := by
  have hc := mem_of_getElem? hr
  unfold World.go at hs
  split at hs
  · cases hs
    refine h.putCheck hr ?_ ?_
    · intro k hk
      have hk : k ∈ w.linksOf c.account := by
        cases hlinks : w.linksOf c.account with
        | nil => simp [hlinks, Stage.mentions] at hk
        | cons i rest => simpa [hlinks, Stage.mentions] using hk
      obtain ⟨l, hl, haccount, -⟩ := mem_linksOf.mp hk
      exact ⟨l, hl, haccount⟩
    · intro k joined hjoined
      cases hlinks : w.linksOf c.account <;> simp [hlinks, Stage.joined] at hjoined
  · rename_i links hstage
    cases hs
    exact h.putCheck hr (fun k hk => h.checks c hc k (by simpa [hstage, Stage.mentions] using hk))
      (by simp [Stage.joined])
  · cases hs
    exact h.putCheck hr (by simp [Stage.mentions]) (by simp [Stage.joined])
  · rename_i devices link rest hstage
    split at hs
    · cases hs
    rename_i s hlink
    cases hs
    refine h.putCheck hr ?_ ?_
    · intro k hk
      refine h.checks c hc k ?_
      split at hk <;> simpa [hstage, Stage.mentions] using hk
    · intro k joined hjoined
      split at hjoined <;> simp [Stage.joined] at hjoined
  · rename_i devices link rest hstage
    cases hs
    have h₁ := h.mild (.closeAll w link)
    exact h₁.putCheck hr (fun k hk => h₁.checks c hc k (by simpa [hstage, Stage.mentions] using hk))
      (by simp [Stage.joined])
  · rename_i devices link rest hstage
    cases hs
    have h₁ := h.mild (.shutLink w link)
    refine h₁.putCheck hr (fun k hk => h₁.checks c hc k ?_) (by simp [Stage.joined])
    simp only [Stage.mentions] at hk
    simp [hstage, Stage.mentions, hk]
  · rename_i devices link rest hstage
    cases hs
    refine h.putCheck hr (fun k hk => h.checks c hc k (by simpa [hstage, Stage.mentions] using hk)) ?_
    intro k joined hjoined j hj
    simp only [Stage.joined, Option.some.injEq, Prod.mk.injEq] at hjoined
    obtain ⟨rfl, rfl⟩ := hjoined
    obtain ⟨s, hs, hlink, -⟩ := mem_channels.mp hj
    exact ⟨s, hs, hlink⟩
  · rename_i devices link rest hstage
    cases hs
    refine h.putCheck hr (fun k hk => h.checks c hc k ?_) (by simp [Stage.joined])
    simp only [Stage.mentions] at hk
    simp [hstage, Stage.mentions, hk]
  · rename_i devices link j joined rest hstage
    split at hs
    · cases hs
      refine h.putCheck hr ?_ ?_
      · intro k hk
        refine h.checks c hc k ?_
        split at hk <;> simpa [hstage, Stage.mentions] using hk
      · intro k js hjs m hm
        have hall := h.joined c hc link (j :: joined) (by simp [hstage, Stage.joined])
        split at hjs
        · simp only [Stage.joined, Option.some.injEq, Prod.mk.injEq] at hjs
          obtain ⟨rfl, rfl⟩ := hjs
          exact hall m (mem_cons_of_mem _ hm)
        · simp only [Stage.joined, Option.some.injEq, Prod.mk.injEq] at hjs
          obtain ⟨rfl, rfl⟩ := hjs
          exact hall m hm
    · cases hs
  -- a channel is closed, and the others of its link are still to be looked at
  · rename_i devices link j joined rest hstage
    cases hs
    have h₁ := h.mild (.closeChannel w j)
    refine h₁.putCheck hr
      (fun k hk => h₁.checks c hc k (by simpa [hstage, Stage.mentions] using hk)) ?_
    intro k js hjs m hm
    simp only [Stage.joined, Option.some.injEq, Prod.mk.injEq] at hjs
    obtain ⟨rfl, rfl⟩ := hjs
    exact h₁.joined c hc link (j :: joined) (by simp [hstage, Stage.joined]) m
      (mem_cons_of_mem _ hm)
  · cases hs

theorem open_of_closeAll {k j : Nat} {s' : DeviceSocket} (hs : (w.closeAll k).devices[j]? = some s')
    (hopen : s'.isOpen = true) (hk : s'.stage.link = some k) :
    w.devices[j]? = some s' ∧ s'.onChannel = false := by
  simp only [World.closeAll, List.getElem?_map] at hs
  obtain ⟨s, hwas, rfl⟩ := map_eq_some_iff.mp hs
  split at hopen
  · simp [DeviceSocket.isOpen, World.DeviceSocket.shut] at hopen
  · rename_i hnot
    simp only [if_neg hnot] at hk ⊢
    exact ⟨hwas, by simpa [hk] using hnot⟩

theorem open_of_closeChannel {j : Nat} {s' : DeviceSocket}
    (hs : (w.closeChannel j).devices[j]? = some s') (hopen : s'.isOpen = true) :
    w.devices[j]? = some s' ∧ s'.onChannel = false := by
  simp only [World.closeChannel, modify_eq_map, if_true] at hs
  obtain ⟨s, hwas, rfl⟩ := map_eq_some_iff.mp hs
  split at hopen
  · simp [DeviceSocket.isOpen, World.DeviceSocket.shut] at hopen
  · rename_i hnot
    simp only [if_neg hnot]
    exact ⟨hwas, by simpa using hnot⟩

theorem Watched.onChannels (h : Watched w) (hr : w.checks[r]? = some c)
    (hstart : c.stage ≠ .started)
    (hgone : ∀ i device, c.stage.seesGone i device = true → stage.seesGone i device = true)
    (hhost : ∀ i, c.stage.seesHost i = true → stage.seesHost i = true)
    (hchannel : w.coming c.account = false → ∀ (j : Nat) (s : DeviceSocket),
      w.devices[j]? = some s → s.isOpen = true → s.account = c.account →
      ∀ k, s.stage.link = some k → w.deviceInForce s = false →
      c.stage.seesDevice j k = true → stage.seesDevice j k = true) :
    Watched (w.putCheck r c stage) :=
  h.putCheck hr (fun _ i _ _ _ _ _ hsees => hgone i _ (hsees.resolve_left hstart))
    (fun _ i _ _ _ _ _ hsees => hhost i (hsees.resolve_left hstart))
    fun hcoming j s hj hopen haccount k hk hout hsees =>
      hchannel hcoming j s hj hopen haccount k hk hout (hsees.resolve_left hstart)

section
variable (hsound : Sound w) (h : Watched w) (hr : w.checks[r]? = some c)
  (hc : w.coming c.account = false →
    (c.stage = .started → w.Listed c.account) ∧ ∀ k ∈ c.stage.looksAt, w.OnChannels k)
  (hs : w.go r c = some w') {devices : List Device} {link j : Nat} {links joined rest : List Nat}

include h hr hs

include hsound hc in
theorem watched_started (hstage : c.stage = .started) : Watched w' := by
  simp only [World.go, hstage] at hs
  cases hs
  refine h.putCheck hr ?_ ?_ ?_
  · intro hcoming i s hi hopen haccount hout _
    obtain ⟨hlisted, -⟩ := (hc hcoming).1 hstage
    have hinHosts := hlisted s (mem_of_getElem? hi) haccount hopen
      (by simp [World.hostInForce, Ledger.hostInForce, haccount, hout])
    exact World.sees_links (mem_linksOf.mpr ⟨s, hi, haccount, hinHosts⟩) (by simp [Stage.seesGone])
  · intro hcoming i s hi hopen haccount hout _
    obtain ⟨hlisted, -⟩ := (hc hcoming).1 hstage
    have hinHosts := hlisted s (mem_of_getElem? hi) haccount hopen
      (by rw [World.hostInForce, Ledger.hostInForce, haccount, hout, Bool.false_and])
    exact World.sees_links (mem_linksOf.mpr ⟨s, hi, haccount, hinHosts⟩) (by simp [Stage.seesHost])
  · intro hcoming j s hj hopen haccount k hk hout _
    obtain ⟨-, hlisted⟩ := (hc hcoming).1 hstage
    obtain ⟨l, hl, hla, -⟩ := hsound.placed j s hj k (DeviceStage.at_of_link hk)
    have hinHosts := hlisted s (mem_of_getElem? hj) haccount hopen hout k hk l hl
    exact World.sees_links (mem_linksOf.mpr ⟨l, hl, hla.trans haccount, hinHosts⟩)
      (by simp [Stage.seesDevice])

theorem watched_listed (hstage : c.stage = .listed links) : Watched w' := by
  simp only [World.go, hstage] at hs
  cases hs
  refine h.putCheck hr ?_ ?_ ?_
  · intro _ i s hi hopen haccount hout hsees
    simpa [hstage, Stage.seesGone, hout] using hsees
  · intro _ i s hi hopen haccount hout hsees
    simpa [hstage, Stage.seesHost] using hsees
  · intro _ j s hj hopen haccount k hk hout hsees
    simpa [hstage, Stage.seesDevice] using hsees

theorem watched_link (hstage : c.stage = .atLink devices (link :: rest)) : Watched w' := by
  simp only [World.go, hstage] at hs
  split at hs
  · cases hs
  rename_i s hlink
  cases hs
  refine h.putCheck hr ?_ ?_ ?_
  · intro _ i x hi hopen haccount hout hsees
    simp only [hstage, Stage.seesGone, reduceCtorEq, false_or, Bool.and_eq_true,
      decide_eq_true_eq, mem_cons, Bool.not_eq_true'] at hsees
    obtain ⟨rfl | hi', hgone⟩ := hsees
    · cases hlink.symm.trans hi
      simp [hgone, Stage.seesGone]
    · split <;> simp [Stage.seesGone, hi', hgone]
  · intro _ i x hi hopen haccount hout hsees
    simp only [hstage, Stage.seesHost, reduceCtorEq, false_or, decide_eq_true_eq,
      mem_cons] at hsees
    obtain rfl | hi' := hsees
    · cases hlink.symm.trans hi
      simp [hout, Stage.seesHost]
    · split <;> simp [Stage.seesHost, hi']
  · intro _ j x hj hopen haccount k hk hout hsees
    simp only [hstage, Stage.seesDevice, reduceCtorEq, false_or, decide_eq_true_eq,
      mem_cons] at hsees
    split <;> (obtain rfl | hk' := hsees <;> simp [Stage.seesDevice, *])

include hc in
theorem watched_sweep (hstage : c.stage = .sweep devices link rest) : Watched w' := by
  simp only [World.go, hstage] at hs
  cases hs
  refine (h.mild (.closeAll w link)).onChannels hr (by simp [hstage])
    (by simp [hstage, Stage.seesGone]) (by simp [hstage, Stage.seesHost]) ?_
  intro hcoming j s hj hopen haccount k hk hout hsees
  simp only [hstage, Stage.seesDevice, Bool.or_eq_true, decide_eq_true_eq] at hsees
  obtain rfl | hk' := hsees
  · obtain ⟨hj, hoff⟩ := open_of_closeAll hj hopen hk
    have hon := (hc hcoming).2 link (by simp [hstage, Stage.looksAt]) s
      (mem_of_getElem? hj) hk hopen hout
    rw [hoff] at hon
    cases hon
  · simpa [Stage.seesDevice] using hk'

theorem watched_shut (hstage : c.stage = .shut devices link rest) : Watched w' := by
  simp only [World.go, hstage] at hs
  cases hs
  have hshut {i : Nat} {s : HostSocket} (hi : (w.shutLink link).hosts[i]? = some s)
      (hopen : s.isOpen = true) : link ≠ i := by
    rintro rfl
    simp only [World.shutLink, modify_eq_map, if_true] at hi
    obtain ⟨s₀, -, rfl⟩ := map_eq_some_iff.mp hi
    simp [HostSocket.isOpen] at hopen
  refine (h.mild (.shutLink w link)).putCheck hr ?_ ?_ ?_
  · intro _ i s hi hopen haccount hout hsees
    simpa [hstage, Stage.seesGone, hshut hi hopen] using hsees
  · intro _ i s hi hopen haccount hout hsees
    simpa [hstage, Stage.seesHost, hshut hi hopen] using hsees
  · intro _ j s hj hopen haccount k hk hout hsees
    simpa [hstage, Stage.seesDevice] using hsees

include hc in
theorem watched_passed (hstage : c.stage = .passed devices link rest) : Watched w' := by
  simp only [World.go, hstage] at hs
  cases hs
  refine h.onChannels hr (by simp [hstage]) (by simp [hstage, Stage.seesGone])
    (by simp [hstage, Stage.seesHost]) ?_
  intro hcoming j s hj hopen haccount k hk hout hsees
  simp only [hstage, Stage.seesDevice, Bool.or_eq_true, decide_eq_true_eq] at hsees ⊢
  refine hsees.imp ?_ id
  rintro rfl
  have hon := (hc hcoming).2 link (by simp [hstage, Stage.looksAt]) s
    (mem_of_getElem? hj) hk hopen hout
  exact mem_channels.mpr ⟨s, hj, hk, hon⟩

include hsound in
theorem watched_device (hstage : c.stage = .atDevice devices link (j :: joined) rest) :
    Watched w' := by
  simp only [World.go, hstage] at hs
  split at hs
  · rename_i l s hl hj
    cases hs
    refine h.onChannels hr (by simp [hstage]) ?_ ?_ ?_
    · intro i device hsees
      split <;> simpa [hstage, Stage.seesGone] using hsees
    · intro i hsees
      split <;> simpa [hstage, Stage.seesHost] using hsees
    · intro _ m x hm hopen haccount k hk hout hsees
      simp only [hstage, Stage.seesDevice, Bool.or_eq_true, decide_eq_true_eq, mem_cons] at hsees
      split
      · rename_i hin
        obtain (rfl | hm') | hk' := hsees
        · cases hj.symm.trans hm
          obtain ⟨s', hs', hlink⟩ := hsound.joined c (mem_of_getElem? hr) link (m :: joined)
            (by simp [hstage, Stage.joined]) m (mem_cons_self ..)
          cases hj.symm.trans hs'
          obtain ⟨l', hl', -, hhost⟩ := hsound.placed m s hj link (DeviceStage.at_of_link hlink)
          cases hl.symm.trans hl'
          rw [World.deviceInForce, haccount, ← hhost, hin] at hout
          cases hout
        · simp [Stage.seesDevice, hm']
        · simp [Stage.seesDevice, hk']
      · simp only [Stage.seesDevice, Bool.or_eq_true, decide_eq_true_eq]
        obtain (rfl | hm') | hk' := hsees
        · exact .inl (.inl rfl)
        · exact .inl (.inr hm')
        · exact .inr hk'
  · cases hs

include hsound hc in
theorem watched_closing (hstage : c.stage = .closing devices link j joined rest) :
    Watched w' := by
  simp only [World.go, hstage] at hs
  cases hs
  refine (h.mild (.closeChannel w j)).onChannels hr (by simp [hstage])
    (by simp [hstage, Stage.seesGone]) (by simp [hstage, Stage.seesHost]) ?_
  intro hcoming m s hm hopen haccount k hk hout hsees
  simp only [hstage, Stage.seesDevice, Bool.or_eq_true, decide_eq_true_eq] at hsees ⊢
  obtain (rfl | hm') | hk' := hsees
  · obtain ⟨hm, hoff⟩ := open_of_closeChannel hm hopen
    obtain ⟨s', hs', hlink⟩ := hsound.joined c (mem_of_getElem? hr) link (j :: joined)
      (by simp [hstage, Stage.joined]) j (mem_cons_self ..)
    cases hm.symm.trans hs'
    have hon := (hc hcoming).2 link (by simp [hstage, Stage.looksAt]) s
      (mem_of_getElem? hm) hlink hopen hout
    rw [hoff] at hon
    cases hon
  · exact .inl hm'
  · exact .inr hk'

end

theorem watched_go (hsound : Sound w) (h : Watched w) (hr : w.checks[r]? = some c)
    (hc : CheckFinds w c) (hs : w.go r c = some w') : Watched w' := by
  have hcareful (hcoming : w.coming c.account = false) :
      (c.stage = .started → w.Listed c.account) ∧ ∀ k ∈ c.stage.looksAt, w.OnChannels k := by
    obtain hc | hc := hc
    · rw [hcoming] at hc
      cases hc
    · exact hc
  cases hstage : c.stage with
  | started => exact watched_started hsound h hr hcareful hs hstage
  | listed links => exact watched_listed h hr hs hstage
  | atLink devices links =>
    cases links with
    | cons link rest => exact watched_link h hr hs hstage
    | nil =>
      simp only [World.go, hstage] at hs
      cases hs
      exact h.onChannels hr (by simp [hstage]) (by simp [hstage, Stage.seesGone])
        (by simp [hstage, Stage.seesHost]) (by simp [hstage, Stage.seesDevice])
  | sweep devices link rest => exact watched_sweep h hr hcareful hs hstage
  | shut devices link rest => exact watched_shut h hr hs hstage
  | passed devices link rest => exact watched_passed h hr hcareful hs hstage
  | atDevice devices link joined rest =>
    cases joined with
    | cons j joined => exact watched_device hsound h hr hs hstage
    | nil =>
      simp only [World.go, hstage] at hs
      cases hs
      exact h.onChannels hr (by simp [hstage]) (by simp [hstage, Stage.seesGone])
        (by simp [hstage, Stage.seesHost]) (by simp [hstage, Stage.seesDevice])
  | closing devices link j joined rest => exact watched_closing hsound h hr hcareful hs hstage
  | atEnd =>
    simp only [World.go, hstage] at hs
    cases hs

/-! ## Runs -/

theorem mild_nudge (hs : w.step (.nudge account) = some w') : Mild w w' := by
  simp only [World.step, ite_none_right_eq_some, Option.some.injEq] at hs
  obtain ⟨hmem, rfl⟩ := hs
  refine .of_same rfl rfl rfl (due_mono ?_ (fun _ hx => .inl (mem_cons_of_mem _ hx))
    fun _ => id) fun _ => .inl
  intro x hx
  by_cases hxa : x = account
  · exact .inr (by simp [hxa])
  · exact .inl ((List.mem_erase_of_ne hxa).mpr hx)

theorem mild_find {j : Nat} (hs : w.step (.find j) = some w') : Mild w w' := by
  simp only [World.step] at hs
  split at hs
  · rename_i s hsock
    rw [ite_none_right_eq_some, Option.some.injEq] at hs
    obtain ⟨hstage, rfl⟩ := hs
    refine .putDevice hsock ⟨rfl, rfl, rfl, rfl⟩ (by simp [hstage, DeviceStage.link]) ?_ ?_
      fun _ => id
    -- the link it found is its host's
    · intro k hk
      cases hcurrent : w.current s.account s.host with
      | none => simp [hcurrent, DeviceStage.at?] at hk
      | some link =>
        simp only [hcurrent, DeviceStage.at?, Option.some.injEq] at hk
        exact .inr (hk ▸ current_spec hcurrent)
    · intro _ k hk
      cases hcurrent : w.current s.account s.host <;> simp [hcurrent, DeviceStage.link] at hk
  · cases hs

theorem mild_insert {j : Nat} (hc : DeviceWatched w j) (hs : w.step (.insert j) = some w') :
    Mild w w' := by
  simp only [World.step] at hs
  split at hs
  · rename_i s hsock
    split at hs
    · rename_i link hstage
      cases hs
      refine .putDevice hsock ⟨rfl, rfl, rfl, rfl⟩ (by simp [hstage, DeviceStage.link]) ?_ ?_
        fun _ => id
      · intro k hk
        left
        simpa [hstage, DeviceStage.at?] using hk
      · intro _ k hk
        right
        obtain rfl : link = k := by simpa [DeviceStage.link] using hk
        exact hc s hsock link (by simp [hstage, DeviceStage.at?])
    · cases hs
  · cases hs

theorem mild_opens {j : Nat} {room : Bool} (hs : w.step (.opens j room) = some w') : Mild w w' := by
  simp only [World.step] at hs
  split at hs
  · rename_i s hsock
    split at hs
    · rename_i link hstage
      cases hs
      refine .putDevice hsock ⟨rfl, rfl, rfl, rfl⟩ ?_ ?_ ?_ fun _ => id
      · intro k hk
        simpa [hstage, DeviceStage.link] using hk
      · intro k hk
        left
        simpa [hstage, DeviceStage.at?] using hk
      · intro hopen k hk
        left
        obtain rfl : link = k := by simpa [DeviceStage.link] using hk
        refine ⟨?_, by simp [hstage, DeviceStage.link]⟩
        simp only [DeviceSocket.isOpen, Bool.and_eq_true, Bool.not_eq_true', Bool.or_eq_false_iff]
          at hopen ⊢
        exact ⟨⟨by simp [hstage, DeviceStage.link], hopen.1.2.1⟩, hopen.2⟩
    · cases hs
  · cases hs

theorem mild_drain (hs : w.step .drain = some w') : Mild w w' := by
  cases hs
  refine .of_same rfl rfl rfl (due_mono (fun _ => .inl) ?_ fun _ => mem_append_left _) ?_
  · intro x hx
    exact .inr (mem_append_right _ (mem_map_of_mem hx))
  · intro c hc
    obtain hc | hc := mem_append.mp hc
    · exact .inl hc
    · obtain ⟨x, -, rfl⟩ := mem_map.mp hc
      exact .inr rfl

theorem mild_heard (hs : w.step (.heard account) = some w') : Mild w w' := by
  cases hs
  refine .of_same rfl rfl rfl
    (due_mono (fun _ => .inl) (fun _ => .inl) fun _ => mem_append_left _) ?_
  intro c hc
  obtain hc | hc := mem_snoc.mp hc
  · exact .inl hc
  · exact .inr (by rw [hc])

theorem mild_step (hc : Careful w a) (hs : w.step a = some w')
    (hchange : ∀ account method, a ≠ .change account method) (hgo : ∀ r, a ≠ .go r) :
    Mild w w' := by
  have hkeep : ∀ x ∈ w.dirty, x ∈ w.dirty := fun _ => id
  cases a with
  | later ms | ask request =>
    cases hs
    exact .of_same rfl rfl rfl (fun _ _ => id) fun _ => .inl
  | change account method => exact absurd rfl (hchange account method)
  | nudge account => exact mild_nudge hs
  | readHost i | readGrants i | issue i =>
    simp only [World.step] at hs
    split at hs
    · cases hs
      exact .of_same rfl rfl rfl (fun _ _ => id) fun _ => .inl
    · cases hs
  | present t =>
    obtain ⟨p, -, rfl⟩ := map_eq_some_iff.mp hs
    exact .present w t p
  | nudgeHost i =>
    simp only [World.step] at hs
    split at hs
    · rename_i s hsock
      rw [ite_none_right_eq_some, Option.some.injEq] at hs
      obtain ⟨hstage, rfl⟩ := hs
      exact .putHost hsock ⟨rfl, rfl, rfl⟩ (by simp [HostSocket.isOpen])
        fun x hx => mem_cons_of_mem _ hx
    · cases hs
  | note i | refuseHost i | leaveHost i =>
    simp only [World.step] at hs
    split at hs
    · rename_i s hsock
      rw [ite_none_right_eq_some, Option.some.injEq] at hs
      obtain ⟨hstage, rfl⟩ := hs
      exact .putHost hsock ⟨rfl, rfl, rfl⟩ (by simp [HostSocket.isOpen]) hkeep
    · cases hs
  | attach i =>
    simp only [World.step] at hs
    split at hs
    · rename_i s hsock
      rw [ite_none_right_eq_some, Option.some.injEq] at hs
      obtain ⟨hstage, rfl⟩ := hs
      exact .attach hsock (hc s hsock)
    · cases hs
  | nudgeDevice j =>
    simp only [World.step] at hs
    split at hs
    · rename_i s hsock
      rw [ite_none_right_eq_some, Option.some.injEq] at hs
      obtain ⟨hstage, rfl⟩ := hs
      exact .putDevice hsock ⟨rfl, rfl, rfl, rfl⟩ (by simp [hstage, DeviceStage.link])
        (by simp [DeviceStage.at?]) (by simp [DeviceStage.link])
        fun x hx => mem_cons_of_mem _ hx
    · cases hs
  | find j => exact mild_find hs
  | insert j => exact mild_insert hc hs
  | opens j room => exact mild_opens hs
  | refuseDevice j =>
    simp only [World.step] at hs
    split at hs
    · rename_i s hsock
      split at hs
      · rename_i link hstage
        cases hs
        exact .putDevice hsock ⟨rfl, rfl, rfl, rfl⟩ (by simp [hstage, DeviceStage.link])
          (by simp [DeviceStage.at?]) (by simp [DeviceStage.link]) hkeep
      · cases hs
    · cases hs
  | sweepLink link =>
    cases hs
    exact .closeAll w link
  | closeLink link =>
    cases hs
    exact .shutLink w link
  | detach i =>
    simp only [World.step] at hs
    split at hs
    · rename_i s hsock
      rw [ite_none_right_eq_some, Option.some.injEq] at hs
      obtain ⟨hgone, rfl⟩ := hs
      exact .putHost hsock ⟨rfl, rfl, rfl⟩ id hkeep
    · cases hs
  | takeOff j =>
    simp only [World.step] at hs
    split at hs
    · rename_i s hsock
      rw [ite_none_right_eq_some, Option.some.injEq] at hs
      obtain ⟨hlink, rfl⟩ := hs
      exact .putDevice hsock ⟨rfl, rfl, rfl, rfl⟩ (fun _ => id) (fun _ => .inl)
        (fun hopen _ hk => .inl ⟨hopen, hk⟩) hkeep
    · cases hs
  | closeDevice j =>
    simp only [World.step] at hs
    split at hs
    · rename_i s hsock
      cases hs
      exact .putDevice hsock ⟨rfl, rfl, rfl, rfl⟩ (fun _ => id) (fun _ => .inl)
        (by simp [DeviceSocket.isOpen]) hkeep
    · cases hs
  | leaveDevice j =>
    simp only [World.step] at hs
    split at hs
    · rename_i s hsock
      rw [ite_none_right_eq_some, Option.some.injEq] at hs
      obtain ⟨hlink, rfl⟩ := hs
      exact .putDevice hsock ⟨rfl, rfl, rfl, rfl⟩ (fun _ => id) (fun _ => .inl)
        (by simp [DeviceSocket.isOpen]) hkeep
    · cases hs
  | drain => exact mild_drain hs
  | heard account => exact mild_heard hs
  | go r => exact absurd rfl (hgo r)

theorem keeps_step (h : Sound w ∧ Watched w) (hc : Careful w a) (hs : w.step a = some w') :
    Sound w' ∧ Watched w' := by
  obtain ⟨hsound, hwatched⟩ := h
  by_cases hchange : ∃ account method, a = .change account method
  · obtain ⟨account, method, rfl⟩ := hchange
    cases hs
    exact ⟨⟨hsound.placed, hsound.checks, hsound.joined⟩, hwatched.change hc⟩
  · by_cases hgo : ∃ r, a = .go r
    · obtain ⟨r, rfl⟩ := hgo
      simp only [World.step] at hs
      split at hs
      · rename_i c hr
        exact ⟨sound_go hsound hr hs, watched_go hsound hwatched hr (hc c hr) hs⟩
      · cases hs
    · have hm := mild_step hc hs (fun account method h => hchange ⟨account, method, h⟩)
        fun r h => hgo ⟨r, h⟩
      exact ⟨hsound.mild hm, hwatched.mild hm⟩

/-- **Revocation reaches every socket.** In a run that is careful at every step, whenever no join
    is under way and every nudge was handled, every open relay socket is in force. -/
theorem relay_in_force {as : List Action} (hm : Meets World.step Careful .new as)
    (hr : run World.step .new as = some w) (hs : w.Settled) : w.AllInForce := by
  have hinv : Sound w ∧ Watched w :=
    hm.invariant (fun _ _ _ hi hc hs => keeps_step hi hc hs) hr ⟨sound_new, watched_new⟩
  exact hinv.2.settled hs

theorem h1_ok : checkId "h1" = .ok () := by decide
theorem g1_ok : checkId "g1" = .ok () := by decide

def desk : DeviceId := ⟨"desk", by decide⟩
def phone : DeviceId := ⟨"phone", by decide⟩
def deskHost : HostId := ⟨"h1", h1_ok⟩
def phoneGrant : GrantId := ⟨"g1", g1_ok⟩

def connected : List Action :=
  [.change "a" (.addDevice desk), .change "a" (.addHost deskHost desk),
    .ask ⟨"a", desk, true, true, deskHost⟩, .readHost 0, .issue 0, .present 0, .nudgeHost 0, .note 0,
    .attach 0, .drain, .go 0, .go 0, .go 0, .go 0, .go 0, .go 0,
    .change "a" (.addDevice phone), .change "a" (.addGrant phoneGrant deskHost phone),
    .change "a" (.decide phoneGrant true), .nudge "a", .drain, .go 1, .go 1, .go 1, .go 1, .go 1,
    .go 1, .ask ⟨"a", phone, false, false, deskHost⟩, .readHost 1, .readGrants 1, .issue 1]

/-- The phone joins, and its grant is revoked: the check that follows closes its channel. -/
def revokedJoined : List Action :=
  [.present 0, .nudgeDevice 0, .find 0, .insert 0, .opens 0 true, .drain, .go 2, .go 2, .go 2, .go 2,
    .go 2, .go 2, .go 2, .change "a" (.revokeGrant phoneGrant), .nudge "a", .drain, .go 3, .go 3,
    .go 3, .go 3, .go 3, .go 3, .go 3, .go 3]

/-- Its grant is revoked before it presents its ticket. The check of the nudge it gives runs
    before it is on a channel. -/
def revokedFirst : List Action :=
  [.change "a" (.revokeGrant phoneGrant), .nudge "a", .drain, .go 2, .go 2, .go 2, .go 2, .go 2,
    .go 2, .present 0, .nudgeDevice 0, .drain, .go 3, .go 3, .go 3, .go 3, .go 3, .go 3, .find 0,
    .insert 0, .opens 0 true]

def settled (w : World) : Bool :=
  w.hosts.all (fun s => s.stage = .joined || s.stage = .refused) &&
    w.devices.all (fun s => s.stage = .refused || match s.stage with | .joined _ => true | _ => false) &&
    w.unsent = [] && w.dirty = [] && w.checks.all fun c => c.stage = .atEnd

theorem settled_of (h : settled w = true) : w.Settled := by
  simp only [settled, Bool.and_eq_true, all_eq_true, Bool.or_eq_true, decide_eq_true_eq] at h
  obtain ⟨⟨⟨⟨hhosts, hdevices⟩, hunsent⟩, hdirty⟩, hchecks⟩ := h
  refine ⟨hhosts, fun s hs => (hdevices s hs).imp id fun hjoined => ?_, hunsent, hdirty, hchecks⟩
  split at hjoined
  · exact ⟨_, ‹_›⟩
  · cases hjoined

theorem relay_in_force_revoked :
    ∃ w, run World.step .new (connected ++ revokedJoined) = some w ∧ w.AllInForce := by
  have hrun : (run World.step .new (connected ++ revokedJoined)).any settled = true := by
    decide +kernel
  obtain ⟨w, hw, hsettled⟩ := (any_eq_true _ _).mp hrun
  have hcareful : meets World.step (fun w a => decide (Careful w a)) .new
      (connected ++ revokedJoined) = true := by decide +kernel
  have hm : Meets World.step Careful .new (connected ++ revokedJoined) := by
    simpa only [decide_eq_true_eq] using meets_iff.mp hcareful
  exact ⟨w, hw, relay_in_force hm hw (settled_of hsettled)⟩

/-- A device joins with a ticket whose grant was revoked, and stays. -/
theorem revoked_joins : ∃ w, run World.step .new (connected ++ revokedFirst) = some w ∧
    w.Settled ∧ ¬ w.AllInForce := by
  have hrun : (run World.step .new (connected ++ revokedFirst)).any (fun w =>
      settled w && w.devices.any fun s => s.isOpen && !w.deviceInForce s) = true := by
    decide +kernel
  obtain ⟨w, hw, hboth⟩ := (any_eq_true _ _).mp hrun
  rw [Bool.and_eq_true, List.any_eq_true] at hboth
  obtain ⟨hsettled, s, hs, hout⟩ := hboth
  rw [Bool.and_eq_true, Bool.not_eq_true'] at hout
  refine ⟨w, hw, settled_of hsettled, fun hall => ?_⟩
  have := hall.2 s hs hout.1
  rw [hout.2] at this
  cases this

end Yardsort.Relay.Rechecks
