import Yardsort.Relay.Hub
import Yardsort.Relay.LinkRuns

/- Every order of the hub's sections: hosts attach, are replaced and detach, devices join
   and leave, and the relay shuts down.

   A device takes its host's link in one section and is opened on it in a later one, and a
   host attaches long after it was let in. `clear` says when neither leaves a socket
   behind, `HubInv` is what clear sections keep, and `sockets_consistent` is what it comes
   to once no one is in the middle of joining or detaching. -/
namespace Yardsort.Relay
open Yardsort.Lib Yardsort.Proto

/-- The device's socket is carried, and neither closed nor being closed. -/
def HostLink.Live (s : HostLink) (i : Nat) : Prop :=
  ∃ d, s.devices[i]? = some d ∧ d.place = .pumping ∧ d.out.closing = none ∧
    ∀ reason, s.hearing ≠ .removed i reason

def Place.joining : Place → Bool
  | .found | .numbered | .registered | .greeted => true
  | _ => false

def Stage.halfway : Stage → Bool
  | .sweeping _ | .replacing _ | .detached => true
  | _ => false

namespace Hub

/-- No join or detach is half done. -/
def Settled (h : Hub) : Prop :=
  h.shutdown.locks = false ∧ ∀ x ∈ h.sockets, x.stage.halfway = false ∧
    ∀ d ∈ x.link.devices, d.place.joining = false

structure Consistent (h : Hub) : Prop where
  /-- A device's socket that stays open is on the link that `hosts` holds for its host. -/
  served : h.Settled → ∀ (k : Nat) (x : HostSocket) (i : Nat), h.sockets[k]? = some x →
    x.link.Live i → h.hosts.lookup x.host = some k ∧
      ∃ d, x.link.devices[i]? = some d ∧ (d.channel, i) ∈ x.link.channels
  /-- After a shutdown, once every socket let in before it has joined, none stays open. -/
  closed : h.Settled → h.shutdown = .returned → h.callers = [] →
    (∀ x ∈ h.sockets, x.stage ≠ .waiting) → ∀ x ∈ h.sockets,
      (x.stage = .pumping → x.link.out.closing ≠ none) ∧ ∀ i, ¬ x.link.Live i

/-- The device is on the channels of a link whose devices were closed before it came, and
    its `Open` is queued all the same. -/
def stranded (x : HostSocket) (i : Nat) : Bool :=
  match x.link.devices[i]? with
  | some d =>
    x.swept && (d.channel, i) ∈ x.link.channels && d.out.closing = none &&
      !x.link.out.refuses (linkMessage (.opened d.channel { device := d.device, grant := d.grant }))
  | none => false

/-- **When a section leaves no socket behind.** No device is opened on a link that was
    taken from `hosts` and whose devices were closed already, no host attaches once a
    shutdown drained `hosts`, and a link gives no number twice (`fresh`). -/
def clear (h : Hub) : HubAct → Bool
  | .attach _ => !h.shutdown.drained
  | .link k a =>
    match h.sockets[k]? with
    | some x => x.link.fresh a && match a with
      | .openChannel i => !stranded x i
      | _ => true
    | none => true
  | _ => true

end Hub

variable {s s' : HostLink}

namespace HostLink

theorem live_channel (h : s.Roster) {i : Nat} (hl : s.Live i) :
    ∃ d, s.devices[i]? = some d ∧ (d.channel, i) ∈ s.channels := by
  obtain ⟨d, hd, hp, hc, hr⟩ := hl
  obtain hin | ⟨reason, hrem⟩ := h.stays i d hd (by rw [hp]; rfl) hc
  · exact ⟨d, hd, hin⟩
  · exact absurd hrem (hr reason)

theorem Live.of_local (hl : Local s s') {i : Nat} (h : s'.Live i) : s.Live i := by
  obtain ⟨d', hd', hp, hc, hr⟩ := h
  obtain ⟨d, hd, hlike⟩ := hl.back i d' hd'
  exact ⟨d, hd, hlike.pumped hp hc, hlike.closing hc, fun reason hrem =>
    hr reason (hl.removed i reason hrem)⟩

theorem Live.of_put {i j : Nat} {d₀ d₁ : DeviceLink} (h : s'.Live i) (hd₀ : s.devices[j]? = some d₀)
    (hdev : s'.devices = s.devices.set j d₁) (hh : s'.hearing = s.hearing)
    (hp₁ : d₁.place ≠ .pumping) : s.Live i := by
  obtain ⟨d, hd, hp, hc, hr⟩ := h
  rw [hdev] at hd
  obtain ⟨rfl, rfl⟩ | ⟨-, hd⟩ := get_set hd₀ hd
  · exact absurd hp hp₁
  · exact ⟨d, hd, hp, hc, hh ▸ hr⟩

theorem Live.of_eq {i : Nat} (h : s'.Live i) (hd : s'.devices = s.devices)
    (hh : s'.hearing = s.hearing) : s.Live i := by
  unfold Live at h ⊢
  rw [← hd, ← hh]
  exact h

theorem closeChannel_live (h : s.Roster) (c : Channel) (reason : CloseReason) {i : Nat}
    (hl : (s.closeChannel c reason).Live i) : s.Live i := by
  obtain ⟨-, heq⟩ | ⟨j, d, -, hd, -, heq⟩ := closeChannel_cases h c reason
  · rwa [heq] at hl
  · rw [heq] at hl
    exact (hl.of_eq (s := s.put j (d.close reason)) rfl rfl).of_local
      (Local.put hd (Like.close d reason))

theorem live_does {a : LinkAct} (h : s.Roster) (hd : Does s a s') {i : Nat} (hl : s'.Live i) :
    s.Live i ∨ ∃ d, a = .openChannel i ∧ s.devices[i]? = some d ∧ (d.channel, i) ∈ s.channels ∧
      d.out.closing = none ∧
      s.out.refuses (linkMessage (.opened d.channel { device := d.device, grant := d.grant })) =
        false := by
  cases hd with
  | stays hloc => exact .inl (hl.of_local hloc)
  | finds device grant =>
    obtain ⟨d, hget, hp, hc, hr⟩ := hl
    obtain hget | ⟨-, rfl⟩ := get_append hget
    · exact .inl ⟨d, hget, hp, hc, hr⟩
    · exact absurd hp nofun
  | numbers hd _ | registers hd _ => exact .inl (hl.of_put hd rfl rfl nofun)
  | @opens j d out ho hd hp hroom =>
    obtain ⟨d', hget, hp', hc, hr⟩ := hl
    obtain ⟨rfl, rfl⟩ | ⟨-, hget⟩ := get_set hd hget
    -- It was registered before, and the host has not closed its channel.
    · obtain hin | ⟨reason, hrem⟩ := h.stays i d hd (by rw [hp]; rfl) hc
      · exact .inr ⟨d, rfl, hd, hin, hc, hroom⟩
      · exact absurd hrem (hr reason)
    · exact .inl ⟨d', hget, hp', hc, hr⟩
  | texts _ _ _ | notices _ => exact .inl (hl.of_eq rfl rfl)
  | holds _ => exact .inl (closeChannel_live h _ _ hl)
  | @overflows c _ hhear =>
    obtain ⟨d, hget, hp, hc, -⟩ := hl
    refine .inl (closeChannel_live h c .overloaded ⟨d, hget, hp, hc, fun reason hrem => ?_⟩)
    rw [closeChannel_hearing, hhear] at hrem
    exact absurd hrem nofun
  | finishes hd hp _ =>
    obtain ⟨d', hd', -, -, heq⟩ := finish_cases h hd hp
    rw [heq] at hl
    exact .inl (closeChannel_live h _ _ (hl.of_put hd' rfl rfl nofun))
  | @tells c reason _ =>
    obtain ⟨-, out, -, hpush⟩ | ⟨-, hpush⟩ := s.pushFrame_cases (.closed c reason)
    · rw [hpush] at hl
      exact .inl (hl.of_eq rfl rfl)
    · rw [hpush] at hl
      exact .inl (hl.of_eq rfl rfl)
  | hostCloses hhear =>
    obtain ⟨d, hget, hp, hc, -⟩ := hl
    exact .inl ⟨d, hget, hp, hc, fun reason hrem => absurd (hhear.symm.trans hrem) nofun⟩
  | @closes j reason hhear =>
    obtain ⟨d, hget, hp, hc, -⟩ := hl
    have hget : (s.devices.modify j (·.close reason))[i]? = some d := hget
    rw [List.getElem?_modify] at hget
    obtain ⟨d₀, hd₀, rfl⟩ := map_eq_some_iff.mp hget
    by_cases hji : j = i
    · simp only [hji, if_true] at hc
      exact absurd hc (d₀.out.close_closing reason)
    · simp only [hji, if_false] at hp hc
      refine .inl ⟨d₀, hd₀, hp, hc, fun r hrem => ?_⟩
      exact hji (Hearing.removed.inj (hhear.symm.trans hrem)).1
  | closesAll reason =>
    exact .inl ((hl.of_eq (s := { s with devices := _ }) rfl rfl).of_local (closeAll_local s reason))

theorem closing_does {a : LinkAct} (h : s.Roster) (hd : Does s a s') (hc : s'.out.closing = none) :
    s.out.closing = none := by
  cases hd with
  | stays hloc => exact hloc.closing hc
  | finds _ _ | numbers _ _ | registers _ _ | hostCloses _ | closes _ | closesAll _ => exact hc
  | opens ho _ _ _ | texts ho _ _ | notices ho => exact ho.symm.trans hc
  | @holds c reason _ =>
    obtain ⟨-, heq⟩ | ⟨_, _, -, -, -, heq⟩ := closeChannel_cases h c reason
    · rwa [heq] at hc
    · rw [heq] at hc
      exact hc
  | @overflows c _ _ =>
    obtain ⟨-, heq⟩ | ⟨_, _, -, -, -, heq⟩ := closeChannel_cases h c .overloaded
    · rwa [heq] at hc
    · rw [heq] at hc
      exact hc
  | @finishes i d _ _ _ =>
    obtain ⟨-, heq⟩ | ⟨_, _, -, -, -, heq⟩ := closeChannel_cases h d.channel .gone
    · rwa [heq] at hc
    · rw [heq] at hc
      exact hc
  | @tells c reason _ =>
    obtain ⟨-, out, ho, hpush⟩ | ⟨-, hpush⟩ := s.pushFrame_cases (.closed c reason)
    · rw [hpush] at hc
      exact ho.symm.trans hc
    · rw [hpush] at hc
      exact hc

theorem devices_does {a : LinkAct} (h : s.Roster) (hd : Does s a s')
    (hfind : ∀ device grant, a ≠ .find device grant) (hnil : s.devices = []) : s'.devices = [] := by
  have hno {i : Nat} {d : DeviceLink} : s.devices[i]? ≠ some d := by
    rw [hnil]
    exact nofun
  have hclose (c : Channel) (reason : CloseReason) : (s.closeChannel c reason).devices = [] := by
    obtain ⟨-, heq⟩ | ⟨_, _, -, hd, -⟩ := closeChannel_cases h c reason
    · rw [heq]
      exact hnil
    · exact absurd hd hno
  cases hd with
  | stays hloc =>
    rw [eq_nil_iff_forall_not_mem]
    intro d' hd'
    obtain ⟨i, hi⟩ := mem_iff_getElem?.mp hd'
    obtain ⟨d, hd, -⟩ := hloc.back i d' hi
    exact hno hd
  | finds device grant => exact absurd rfl (hfind device grant)
  | numbers hd _ | registers hd _ | finishes hd _ _
  | opens _ hd _ _ | texts _ hd _ => exact absurd hd hno
  | notices _ | hostCloses _ => exact hnil
  | holds _ | overflows _ _ => exact hclose _ _
  | @tells c reason _ =>
    obtain ⟨-, out, -, hpush⟩ | ⟨-, hpush⟩ := s.pushFrame_cases (.closed c reason)
    · rw [hpush]
      exact hnil
    · rw [hpush]
      exact hnil
  | closes _ => simp only [hnil, List.modify_nil]
  | closesAll reason => simp only [hnil, List.mapIdx_nil]

theorem closeAll_not_live {reason : CloseReason} (h : s.Roster) (hs : s.closeAll reason = some s')
    (i : Nat) : ¬ s'.Live i := by
  unfold closeAll at hs
  split at hs
  · exact absurd hs nofun
  cases hs
  intro hl
  have hl := hl.of_eq (s := { s with devices := _ }) rfl rfl
  obtain ⟨d₀, hd₀, hin⟩ := live_channel h (hl.of_local (closeAll_local s reason))
  obtain ⟨d, hd, -, hc, -⟩ := hl
  exact closeAll_closes hd hin hc

theorem closeAll_does {reason : CloseReason} (hs : s.closeAll reason = some s') :
    Does s (.closeAll reason) s' := by
  unfold closeAll at hs
  split at hs
  · exact absurd hs nofun
  · cases hs
    exact .closesAll reason

end HostLink

variable {k : Nat} {h' : Hub}

namespace Hub

def ToSweep (h : Hub) (k : Nat) : Prop :=
  (∃ x ∈ h.sockets, x.stage = .sweeping k) ∨ k ∈ h.shutdown.toSweep

def ToClose (h : Hub) (k : Nat) : Prop :=
  (∃ x ∈ h.sockets, x.stage = .sweeping k ∨ x.stage = .replacing k) ∨ k ∈ h.shutdown.toClose

structure SocketInv (h : Hub) (k : Nat) (x : HostSocket) : Prop where
  roster : x.link.Roster
  alone : x.stage.attached = false → x.link.devices = []
  swept : x.swept = true → ∀ i, ¬ x.link.Live i
  sweeps : x.stage.attached = true →
    h.hosts.lookup x.host = some k ∨ x.swept = true ∨ x.stage = .detached ∨ h.ToSweep k
  closes : x.stage.carried = true →
    h.hosts.lookup x.host = some k ∨ x.link.out.closing ≠ none ∨ h.ToClose k

def Listed (h : Hub) (k : Nat) : Prop := ∃ x, h.sockets[k]? = some x ∧ x.stage.attached = true

structure HubInv (h : Hub) : Prop where
  socket : ∀ (k : Nat) (x : HostSocket), h.sockets[k]? = some x → SocketInv h k x
  listed : ∀ (host : HostId) (k : Nat), h.hosts.lookup host = some k → h.Listed k
  drained : h.shutdown.drained = true → h.hosts = ∅

theorem HubInv.start : new.HubInv where
  socket k x hx := by simp [new] at hx
  listed host k hin := absurd hin nofun
  drained _ := rfl

theorem ToSweep.toClose {h : Hub} (hs : h.ToSweep k) : h.ToClose k := by
  obtain ⟨x, hx, hst⟩ | hin := hs
  · exact .inl ⟨x, hx, .inl hst⟩
  · refine .inr ?_
    revert hin
    cases h.shutdown with
    | idle | flagged | returned => exact id
    | sweeping links => exact id
    | closing link links => exact mem_cons_of_mem _

theorem ToSweep.put {h : Hub} {j : Nat} {x x' : HostSocket} (hx : h.sockets[k]? = some x)
    (hst : x.stage = .sweeping j → x'.stage = .sweeping j) (ho : h.ToSweep j) :
    (h.put k x').ToSweep j :=
  ho.imp_left (exists_set hx hst)

theorem ToClose.put {h : Hub} {j : Nat} {x x' : HostSocket} (hx : h.sockets[k]? = some x)
    (hst : x.stage = .sweeping j ∨ x.stage = .replacing j →
        x'.stage = .sweeping j ∨ x'.stage = .replacing j) (ho : h.ToClose j) :
    (h.put k x').ToClose j :=
  ho.imp_left (exists_set hx hst)

theorem Listed.put {h : Hub} {j : Nat} {x x' : HostSocket} (hx : h.sockets[k]? = some x)
    (hat : x.stage.attached = true → x'.stage.attached = true) (hl : h.Listed j) :
    (h.put k x').Listed j := by
  obtain ⟨y, hy, ha⟩ := hl
  exact get_set_some hx hat hy ha

theorem SocketInv.mono {h : Hub} {x : HostSocket} (hi : SocketInv h k x)
    (hl : h.hosts.lookup x.host = some k → h'.hosts.lookup x.host = some k ∨ h'.ToSweep k)
    (hs : h.ToSweep k → x.swept = true ∨ h'.ToSweep k)
    (hc : h.ToClose k → x.link.out.closing ≠ none ∨ h'.ToClose k) : SocketInv h' k x where
  roster := hi.roster
  alone := hi.alone
  swept := hi.swept
  sweeps ha := by
    obtain hin | hsw | hdet | howed := hi.sweeps ha
    · obtain hin | howed := hl hin
      · exact .inl hin
      · exact .inr (.inr (.inr howed))
    · exact .inr (.inl hsw)
    · exact .inr (.inr (.inl hdet))
    · obtain hsw | howed := hs howed
      · exact .inr (.inl hsw)
      · exact .inr (.inr (.inr howed))
  closes ha := by
    obtain hin | hcl | howed := hi.closes ha
    · obtain hin | howed := hl hin
      · exact .inl hin
      · exact .inr (.inr howed.toClose)
    · exact .inr (.inl hcl)
    · obtain hcl | howed := hc howed
      · exact .inr (.inl hcl)
      · exact .inr (.inr howed)

theorem task_some {h : Hub} {next : HostSocket → Option Hub} (ht : h.task k next = some h') :
    ∃ x, h.sockets[k]? = some x ∧ next x = some h' := by
  unfold task at ht
  split at ht
  · rename_i x hx
    exact ⟨x, hx, ht⟩
  · exact absurd ht nofun

section
variable {h : Hub} (hi : h.HubInv)

include hi

theorem shutdown_inv {shutdown : Shutdown} {stopping : Bool} {callers : List Caller}
    (hd : shutdown.drained = true → h.hosts = ∅)
    (hs : ∀ (k : Nat) (x : HostSocket), h.sockets[k]? = some x → k ∈ h.shutdown.toSweep →
      x.swept = true ∨ k ∈ shutdown.toSweep)
    (hc : ∀ (k : Nat) (x : HostSocket), h.sockets[k]? = some x → k ∈ h.shutdown.toClose →
      x.link.out.closing ≠ none ∨ k ∈ shutdown.toClose) :
    ({ h with shutdown, stopping, callers } : Hub).HubInv := by
  refine ⟨fun k x hx => (hi.socket k x hx).mono .inl (fun ho => ?_) (fun ho => ?_), hi.listed, hd⟩
  · obtain hex | hin := ho
    · exact .inr (.inl hex)
    · exact (hs k x hx hin).imp_right .inr
  · obtain hex | hin := ho
    · exact .inr (.inl hex)
    · exact (hc k x hx hin).imp_right .inr

theorem relink_inv {x : HostSocket} {link : HostLink} {swept : Bool} (hx : h.sockets[k]? = some x)
    (hr : link.Roster) (ha : x.stage.attached = false → link.devices = [])
    (hs : swept = true → ∀ i, ¬ link.Live i) (hsw : x.swept = true → swept = true)
    (hc : link.out.closing = none → x.link.out.closing = none) :
    (h.put k { x with link, swept }).HubInv := by
  refine ⟨fun j y hy => ?_, fun host j hin => (hi.listed host j hin).put hx id, hi.drained⟩
  have hsweep (ho : h.ToSweep j) : (h.put k { x with link, swept }).ToSweep j := ho.put hx id
  have hclose (ho : h.ToClose j) : (h.put k { x with link, swept }).ToClose j := ho.put hx id
  obtain ⟨rfl, rfl⟩ | ⟨-, hy⟩ := get_set hx hy
  · have hxi := hi.socket j x hx
    refine ⟨hr, ha, hs, fun hat => ?_, fun hat => ?_⟩
    · obtain hin | hsw' | hdet | howed := hxi.sweeps hat
      · exact .inl hin
      · exact .inr (.inl (hsw hsw'))
      · exact .inr (.inr (.inl hdet))
      · exact .inr (.inr (.inr (hsweep howed)))
    · obtain hin | hcl | howed := hxi.closes hat
      · exact .inl hin
      · exact .inr (.inl fun hn => hcl (hc hn))
      · exact .inr (.inr (hclose howed))
  · exact (hi.socket j y hy).mono .inl (fun ho => .inr (hsweep ho)) fun ho => .inr (hclose ho)

theorem restage_inv {x : HostSocket} {stage : Stage} (hx : h.sockets[k]? = some x)
    (hat : stage.attached = x.stage.attached) (hca : stage.carried = true → x.stage.carried = true)
    (hdet : x.stage = .detached → x.swept = true)
    (hs : ∀ (j : Nat) (y : HostSocket), x.stage = .sweeping j → h.sockets[j]? = some y →
        y.swept = true)
    (hc : ∀ (j : Nat) (y : HostSocket), x.stage = .sweeping j ∨ x.stage = .replacing j →
        stage ≠ .replacing j → h.sockets[j]? = some y → y.link.out.closing ≠ none) :
    (h.put k { x with stage }).HubInv := by
  have hmono (j : Nat) (y : HostSocket) (hy : h.sockets[j]? = some y) :
      SocketInv (h.put k { x with stage }) j y := by
    refine (hi.socket j y hy).mono .inl (fun ho => ?_) (fun ho => ?_)
    · obtain ⟨z, hz, hst⟩ | hin := ho
      · obtain rfl | hz := mem_set_or hx hz
        · exact .inl (hs j y hst hy)
        · exact .inr (.inl ⟨z, hz, hst⟩)
      · exact .inr (.inr hin)
    · obtain ⟨z, hz, hst⟩ | hin := ho
      · obtain rfl | hz := mem_set_or hx hz
        · by_cases hrep : stage = .replacing j
          · exact .inr (.inl ⟨_, mem_set_self hx, .inr hrep⟩)
          · exact .inl (hc j y hst hrep hy)
        · exact .inr (.inl ⟨z, hz, hst⟩)
      · exact .inr (.inr hin)
  refine ⟨fun j y hy => ?_, fun host j hin => (hi.listed host j hin).put hx hat.trans, hi.drained⟩
  obtain ⟨rfl, rfl⟩ | ⟨-, hy⟩ := get_set hx hy
  · have hxi := hmono j x hx
    refine ⟨hxi.roster, fun ha => hxi.alone (hat ▸ ha), hxi.swept, fun ha => ?_, fun ha => ?_⟩
    · obtain hin | hsw | hd | howed := hxi.sweeps (hat ▸ ha)
      · exact .inl hin
      · exact .inr (.inl hsw)
      · exact .inr (.inl (hdet hd))
      · exact .inr (.inr (.inr howed))
    · exact hxi.closes (hca ha)
  · exact hmono j y hy

theorem closeDevices_inv {reason : CloseReason} (hc : h.closeDevices k reason = some h') :
    h'.HubInv ∧ (∀ y, h'.sockets[k]? = some y → y.swept = true) ∧
      (∀ (j : Nat) (x : HostSocket), h.sockets[j]? = some x →
        ∃ y, h'.sockets[j]? = some y ∧ y.stage = x.stage) ∧ h'.shutdown = h.shutdown := by
  obtain ⟨x, hx, hc⟩ := task_some hc
  obtain ⟨link, hl, rfl⟩ := map_eq_some_iff.mp hc
  have hxi := hi.socket k x hx
  have hdoes := HostLink.closeAll_does hl
  refine ⟨?_, fun y hy => ?_, fun j y hy => ?_, rfl⟩
  · refine relink_inv hi hx (hxi.roster.does rfl hdoes) (fun ha => ?_)
      (fun _ => HostLink.closeAll_not_live hxi.roster hl) (fun _ => rfl)
      (HostLink.closing_does hxi.roster hdoes)
    exact HostLink.devices_does hxi.roster hdoes nofun (hxi.alone ha)
  · obtain ⟨-, rfl⟩ | ⟨hne, -⟩ := get_set hx hy
    · rfl
    · exact absurd rfl hne
  · exact get_set_some hx id hy rfl

theorem closeSocket_inv {reason : CloseReason} (hc : h.closeSocket k reason = some h') :
    h'.HubInv ∧ (∀ y, h'.sockets[k]? = some y → y.link.out.closing ≠ none) ∧
      (∀ (j : Nat) (x : HostSocket), h.sockets[j]? = some x →
        ∃ y, h'.sockets[j]? = some y ∧ y.stage = x.stage) ∧ h'.shutdown = h.shutdown := by
  obtain ⟨x, hx, hc⟩ := task_some hc
  cases hc
  have hxi := hi.socket k x hx
  have hclosing := x.link.out.close_closing reason
  refine ⟨?_, fun y hy => ?_, fun j y hy => ?_, rfl⟩
  · refine relink_inv hi hx (hxi.roster.of_eq rfl rfl rfl) hxi.alone (fun hsw i hl => ?_) id
      fun hn => absurd hn hclosing
    exact hxi.swept hsw i (hl.of_eq rfl rfl)
  · obtain ⟨-, rfl⟩ | ⟨hne, -⟩ := get_set hx hy
    · exact hclosing
    · exact absurd rfl hne
  · exact get_set_some hx id hy rfl

/-! ### A host's task -/

theorem connect_inv {host : HostId} {hello : Message} (hs : h.connect host hello = some h') :
    h'.HubInv := by
  unfold connect at hs
  split at hs
  · exact absurd hs nofun
  cases hs
  refine ⟨fun k x hx => ?_, fun host k hin => ?_, hi.drained⟩
  · obtain hx | ⟨-, rfl⟩ := get_append hx
    · refine (hi.socket k x hx).mono .inl (fun ho => .inr (ho.imp_left ?_))
        fun ho => .inr (ho.imp_left ?_)
      · exact fun ⟨y, hy, hst⟩ => ⟨y, mem_append_left _ hy, hst⟩
      · exact fun ⟨y, hy, hst⟩ => ⟨y, mem_append_left _ hy, hst⟩
    · exact ⟨.start hello, fun _ => rfl, nofun, nofun, nofun⟩
  · obtain ⟨x, hx, hat⟩ := hi.listed host k hin
    exact ⟨x, get_append_left hx, hat⟩

theorem attach_inv (hnot : h.shutdown.drained = false) (hs : h.attach k = some h') : h'.HubInv := by
  obtain ⟨x, hx, hs⟩ := task_some hs
  split at hs
  · exact absurd hs nofun
  rename_i hstage
  have hstage : x.stage = .waiting := by
    by_contra hne
    exact hstage (.inl hne)
  have hnew : ∃ stage : Stage, stage.attached = true ∧
      (∀ j, h.hosts.lookup x.host = some j → stage = .sweeping j) ∧
      h' = { h.put k { x with stage } with hosts := h.hosts.insert x.host k } := by
    refine ⟨_, ?_, fun j hj => ?_, (Option.some.inj hs).symm⟩
    · split <;> rfl
    · rw [hj]
  obtain ⟨stage, hat, hnew, rfl⟩ := hnew
  refine ⟨fun j y hy => ?_, fun host j hin => ?_, fun hd => absurd (hnot.symm.trans hd) nofun⟩
  · obtain ⟨rfl, rfl⟩ | ⟨hjk, hy⟩ := get_set hx hy
    · have hxi := hi.socket j x hx
      refine ⟨hxi.roster, fun ha => absurd (hat.symm.trans ha) nofun, hxi.swept, fun _ => .inl ?_,
        fun _ => .inl ?_⟩
      · exact AList.lookup_insert _
      · exact AList.lookup_insert _
    · refine (hi.socket j y hy).mono (fun hin => ?_) (fun ho => .inr ?_) fun ho => .inr ?_
      · by_cases hhost : y.host = x.host
        -- The earlier link's devices and socket are this task's to close.
        · exact .inr (.inl ⟨_, mem_set_self hx, hnew j (hhost ▸ hin)⟩)
        · exact .inl ((AList.lookup_insert_ne hhost).trans hin)
      · exact ho.put hx (by rw [hstage]; exact nofun)
      · exact ho.put hx (by rw [hstage]; exact nofun)
  · by_cases hhost : host = x.host
    · subst hhost
      rw [AList.lookup_insert] at hin
      cases hin
      exact ⟨_, get_set_self hx, hat⟩
    · exact (hi.listed host j ((AList.lookup_insert_ne hhost).symm.trans hin)).put hx fun _ => hat

theorem sweep_inv (hs : h.sweep k = some h') : h'.HubInv := by
  obtain ⟨x, hx, hs⟩ := task_some hs
  split at hs
  · rename_i earlier hstage
    obtain ⟨h₁, hcl, hs⟩ := bind_eq_some_iff.mp hs
    obtain ⟨hi₁, hsw, hst, -⟩ := closeDevices_inv hi hcl
    obtain ⟨x₁, hx₁, hs⟩ := task_some hs
    cases hs
    obtain ⟨y, hy, hyst⟩ := hst k x hx
    cases hx₁.symm.trans hy
    have hstage : x₁.stage = .sweeping earlier := hyst.trans hstage
    refine restage_inv hi₁ hx₁ (by rw [hstage]; rfl) (by rw [hstage]; exact id)
      (by rw [hstage]; exact nofun) (fun j y hj hy => ?_) fun j y hj hne hy => ?_
    · cases hstage.symm.trans hj
      exact hsw y hy
    · obtain hj | hj := hj
      · cases hstage.symm.trans hj
        exact absurd rfl hne
      · exact absurd (hstage.symm.trans hj) nofun
  · exact absurd hs nofun

theorem replace_inv (hs : h.replace k = some h') : h'.HubInv := by
  obtain ⟨x, hx, hs⟩ := task_some hs
  split at hs
  · rename_i earlier hstage
    obtain ⟨h₁, hcl, hs⟩ := bind_eq_some_iff.mp hs
    obtain ⟨hi₁, hsw, hst, -⟩ := closeSocket_inv hi hcl
    obtain ⟨x₁, hx₁, hs⟩ := task_some hs
    cases hs
    obtain ⟨y, hy, hyst⟩ := hst k x hx
    cases hx₁.symm.trans hy
    have hstage : x₁.stage = .replacing earlier := hyst.trans hstage
    refine restage_inv hi₁ hx₁ (by rw [hstage]; rfl) (by rw [hstage]; exact id)
      (by rw [hstage]; exact nofun) (fun j y hj _ => ?_) fun j y hj _ hy => ?_
    · exact absurd (hstage.symm.trans hj) nofun
    · obtain hj | hj := hj
      · exact absurd (hstage.symm.trans hj) nofun
      · cases hstage.symm.trans hj
        exact hsw y hy
  · exact absurd hs nofun

theorem goTo_inv {x : HostSocket} {stage : Stage} (hx : h.sockets[k]? = some x)
    (hs : h.goTo k stage = some h') (hat : stage.attached = x.stage.attached)
    (hca : stage.carried = true → x.stage.carried = true)
    (hdet : x.stage = .detached → x.swept = true)
    (howes : ∀ j, x.stage ≠ .sweeping j ∧ x.stage ≠ .replacing j) : h'.HubInv := by
  obtain ⟨x₁, hx₁, hs⟩ := task_some hs
  cases hx.symm.trans hx₁
  cases hs
  refine restage_inv hi hx hat hca hdet (fun j _ hj _ => absurd hj (howes j).1) fun j _ hj _ _ => ?_
  obtain hj | hj := hj
  · exact absurd hj (howes j).1
  · exact absurd hj (howes j).2

theorem refuse_inv (hs : h.refuse k = some h') : h'.HubInv := by
  obtain ⟨x, hx, hs⟩ := task_some hs
  split at hs
  · rename_i hstage
    refine goTo_inv hi hx hs ?_ nofun ?_ fun j => ?_
    · rw [hstage]
      rfl
    · rw [hstage]
      exact nofun
    · rw [hstage]
      exact ⟨nofun, nofun⟩
  · exact absurd hs nofun

theorem leave_inv (hs : h.leave k = some h') : h'.HubInv := by
  obtain ⟨x, hx, hs⟩ := task_some hs
  split at hs
  · rename_i hstage
    refine goTo_inv hi hx hs ?_ nofun ?_ fun j => ?_
    · rw [hstage.1]
      rfl
    · rw [hstage.1]
      exact nofun
    · rw [hstage.1]
      exact ⟨nofun, nofun⟩
  · exact absurd hs nofun

theorem detach_inv (hs : h.detach k = some h') : h'.HubInv := by
  obtain ⟨x, hx, hs⟩ := task_some hs
  split at hs
  · exact absurd hs nofun
  rename_i hstage
  have hstage : x.stage = .left := by
    by_contra hne
    exact hstage (.inl hne)
  cases hs
  have hkept {host : HostId} {j : Nat}
      (hin : (if h.hosts.lookup x.host = some k then h.hosts.erase x.host else h.hosts).lookup
        host = some j) : h.hosts.lookup host = some j := by
    split at hin
    · by_cases hhost : host = x.host
      · rw [hhost, AList.lookup_erase] at hin
        exact absurd hin nofun
      · exact (AList.lookup_erase_ne hhost).symm.trans hin
    · exact hin
  refine ⟨fun j y hy => ?_, fun host j hin => (hi.listed host j (hkept hin)).put hx fun _ => rfl,
    fun hd => ?_⟩
  · obtain ⟨rfl, rfl⟩ | ⟨hjk, hy⟩ := get_set hx hy
    · have hxi := hi.socket j x hx
      exact ⟨hxi.roster, nofun, hxi.swept, fun _ => .inr (.inr (.inl rfl)), nofun⟩
    · refine (hi.socket j y hy).mono (fun hin => .inl ?_) (fun ho => .inr ?_) fun ho => .inr ?_
      -- Only this link is taken away.
      · show (if h.hosts.lookup x.host = some k then h.hosts.erase x.host else h.hosts).lookup
          y.host = some j
        split
        · rename_i hown
          rw [AList.lookup_erase_ne fun hhost => hjk ?_]
          · exact hin
          · rw [hhost, hown] at hin
            exact (Option.some.inj hin).symm
        · exact hin
      · exact ho.put hx (by rw [hstage]; exact nofun)
      · exact ho.put hx (by rw [hstage]; exact nofun)
  · show (if h.hosts.lookup x.host = some k then h.hosts.erase x.host else h.hosts) = ∅
    rw [hi.drained hd]
    rfl

theorem forget_inv (hs : h.forget k = some h') : h'.HubInv := by
  obtain ⟨x, hx, hs⟩ := task_some hs
  split at hs
  · rename_i hstage
    obtain ⟨h₁, hcl, hs⟩ := bind_eq_some_iff.mp hs
    obtain ⟨hi₁, hsw, hst, -⟩ := closeDevices_inv hi hcl
    obtain ⟨y, hy, hyst⟩ := hst k x hx
    have hstage : y.stage = .detached := hyst.trans hstage
    refine goTo_inv hi₁ hy hs ?_ nofun (fun _ => hsw y hy) fun j => ?_
    · rw [hstage]
      rfl
    · rw [hstage]
      exact ⟨nofun, nofun⟩
  · exact absurd hs nofun

theorem callers_inv {callers : List Caller} : ({ h with callers } : Hub).HubInv :=
  shutdown_inv hi hi.drained (fun _ _ _ => .inr) fun _ _ _ => .inr

theorem find_inv {n : Nat} (hs : h.find n = some h') : h'.HubInv := by
  unfold find at hs
  split at hs
  · exact absurd hs nofun
  rename_i c _
  split at hs
  · exact absurd hs nofun
  have hi' : ({ h with callers := h.callers.eraseIdx n } : Hub).HubInv := callers_inv hi
  simp only at hs
  split at hs
  · cases hs
    exact hi'
  · rename_i k hin
    obtain ⟨x, hx, hs⟩ := task_some hs
    cases hs
    have hxi := hi'.socket k x hx
    -- A link that `hosts` holds was attached.
    obtain ⟨y, hy, hat⟩ := hi'.listed c.host k hin
    cases hx.symm.trans hy
    refine relink_inv hi' hx (HostLink.find_roster hxi.roster _ _)
      (fun ha => absurd (hat.symm.trans ha) nofun) (fun hsw i hl => ?_) id id
    obtain hl | ⟨_, hop, -⟩ :=
      HostLink.live_does hxi.roster (.finds c.device c.grant) hl
    · exact hxi.swept hsw i hl
    · exact absurd hop nofun

theorem onLink_inv {a : LinkAct} (hc : h.clear (.link k a) = true) (hs : h.onLink k a = some h') :
    h'.HubInv := by
  obtain ⟨x, hx, hs⟩ := task_some hs
  have hxi := hi.socket k x hx
  have hstep : (∀ device grant, a ≠ .find device grant) ∧
      ∃ link, x.link.step a = some link ∧ h.put k { x with link } = h' := by
    split at hs
    · exact absurd hs nofun
    rename_i hfind
    split at hs
    · exact absurd hs nofun
    · exact ⟨hfind, map_eq_some_iff.mp hs⟩
  obtain ⟨hfind, link, hl, rfl⟩ := hstep
  have hdoes := HostLink.step_does hxi.roster hl
  simp only [clear, hx, Bool.and_eq_true] at hc
  refine relink_inv hi hx (hxi.roster.does hc.1 hdoes) ?_ ?_ id
    (HostLink.closing_does hxi.roster hdoes)
  · exact fun ha => HostLink.devices_does hxi.roster hdoes hfind (hxi.alone ha)
  · intro hsw i hlive
    obtain hlive | ⟨d, rfl, hd, hin, hcl, hroom⟩ := HostLink.live_does hxi.roster hdoes hlive
    · exact hxi.swept hsw i hlive
    -- This is the device that would be left behind.
    · simp only [stranded, hd, hsw, hin, hcl, hroom] at hc
      exact absurd hc.2 (by decide)

/-! ### Shutting down -/

theorem stop_inv (hs : h.stop = some h') : h'.HubInv := by
  unfold stop at hs
  split at hs
  · rename_i hidle
    cases hs
    refine shutdown_inv hi nofun (fun k x _ hin => ?_) fun k x _ hin => ?_
    · rw [hidle] at hin
      exact absurd hin not_mem_nil
    · rw [hidle] at hin
      exact absurd hin not_mem_nil
  · exact absurd hs nofun

theorem drain_inv {order : List Nat} (hs : h.drain order = some h') : h'.HubInv := by
  unfold drain at hs
  split at hs
  · rename_i hcond
    obtain ⟨hflag, hperm⟩ := hcond
    cases hs
    refine ⟨fun k x hx => (hi.socket k x hx).mono (fun hin => .inr (.inr ?_)) (fun ho => .inr ?_)
      fun ho => .inr ?_, fun host k hin => absurd hin nofun, fun _ => rfl⟩
    -- Every link that was in `hosts` is in the order.
    · have hmem := AList.mem_lookup_iff.mp hin
      exact hperm.mem_iff.mpr (mem_map.mpr ⟨_, hmem, rfl⟩)
    · refine ho.imp_right fun hin => ?_
      rw [hflag] at hin
      exact absurd hin not_mem_nil
    · refine ho.imp_right fun hin => ?_
      rw [hflag] at hin
      exact absurd hin not_mem_nil
  · exact absurd hs nofun

theorem wind_inv (hs : h.wind = some h') : h'.HubInv := by
  unfold wind at hs
  split at hs
  · rename_i hsh
    cases hs
    refine shutdown_inv hi (fun _ => hi.drained (by rw [hsh]; rfl)) (fun k x _ hin => ?_)
      fun k x _ hin => ?_
    · rw [hsh] at hin
      exact absurd hin not_mem_nil
    · rw [hsh] at hin
      exact absurd hin not_mem_nil
  · rename_i k rest hsh
    obtain ⟨h₁, hcl, rfl⟩ := map_eq_some_iff.mp hs
    obtain ⟨hi₁, hsw, -, hsame⟩ := closeDevices_inv hi hcl
    have hsh : h₁.shutdown = .sweeping (k :: rest) := hsame.trans hsh
    refine shutdown_inv hi₁ (fun _ => hi₁.drained (by rw [hsh]; rfl)) (fun j x hx hin => ?_)
      fun j x hx hin => .inr ?_
    · rw [hsh] at hin
      obtain rfl | hin := mem_cons.mp hin
      · exact .inl (hsw x hx)
      · exact .inr hin
    · rw [hsh] at hin
      exact hin
  · rename_i k rest hsh
    obtain ⟨h₁, hcl, rfl⟩ := map_eq_some_iff.mp hs
    obtain ⟨hi₁, hsw, -, hsame⟩ := closeSocket_inv hi hcl
    have hsh : h₁.shutdown = .closing k rest := hsame.trans hsh
    refine shutdown_inv hi₁ (fun _ => hi₁.drained (by rw [hsh]; rfl)) (fun j x hx hin => .inr ?_)
      fun j x hx hin => ?_
    · rw [hsh] at hin
      exact hin
    · rw [hsh] at hin
      obtain rfl | hin := mem_cons.mp hin
      · exact .inl (hsw x hx)
      · exact .inr hin
  · exact absurd hs nofun

end

theorem HubInv.step {h h' : Hub} {a : HubAct} (hi : h.HubInv) (hc : h.clear a = true)
    (hs : h.step a = some h') : h'.HubInv := by
  cases a with
  | connect host hello => exact connect_inv hi hs
  | refuse k => exact refuse_inv hi hs
  | attach k => exact attach_inv hi (by simpa [clear] using hc) hs
  | sweep k => exact sweep_inv hi hs
  | replace k => exact replace_inv hi hs
  | leave k => exact leave_inv hi hs
  | detach k => exact detach_inv hi hs
  | forget k => exact forget_inv hi hs
  | call c =>
    simp only [Hub.step, call] at hs
    split at hs
    · exact absurd hs nofun
    · cases hs
      exact callers_inv hi
  | turnAway n =>
    simp only [Hub.step, turnAway] at hs
    split at hs
    · cases hs
      exact callers_inv hi
    · exact absurd hs nofun
  | find n => exact find_inv hi hs
  | link k a => exact onLink_inv hi hc hs
  | stop => exact stop_inv hi hs
  | drain order => exact drain_inv hi hs
  | wind => exact wind_inv hi hs

theorem HubInv.consistent {h : Hub} (hi : h.HubInv) : h.Consistent := by
  -- Once everything settled, no close is still to come.
  have hdone (hst : h.Settled) : (∀ k, k ∉ h.shutdown.toSweep) ∧ ∀ k, k ∉ h.shutdown.toClose := by
    have hlocks := hst.1
    revert hlocks
    cases h.shutdown with
    | idle | flagged | returned => exact fun _ => ⟨fun k => not_mem_nil, fun k => not_mem_nil⟩
    | sweeping links => exact nofun
    | closing link links => exact nofun
  have hsweep (hst : h.Settled) (k : Nat) : ¬ h.ToSweep k := by
    rintro (⟨x, hx, hs⟩ | hin)
    · have := (hst.2 x hx).1
      rw [hs] at this
      exact absurd this nofun
    · exact (hdone hst).1 k hin
  have hclose (hst : h.Settled) (k : Nat) : ¬ h.ToClose k := by
    rintro (⟨x, hx, hs⟩ | hin)
    · have := (hst.2 x hx).1
      obtain hs | hs := hs
      · rw [hs] at this
        exact absurd this nofun
      · rw [hs] at this
        exact absurd this nofun
    · exact (hdone hst).2 k hin
  have hserved (hst : h.Settled) (k : Nat) (x : HostSocket) (i : Nat)
      (hx : h.sockets[k]? = some x) (hl : x.link.Live i) : h.hosts.lookup x.host = some k := by
    have hxi := hi.socket k x hx
    have hat : x.stage.attached = true := by
      cases ha : x.stage.attached with
      | true => rfl
      | false =>
        obtain ⟨d, hd, -⟩ := hl
        simp [hxi.alone ha] at hd
    obtain hin | hsw | hdet | ho := hxi.sweeps hat
    · exact hin
    · exact absurd hl (hxi.swept hsw i)
    · have := (hst.2 x (mem_of_getElem? hx)).1
      rw [hdet] at this
      exact absurd this nofun
    · exact absurd ho (hsweep hst k)
  refine ⟨fun hst k x i hx hl => ⟨hserved hst k x i hx hl, ?_⟩, fun hst hret _ hwait x hx => ?_⟩
  · exact HostLink.live_channel (hi.socket k x hx).roster hl
  · have hempty : h.hosts = ∅ := hi.drained (by rw [hret]; rfl)
    have hno (k : Nat) : h.hosts.lookup x.host ≠ some k := by
      rw [hempty, AList.lookup_empty]
      exact nofun
    obtain ⟨k, hk⟩ := mem_iff_getElem?.mp hx
    refine ⟨fun hp => ?_, fun i hl => hno k (hserved hst k x i hk hl)⟩
    obtain hin | hcl | ho := (hi.socket k x hk).closes (by rw [hp]; rfl)
    · exact absurd hin (hno k)
    · exact hcl
    · exact absurd ho (hclose hst k)

end Hub

/-- **No socket is left without its link, in every run of clear sections.** -/
theorem sockets_consistent {acts : List HubAct} {h : Hub}
    (hm : Meets Hub.step (fun h a => h.clear a = true) .new acts)
    (hr : run Hub.step .new acts = some h) : h.Consistent :=
  (hm.invariant (fun _ _ _ hi hc hs => Hub.HubInv.step hi hc hs) hr .start).consistent

def laptop : HostId := ⟨"laptop", by decide⟩

def joins (k i : Nat) : List HubAct :=
  [.link k (.number i), .link k (.register i), .link k (.greet i hello), .link k (.openChannel i)]

def arrives (k : Nat) : List HubAct :=
  ([.call ⟨laptop, caller, pass⟩, .find 0] : List HubAct) ++ joins k 0

/-- The phone joins the laptop's link, again when the laptop connects again, and the relay
    shuts down. -/
def reconnected : List HubAct :=
  ([.connect laptop hello, .attach 0] : List HubAct) ++ arrives 0 ++
    ([.connect laptop hello, .attach 1, .sweep 1, .replace 1, .leave 0, .detach 0, .forget 0,
      .link 0 (.leave 0), .link 0 (.finish 0)] : List HubAct) ++ arrives 1 ++
    ([.stop, .drain [1], .wind, .wind, .wind] : List HubAct)

/-- The phone takes the laptop's link, whose writer then fails, and joins it after. -/
def leftBehind : List HubAct :=
  ([.connect laptop hello, .attach 0, .call ⟨laptop, caller, pass⟩, .find 0, .leave 0, .detach 0,
    .forget 0] : List HubAct) ++ joins 0 0

def letInBefore : List HubAct :=
  [.connect laptop hello, .stop, .drain [], .wind, .attach 0]

def hubAfter (acts : List HubAct) : Hub := (run Hub.step .new acts).getD .new

theorem run_hubAfter {acts : List HubAct} (h : (run Hub.step .new acts).isSome = true) :
    run Hub.step .new acts = some (hubAfter acts) := by
  obtain ⟨s, hs⟩ := isSome_iff_exists.mp h
  rw [hubAfter, hs, getD_some]

instance (h : Hub) : Decidable h.Settled := by
  unfold Hub.Settled
  infer_instance

theorem reconnected_consistent :
    ∃ h, run Hub.step .new reconnected = some h ∧ h.shutdown = .returned ∧ h.Settled ∧
      h.sockets.length = 2 ∧ h.Consistent := by
  have hrun := @run_hubAfter reconnected (by decide +kernel)
  have hclear : meets Hub.step Hub.clear .new reconnected = true := by decide +kernel
  exact ⟨_, hrun, by decide +kernel, by decide +kernel, by decide +kernel,
    sockets_consistent (meets_iff.mp hclear) hrun⟩

theorem left_behind_and_let_in_before :
    (∃ h, run Hub.step .new leftBehind = some h ∧ ¬ h.Consistent) ∧
    (∃ h, run Hub.step .new letInBefore = some h ∧ ¬ h.Consistent) := by
  refine ⟨⟨_, run_hubAfter (by decide +kernel), fun h => ?_⟩,
    ⟨_, run_hubAfter (by decide +kernel), fun h => ?_⟩⟩
  · have hphone : (hubAfter leftBehind).sockets[0]?.map (fun (x : HostSocket) =>
        (x.link.hearing, x.link.devices[0]?.map fun (d : DeviceLink) => (d.place, d.out.closing))) =
        some (Hearing.idle, some (Place.pumping, none)) := by decide +kernel
    obtain ⟨x, hx, hphone⟩ := map_eq_some_iff.mp hphone
    obtain ⟨hidle, hd⟩ := Prod.mk.inj hphone
    obtain ⟨d, hd, hopen⟩ := map_eq_some_iff.mp hd
    obtain ⟨hp, hc⟩ := Prod.mk.inj hopen
    have hlive : x.link.Live 0 := ⟨d, hd, hp, hc, fun r hr => absurd (hidle.symm.trans hr) nofun⟩
    -- It is carried, and `hosts` holds nothing.
    have hhosts : (hubAfter leftBehind).hosts.entries = [] := by decide +kernel
    have hin := AList.mem_lookup_iff.mp (h.served (by decide +kernel) 0 x 0 hx hlive).1
    rw [hhosts] at hin
    exact absurd hin not_mem_nil
  · have hopen : ∃ x ∈ (hubAfter letInBefore).sockets,
        x.stage = .pumping ∧ x.link.out.closing = none := by decide +kernel
    obtain ⟨x, hx, hp, hc⟩ := hopen
    exact (h.closed (by decide +kernel) (by decide +kernel) (by decide +kernel) (by decide +kernel) x
      hx).1 hp hc

end Yardsort.Relay
