import Yardsort.Lib.Run
import Yardsort.Relay.Roster

/- One link's sections in every order: what its host is told of each channel, and who
   gets what the host sends.

   A channel can be closed before its `Open` was queued, a device's reader goes on after
   its channel was closed, and a frame that does not fit is not queued. `clear` says when
   none of these happens, `LinkInv` is what clear sections keep, and `channels_orderly`
   reads off it what a host can rely on. -/
namespace Yardsort.Relay
open Yardsort.Lib Yardsort.Proto

/-- Open, then texts, then at most one close. -/
def InOrder (c : Channel) (frames : List LinkFrame) : Prop :=
  frames = [] ∨ ∃ what texts ends,
    frames = LinkFrame.opened c what :: (List.map (LinkFrame.text c) texts ++ ends) ∧
    (ends = [] ∨ ∃ reason, ends = [LinkFrame.closed c reason])

variable {d : DeviceLink}

namespace HostLink

def frames (s : HostLink) (c : Channel) : List LinkFrame := s.queued.filter (·.channel = c)

structure Orderly (s : HostLink) : Prop where
  inOrder : ∀ c, c ≠ NOTICE_CHANNEL → InOrder c (s.frames c)
  /-- While the link stays open: a device that is gone, and whose channel the host has not
      closed itself, was taken off the host's hands. -/
  told : s.out.closing = none → s.ending = false → s.holding = none → ∀ d ∈ s.devices,
    d.opened = true → d.place = .gone → d.channel ∉ s.byHost →
    ∃ reason, .closed d.channel reason ∈ s.queued
  /-- What a device was sent was sent on its channel, which is no other device's. -/
  own : ∀ (i : Nat) (d : DeviceLink), s.devices[i]? = some d → ∀ p ∈ d.heard,
    d.channel = p.1 ∧ ∀ (j : Nat) (e : DeviceLink), s.devices[j]? = some e → e.channel = p.1 → j = i

/-- **When a section keeps this.** A number is not given twice (`fresh`); a device hands over
    a text only while its channel is open at the host, or it is not queued; and the host is
    told of a channel's end once it was told of the channel, unless its socket is closing. -/
def clear (s : HostLink) (a : LinkAct) : Bool :=
  s.fresh a &&
    match a with
    | .say i (.text text) =>
      match s.devices[i]? with
      | some d =>
        s.out.refuses (linkMessage (.text d.channel (utf8 text))) ||
          d.opened && d.channel ∉ s.dropped
      | none => true
    | .tell =>
      match s.holding with
      | some (c, reason) =>
        s.out.closing.isSome ||
          s.devices.any (fun d => d.channel = c && d.opened) &&
            !s.out.refuses (linkMessage (.closed c reason))
      | none => true
    | _ => true

def Opened (c : Channel) (frames : List LinkFrame) : Prop :=
  ∃ what texts, frames = LinkFrame.opened c what :: List.map (LinkFrame.text c) texts

/-- It was, and the host was told of its end. -/
def Shut (c : Channel) (frames : List LinkFrame) : Prop :=
  ∃ what texts reason, frames =
    LinkFrame.opened c what :: (List.map (LinkFrame.text c) texts ++ [LinkFrame.closed c reason])

theorem Opened.inOrder {c : Channel} {frames : List LinkFrame} (h : Opened c frames) :
    InOrder c frames := by
  obtain ⟨what, texts, rfl⟩ := h
  exact .inr ⟨what, texts, [], by rw [append_nil], .inl rfl⟩

theorem Shut.inOrder {c : Channel} {frames : List LinkFrame} (h : Shut c frames) :
    InOrder c frames := by
  obtain ⟨what, texts, reason, rfl⟩ := h
  exact .inr ⟨what, texts, _, rfl, .inr ⟨reason, rfl⟩⟩

theorem Opened.text {c : Channel} {frames : List LinkFrame} (h : Opened c frames) (bytes : Bytes) :
    Opened c (frames ++ [LinkFrame.text c bytes]) := by
  obtain ⟨what, texts, rfl⟩ := h
  exact ⟨what, texts ++ [bytes], by rw [map_append]; rfl⟩

theorem Opened.shut {c : Channel} {frames : List LinkFrame} (h : Opened c frames)
    (reason : CloseReason) : Shut c (frames ++ [LinkFrame.closed c reason]) := by
  obtain ⟨what, texts, rfl⟩ := h
  exact ⟨what, texts, reason, rfl⟩

/-- While the link stays open and the host has not closed the channel itself: the device is
    on it, or is being taken off, or the host was told. -/
def Told (s : HostLink) (c : Channel) (i : Nat) : Prop :=
  s.out.closing = none → s.ending = false → c ∉ s.byHost →
    (c, i) ∈ s.channels ∨ (∃ reason, s.holding = some (c, reason)) ∨
      ∃ reason, .closed c reason ∈ s.queued

structure DeviceInv (s : HostLink) (i : Nat) (d : DeviceLink) : Prop where
  carried : d.opened = true → d.place.carried = true
  order : d.opened = true → Opened d.channel (s.frames d.channel) ∨
    (Shut d.channel (s.frames d.channel) ∧ d.channel ∈ s.dropped)
  told : d.place.joined = true ∨ d.opened = true → s.Told d.channel i

def Taken (s : HostLink) (c : Channel) : Prop := c ∈ s.dropped ∨ ∃ reason, s.holding = some (c, reason)

structure LinkInv (s : HostLink) : Prop where
  roster : s.Roster
  device : ∀ (i : Nat) (d : DeviceLink), s.devices[i]? = some d → DeviceInv s i d
  known : ∀ f ∈ s.queued, f.channel ≠ NOTICE_CHANNEL →
    ∃ d ∈ s.devices, d.channel = f.channel ∧ d.opened = true
  taken : ∀ c, s.Taken c → (∀ i, (c, i) ∉ s.channels) ∧
    ∃ d ∈ s.devices, d.channel = c ∧ d.place.past = true
  held : ∀ c reason, s.holding = some (c, reason) → c ∉ s.dropped

theorem LinkInv.start (hello : Message) : (HostLink.new hello).LinkInv where
  roster := .start hello
  device i d h := by simp [HostLink.new] at h
  known f h := absurd h not_mem_nil
  taken c h := by
    obtain h | ⟨reason, h⟩ := h
    · exact absurd h not_mem_nil
    · exact absurd h nofun
  held c reason h := absurd h nofun

theorem DeviceInv.mono {s s' : HostLink} {i : Nat} (h : DeviceInv s i d)
    (hf : s'.frames d.channel = s.frames d.channel)
    (hd : d.channel ∈ s.dropped → d.channel ∈ s'.dropped)
    (ht : s.Told d.channel i → s'.Told d.channel i) : DeviceInv s' i d where
  carried := h.carried
  order ho := by
    rw [hf]
    obtain hop | ⟨hsh, hdr⟩ := h.order ho
    · exact .inl hop
    · exact .inr ⟨hsh, hd hdr⟩
  told ho := ht (h.told ho)

theorem frames_append {s s' : HostLink} {f : LinkFrame} (h : s'.queued = s.queued ++ [f])
    (c : Channel) :
    s'.frames c = if f.channel = c then s.frames c ++ [f] else s.frames c := by
  have hone : List.filter (·.channel = c) [f] = if f.channel = c then [f] else [] := by
    simp only [filter_cons, filter_nil, decide_eq_true_eq]
  rw [frames, h, filter_append, hone, frames]
  split
  · rfl
  · rw [append_nil]

theorem Told.append {s s' : HostLink} {c : Channel} {i : Nat} (h : s.Told c i)
    (hq : ∃ fs, s'.queued = s.queued ++ fs) (hb : s'.byHost = s.byHost)
    (hc : s'.channels = s.channels) (hh : s'.holding = s.holding) (he : s'.ending = s.ending)
    (ho : s'.out.closing = s.out.closing) : s'.Told c i := by
  unfold Told
  obtain ⟨fs, hq⟩ := hq
  rw [hb, hc, hh, he, ho]
  intro h₁ h₂ h₃
  obtain hin | hhold | ⟨reason, hmem⟩ := h h₁ h₂ h₃
  · exact .inl hin
  · exact .inr (.inl hhold)
  · exact .inr (.inr ⟨reason, hq ▸ mem_append_left _ hmem⟩)

section
variable {s : HostLink} (h : s.LinkInv)

include h

theorem opened_numbered {i : Nat} (hd : s.devices[i]? = some d) (ho : d.opened = true) :
    d.channel ≠ NOTICE_CHANNEL := by
  intro h0
  have hc := (h.device i d hd).carried ho
  rw [(h.roster.numbered i d hd).mp h0] at hc
  exact absurd hc nofun

theorem not_opened {i : Nat} (hd : s.devices[i]? = some d) (hp : d.place.carried = false) :
    d.opened = false := by
  cases ho : d.opened with
  | false => rfl
  | true =>
    have hc := (h.device i d hd).carried ho
    rw [hp] at hc
    exact absurd hc nofun

theorem frames_nil {c : Channel} (hc : c ≠ NOTICE_CHANNEL)
    (hno : ∀ d ∈ s.devices, d.channel = c → d.opened = false) : s.frames c = [] := by
  rw [frames, filter_eq_nil_iff]
  intro f hf hfc
  have hfc : f.channel = c := of_decide_eq_true hfc
  obtain ⟨d, hd, hch, ho⟩ := h.known f hf (hfc ▸ hc)
  rw [hno d hd (hch.trans hfc)] at ho
  exact absurd ho nofun

theorem append_inv {f : LinkFrame} {out : Outbox} (ho : out.closing = s.out.closing)
    (hk : f.channel ≠ NOTICE_CHANNEL → ∃ d ∈ s.devices, d.channel = f.channel ∧ d.opened = true)
    (hord : ∀ (i : Nat) (d : DeviceLink), s.devices[i]? = some d → d.opened = true →
      f.channel = d.channel → Opened d.channel (s.frames d.channel ++ [f])) :
    ({ s with out, queued := s.queued ++ [f] } : HostLink).LinkInv := by
  refine ⟨h.roster.of_eq rfl rfl rfl, ?_, ?_, h.taken, h.held⟩
  · intro i d hd
    have hi := h.device i d hd
    refine ⟨hi.carried, fun hop => ?_, fun hj => ?_⟩
    · rw [frames_append (s := s) (f := f) rfl]
      split
      · rename_i hc
        exact .inl (hord i d hd hop hc)
      · exact hi.order hop
    · exact (hi.told hj).append ⟨[f], rfl⟩ rfl rfl rfl rfl ho
  · intro g hg hc
    obtain hg | rfl := mem_snoc.mp hg
    · exact h.known g hg hc
    · exact hk hc

theorem text_inv {i : Nat} {out : Outbox} {bytes : Bytes} (ho : out.closing = s.out.closing)
    (hd : s.devices[i]? = some d) (hop : d.opened = true) (hdr : d.channel ∉ s.dropped) :
    ({ s with out, queued := s.queued ++ [.text d.channel bytes] } : HostLink).LinkInv := by
  refine append_inv h ho (fun _ => ⟨d, mem_of_getElem? hd, rfl, hop⟩) ?_
  intro j e he hop' hc
  have hne : e.channel ≠ NOTICE_CHANNEL := opened_numbered h he hop'
  obtain rfl := h.roster.unique j i e d he hd hc.symm hne
  cases hd.symm.trans he
  obtain hopen | ⟨-, hin⟩ := (h.device j d hd).order hop
  · exact hopen.text bytes
  · exact absurd hin hdr

theorem notice_inv {out : Outbox} {bytes : Bytes} (ho : out.closing = s.out.closing) :
    ({ s with out, queued := s.queued ++ [.text NOTICE_CHANNEL bytes] } : HostLink).LinkInv := by
  refine append_inv h ho (fun hne => absurd rfl hne) ?_
  intro j e he hop hc
  exact absurd hc.symm (opened_numbered h he hop)

theorem open_inv {i : Nat} {out : Outbox} {what : ChannelOpen} (ho : out.closing = s.out.closing)
    (hd : s.devices[i]? = some d) (hp : d.place = .greeted) :
    ({ s with out, queued := s.queued ++ [LinkFrame.opened d.channel what] }.put i
      { d with place := .pumping, opened := true }).LinkInv := by
  have hdi := h.device i d hd
  have hj : d.place.joined = true := by rw [hp]; rfl
  have h0 := joined_numbered h.roster hd hj
  have hnot : d.opened = false := not_opened h hd (by rw [hp]; rfl)
  have hnil : s.frames d.channel = [] := by
    refine frames_nil h h0 fun e he hch => ?_
    obtain ⟨j, hj⟩ := mem_iff_getElem?.mp he
    obtain rfl := h.roster.unique i j d e hd hj hch.symm h0
    cases hd.symm.trans hj
    exact hnot
  refine ⟨(opens_roster h.roster hd hp).of_eq rfl rfl rfl, ?_, ?_, ?_, h.held⟩
  · intro j e he
    obtain ⟨rfl, rfl⟩ | ⟨hji, he⟩ := get_set hd he
    · refine ⟨fun _ => rfl, fun _ => .inl ?_, fun _ => ?_⟩
      · rw [frames_append (s := s) (f := LinkFrame.opened d.channel what) rfl]
        exact ⟨what, [], by simp [LinkFrame.channel, hnil]⟩
      · exact (hdi.told (.inl hj)).append ⟨[LinkFrame.opened d.channel what], rfl⟩ rfl rfl rfl rfl ho
    · have hi := h.device j e he
      refine ⟨hi.carried, fun hop => ?_, fun hj => ?_⟩
      · rw [frames_append (s := s) (f := LinkFrame.opened d.channel what) rfl, if_neg]
        · exact hi.order hop
        · intro hc
          exact hji (h.roster.unique i j d e hd he hc h0).symm
      · exact (hi.told hj).append ⟨[LinkFrame.opened d.channel what], rfl⟩ rfl rfl rfl rfl ho
  · intro g hg hc
    obtain hg | rfl := mem_snoc.mp hg
    · exact exists_set hd (fun hx => ⟨hx.1, rfl⟩) (h.known g hg hc)
    · exact ⟨_, mem_set_self hd, rfl, rfl⟩
  · intro c ht
    obtain ⟨hno, hex⟩ := h.taken c ht
    exact ⟨hno, exists_set hd (fun hx => ⟨hx.1, rfl⟩) hex⟩

theorem tell_inv {c : Channel} {reason : CloseReason} (hhold : s.holding = some (c, reason))
    (hclear : s.out.closing ≠ none ∨ (∃ d ∈ s.devices, d.channel = c ∧ d.opened = true) ∧
      s.out.refuses (linkMessage (.closed c reason)) = false) :
    ({ (s.pushFrame (.closed c reason)).2 with
      holding := none, dropped := (s.pushFrame (.closed c reason)).2.dropped ++ [c] }).LinkInv := by
  have htaken (c' : Channel) (ht : c' ∈ s.dropped ++ [c] ∨
      ∃ r, (none : Option (Channel × CloseReason)) = some (c', r)) : s.Taken c' := by
    obtain ht | ⟨r, ht⟩ := ht
    · obtain ht | ht := mem_snoc.mp ht
      · exact .inl ht
      · exact .inr ⟨reason, ht ▸ hhold⟩
    · exact absurd ht nofun
  obtain ⟨hroom, out, ho, hpush⟩ | ⟨hfull, hpush⟩ := s.pushFrame_cases (.closed c reason)
  · rw [hpush]
    refine ⟨h.roster.of_eq rfl rfl rfl, ?_, ?_, fun c' ht => h.taken c' (htaken c' ht), nofun⟩
    · intro i d hd
      have hi := h.device i d hd
      refine ⟨hi.carried, fun hop => ?_, fun hj h₁ h₂ h₃ => ?_⟩
      · rw [frames_append (s := s) (f := .closed c reason) rfl]
        split
        · rename_i hc
          -- The channel was held, so it was not closed before.
          have hc : c = d.channel := hc
          obtain hopen | ⟨-, hin⟩ := hi.order hop
          · exact .inr ⟨hc ▸ hopen.shut reason, mem_append_right _ (by simp [hc])⟩
          · exact absurd (hc ▸ hin) (h.held c reason hhold)
        · obtain hopen | ⟨hshut, hin⟩ := hi.order hop
          · exact .inl hopen
          · exact .inr ⟨hshut, mem_append_left _ hin⟩
      · obtain hin | ⟨r, hr⟩ | ⟨r, hr⟩ := hi.told hj (ho ▸ h₁) h₂ h₃
        · exact .inl hin
        · cases hhold.symm.trans hr
          exact .inr (.inr ⟨reason, mem_append_right _ (mem_singleton.mpr rfl)⟩)
        · exact .inr (.inr ⟨r, mem_append_left _ hr⟩)
    · intro g hg hc
      obtain hg | rfl := mem_snoc.mp hg
      · exact h.known g hg hc
      · obtain hclosing | ⟨hex, -⟩ := hclear
        -- A closing socket takes nothing.
        · obtain ⟨r, hr⟩ := Option.ne_none_iff_exists'.mp hclosing
          simp [Outbox.refuses, hr] at hroom
        · exact hex
  · rw [hpush]
    have hclosing : s.out.closing ≠ none := by
      obtain hclosing | ⟨-, hroom⟩ := hclear
      · exact hclosing
      · exact absurd (hfull.symm.trans hroom) nofun
    refine ⟨h.roster.of_eq rfl rfl rfl, ?_, h.known, fun c' ht => h.taken c' (htaken c' ht), nofun⟩
    intro i d hd
    exact (h.device i d hd).mono rfl (mem_append_left _) fun _ hc => absurd hc hclosing

/-! ### Devices join and leave -/

theorem LinkInv.of_local {s' : HostLink} (hl : Local s s') : s'.LinkInv where
  roster := h.roster.of_local hl
  device i d' hd' := by
    obtain ⟨d, hd, hlike⟩ := hl.back i d' hd'
    have hi := h.device i d hd
    have hframes : s'.frames d'.channel = s.frames d.channel := by
      rw [frames, frames, hl.queued, hlike.channel]
    refine ⟨?_, ?_, ?_⟩
    · rw [hlike.opened]
      exact fun ho => hlike.carried (hi.carried ho)
    · rw [hlike.opened, hframes, hlike.channel, hl.dropped]
      exact hi.order
    · rw [hlike.joined, hlike.opened, hlike.channel, Told, hl.ending, hl.byHost, hl.channels,
        hl.holding, hl.queued]
      exact fun ho hc => hi.told ho (hl.closing hc)
  known f hf hc := by
    rw [hl.queued] at hf
    obtain ⟨d, hd, hch, ho⟩ := h.known f hf hc
    obtain ⟨i, hi⟩ := mem_iff_getElem?.mp hd
    obtain ⟨d', hd', hlike⟩ := hl.forth i d hi
    exact ⟨d', mem_of_getElem? hd', hlike.channel.trans hch, hlike.opened.trans ho⟩
  taken c ht := by
    rw [Taken, hl.dropped, hl.holding] at ht
    obtain ⟨hno, d, hd, hch, hp⟩ := h.taken c ht
    obtain ⟨i, hi⟩ := mem_iff_getElem?.mp hd
    obtain ⟨d', hd', hlike⟩ := hl.forth i d hi
    exact ⟨hl.channels ▸ hno, d', mem_of_getElem? hd', hlike.channel.trans hch,
      hlike.past hp⟩
  held := by
    rw [hl.holding, hl.dropped]
    exact h.held

theorem find_inv (device : DeviceId) (grant : GrantId) : (s.find device grant).LinkInv where
  roster := find_roster h.roster device grant
  device i d hd := by
    obtain hd | ⟨-, rfl⟩ := get_append hd
    · exact (h.device i d hd).mono rfl id id
    · refine ⟨nofun, nofun, fun ho => ?_⟩
      exact absurd ho (by simp [DeviceLink.new, Place.joined])
  known f hf hc := by
    obtain ⟨d, hd, hch⟩ := h.known f hf hc
    exact ⟨d, mem_append_left _ hd, hch⟩
  taken c ht := by
    obtain ⟨hno, d, hd, hch⟩ := h.taken c ht
    exact ⟨hno, d, mem_append_left _ hd, hch⟩
  held := h.held

theorem number_inv {i : Nat} {next : Channel} (hd : s.devices[i]? = some d) (hp : d.place = .found)
    (hr : ({ s with nextChannel := next }.put i
        { d with place := .numbered, channel := s.nextChannel }).Roster) :
    ({ s with nextChannel := next }.put i
      { d with place := .numbered, channel := s.nextChannel }).LinkInv := by
  have hnot : d.opened = false := not_opened h hd (by rw [hp]; rfl)
  refine ⟨hr, ?_, ?_, ?_, h.held⟩
  · intro j e he
    obtain ⟨rfl, rfl⟩ | ⟨-, he⟩ := get_set hd he
    · refine ⟨fun ho => ?_, fun ho => ?_, fun ho => ?_⟩
      · exact absurd (hnot.symm.trans ho) nofun
      · exact absurd (hnot.symm.trans ho) nofun
      · obtain ho | ho := ho
        · exact absurd ho nofun
        · exact absurd (hnot.symm.trans ho) nofun
    · exact (h.device j e he).mono rfl id id
  · intro f hf hc
    refine exists_set hd (fun hx => ?_) (h.known f hf hc)
    exact absurd (hnot.symm.trans hx.2) nofun
  · intro c ht
    obtain ⟨hno, hex⟩ := h.taken c ht
    refine ⟨hno, exists_set hd (fun hx => ?_) hex⟩
    rw [hp] at hx
    exact absurd hx.2 nofun

theorem register_inv {i : Nat} (hd : s.devices[i]? = some d) (hp : d.place = .numbered) :
    ({ s with channels := s.without d.channel ++ [(d.channel, i)] }.put i
      { d with place := .registered }).LinkInv := by
  have h0 : d.channel ≠ NOTICE_CHANNEL := fun h0 => by
    rw [(h.roster.numbered i d hd).mp h0] at hp
    exact absurd hp nofun
  have hnot : d.opened = false := not_opened h hd (by rw [hp]; rfl)
  refine ⟨register_roster h.roster hd hp, ?_, ?_, ?_, h.held⟩
  · intro j e he
    obtain ⟨rfl, rfl⟩ | ⟨hji, he⟩ := get_set hd he
    · refine ⟨fun ho => ?_, fun ho => ?_, fun _ _ _ _ => ?_⟩
      · exact absurd (hnot.symm.trans ho) nofun
      · exact absurd (hnot.symm.trans ho) nofun
      · exact .inl (mem_append_right _ (mem_singleton.mpr rfl))
    · refine (h.device j e he).mono rfl id fun ht h₁ h₂ h₃ => ?_
      obtain hin | hrest := ht h₁ h₂ h₃
      · refine .inl (mem_append_left _ (mem_filter.mpr ⟨hin, decide_eq_true ?_⟩))
        intro heq
        exact hji (h.roster.unique j i e d he hd heq fun hc => h0 (heq.symm.trans hc))
      · exact .inr hrest
  · intro f hf hc
    exact exists_set hd id (h.known f hf hc)
  · intro c ht
    obtain ⟨hno, e, he, hch, hpast⟩ := h.taken c ht
    refine ⟨fun j hc => ?_, exists_set hd (fun hx => ⟨hx.1, rfl⟩) ⟨e, he, hch, hpast⟩⟩
    obtain hc | hc := mem_snoc.mp hc
    · exact hno j (mem_without hc).1
    -- A channel that was taken off belongs to a device that went past this.
    · obtain ⟨rfl, rfl⟩ := Prod.mk.inj hc
      obtain ⟨k, hk⟩ := mem_iff_getElem?.mp he
      obtain rfl := h.roster.unique k j e d hk hd hch (hch ▸ h0)
      obtain rfl := Option.some.inj (hd.symm.trans hk)
      rw [hp] at hpast
      exact absurd hpast nofun

theorem closeChannel_inv (hhold : s.holding = none) (c : Channel) (reason : CloseReason) :
    (s.closeChannel c reason).LinkInv := by
  have hr := closeChannel_roster h.roster c reason
  obtain ⟨-, heq⟩ | ⟨i, d, hmem, hd, hch, heq⟩ := closeChannel_cases h.roster c reason
  · rw [heq]
    exact h
  · have hfree : ¬ s.Taken c := fun ht => (h.taken c ht).1 i hmem
    have hput : (s.put i (d.close reason)).LinkInv :=
      h.of_local (Local.put hd (Like.close d reason))
    rw [heq] at hr ⊢
    refine ⟨hr, ?_, hput.known, ?_, ?_⟩
    · intro j e he
      refine (hput.device j e he).mono rfl id fun ht h₁ h₂ h₃ => ?_
      obtain hin | ⟨r, hr⟩ | hclosed := ht h₁ h₂ h₃
      · by_cases hec : e.channel = c
        · exact .inr (.inl ⟨reason, hec ▸ rfl⟩)
        · exact .inl (mem_filter.mpr ⟨hin, decide_eq_true hec⟩)
      · exact absurd (hhold.symm.trans hr) nofun
      · exact .inr (.inr hclosed)
    · intro c' ht
      obtain ht | ⟨r, hr⟩ := ht
      · obtain ⟨hno, hex⟩ := hput.taken c' (.inl ht)
        exact ⟨fun j hin => hno j (mem_without hin).1, hex⟩
      · cases hr
        refine ⟨fun j hin => (mem_without hin).2 rfl, d.close reason, mem_set_self hd, hch, ?_⟩
        obtain ⟨d', hd', -, hj⟩ := h.roster.entry c i hmem
        cases hd.symm.trans hd'
        show d.place.past = true
        revert hj
        cases d.place <;> decide
    · intro c' r hr hin
      cases hr
      exact hfree (.inl hin)

theorem gone_inv {i : Nat} (hd : s.devices[i]? = some d) (hp : d.place = .left)
    (hno : ∀ j, (d.channel, j) ∉ s.channels) : (s.put i { d with place := .gone }).LinkInv := by
  have hdi := h.device i d hd
  refine ⟨gone_roster h.roster hd hp hno, ?_, ?_, ?_, h.held⟩
  · intro j e he
    obtain ⟨rfl, rfl⟩ | ⟨-, he⟩ := get_set hd he
    · exact ⟨fun _ => rfl, hdi.order, fun _ => hdi.told (.inl (by rw [hp]; rfl))⟩
    · exact (h.device j e he).mono rfl id id
  · intro f hf hc
    exact exists_set hd id (h.known f hf hc)
  · intro c ht
    obtain ⟨hnot, hex⟩ := h.taken c ht
    exact ⟨hnot, exists_set hd (fun hx => ⟨hx.1, rfl⟩) hex⟩

theorem hostCloses_inv {c : Channel} {hearing : Hearing}
    (hr : ({ s with
      channels := s.without c, byHost := s.byHost ++ [c], hearing } : HostLink).Roster) :
    ({ s with
      channels := s.without c, byHost := s.byHost ++ [c], hearing } : HostLink).LinkInv := by
  refine ⟨hr, ?_, h.known, ?_, h.held⟩
  · intro j e he
    refine (h.device j e he).mono rfl id fun ht h₁ h₂ h₃ => ?_
    obtain hin | hrest := ht h₁ h₂ (fun hin => h₃ (mem_append_left _ hin))
    · refine .inl (mem_filter.mpr ⟨hin, decide_eq_true ?_⟩)
      rintro rfl
      exact h₃ (mem_append_right _ (mem_singleton.mpr rfl))
    · exact .inr hrest
  · intro c' ht
    obtain ⟨hno, hex⟩ := h.taken c' ht
    exact ⟨fun j hmem => hno j (mem_without hmem).1, hex⟩

theorem LinkInv.of_eq {s' : HostLink} (hr : s'.Roster) (hd : s'.devices = s.devices)
    (ho : s'.out = s.out) (hq : s'.queued = s.queued) (hc : s'.channels = s.channels)
    (hb : s'.byHost = s.byHost) (hdr : s'.dropped = s.dropped) (hh : s'.holding = s.holding)
    (he : s'.ending = s.ending) : s'.LinkInv where
  roster := hr
  device i d hget := by
    rw [hd] at hget
    refine (h.device i d hget).mono (by rw [frames, frames, hq]) (by rw [hdr]; exact id) fun ht => ?_
    unfold Told
    rw [ho, he, hb, hc, hh, hq]
    exact ht
  known := by rw [hq, hd]; exact h.known
  taken c := by
    unfold Taken
    rw [hdr, hh, hc, hd]
    exact h.taken c
  held := by rw [hh, hdr]; exact h.held

end

theorem LinkInv.does {s s' : HostLink} {a : LinkAct} (h : s.LinkInv) (hc : s.clear a = true)
    (hd : Does s a s') : s'.LinkInv := by
  obtain ⟨hf, hc⟩ := Bool.and_eq_true_iff.mp hc
  have hr : s'.Roster := h.roster.does hf hd
  cases hd with
  | stays hl => exact h.of_local hl
  | finds device grant => exact find_inv h device grant
  | numbers hd hp => exact number_inv h hd hp hr
  | registers hd hp => exact register_inv h hd hp
  | opens ho hd hp _ => exact open_inv h ho hd hp
  | texts ho hd hroom =>
    simp only [hd, Bool.or_eq_true, Bool.and_eq_true, decide_eq_true_eq] at hc
    obtain hfull | ⟨hop, hdr⟩ := hc
    · exact absurd (hroom.symm.trans hfull) nofun
    · exact text_inv h ho hd hop hdr
  | notices ho => exact notice_inv h ho
  | holds hhold => exact closeChannel_inv h hhold _ _
  | overflows hhold _ =>
    exact (closeChannel_inv h hhold _ _).of_eq hr rfl rfl rfl rfl rfl rfl rfl rfl
  | finishes hd hp hhold =>
    obtain ⟨d', hd', hp', hno, heq⟩ := finish_cases h.roster hd hp
    rw [heq]
    exact gone_inv (closeChannel_inv h hhold _ _) hd' hp' hno
  | tells hhold =>
    refine tell_inv h hhold ?_
    simp only [hhold, Bool.or_eq_true, Bool.and_eq_true, List.any_eq_true, decide_eq_true_eq,
      Bool.not_eq_true'] at hc
    obtain hclosing | ⟨hex, hroom⟩ := hc
    · refine .inl fun hn => ?_
      rw [hn] at hclosing
      exact absurd hclosing nofun
    · exact .inr ⟨hex, hroom⟩
  | hostCloses _ => exact hostCloses_inv h hr
  | closes _ => exact (h.of_local (Local.close s _ _)).of_eq hr rfl rfl rfl rfl rfl rfl rfl rfl
  | closesAll reason =>
    have hl := h.of_local (closeAll_local s reason)
    refine ⟨hr, fun i d hd => ?_, hl.known, fun c ht => ?_, hl.held⟩
    · exact (hl.device i d hd).mono rfl id fun _ _ h₂ => absurd h₂ nofun
    · exact ⟨fun j hmem => absurd hmem not_mem_nil, (hl.taken c ht).2⟩

theorem LinkInv.orderly {s : HostLink} (h : s.LinkInv) : s.Orderly where
  inOrder c hc := by
    by_cases hex : ∃ d ∈ s.devices, d.channel = c ∧ d.opened = true
    · obtain ⟨d, hd, rfl, hop⟩ := hex
      obtain ⟨i, hi⟩ := mem_iff_getElem?.mp hd
      obtain hopen | ⟨hshut, -⟩ := (h.device i d hi).order hop
      · exact hopen.inOrder
      · exact hshut.inOrder
    · refine .inl (frames_nil h hc fun d hd hch => ?_)
      cases hop : d.opened with
      | false => rfl
      | true => exact absurd ⟨d, hd, hch, hop⟩ hex
  told h₁ h₂ h₃ d hd hop hp h₄ := by
    obtain ⟨i, hi⟩ := mem_iff_getElem?.mp hd
    obtain hin | ⟨r, hr⟩ | hclosed := (h.device i d hi).told (.inr hop) h₁ h₂ h₄
    -- A device that is gone is on no channel.
    · obtain ⟨e, he, -, hj⟩ := h.roster.entry _ _ hin
      cases hi.symm.trans he
      rw [hp] at hj
      exact absurd hj nofun
    · exact absurd (h₃.symm.trans hr) nofun
    · exact hclosed
  own i d hd p hp := by
    obtain ⟨hch, h0⟩ := h.roster.own i d hd p hp
    refine ⟨hch.symm, fun j e he heq => ?_⟩
    refine h.roster.unique j i e d he hd (heq.trans hch) ?_
    rw [heq, hch]
    exact h0

end HostLink

/-- **What a host is told of a channel is in order, it is told of every device that goes,
    and what it sends goes to the device it is for, in every run of clear sections.** -/
theorem channels_orderly {hello : Message} {acts : List LinkAct} {s : HostLink}
    (hm : Meets HostLink.step (fun s a => s.clear a = true) (.new hello) acts)
    (hr : run HostLink.step (.new hello) acts = some s) : s.Orderly :=
  (hm.invariant (fun _ _ _ h hc hs => HostLink.LinkInv.does h hc (HostLink.step_does h.roster hs))
    hr (.start hello)).orderly

theorem phone_ok : checkId "phone" = .ok () := by decide
theorem g1_ok : checkId "g1" = .ok () := by decide

def caller : DeviceId := ⟨"phone", phone_ok⟩
def pass : GrantId := ⟨"g1", g1_ok⟩

def hello : Message := .text "\x7b\x7d"

def joining : List LinkAct := [.find caller pass, .number 0, .register 0]
def carrying : List LinkAct := joining ++ [LinkAct.greet 0 hello, .openChannel 0]

/-- The phone joins, says something, hears something, hangs up and is taken off. -/
def visit : List LinkAct :=
  carrying ++ [LinkAct.say 0 (.text "ls"), .hear (.text 1 [0x6f, 0x6b]), .act, .hangUp 0, .leave 0,
    .finish 0, .tell]

/-- Its channel is closed by a recheck before its `Open` is queued. -/
def closedFirst : List LinkAct :=
  joining ++ [LinkAct.drop 1 .revoked, .tell, .greet 0 hello, .openChannel 0]

/-- It says something after its channel was closed, before its writer is done. -/
def heardAfter : List LinkAct := carrying ++ [LinkAct.drop 1 .revoked, .tell, .say 0 (.text "ls")]

def linkAfter (acts : List LinkAct) : HostLink :=
  (run HostLink.step (.new hello) acts).getD (.new hello)

theorem run_linkAfter {acts : List LinkAct}
    (h : (run HostLink.step (.new hello) acts).isSome = true) :
    run HostLink.step (.new hello) acts = some (linkAfter acts) := by
  obtain ⟨s, hs⟩ := isSome_iff_exists.mp h
  rw [linkAfter, hs, getD_some]

theorem visit_orderly :
    ∃ s, run HostLink.step (.new hello) visit = some s ∧ (s.frames 1).length = 3 ∧ s.Orderly := by
  have hrun := @run_linkAfter visit (by decide +kernel)
  have hclear : meets HostLink.step HostLink.clear (.new hello) visit = true := by decide +kernel
  exact ⟨_, hrun, by decide +kernel, channels_orderly (meets_iff.mp hclear) hrun⟩

theorem closed_first_and_heard_after :
    (∃ s, run HostLink.step (.new hello) closedFirst = some s ∧ ¬ s.Orderly) ∧
    (∃ s, run HostLink.step (.new hello) heardAfter = some s ∧ ¬ s.Orderly) := by
  refine ⟨⟨_, run_linkAfter (by decide +kernel), fun h => ?_⟩,
    ⟨_, run_linkAfter (by decide +kernel), fun h => ?_⟩⟩
  · have hframes : (linkAfter closedFirst).frames 1 =
        [.closed 1 .revoked, .opened 1 ⟨caller, pass⟩] := by decide +kernel
    rcases h.inOrder 1 (by decide) with hnil | ⟨what, texts, ends, heq, -⟩
    · rw [hframes] at hnil
      exact absurd hnil nofun
    · rw [hframes] at heq
      exact absurd heq nofun
  · have hframes : (linkAfter heardAfter).frames 1 =
        [.opened 1 ⟨caller, pass⟩, .closed 1 .revoked, .text 1 (utf8 "ls")] := by decide +kernel
    rcases h.inOrder 1 (by decide) with hnil | ⟨what, texts, ends, heq, hends⟩
    · rw [hframes] at hnil
      exact absurd hnil nofun
    · rw [hframes] at heq
      have htail := (List.cons.inj heq).2
      cases texts with
      | nil =>
        rcases hends with rfl | ⟨reason, rfl⟩
        · exact absurd htail nofun
        · exact absurd htail nofun
      | cons bytes texts => exact absurd htail nofun

end Yardsort.Relay
