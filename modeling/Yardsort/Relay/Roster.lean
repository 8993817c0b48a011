import Yardsort.Relay.Link

/- Who is on which channel of a link, whatever the order of its sections.

   As long as no number is given twice (`fresh`), a channel's device is the one whose
   number it is, what the host sends on a channel goes to that device, and a device whose
   socket is neither closed nor being closed stays on its channel (`Roster`). -/
namespace Yardsort.Relay
open Yardsort.Lib Yardsort.Proto

/-- Joined, and not past being carried. -/
def Place.served : Place → Bool
  | .registered | .greeted | .pumping => true
  | _ => false

namespace HostLink

/-- A number is not given twice, and 0 to no device. -/
def fresh (s : HostLink) : LinkAct → Bool
  | .number _ => s.nextChannel ≠ NOTICE_CHANNEL && s.devices.all (fun d => d.channel ≠ s.nextChannel)
  | _ => true

structure Roster (s : HostLink) : Prop where
  numbered : ∀ (i : Nat) (d : DeviceLink), s.devices[i]? = some d →
    (d.channel = NOTICE_CHANNEL ↔ d.place = .found)
  unique : ∀ (i j : Nat) (d e : DeviceLink), s.devices[i]? = some d → s.devices[j]? = some e →
    d.channel = e.channel → d.channel ≠ NOTICE_CHANNEL → i = j
  own : ∀ (i : Nat) (d : DeviceLink), s.devices[i]? = some d → ∀ p ∈ d.heard,
    p.1 = d.channel ∧ d.channel ≠ NOTICE_CHANNEL
  entry : ∀ (c : Channel) (i : Nat), (c, i) ∈ s.channels →
    ∃ d, s.devices[i]? = some d ∧ d.channel = c ∧ d.place.joined = true
  hearing : ∀ (c : Channel) (i : Nat) (what : ToDevice), s.hearing = .heard c i what →
    ∃ d, s.devices[i]? = some d ∧ d.channel = c ∧ c ≠ NOTICE_CHANNEL
  /-- Neither closed nor being closed: on its channel. -/
  stays : ∀ (i : Nat) (d : DeviceLink), s.devices[i]? = some d → d.place.served = true →
    d.out.closing = none →
    (d.channel, i) ∈ s.channels ∨ ∃ reason, s.hearing = .removed i reason

theorem Roster.start (hello : Message) : (HostLink.new hello).Roster where
  numbered i d h := by simp [HostLink.new] at h
  unique i j d e h := by simp [HostLink.new] at h
  own i d h := by simp [HostLink.new] at h
  entry c i h := absurd h not_mem_nil
  hearing c i what h := absurd h nofun
  stays i d h := by simp [HostLink.new] at h

/-! ## Sections that take no one on or off -/

/-- A device after a section that leaves its channel as it is. -/
structure Like (d d' : DeviceLink) : Prop where
  channel : d'.channel = d.channel
  opened : d'.opened = d.opened
  found : d'.place = .found ↔ d.place = .found
  joined : d'.place.joined = d.place.joined
  past : d.place.past = true → d'.place.past = true
  carried : d.place.carried = true → d'.place.carried = true
  served : d'.place.served = true → d.place.served = true
  pumped : d'.place = .pumping → d'.out.closing = none → d.place = .pumping
  closing : d'.out.closing = none → d.out.closing = none
  heard : ∀ p ∈ d'.heard, p ∈ d.heard ∨ (p.1 = d.channel ∧ d.channel ≠ NOTICE_CHANNEL)

theorem Like.refl (d : DeviceLink) : Like d d :=
  ⟨rfl, rfl, .rfl, rfl, id, id, id, fun h _ => h, id, fun _ h => .inl h⟩

theorem Like.trans {d d' d'' : DeviceLink} (h : Like d d') (h' : Like d' d'') : Like d d'' where
  channel := h'.channel.trans h.channel
  opened := h'.opened.trans h.opened
  found := h'.found.trans h.found
  joined := h'.joined.trans h.joined
  past hp := h'.past (h.past hp)
  carried hc := h'.carried (h.carried hc)
  served hs := h.served (h'.served hs)
  pumped hp hc := h.pumped (h'.pumped hp hc) (h'.closing hc)
  closing hc := h.closing (h'.closing hc)
  heard p hp := by
    obtain hp | hp := h'.heard p hp
    · exact h.heard p hp
    · exact .inr (h.channel ▸ hp)

theorem Like.out {d : DeviceLink} {out : Outbox} (h : out.closing = none → d.out.closing = none) :
    Like d { d with out } :=
  ⟨rfl, rfl, .rfl, rfl, id, id, id, fun hp _ => hp, h, fun _ h => .inl h⟩

theorem Like.reader {d : DeviceLink} {out : Outbox} {reader : Reader}
    (h : out.closing = none → d.out.closing = none) : Like d { d with out, reader } :=
  ⟨rfl, rfl, .rfl, rfl, id, id, id, fun hp _ => hp, h, fun _ h => .inl h⟩

theorem Like.close (d : DeviceLink) (reason : CloseReason) : Like d (d.close reason) :=
  .out fun h => absurd h (d.out.close_closing reason)

theorem Like.goes {d : DeviceLink} {place : Place} {out : Outbox}
    (hf : d.place ≠ .found ∧ place ≠ .found) (hj : place.joined = d.place.joined)
    (hp : d.place.past = true → place.past = true)
    (hc : d.place.carried = true → place.carried = true)
    (hs : place.served = true → d.place.served = true)
    (hu : place = .pumping → out.closing = none → d.place = .pumping)
    (ho : out.closing = none → d.out.closing = none) : Like d { d with place, out } :=
  ⟨rfl, rfl, iff_of_false hf.2 hf.1, hj, hp, hc, hs, hu, ho, fun _ h => .inl h⟩

structure Local (s s' : HostLink) : Prop where
  queued : s'.queued = s.queued
  byHost : s'.byHost = s.byHost
  dropped : s'.dropped = s.dropped
  channels : s'.channels = s.channels
  holding : s'.holding = s.holding
  ending : s'.ending = s.ending
  closing : s'.out.closing = none → s.out.closing = none
  hearing : ∀ (c : Channel) (i : Nat) (what : ToDevice), s'.hearing = .heard c i what →
    s.hearing = .heard c i what ∨ (c, i) ∈ s.channels
  removed : ∀ (i : Nat) (reason : CloseReason), s.hearing = .removed i reason →
    s'.hearing = .removed i reason
  back : ∀ (i : Nat) (d' : DeviceLink), s'.devices[i]? = some d' →
    ∃ d, s.devices[i]? = some d ∧ Like d d'
  forth : ∀ (i : Nat) (d : DeviceLink), s.devices[i]? = some d →
    ∃ d', s'.devices[i]? = some d' ∧ Like d d'

theorem Local.trans {s s' s'' : HostLink} (h : Local s s') (h' : Local s' s'') : Local s s'' where
  queued := h'.queued.trans h.queued
  byHost := h'.byHost.trans h.byHost
  dropped := h'.dropped.trans h.dropped
  channels := h'.channels.trans h.channels
  holding := h'.holding.trans h.holding
  ending := h'.ending.trans h.ending
  closing hc := h.closing (h'.closing hc)
  hearing c i what hw := by
    obtain hw | hc := h'.hearing c i what hw
    · exact h.hearing c i what hw
    · exact .inr (h.channels ▸ hc)
  removed i reason hr := h'.removed i reason (h.removed i reason hr)
  back i d'' hd'' := by
    obtain ⟨d', hd', hl'⟩ := h'.back i d'' hd''
    obtain ⟨d, hd, hl⟩ := h.back i d' hd'
    exact ⟨d, hd, hl.trans hl'⟩
  forth i d hd := by
    obtain ⟨d', hd', hl⟩ := h.forth i d hd
    obtain ⟨d'', hd'', hl'⟩ := h'.forth i d' hd'
    exact ⟨d'', hd'', hl.trans hl'⟩

theorem Local.put {s : HostLink} {i : Nat} {d d' : DeviceLink} (hd : s.devices[i]? = some d)
    (hlike : Like d d') : Local s (s.put i d') where
  queued := rfl
  byHost := rfl
  dropped := rfl
  channels := rfl
  holding := rfl
  ending := rfl
  closing := id
  hearing _ _ _ h := .inl h
  removed _ _ h := h
  back := forall_set hd (fun _ x hx => ⟨x, hx, .refl x⟩) ⟨d, hd, hlike⟩
  forth _ x hx := get_set_some hd (fun h => h.trans hlike) hx (.refl x)

theorem Local.close (s : HostLink) (i : Nat) (reason : CloseReason) :
    Local s { s with devices := s.devices.modify i (·.close reason) } := by
  have hlike (j : Nat) (d : DeviceLink) : Like d (if i = j then d.close reason else d) := by
    split
    · exact Like.close d reason
    · exact .refl d
  refine ⟨rfl, rfl, rfl, rfl, rfl, rfl, id, fun _ _ _ hw => .inl hw, fun _ _ hw => hw, ?_, ?_⟩
  · intro j d' hd'
    rw [List.getElem?_modify] at hd'
    obtain ⟨d, hd, rfl⟩ := map_eq_some_iff.mp hd'
    exact ⟨d, hd, hlike j d⟩
  · intro j d hd
    exact ⟨_, by rw [List.getElem?_modify, hd]; rfl, hlike j d⟩

theorem Local.queue (s : HostLink) (out : Outbox)
    (hc : out.closing = none → s.out.closing = none) : Local s { s with out } :=
  ⟨rfl, rfl, rfl, rfl, rfl, rfl, hc, fun _ _ _ h => .inl h, fun _ _ h => h,
    fun _ d hd => ⟨d, hd, .refl d⟩, fun _ d hd => ⟨d, hd, .refl d⟩⟩

theorem Local.reading (s : HostLink) (hearing : Hearing)
    (hh : ∀ (c : Channel) (i : Nat) (what : ToDevice), hearing = .heard c i what →
      (c, i) ∈ s.channels) (hr : ∀ i reason, s.hearing ≠ .removed i reason) :
    Local s { s with hearing } :=
  ⟨rfl, rfl, rfl, rfl, rfl, rfl, id, fun c i what h => .inr (hh c i what h),
    fun i reason h => absurd h (hr i reason), fun _ d hd => ⟨d, hd, .refl d⟩,
    fun _ d hd => ⟨d, hd, .refl d⟩⟩

section
variable {s : HostLink} (h : s.Roster)

include h

theorem joined_numbered {i : Nat} {d : DeviceLink} (hd : s.devices[i]? = some d)
    (hj : d.place.joined = true) : d.channel ≠ NOTICE_CHANNEL := by
  intro h0
  rw [(h.numbered i d hd).mp h0] at hj
  exact absurd hj nofun

theorem Roster.of_local {s' : HostLink} (hl : Local s s') : s'.Roster where
  numbered i d' hd' := by
    obtain ⟨d, hd, hlike⟩ := hl.back i d' hd'
    rw [hlike.channel, hlike.found]
    exact h.numbered i d hd
  unique i j d' e' hd' he' := by
    obtain ⟨d, hd, hlike⟩ := hl.back i d' hd'
    obtain ⟨e, he, hlike'⟩ := hl.back j e' he'
    rw [hlike.channel, hlike'.channel]
    exact h.unique i j d e hd he
  own i d' hd' p hp := by
    obtain ⟨d, hd, hlike⟩ := hl.back i d' hd'
    rw [hlike.channel]
    obtain hp | hp := hlike.heard p hp
    · exact h.own i d hd p hp
    · exact hp
  entry c i hc := by
    rw [hl.channels] at hc
    obtain ⟨d, hd, hch, hj⟩ := h.entry c i hc
    obtain ⟨d', hd', hlike⟩ := hl.forth i d hd
    exact ⟨d', hd', hlike.channel.trans hch, hlike.joined.trans hj⟩
  hearing c i what hw := by
    have hold : ∃ d, s.devices[i]? = some d ∧ d.channel = c ∧ c ≠ NOTICE_CHANNEL := by
      obtain hw | hc := hl.hearing c i what hw
      · exact h.hearing c i what hw
      · obtain ⟨d, hd, hch, hj⟩ := h.entry c i hc
        exact ⟨d, hd, hch, hch ▸ joined_numbered h hd hj⟩
    obtain ⟨d, hd, hch, h0⟩ := hold
    obtain ⟨d', hd', hlike⟩ := hl.forth i d hd
    exact ⟨d', hd', hlike.channel.trans hch, h0⟩
  stays i d' hd' hs hc := by
    obtain ⟨d, hd, hlike⟩ := hl.back i d' hd'
    obtain hin | ⟨reason, hr⟩ := h.stays i d hd (hlike.served hs) (hlike.closing hc)
    · exact .inl (by rw [hlike.channel, hl.channels]; exact hin)
    · exact .inr ⟨reason, hl.removed i reason hr⟩

theorem find_roster (device : DeviceId) (grant : GrantId) : (s.find device grant).Roster where
  numbered i d hd := by
    obtain hd | ⟨-, rfl⟩ := get_append hd
    · exact h.numbered i d hd
    · exact iff_of_true rfl rfl
  unique i j d e hd he heq h0 := by
    obtain hd | ⟨-, rfl⟩ := get_append hd
    · obtain he | ⟨-, rfl⟩ := get_append he
      · exact h.unique i j d e hd he heq h0
      · exact absurd heq h0
    · exact absurd rfl h0
  own i d hd := by
    obtain hd | ⟨-, rfl⟩ := get_append hd
    · exact h.own i d hd
    · exact fun p hp => absurd hp not_mem_nil
  entry c i hc := by
    obtain ⟨d, hd, hch⟩ := h.entry c i hc
    exact ⟨d, get_append_left hd, hch⟩
  hearing c i what hw := by
    obtain ⟨d, hd, hch⟩ := h.hearing c i what hw
    exact ⟨d, get_append_left hd, hch⟩
  stays i d hd hs := by
    obtain hd | ⟨-, rfl⟩ := get_append hd
    · exact h.stays i d hd hs
    · exact absurd hs nofun

theorem number_roster {i : Nat} {d : DeviceLink} {next : Channel} (hd : s.devices[i]? = some d)
    (hp : d.place = .found) (h0 : s.nextChannel ≠ NOTICE_CHANNEL)
    (hfresh : ∀ e ∈ s.devices, e.channel ≠ s.nextChannel) :
    ({ s with nextChannel := next }.put i
      { d with place := .numbered, channel := s.nextChannel }).Roster := by
  have hd0 : d.channel = NOTICE_CHANNEL := (h.numbered i d hd).mpr hp
  have hother {j : Nat} {e : DeviceLink} (he : s.devices[j]? = some e) : e.channel ≠ s.nextChannel :=
    hfresh e (mem_of_getElem? he)
  -- The device had a part in nothing yet.
  have hne {c : Channel} {j : Nat} {e : DeviceLink} (he : s.devices[j]? = some e)
      (hch : e.channel = c) (hc : c ≠ NOTICE_CHANNEL) : j ≠ i := by
    rintro rfl
    cases hd.symm.trans he
    exact hc (hch.symm.trans hd0)
  refine ⟨forall_set hd h.numbered (iff_of_false h0 nofun), ?_, ?_, ?_, ?_, ?_⟩
  · intro j k e f he hf heq hne
    obtain ⟨rfl, rfl⟩ | ⟨-, he'⟩ := get_set hd he
    · obtain ⟨rfl, -⟩ | ⟨-, hf'⟩ := get_set hd hf
      · rfl
      · exact absurd heq.symm (hother hf')
    · obtain ⟨rfl, rfl⟩ | ⟨-, hf'⟩ := get_set hd hf
      · exact absurd heq (hother he')
      · exact h.unique j k e f he' hf' heq hne
  · exact forall_set hd h.own fun p hp => absurd hd0 (h.own i d hd p hp).2
  · intro c j hc
    obtain ⟨e, he, hch, hj⟩ := h.entry c j hc
    exact ⟨e, (get_set_ne (hne he hch (hch ▸ joined_numbered h he hj))).trans he, hch, hj⟩
  · intro c j what hw
    obtain ⟨e, he, hch, hc0⟩ := h.hearing c j what hw
    exact ⟨e, (get_set_ne (hne he hch hc0)).trans he, hch, hc0⟩
  · exact forall_set hd h.stays nofun

theorem unique_put {i : Nat} {d d' : DeviceLink} (hd : s.devices[i]? = some d)
    (hch : d'.channel = d.channel) (j k : Nat) (e f : DeviceLink)
    (he : (s.devices.set i d')[j]? = some e) (hf : (s.devices.set i d')[k]? = some f)
    (heq : e.channel = f.channel) (hne : e.channel ≠ NOTICE_CHANNEL) : j = k := by
  have back {l : Nat} {g : DeviceLink} (hg : (s.devices.set i d')[l]? = some g) :
      ∃ g₀, s.devices[l]? = some g₀ ∧ g.channel = g₀.channel := by
    obtain ⟨rfl, rfl⟩ | ⟨-, hg⟩ := get_set hd hg
    · exact ⟨d, hd, hch⟩
    · exact ⟨g, hg, rfl⟩
  obtain ⟨e₀, he₀, hce⟩ := back he
  obtain ⟨f₀, hf₀, hcf⟩ := back hf
  exact h.unique j k e₀ f₀ he₀ hf₀ (by rw [← hce, ← hcf, heq]) (by rw [← hce]; exact hne)

theorem hearing_put {i : Nat} {d d' : DeviceLink} (hd : s.devices[i]? = some d)
    (hch : d'.channel = d.channel) (c : Channel) (j : Nat) (what : ToDevice)
    (hw : s.hearing = .heard c j what) :
    ∃ e, (s.devices.set i d')[j]? = some e ∧ e.channel = c ∧ c ≠ NOTICE_CHANNEL := by
  obtain ⟨e, he, hec, hc0⟩ := h.hearing c j what hw
  exact get_set_some hd (fun hec => ⟨hch.trans hec.1, hec.2⟩) he ⟨hec, hc0⟩

theorem register_roster {i : Nat} {d : DeviceLink} (hd : s.devices[i]? = some d)
    (hp : d.place = .numbered) :
    ({ s with channels := s.without d.channel ++ [(d.channel, i)] }.put i
      { d with place := .registered }).Roster := by
  have h0 : d.channel ≠ NOTICE_CHANNEL := fun h0 => by
    rw [(h.numbered i d hd).mp h0] at hp
    exact absurd hp nofun
  refine ⟨forall_set hd h.numbered (iff_of_false h0 nofun), unique_put h hd rfl,
    forall_set hd h.own (h.own i d hd), ?_, hearing_put h hd rfl, ?_⟩
  · intro c j hc
    obtain hc | hc := mem_append.mp hc
    · obtain ⟨hc, hne⟩ := mem_filter.mp hc
      obtain ⟨e, he, hch, hj⟩ := h.entry c j hc
      have hji : j ≠ i := by
        rintro rfl
        cases hd.symm.trans he
        exact of_decide_eq_true hne hch.symm
      exact ⟨e, (get_set_ne hji).trans he, hch, hj⟩
    · cases mem_singleton.mp hc
      exact ⟨_, get_set_self hd, rfl, rfl⟩
  · intro j e he hs hc
    obtain ⟨rfl, rfl⟩ | ⟨hji, he⟩ := get_set hd he
    · exact .inl (mem_append_right _ (mem_singleton.mpr rfl))
    · obtain hin | hr := h.stays j e he hs hc
      · refine .inl (mem_append_left _ (mem_filter.mpr ⟨hin, decide_eq_true ?_⟩))
        intro heq
        exact hji (h.unique j i e d he hd heq fun hc => h0 (heq.symm.trans hc))
      · exact .inr hr

end

theorem mem_without {s : HostLink} {c c' : Channel} {i : Nat} (hc : (c', i) ∈ s.without c) :
    (c', i) ∈ s.channels ∧ c' ≠ c := by
  obtain ⟨hmem, hne⟩ := mem_filter.mp hc
  exact ⟨hmem, of_decide_eq_true hne⟩

theorem onChannel_mem {s : HostLink} {c : Channel} {i : Nat} (h : s.onChannel c = some i) :
    (c, i) ∈ s.channels := by
  obtain ⟨⟨c', j⟩, hfind, rfl⟩ := map_eq_some_iff.mp h
  have hp := List.find?_some hfind
  obtain rfl : c' = c := of_decide_eq_true hp
  exact mem_of_find?_eq_some hfind

theorem onChannel_none {s : HostLink} {c : Channel} (h : s.onChannel c = none) (i : Nat) :
    (c, i) ∉ s.channels := by
  intro hmem
  have := List.find?_eq_none.mp (map_eq_none_iff.mp h) (c, i) hmem
  exact this (decide_eq_true rfl)

section
variable {s : HostLink} (h : s.Roster)

include h

theorem closeChannel_cases (c : Channel) (reason : CloseReason) :
    (s.onChannel c = none ∧ s.closeChannel c reason = s) ∨
    ∃ i d, (c, i) ∈ s.channels ∧ s.devices[i]? = some d ∧ d.channel = c ∧
      s.closeChannel c reason =
        { s.put i (d.close reason) with
          channels := (s.put i (d.close reason)).without c, holding := some (c, reason) } := by
  cases ho : s.onChannel c with
  | none =>
    refine .inl ⟨rfl, ?_⟩
    simp [closeChannel, ho]
  | some i =>
    have hmem := onChannel_mem ho
    obtain ⟨d, hd, hch, -⟩ := h.entry c i hmem
    refine .inr ⟨i, d, hmem, hd, hch, ?_⟩
    simp only [closeChannel, ho, modify_eq_set hd]
    rfl

theorem without_roster {c : Channel} {holding : Option (Channel × CloseReason)}
    {byHost : List Channel} {hearing : Hearing}
    (hh : ∀ (c' : Channel) (i : Nat) (what : ToDevice), hearing = .heard c' i what →
      s.hearing = .heard c' i what)
    (hr : ∀ (i : Nat) (reason : CloseReason), s.hearing = .removed i reason →
      hearing = .removed i reason)
    (hc : ∀ (i : Nat) (d : DeviceLink), s.devices[i]? = some d → d.channel = c →
      d.place.served = true → d.out.closing = none → ∃ reason, hearing = .removed i reason) :
    ({ s with channels := s.without c, holding, byHost, hearing } : HostLink).Roster where
  numbered := h.numbered
  unique := h.unique
  own := h.own
  entry c' j hmem := h.entry c' j (mem_without hmem).1
  hearing c' j what hw := h.hearing c' j what (hh c' j what hw)
  stays j e he hs hcl := by
    by_cases hec : e.channel = c
    · exact .inr (hc j e he hec hs hcl)
    · obtain hin | ⟨reason, hrem⟩ := h.stays j e he hs hcl
      · exact .inl (mem_filter.mpr ⟨hin, decide_eq_true hec⟩)
      · exact .inr ⟨reason, hr j reason hrem⟩

theorem closeChannel_roster (c : Channel) (reason : CloseReason) :
    (s.closeChannel c reason).Roster := by
  obtain ⟨-, heq⟩ | ⟨i, d, hmem, hd, hch, heq⟩ := closeChannel_cases h c reason
  · rw [heq]
    exact h
  · have hput := h.of_local (Local.put hd (Like.close d reason))
    rw [heq]
    refine without_roster hput (fun _ _ _ hw => hw) (fun _ _ hw => hw) ?_
    intro j e he hec hs hcl
    obtain ⟨rfl, rfl⟩ | ⟨hji, he⟩ := get_set hd he
    · exact absurd hcl (d.out.close_closing reason)
    · refine absurd (h.unique j i e d he hd (hec.trans hch.symm) fun h0 => ?_) hji
      obtain ⟨d', hd', -, hj⟩ := h.entry c i hmem
      cases hd.symm.trans hd'
      exact joined_numbered h hd hj (hch.trans (hec.symm.trans h0))

theorem gone_roster {i : Nat} {d : DeviceLink} (hd : s.devices[i]? = some d) (hp : d.place = .left)
    (hno : ∀ j, (d.channel, j) ∉ s.channels) : (s.put i { d with place := .gone }).Roster := by
  have h0 := joined_numbered h hd (by rw [hp]; rfl)
  refine ⟨forall_set hd h.numbered (iff_of_false h0 nofun), unique_put h hd rfl,
    forall_set hd h.own (h.own i d hd), ?_, hearing_put h hd rfl, ?_⟩
  · intro c j hc
    obtain ⟨e, he, hch, hj⟩ := h.entry c j hc
    have hji : j ≠ i := by
      rintro rfl
      cases hd.symm.trans he
      exact hno j (hch ▸ hc)
    exact ⟨e, (get_set_ne hji).trans he, hch, hj⟩
  · exact forall_set hd h.stays nofun

theorem finish_cases {i : Nat} {d : DeviceLink} (hd : s.devices[i]? = some d)
    (hp : d.place = .left) :
    ∃ d', (s.closeChannel d.channel .gone).devices[i]? = some d' ∧ d'.place = .left ∧
      (∀ j, (d'.channel, j) ∉ (s.closeChannel d.channel .gone).channels) ∧
      ({ s.closeChannel d.channel .gone with
        devices := (s.closeChannel d.channel .gone).devices.modify i ({ · with place := .gone }) } :
        HostLink) = (s.closeChannel d.channel .gone).put i { d' with place := .gone } := by
  have hfound : ∃ d', (s.closeChannel d.channel .gone).devices[i]? = some d' ∧ d'.place = .left ∧
      ∀ j, (d'.channel, j) ∉ (s.closeChannel d.channel .gone).channels := by
    obtain ⟨ho, heq⟩ | ⟨j, e, -, he, hch, heq⟩ := closeChannel_cases h d.channel .gone
    · rw [heq]
      exact ⟨d, hd, hp, onChannel_none ho⟩
    -- The device on the channel is this one.
    · have h0 : d.channel ≠ NOTICE_CHANNEL := joined_numbered h hd (by rw [hp]; rfl)
      obtain rfl := h.unique j i e d he hd hch (hch ▸ h0)
      cases hd.symm.trans he
      rw [heq]
      exact ⟨_, get_set_self hd, hp, fun k hk => (mem_without hk).2 rfl⟩
  obtain ⟨d', hd', hp', hno⟩ := hfound
  refine ⟨d', hd', hp', hno, ?_⟩
  rw [modify_eq_set hd']
  rfl

end

theorem closeAll_local (s : HostLink) (reason : CloseReason) :
    Local s { s with devices := s.devices.mapIdx fun i d =>
      if s.channels.any (·.2 = i) then d.close reason else d } := by
  have hlike (i : Nat) (d : DeviceLink) :
      Like d (if s.channels.any (·.2 = i) then d.close reason else d) := by
    split
    · exact Like.close d reason
    · exact .refl d
  refine ⟨rfl, rfl, rfl, rfl, rfl, rfl, id, fun _ _ _ hw => .inl hw, fun _ _ hw => hw, ?_, ?_⟩
  · intro i d' hd'
    rw [List.getElem?_mapIdx] at hd'
    obtain ⟨d, hd, rfl⟩ := map_eq_some_iff.mp hd'
    exact ⟨d, hd, hlike i d⟩
  · intro i d hd
    exact ⟨_, by rw [List.getElem?_mapIdx, hd]; rfl, hlike i d⟩

theorem closeAll_closes {s : HostLink} {reason : CloseReason} {i : Nat} {d : DeviceLink}
    (hd : (s.devices.mapIdx fun i d =>
      if s.channels.any (·.2 = i) then d.close reason else d)[i]? = some d)
    {c : Channel} (hc : (c, i) ∈ s.channels) : d.out.closing ≠ none := by
  rw [List.getElem?_mapIdx] at hd
  obtain ⟨d₀, -, rfl⟩ := map_eq_some_iff.mp hd
  rw [if_pos (List.any_eq_true.mpr ⟨(c, i), hc, decide_eq_true rfl⟩)]
  exact d₀.out.close_closing reason

theorem closeChannel_hearing (s : HostLink) (c : Channel) (reason : CloseReason) :
    (s.closeChannel c reason).hearing = s.hearing := by
  unfold closeChannel
  split <;> rfl

/-! ## What a section does -/

inductive Does (s : HostLink) : LinkAct → HostLink → Prop
  | stays {a s'} : Local s s' → Does s a s'
  | finds (device grant) : Does s (.find device grant) (s.find device grant)
  | numbers {i d} : s.devices[i]? = some d → d.place = .found →
    Does s (.number i) ({ s with nextChannel := s.nextChannel + 1 }.put i
      { d with place := .numbered, channel := s.nextChannel })
  | registers {i d} : s.devices[i]? = some d → d.place = .numbered →
    Does s (.register i) ({ s with channels := s.without d.channel ++ [(d.channel, i)] }.put i
      { d with place := .registered })
  | opens {i d} {out : Outbox} : out.closing = s.out.closing → s.devices[i]? = some d → d.place = .greeted →
    s.out.refuses (linkMessage (.opened d.channel { device := d.device, grant := d.grant })) = false →
    Does s (.openChannel i)
      ({ s with
        out
        queued := s.queued ++ [LinkFrame.opened d.channel { device := d.device, grant := d.grant }] }.put i
        { d with place := .pumping, opened := true })
  | texts {i d} {out : Outbox} {text} : out.closing = s.out.closing → s.devices[i]? = some d →
    s.out.refuses (linkMessage (.text d.channel (utf8 text))) = false →
    Does s (.say i (.text text)) { s with out, queued := s.queued ++ [.text d.channel (utf8 text)] }
  | notices {out : Outbox} {bytes} : out.closing = s.out.closing →
    Does s (.notice bytes) { s with out, queued := s.queued ++ [.text NOTICE_CHANNEL bytes] }
  | holds {c reason} : s.holding = none → Does s (.drop c reason) (s.closeChannel c reason)
  | overflows {c} : s.holding = none → s.hearing = .overflowed c →
    Does s .act { s.closeChannel c .overloaded with hearing := .idle }
  | finishes {i d} : s.devices[i]? = some d → d.place = .left → s.holding = none →
    Does s (.finish i) { s.closeChannel d.channel .gone with
      devices := (s.closeChannel d.channel .gone).devices.modify i ({ · with place := .gone }) }
  | tells {c reason} : s.holding = some (c, reason) →
    Does s .tell { (s.pushFrame (.closed c reason)).2 with
      holding := none, dropped := (s.pushFrame (.closed c reason)).2.dropped ++ [c] }
  | hostCloses {c i reason} : s.hearing = .heard c i (.close reason) →
    Does s .act { s with
      channels := s.without c, byHost := s.byHost ++ [c], hearing := .removed i reason }
  | closes {i reason} : s.hearing = .removed i reason →
    Does s .act { s with devices := s.devices.modify i (·.close reason), hearing := .idle }
  | closesAll (reason) : Does s (.closeAll reason) { s with
      channels := []
      devices := s.devices.mapIdx fun i d =>
        if s.channels.any (·.2 = i) then d.close reason else d
      ending := true }

theorem pushFrame_cases (s : HostLink) (f : LinkFrame) :
    (s.out.refuses (linkMessage f) = false ∧ ∃ out, out.closing = s.out.closing ∧
      s.pushFrame f = (true, { s with out, queued := s.queued ++ [f] })) ∨
    (s.out.refuses (linkMessage f) = true ∧ s.pushFrame f = (false, s)) := by
  cases hr : s.out.refuses (linkMessage f) with
  | false =>
    refine .inl ⟨rfl, _, s.out.push_closing (linkMessage f), ?_⟩
    simp [pushFrame, Outbox.push, hr]
  | true =>
    refine .inr ⟨rfl, ?_⟩
    simp [pushFrame, Outbox.push, hr]

theorem task_cases {s s' : HostLink} {i : Nat} {place : Place}
    {next : DeviceLink → Option HostLink} (h : s.task i place next = some s') :
    ∃ d, s.devices[i]? = some d ∧ d.place = place ∧ next d = some s' := by
  unfold task at h
  split at h
  · rename_i d hd
    split at h
    · rename_i hp
      exact ⟨d, hd, hp, h⟩
    · exact absurd h nofun
  · exact absurd h nofun

theorem act_does {s s' : HostLink} (h : s.Roster) (hs : s.act = some s') : Does s .act s' := by
  unfold act at hs
  split at hs
  · exact absurd hs nofun
  · rename_i hhear
    split at hs
    · exact absurd hs nofun
    · cases hs
      exact .hostCloses hhear
  · rename_i c i message hhear
    obtain ⟨d, hd, hch, hc0⟩ := h.hearing c i _ hhear
    have hnot (j : Nat) (reason : CloseReason) : s.hearing ≠ .removed j reason := fun hr =>
      absurd (hhear.symm.trans hr) nofun
    split at hs
    · exact absurd hs nofun
    rename_i d' hd'
    cases hd.symm.trans hd'
    split at hs
    · rename_i out hpush
      cases hs
      have hclosing : out.closing = d.out.closing := by
        rw [← d.out.push_closing message, hpush]
      refine .stays ((Local.reading s .idle nofun hnot).trans (Local.put hd ?_))
      refine ⟨rfl, rfl, .rfl, rfl, id, id, id, fun hp _ => hp,
        fun hc => hclosing.symm.trans hc, fun p hp => ?_⟩
      obtain hp | hp := mem_snoc.mp hp
      · exact .inl hp
      · rw [hp]
        exact .inr ⟨hch.symm, hch ▸ hc0⟩
    · cases hs
      exact .stays (Local.reading s _ nofun hnot)
  · rename_i i reason hhear
    cases hs
    exact .closes hhear
  · rename_i c hhear
    split at hs
    · exact absurd hs nofun
    · rename_i hhold
      cases hs
      exact .overflows (by simpa using hhold) hhear

theorem register_does {s s' : HostLink} {i : Nat} (hs : s.step (.register i) = some s') :
    Does s (.register i) s' := by
  obtain ⟨d, hd, hp, hs⟩ := task_cases hs
  split at hs
  · exact absurd hs nofun
  split at hs
  -- its socket was closed meanwhile
  · cases hs
    refine .stays (Local.put hd
      (Like.goes (by rw [hp]; exact ⟨nofun, nofun⟩) ?_ ?_ ?_ nofun nofun id))
    · rw [hp]
      rfl
    · exact fun _ => rfl
    · exact fun _ => rfl
  · cases hs
    exact .registers hd hp

theorem greet_does {s s' : HostLink} {i : Nat} {hello : Message}
    (hs : s.step (.greet i hello) = some s') : Does s (.greet i hello) s' := by
  obtain ⟨d, hd, hp, hs⟩ := task_cases hs
  cases hs
  refine .stays (Local.put hd (Like.goes (by rw [hp]; exact ⟨nofun, nofun⟩) ?_ (fun _ => rfl) ?_ ?_
    nofun (fun hc => (d.out.push_closing hello).symm.trans hc)))
  · rw [hp]
    rfl
  · rw [hp]
    exact nofun
  · rw [hp]
    exact fun _ => rfl

theorem openChannel_does {s s' : HostLink} {i : Nat} (hs : s.step (.openChannel i) = some s') :
    Does s (.openChannel i) s' := by
  obtain ⟨d, hd, hp, hs⟩ := task_cases hs
  obtain ⟨hroom, out, ho, hpush⟩ | ⟨-, hpush⟩ :=
    s.pushFrame_cases (.opened d.channel { device := d.device, grant := d.grant })
  · rw [hpush] at hs
    cases hs
    exact .opens ho hd hp hroom
  · rw [hpush] at hs
    cases hs
    refine .stays (Local.put hd (Like.goes (by rw [hp]; exact ⟨nofun, nofun⟩) ?_ (fun _ => rfl)
      (fun _ => rfl) ?_ (fun _ hc => absurd hc (d.out.close_closing _))
      fun hc => absurd hc (d.out.close_closing _)))
    · rw [hp]
      rfl
    · rw [hp]
      exact fun _ => rfl

theorem say_does {s s' : HostLink} {i : Nat} {message : Message} (hs : s.step (.say i message) = some s') :
    Does s (.say i message) s' := by
  obtain ⟨d, hd, hp, hs⟩ := task_cases hs
  split at hs
  · exact absurd hs nofun
  cases message with
  | binary bytes =>
    cases hs
    exact .stays (Local.put hd (Like.reader id))
  | text text =>
    simp only [deviceFrame] at hs
    obtain ⟨hroom, out, ho, hpush⟩ | ⟨-, hpush⟩ :=
      s.pushFrame_cases (.text d.channel (utf8 text))
    · rw [hpush] at hs
      cases hs
      exact .texts ho hd hroom
    · rw [hpush] at hs
      cases hs
      exact .stays (Local.put hd (Like.reader id))

theorem hear_does {s s' : HostLink} {frame : LinkFrame} (hs : s.step (.hear frame) = some s') :
    Does s (.hear frame) s' := by
  simp only [step, hear] at hs
  split at hs
  · exact absurd hs nofun
  rename_i hidle
  have hidle : s.hearing = .idle := by
    by_contra hne
    exact hidle (.inl hne)
  split at hs
  · rename_i reason _
    cases hs
    exact .stays (Local.queue s _ fun hc => absurd hc (s.out.close_closing reason))
  · cases hs
    exact .stays (Local.queue s s.out id)
  · rename_i c what _
    obtain ⟨i, ho, rfl⟩ := map_eq_some_iff.mp hs
    refine .stays (Local.reading s _ (fun c' j what' hw => ?_) fun j reason hr => ?_)
    · cases hw
      exact onChannel_mem ho
    · exact absurd (hidle.symm.trans hr) nofun

theorem step_does {s s' : HostLink} {a : LinkAct} (h : s.Roster) (hs : s.step a = some s') :
    Does s a s' := by
  cases a with
  | find device grant =>
    cases hs
    exact .finds device grant
  | number i =>
    obtain ⟨d, hd, hp, hs⟩ := task_cases hs
    cases hs
    exact .numbers hd hp
  | register i => exact register_does hs
  | greet i hello => exact greet_does hs
  | openChannel i => exact openChannel_does hs
  | say i message => exact say_does hs
  | stop i =>
    obtain ⟨d, hd, hp, hs⟩ := task_cases hs
    split at hs
    · rename_i reason _
      cases hs
      exact .stays (Local.put hd (Like.reader fun hc => absurd hc (d.out.close_closing reason)))
    · exact absurd hs nofun
  | hangUp i =>
    obtain ⟨d, hd, hp, hs⟩ := task_cases hs
    split at hs
    · exact absurd hs nofun
    · cases hs
      exact .stays (Local.put hd (Like.reader fun hc => absurd hc (d.out.close_closing .gone)))
  | leave i =>
    obtain ⟨d, hd, hp, hs⟩ := task_cases hs
    cases hs
    refine .stays (Local.put hd (Like.goes (by rw [hp]; exact ⟨nofun, nofun⟩) ?_ (fun _ => rfl)
      (fun _ => rfl) nofun nofun id))
    rw [hp]
    rfl
  | finish i =>
    obtain ⟨d, hd, hp, hs⟩ := task_cases hs
    split at hs
    · exact absurd hs nofun
    · rename_i hhold
      cases hs
      exact .finishes hd hp (by simpa using hhold)
  | drop c reason =>
    simp only [step, drop] at hs
    split at hs
    · exact absurd hs nofun
    · rename_i hhold
      cases hs
      exact .holds (by simpa using hhold)
  | tell =>
    simp only [step, tell] at hs
    split at hs
    · exact absurd hs nofun
    · rename_i c reason hhold
      cases hs
      exact .tells hhold
  | closeAll reason =>
    simp only [step, closeAll] at hs
    split at hs
    · exact absurd hs nofun
    · cases hs
      exact .closesAll reason
  | hear frame => exact hear_does hs
  | act => exact act_does h hs
  | shut reason =>
    cases hs
    exact .stays (Local.queue s _ fun hc => absurd hc (s.out.close_closing reason))
  | send =>
    obtain ⟨⟨n, out⟩, hn, rfl⟩ := map_eq_some_iff.mp hs
    exact .stays (Local.queue s out fun hc => (Outbox.next_closing hn).symm.trans hc)
  | take i =>
    obtain ⟨d, hd, hp, hs⟩ := task_cases hs
    obtain ⟨⟨n, out⟩, hn, rfl⟩ := map_eq_some_iff.mp hs
    exact .stays (Local.put hd (Like.out fun hc => (Outbox.next_closing hn).symm.trans hc))
  | notice bytes =>
    cases hs
    simp only [notice]
    obtain ⟨-, out, ho, hpush⟩ | ⟨-, hpush⟩ := s.pushFrame_cases (.text NOTICE_CHANNEL bytes)
    · rw [hpush]
      exact .notices ho
    · rw [hpush]
      exact .stays (Local.queue s s.out id)

theorem Roster.of_eq {s s' : HostLink} (h : s.Roster) (hd : s'.devices = s.devices)
    (hc : s'.channels = s.channels) (hh : s'.hearing = s.hearing) : s'.Roster where
  numbered := hd ▸ h.numbered
  unique := hd ▸ h.unique
  own := hd ▸ h.own
  entry := by rw [hd, hc]; exact h.entry
  hearing := by rw [hd, hh]; exact h.hearing
  stays := by rw [hd, hc, hh]; exact h.stays

theorem opens_roster {s : HostLink} (h : s.Roster) {i : Nat} {d : DeviceLink} {opened : Bool}
    (hd : s.devices[i]? = some d) (hp : d.place = .greeted) :
    (s.put i { d with place := .pumping, opened }).Roster := by
  have hj : d.place.joined = true := by rw [hp]; rfl
  have h0 := joined_numbered h hd hj
  refine ⟨forall_set hd h.numbered (iff_of_false h0 nofun), unique_put h hd rfl,
    forall_set hd h.own (h.own i d hd), ?_, hearing_put h hd rfl, ?_⟩
  · intro c j hc
    obtain ⟨e, he, hch, hj⟩ := h.entry c j hc
    exact get_set_some hd (fun hch => ⟨hch.1, rfl⟩) he ⟨hch, hj⟩
  · intro j e he hs hc
    obtain ⟨rfl, rfl⟩ | ⟨-, he⟩ := get_set hd he
    · exact h.stays j d hd (by rw [hp]; rfl) hc
    · exact h.stays j e he hs hc

theorem idle_roster {s : HostLink} (h : s.Roster) {hearing : Hearing}
    (hh : ∀ (c : Channel) (i : Nat) (what : ToDevice), hearing ≠ .heard c i what)
    (hc : ∀ (i : Nat) (reason : CloseReason), s.hearing = .removed i reason →
      ∀ d, s.devices[i]? = some d → d.out.closing ≠ none) :
    ({ s with hearing } : HostLink).Roster where
  numbered := h.numbered
  unique := h.unique
  own := h.own
  entry := h.entry
  hearing c i what hw := absurd hw (hh c i what)
  stays i d hd hs hcl := by
    obtain hin | ⟨reason, hr⟩ := h.stays i d hd hs hcl
    · exact .inl hin
    · exact absurd hcl (hc i reason hr d hd)

theorem Roster.does {s s' : HostLink} {a : LinkAct} (h : s.Roster) (hf : s.fresh a = true)
    (hd : Does s a s') : s'.Roster := by
  cases hd with
  | stays hl => exact h.of_local hl
  | finds device grant => exact find_roster h device grant
  | numbers hd hp =>
    simp only [fresh, Bool.and_eq_true, decide_eq_true_eq, all_eq_true] at hf
    exact number_roster h hd hp hf.1 hf.2
  | registers hd hp => exact register_roster h hd hp
  | opens _ hd hp _ => exact (opens_roster h hd hp).of_eq rfl rfl rfl
  | texts _ hd _ | notices _ => exact h.of_eq rfl rfl rfl
  | holds _ => exact closeChannel_roster h _ _
  | overflows _ hhear =>
    refine idle_roster (closeChannel_roster h _ _) nofun fun i reason hr => ?_
    rw [closeChannel_hearing, hhear] at hr
    exact absurd hr nofun
  | finishes hd hp _ =>
    obtain ⟨d', hd', hp', hno, heq⟩ := finish_cases h hd hp
    rw [heq]
    exact gone_roster (closeChannel_roster h _ _) hd' hp' hno
  | @tells c reason _ =>
    obtain ⟨-, out, -, hpush⟩ | ⟨-, hpush⟩ := s.pushFrame_cases (.closed c reason)
    · rw [hpush]
      exact h.of_eq rfl rfl rfl
    · rw [hpush]
      exact h.of_eq rfl rfl rfl
  | hostCloses hhear =>
    refine without_roster h nofun (fun i reason hr => absurd (hhear.symm.trans hr) nofun) ?_
    intro i d hd hch _ _
    obtain ⟨e, he, hec, hc0⟩ := h.hearing _ _ _ hhear
    obtain rfl := h.unique _ _ e d he hd (hec.trans hch.symm) (hec ▸ hc0)
    exact ⟨_, rfl⟩
  | closes hhear =>
    refine idle_roster (h.of_local (Local.close s _ _)) nofun fun i reason hr d hd => ?_
    cases hhear.symm.trans hr
    rw [List.getElem?_modify] at hd
    obtain ⟨d₀, -, rfl⟩ := map_eq_some_iff.mp hd
    simp only [if_true]
    exact d₀.out.close_closing _
  | closesAll reason =>
    have hl := h.of_local (closeAll_local s reason)
    refine ⟨hl.numbered, hl.unique, hl.own, fun c i hc => absurd hc not_mem_nil, hl.hearing,
      fun i d hd hs hcl => ?_⟩
    obtain hin | hr := hl.stays i d hd hs hcl
    · exact absurd hcl (closeAll_closes hd hin)
    · exact .inr hr

end HostLink

end Yardsort.Relay
