import Yardsort.Mobile.Control
import Yardsort.Lib.Table

/- What becomes of what is typed, over the runs of a terminal's control.

   `Core` holds of the units that wait and of what was handed over, whatever the worker is at;
   `OnWay` is what the worker has of its unit. What waits was queued under the control that is held:
   it goes, dropped, as soon as that one does. So a unit is handed over under its own control, and
   only the answer to an input of another control can drop what it must not (`Orderly`). -/
namespace Yardsort.Mobile.TerminalControl
open Yardsort.Lib

theorem notSent_tells (hold : Hold) : ∃ notice ∈ hold.notSent.notice, NOT_SENT <:+ notice := by
  unfold Hold.notSent
  split
  · exact ⟨NOT_SENT, rfl, suffix_refl _⟩
  · exact ⟨NOT_SENT, rfl, suffix_refl _⟩
  rename_i notice _ hnotice
  split
  · rename_i hsuffix
    exact ⟨notice, hnotice, hsuffix⟩
  · refine ⟨_, rfl, ?_⟩
    rw [← singleton_append, ← append_assoc]
    exact List.suffix_append _ _

theorem notSent_begins {hold : Hold} {message : Text}
    (h : ∃ notice ∈ hold.notice, message <+: notice) :
    ∃ notice ∈ hold.notSent.notice, message <+: notice := by
  obtain ⟨notice, hnotice, hmessage⟩ := h
  unfold Hold.notSent
  split
  · rename_i hnone
    rw [hnone] at hnotice
    cases hnotice
  · rename_i hnil
    cases hnil.symm.trans hnotice
    rw [prefix_nil] at hmessage
    rw [hmessage]
    exact ⟨NOT_SENT, rfl, nil_prefix⟩
  · rename_i other _ hother
    obtain rfl := Option.some.inj (hother.symm.trans hnotice)
    split
    · exact ⟨other, hnotice, hmessage⟩
    · exact ⟨_, rfl, hmessage.trans (prefix_append _ _)⟩

@[simp] theorem notSent_uncertain (hold : Hold) : hold.notSent.uncertain = hold.uncertain := by
  unfold Hold.notSent
  split
  · rfl
  · rfl
  · split <;> rfl

@[simp] theorem notSent_holding (hold : Hold) : hold.notSent.holding = hold.holding := by
  unfold Hold.notSent
  split
  · rfl
  · rfl
  · split <;> rfl

/-! ## The invariant -/

/-- What holds of what waits and of what was handed over. -/
structure Core (s : State) : Prop where
  serials : ∀ (n : Nat) (unit : InputUnit), s.queued[n]? = some unit → unit.serial = n
  /-- What waits was queued under the control that is held. -/
  waiting : ∀ unit ∈ s.waiting, s.queued[unit.serial]? = some unit ∧
    s.fates unit.serial = .going ∧ s.control = some unit.control
  order : s.waiting.Pairwise fun a b => a.serial < b.serial
  unqueued : ∀ n, s.queued.length ≤ n → s.fates n = .going
  inOrder : InOrder s
  ahead : ∀ h ∈ s.handed, ∀ unit ∈ s.waiting, h.unit < unit.serial
  holds : s.hold.holding = s.control.isSome
  /-- Where control is held, no call of `take` that waits will go on. -/
  asked : ∀ t ∈ s.takes, t.asked ≤ s.asking ∧ (s.control.isSome = true → t.asked ≠ s.asking)
  alone : (s.takes.map (·.asked)).Nodup
  done : ∀ (n : Nat) (unit : InputUnit), s.queued[n]? = some unit → s.fates n = .done →
    ∀ i < unit.pieces.length, (n, i) ∈ s.oks

/-- Of the units that were queued each that goes waits, or is the one in hand. -/
def Left (s : State) (inHand : Option InputUnit) : Prop :=
  ∀ (n : Nat) (unit : InputUnit), s.queued[n]? = some unit → s.fates n = .going →
    unit ∈ s.waiting ∨ unit ∈ inHand

/-- The worker has a unit that goes, and of its pieces those before `bound` may have gone. -/
structure OnWay (s : State) (d : Delivery) (bound : Nat) : Prop where
  queued : s.queued[d.unit.serial]? = some d.unit
  control : d.unit.control = d.control
  going : s.fates d.unit.serial = .going
  ahead : ∀ unit ∈ s.waiting, d.unit.serial < unit.serial
  handed : ∀ h ∈ s.handed, h.unit < d.unit.serial ∨ h.unit = d.unit.serial ∧ h.at_ < bound
  oks : ∀ i < d.at_, (d.unit.serial, i) ∈ s.oks

def Busy (s : State) : Worker → Prop
  | .idle | .next => True
  | .pausing d => OnWay s d d.at_ ∧ d.at_ < d.unit.pieces.length
  | .awaiting d => OnWay s d (d.at_ + 1)

structure Good (s : State) : Prop extends Core s where
  busy : Busy s s.worker
  left : Left s s.worker.unit

structure Kept (s s' : State) : Prop where
  handed : ∀ h ∈ s'.handed, h ∈ s.handed ∨ s'.control = some h.control
  dropped : ∀ (n : Nat) (unit : InputUnit), s'.queued[n]? = some unit →
    (s'.fates n).omitted = true → s'.control = some unit.control → s'.fates n = s.fates n ∨
      ∃ m < n, ∃ earlier, s'.queued[m]? = some earlier ∧ earlier.control = unit.control ∧
        (s'.fates m).failed = true
  told : ∀ (n : Nat) (unit : InputUnit), s'.queued[n]? = some unit →
    (s'.fates n).amiss = true → s'.fates n = s.fates n ∨ s'.hold.Tells unit (s'.fates n)
  atEnd : ∀ n, s.fates n ≠ .going → s'.fates n = s.fates n
  stays : ∀ sent ∈ s.hold.uncertain, s'.hold.uncertain = some sent

theorem Kept.fair {s s' : State} (h : Kept s s') (act : Act) : Fair s s' act :=
  ⟨h.handed, h.dropped, h.told, h.atEnd, fun sent hsent _ => h.stays sent hsent⟩

theorem Kept.after {s₀ s s' : State} (h : Kept s s') (hhanded : s.handed = s₀.handed)
    (hfates : s.fates = s₀.fates) (huncertain : s.hold.uncertain = s₀.hold.uncertain) :
    Kept s₀ s' := by
  constructor
  · rw [← hhanded]; exact h.handed
  · rw [← hfates]; exact h.dropped
  · rw [← hfates]; exact h.told
  · rw [← hfates]; exact h.atEnd
  · rw [← huncertain]; exact h.stays

theorem Kept.same {s s' : State} (hhanded : s'.handed = s.handed) (hfates : s'.fates = s.fates)
    (huncertain : s'.hold.uncertain = s.hold.uncertain) : Kept s s' where
  handed := fun _ hx => .inl (hhanded ▸ hx)
  dropped := fun n _ _ _ _ => .inl (congrFun hfates n)
  told := fun n _ _ _ => .inl (congrFun hfates n)
  atEnd := fun n _ => congrFun hfates n
  stays := fun _ hsent => huncertain.trans hsent

namespace Core

variable {s s' : State}

theorem same (h : Core s) (hqueued : s'.queued = s.queued) (hwaiting : s'.waiting = s.waiting)
    (hfates : s'.fates = s.fates) (hhanded : s'.handed = s.handed)
    (hcontrol : s'.control = s.control) (hholding : s'.hold.holding = s.hold.holding)
    (htakes : s'.takes = s.takes) (hasking : s'.asking = s.asking) (hoks : s'.oks = s.oks) :
    Core s' := by
  constructor
  · rw [hqueued]; exact h.serials
  · rw [hqueued, hwaiting, hfates, hcontrol]; exact h.waiting
  · rw [hwaiting]; exact h.order
  · rw [hqueued, hfates]; exact h.unqueued
  · constructor
    · rw [hhanded]; exact h.inOrder.order
    · rw [hhanded, hqueued]; exact h.inOrder.under
  · rw [hhanded, hwaiting]; exact h.ahead
  · rw [hholding, hcontrol]; exact h.holds
  · rw [htakes, hasking, hcontrol]; exact h.asked
  · rw [htakes]; exact h.alone
  · rw [hqueued, hfates, hoks]; exact h.done

theorem handed_lt (h : Core s) {x : Handed} (hx : x ∈ s.handed) : x.unit < s.queued.length := by
  obtain ⟨unit, hunit, -⟩ := h.inOrder.under x hx
  exact (List.getElem?_eq_some_iff.mp hunit).1

theorem waiting_lt (h : Core s) {unit : InputUnit} (hunit : unit ∈ s.waiting) :
    unit.serial < s.queued.length :=
  (List.getElem?_eq_some_iff.mp (h.waiting unit hunit).1).1

theorem marks (h : Core s) {unit : InputUnit} (hunit : s.queued[unit.serial]? = some unit)
    (hahead : ∀ u ∈ s.waiting, unit.serial < u.serial) (fate : Fate)
    (hdone : fate = .done → ∀ i < unit.pieces.length, (unit.serial, i) ∈ s.oks) :
    Core (s.marks [unit] fate) := by
  have hother : ∀ n, n ≠ unit.serial → (s.marks [unit] fate).fates n = s.fates n := by
    intro n hn
    simp [State.marks, hn]
  refine ⟨h.serials, ?_, h.order, ?_, ⟨h.inOrder.order, h.inOrder.under⟩, h.ahead, h.holds,
    h.asked, h.alone, ?_⟩
  · intro u hu
    obtain ⟨hqueued, hgoing, hcontrol⟩ := h.waiting u hu
    refine ⟨hqueued, ?_, hcontrol⟩
    rw [hother u.serial (Nat.ne_of_gt (hahead u hu))]
    exact hgoing
  · intro n hn
    have hlt := (List.getElem?_eq_some_iff.mp hunit).1
    have hn : s.queued.length ≤ n := hn
    rw [hother n (by omega)]
    exact h.unqueued n hn
  · intro n u hu hfate
    by_cases hn : n = unit.serial
    · subst hn
      cases hunit.symm.trans hu
      refine hdone ?_
      simpa [State.marks] using hfate
    · rw [hother n hn] at hfate
      exact h.done n u hu hfate

theorem drops (h : Core s) : Core { s.marks s.waiting .dropped with waiting := [] } := by
  refine ⟨h.serials, ?_, List.Pairwise.nil, ?_, ⟨h.inOrder.order, h.inOrder.under⟩, ?_, h.holds,
    h.asked, h.alone, ?_⟩
  · intro u hu; cases hu
  · intro n hn
    have hn : s.queued.length ≤ n := hn
    have hnot : n ∉ s.waiting.map (·.serial) := by
      intro hmem
      obtain ⟨u, hu, rfl⟩ := mem_map.mp hmem
      have := h.waiting_lt hu
      omega
    show (if n ∈ s.waiting.map (·.serial) then _ else s.fates n) = _
    rw [if_neg hnot]
    exact h.unqueued n hn
  · intro x _ u hu; cases hu
  · intro n u hu hfate
    have hfate : (if n ∈ s.waiting.map (·.serial) then Fate.dropped else s.fates n) = .done := hfate
    split at hfate
    · cases hfate
    · exact h.done n u hu hfate

end Core

variable {s s' : State}

theorem Busy.same {worker : Worker} (h : Busy s worker) (hqueued : s'.queued = s.queued)
    (hwaiting : s'.waiting = s.waiting) (hfates : s'.fates = s.fates)
    (hhanded : s'.handed = s.handed) (hoks : s'.oks = s.oks) : Busy s' worker := by
  have hway : ∀ d bound, OnWay s d bound → OnWay s' d bound := by
    intro d bound hd
    constructor
    · rw [hqueued]; exact hd.queued
    · exact hd.control
    · rw [hfates]; exact hd.going
    · rw [hwaiting]; exact hd.ahead
    · rw [hhanded]; exact hd.handed
    · rw [hoks]; exact hd.oks
  cases worker with
  | idle => trivial
  | next => trivial
  | pausing d => exact ⟨hway d _ h.1, h.2⟩
  | awaiting d => exact hway d _ h

theorem Busy.drops {worker : Worker} (h : Busy s worker) :
    Busy { s.marks s.waiting .dropped with waiting := [] } worker := by
  have hway : ∀ d bound, OnWay s d bound →
      OnWay { s.marks s.waiting .dropped with waiting := [] } d bound := by
    intro d bound hd
    refine ⟨hd.queued, hd.control, ?_, (fun u hu => by cases hu), hd.handed, hd.oks⟩
    have hnot : d.unit.serial ∉ s.waiting.map (·.serial) := by
      intro hmem
      obtain ⟨u, hu, heq⟩ := mem_map.mp hmem
      have := hd.ahead u hu
      omega
    show (if d.unit.serial ∈ s.waiting.map (·.serial) then _ else s.fates d.unit.serial) = _
    rw [if_neg hnot]
    exact hd.going
  cases worker with
  | idle => trivial
  | next => trivial
  | pausing d => exact ⟨hway d _ h.1, h.2⟩
  | awaiting d => exact hway d _ h

theorem Left.same {inHand : Option InputUnit} (h : Left s inHand) (hqueued : s'.queued = s.queued)
    (hwaiting : s'.waiting = s.waiting) (hfates : s'.fates = s.fates) : Left s' inHand := by
  unfold Left
  rw [hqueued, hwaiting, hfates]
  exact h

theorem Left.drops {inHand : Option InputUnit} (hcore : Core s) (h : Left s inHand) :
    Left { s.marks s.waiting .dropped with waiting := [] } inHand := by
  intro n unit hunit hgoing
  have hgoing : (if n ∈ s.waiting.map (·.serial) then Fate.dropped else s.fates n) = .going :=
    hgoing
  split at hgoing
  · cases hgoing
  rename_i hnot
  obtain hwaits | hinHand := h n unit hunit hgoing
  · exact absurd (mem_map.mpr ⟨unit, hwaits, hcore.serials n unit hunit⟩) hnot
  · exact .inr hinHand

theorem Good.same (h : Good s) (hqueued : s'.queued = s.queued) (hwaiting : s'.waiting = s.waiting)
    (hfates : s'.fates = s.fates) (hhanded : s'.handed = s.handed)
    (hcontrol : s'.control = s.control) (hholding : s'.hold.holding = s.hold.holding)
    (htakes : s'.takes = s.takes) (hasking : s'.asking = s.asking)
    (hworker : s'.worker = s.worker) (hoks : s'.oks = s.oks) : Good s' where
  toCore := h.toCore.same hqueued hwaiting hfates hhanded hcontrol hholding htakes hasking hoks
  busy := by
    rw [hworker]
    exact h.busy.same hqueued hwaiting hfates hhanded hoks
  left := by
    rw [hworker]
    exact h.left.same hqueued hwaiting hfates

theorem marks_dropped (s : State) (n : Nat) :
    (s.marks s.waiting .dropped).fates n = s.fates n ∨
      (∃ unit ∈ s.waiting, unit.serial = n) ∧ (s.marks s.waiting .dropped).fates n = .dropped := by
  show (if n ∈ s.waiting.map (·.serial) then _ else s.fates n) = _ ∨ _ ∧
    (if n ∈ s.waiting.map (·.serial) then Fate.dropped else s.fates n) = _
  by_cases hmem : n ∈ s.waiting.map (·.serial)
  · rw [if_pos hmem]
    exact .inr ⟨mem_map.mp hmem, rfl⟩
  · exact .inl (if_neg hmem)

theorem Core.marks_over (h : Core s) (n : Nat) (hover : s.fates n ≠ .going) :
    (s.marks s.waiting .dropped).fates n = s.fates n := by
  obtain heq | ⟨⟨unit, hunit, rfl⟩, -⟩ := marks_dropped s n
  · exact heq
  · exact absurd (h.waiting unit hunit).2.1 hover

theorem Good.forget (h : Good s) (notice : Option Text) :
    Good (s.forget notice) ∧ Kept s (s.forget notice) := by
  have hcore := h.toCore.drops
  have hbusy := h.busy.drops
  have hleft := h.left.drops h.toCore
  have hover : ∀ (n : Nat), s.fates n ≠ .going →
      (s.marks s.waiting .dropped).fates n = s.fates n := h.toCore.marks_over
  have htold : ∀ (n : Nat), (s.marks s.waiting .dropped).fates n = s.fates n ∨
      s.waiting ≠ [] ∧ (s.marks s.waiting .dropped).fates n = .dropped := by
    intro n
    obtain heq | ⟨⟨unit, hunit, -⟩, heq⟩ := marks_dropped s n
    · exact .inl heq
    · exact .inr ⟨ne_nil_of_mem hunit, heq⟩
  have hgood : ∀ hold : Hold, hold.holding = false → Good { s.marks s.waiting .dropped with
      control := none
      waiting := []
      sized := none
      settling := false
      hold := hold } := by
    intro hold hholding
    refine ⟨⟨hcore.serials, ?_, hcore.order, hcore.unqueued,
      ⟨hcore.inOrder.order, hcore.inOrder.under⟩, hcore.ahead, hholding, ?_, hcore.alone,
      hcore.done⟩, ?_, hleft.same rfl rfl rfl⟩
    · intro u hu; cases hu
    · intro t ht
      exact ⟨(hcore.asked t ht).1, fun hsome => by cases hsome⟩
    · exact hbusy.same rfl rfl rfl rfl rfl
  unfold State.forget
  split
  · rename_i hnil
    refine ⟨hgood _ rfl, fun _ hx => .inl hx, ?_, ?_, hover, fun _ hsent => hsent⟩
    · intro n unit _ _ hcontrol; cases hcontrol
    · intro n unit _ _
      obtain heq | ⟨hne, -⟩ := htold n
      · exact .inl heq
      · exact absurd hnil hne
  · refine ⟨hgood _ (notSent_holding _), fun _ hx => .inl hx, ?_, ?_, hover, ?_⟩
    · intro n unit _ _ hcontrol; cases hcontrol
    · intro n unit _ _
      obtain heq | ⟨-, heq⟩ := htold n
      · exact .inl heq
      · refine .inr ?_
        show Hold.Tells _ unit ((s.marks s.waiting .dropped).fates n)
        rw [heq]
        exact notSent_tells _
    · intro sent hsent
      exact (notSent_uncertain _).trans hsent

/-! ## Delivering -/

theorem marks_one (s : State) (unit : InputUnit) (fate : Fate) (n : Nat) :
    (s.marks [unit] fate).fates n = if n = unit.serial then fate else s.fates n := by
  simp [State.marks]

theorem Kept.ends {unit : InputUnit} {fate : Fate} (hunit : s.queued[unit.serial]? = some unit)
    (hgoing : s.fates unit.serial = .going)
    (hfate : fate.omitted = true → s'.control ≠ some unit.control)
    (hqueued : s'.queued = s.queued) (hhanded : s'.handed = s.handed)
    (hfates : s'.fates = (s.marks [unit] fate).fates)
    (htells : fate.amiss = true → s'.hold.Tells unit fate)
    (huncertain : ∀ sent ∈ s.hold.uncertain, s'.hold.uncertain = some sent) : Kept s s' := by
  have hone : ∀ n, s'.fates n = if n = unit.serial then fate else s.fates n := by
    intro n
    rw [hfates]
    exact marks_one s unit fate n
  refine ⟨fun _ hx => .inl (hhanded ▸ hx), ?_, ?_, ?_, huncertain⟩
  · intro n u hu homitted hunder
    rw [hone] at homitted ⊢
    split at homitted
    · rename_i hn
      subst hn
      rw [hqueued, hunit] at hu
      cases hu
      exact absurd hunder (hfate homitted)
    · rename_i hn
      exact .inl (if_neg hn)
  · intro n u hu hamiss
    rw [hone] at hamiss ⊢
    split at hamiss
    · rename_i hn
      subst hn
      rw [hqueued, hunit] at hu
      cases hu
      rw [if_pos rfl]
      exact .inr (htells hamiss)
    · rename_i hn
      rw [if_neg hn]
      exact .inl rfl
  · intro n hover
    rw [hone, if_neg]
    rintro rfl
    exact hover hgoing

theorem Left.ends {unit : InputUnit} {fate : Fate} (hcore : Core s) (h : Left s (some unit))
    (hfate : fate ≠ .going) : Left (s.marks [unit] fate) none := by
  intro n u hu hgoing
  rw [marks_one] at hgoing
  split at hgoing
  · exact absurd hgoing hfate
  rename_i hn
  obtain hwaits | hinHand := h n u hu hgoing
  · exact .inl hwaits
  · cases hinHand
    exact absurd (hcore.serials n unit hu).symm hn

theorem Core.hands (h : Core s) {d : Delivery} (hway : OnWay s d d.at_)
    (hleft : Left s (some d.unit)) (hlt : d.at_ < d.unit.pieces.length) :
    Good (s.hands d) ∧ Kept s (s.hands d) := by
  unfold State.hands
  split
  · rename_i hcontrol
    have hbefore : ∀ x ∈ s.handed, x.before ⟨d.unit.serial, d.at_, d.control⟩ := hway.handed
    refine ⟨⟨⟨h.serials, h.waiting, h.order, h.unqueued, ⟨?_, ?_⟩, ?_, h.holds, h.asked, h.alone,
      h.done⟩, ?_, hleft.same rfl rfl rfl⟩, ?_⟩
    · show (s.handed ++ [_]).Pairwise _
      rw [pairwise_append]
      refine ⟨h.inOrder.order, pairwise_singleton _ _, ?_⟩
      intro x hx y hy
      rw [mem_singleton] at hy
      exact hy ▸ hbefore x hx
    · intro x hx
      obtain hx | rfl := mem_snoc.mp hx
      · exact h.inOrder.under x hx
      · exact ⟨d.unit, hway.queued, hlt, hway.control.symm⟩
    · intro x hx u hu
      obtain hx | rfl := mem_snoc.mp hx
      · exact h.ahead x hx u hu
      · exact hway.ahead u hu
    · refine ⟨hway.queued, hway.control, hway.going, hway.ahead, ?_, hway.oks⟩
      intro x hx
      obtain hx | rfl := mem_snoc.mp hx
      · have := hway.handed x hx
        omega
      · exact .inr ⟨rfl, Nat.lt_succ_self _⟩
    · refine ⟨?_, fun _ _ _ _ _ => .inl rfl, fun _ _ _ _ => .inl rfl, fun _ _ => rfl,
        fun _ hsent => hsent⟩
      intro x hx
      obtain hx | rfl := mem_snoc.mp hx
      · exact .inl hx
      · exact .inr hcontrol
  · rename_i hgone
    have hcore := h.marks hway.queued hway.ahead .unsent nofun
    refine ⟨⟨hcore.same rfl rfl rfl rfl rfl (notSent_holding _) rfl rfl rfl, trivial,
      (hleft.ends h (nofun : Fate.unsent ≠ .going)).same rfl rfl rfl⟩, ?_⟩
    refine Kept.ends hway.queued hway.going ?_ rfl rfl rfl (fun _ => notSent_tells _) ?_
    · intro _ hcontrol
      rw [hway.control] at hcontrol
      exact hgone hcontrol
    · intro sent hsent
      exact (notSent_uncertain _).trans hsent

theorem Core.comesTo (h : Core s) {d : Delivery} (hway : OnWay s d d.at_)
    (hleft : Left s (some d.unit)) : Good (s.comesTo d) ∧ Kept s (s.comesTo d) := by
  unfold State.comesTo
  split
  · rename_i hlast
    have hcore : Core (s.marks [d.unit] .done) := by
      refine h.marks hway.queued hway.ahead .done fun _ i hi => hway.oks i ?_
      have := List.getElem?_eq_none_iff.mp hlast
      omega
    refine ⟨⟨hcore.same rfl rfl rfl rfl rfl rfl rfl rfl rfl, trivial,
      (hleft.ends h (nofun : Fate.done ≠ .going)).same rfl rfl rfl⟩, ?_⟩
    exact Kept.ends hway.queued hway.going (fun homitted => by cases homitted) rfl rfl rfl
      (fun hamiss => by cases hamiss) fun _ hsent => hsent
  · rename_i piece hpiece
    have hlt : d.at_ < d.unit.pieces.length := (List.getElem?_eq_some_iff.mp hpiece).1
    split
    · refine ⟨⟨h.same rfl rfl rfl rfl rfl rfl rfl rfl rfl, ?_, hleft.same rfl rfl rfl⟩,
        Kept.same rfl rfl rfl⟩
      exact ⟨⟨hway.queued, hway.control, hway.going, hway.ahead, hway.handed, hway.oks⟩, hlt⟩
    · exact h.hands hway hleft hlt

theorem Core.shifts (h : Core s) {unit : InputUnit} {rest : List InputUnit}
    (hwaiting : s.waiting = unit :: rest) : Core { s with waiting := rest } := by
  have hsub : ∀ u ∈ rest, u ∈ s.waiting := by
    intro u hu
    rw [hwaiting]
    exact mem_cons_of_mem _ hu
  refine ⟨h.serials, fun u hu => h.waiting u (hsub u hu), ?_, h.unqueued,
    ⟨h.inOrder.order, h.inOrder.under⟩, fun x hx u hu => h.ahead x hx u (hsub u hu), h.holds,
    h.asked, h.alone, h.done⟩
  have horder := h.order
  rw [hwaiting] at horder
  exact (pairwise_cons.mp horder).2

theorem Core.works (h : Core s) (hleft : Left s none) : Good s.works ∧ Kept s s.works := by
  have hin : ∀ {unit rest}, s.waiting = unit :: rest → unit ∈ s.waiting := by
    intro unit rest hwaiting
    rw [hwaiting]
    exact mem_cons_self
  unfold State.works
  split
  · exact ⟨⟨h.same rfl rfl rfl rfl rfl rfl rfl rfl rfl, trivial, hleft.same rfl rfl rfl⟩,
      Kept.same rfl rfl rfl⟩
  -- What waits does so under a control that is held.
  · rename_i unit rest hwaiting hnone
    have hcontrol := (h.waiting unit (hin hwaiting)).2.2
    rw [hnone] at hcontrol
    cases hcontrol
  · rename_i unit rest control hwaiting hcontrol
    obtain ⟨hqueued, hgoing, hunit⟩ := h.waiting unit (hin hwaiting)
    have horder := h.order
    rw [hwaiting, pairwise_cons] at horder
    have hway : OnWay { s with waiting := rest } ⟨unit, control, 0⟩ 0 :=
      ⟨hqueued, Option.some.inj (hunit.symm.trans hcontrol), hgoing, horder.1,
        fun x hx => .inl (h.ahead x hx unit (hin hwaiting)),
        fun i hi => absurd hi (Nat.not_lt_zero i)⟩
    have hleft : Left { s with waiting := rest } (some unit) := by
      intro n u hu hgoing
      obtain hwaits | hnone := hleft n u hu hgoing
      · rw [hwaiting] at hwaits
        obtain rfl | hwaits := mem_cons.mp hwaits
        · exact .inr rfl
        · exact .inl hwaits
      · cases hnone
    obtain ⟨hgood, hkept⟩ := (h.shifts hwaiting).comesTo hway hleft
    exact ⟨hgood, hkept.after rfl rfl rfl⟩

theorem Hold.Tells.notSent {hold : Hold} {unit : InputUnit} {fate : Fate}
    (h : hold.Tells unit fate) : hold.notSent.Tells unit fate := by
  cases fate with
  | going => trivial
  | done => trivial
  | unknown => exact (notSent_uncertain hold).trans h
  | lost | unsent | dropped => exact notSent_tells hold
  | refused message => exact notSent_begins h

theorem Core.settles (h : Core s) {d : Delivery} {bound : Nat} (hway : OnWay s d bound)
    (hleft : Left s (some d.unit)) {fate : Fate} (hfailed : fate.failed = true) (hold : Hold)
    (hholding : hold.holding = s.hold.holding) (htells : hold.Tells d.unit fate)
    (hstays : ∀ sent ∈ s.hold.uncertain, hold.uncertain = some sent)
    (hheld : s.control = some d.control ∨ s.waiting = []) :
    let s' : State := { ({ s.marks [d.unit] fate with hold := hold } : State).dropWaiting with
      worker := .next }
    Good s' ∧ Kept s s' := by
  have homitted : fate.omitted ≠ true := by
    cases fate with
    | unknown | lost | refused _ => exact nofun
    | going | done | unsent | dropped => cases hfailed
  have hgoing : fate ≠ .going := by
    rintro rfl
    cases hfailed
  have hdone : fate ≠ .done := by
    rintro rfl
    cases hfailed
  have hcore : Core { s.marks [d.unit] fate with hold := hold } :=
    (h.marks hway.queued hway.ahead fate fun hfate => absurd hfate hdone).same rfl rfl rfl rfl rfl
      hholding rfl rfl rfl
  have hleft : Left { s.marks [d.unit] fate with hold := hold } none :=
    (hleft.ends h hgoing).same rfl rfl rfl
  unfold State.dropWaiting
  split
  · refine ⟨⟨hcore.same rfl rfl rfl rfl rfl rfl rfl rfl rfl, trivial, hleft.same rfl rfl rfl⟩, ?_⟩
    exact Kept.ends hway.queued hway.going (fun h => absurd h homitted) rfl rfl rfl
      (fun _ => htells) hstays
  · rename_i hne
    have hne : s.waiting ≠ [] := hne
    have hcontrol : s.control = some d.control := hheld.resolve_right hne
    let s₁ : State := { s.marks [d.unit] fate with hold := hold }
    have hends : ∀ n, (s₁.marks s.waiting .dropped).fates n = s₁.fates n ∨
        (∃ unit ∈ s.waiting, unit.serial = n) ∧
          (s₁.marks s.waiting .dropped).fates n = .dropped := marks_dropped s₁
    have hone : ∀ n, s₁.fates n = if n = d.unit.serial then fate else s.fates n :=
      marks_one s d.unit fate
    refine ⟨⟨hcore.drops.same rfl rfl rfl rfl rfl (notSent_holding _) rfl rfl rfl, trivial,
      (hleft.drops hcore).same rfl rfl rfl⟩, fun _ hx => .inl hx, ?_, ?_, ?_, ?_⟩
    · intro n unit hunit hover hunder
      obtain heq | ⟨⟨waits, hwaits, rfl⟩, -⟩ := hends n
      · have heq := heq.trans (hone n)
        have hover : ((s₁.marks s.waiting .dropped).fates n).omitted = true := hover
        rw [heq] at hover
        split at hover
        · exact absurd hover homitted
        · rename_i hn
          exact .inl (heq.trans (if_neg hn))
      · refine .inr ⟨d.unit.serial, hway.ahead waits hwaits, d.unit, hway.queued, ?_, ?_⟩
        · rw [hway.control]
          exact Option.some.inj (hcontrol.symm.trans hunder)
        · obtain heq | ⟨⟨same, hsame, hserial⟩, -⟩ := hends d.unit.serial
          · show ((s₁.marks s.waiting .dropped).fates _).failed = true
            rw [heq, hone, if_pos rfl]
            exact hfailed
          · have := hway.ahead same hsame
            omega
    · intro n unit hunit hamiss
      obtain heq | ⟨-, heq⟩ := hends n
      · show (s₁.marks s.waiting .dropped).fates n = _ ∨
          Hold.Tells _ unit ((s₁.marks s.waiting .dropped).fates n)
        rw [heq, hone]
        split
        · rename_i hn
          subst hn
          cases hunit.symm.trans hway.queued
          exact .inr htells.notSent
        · exact .inl rfl
      · refine .inr ?_
        show Hold.Tells _ unit ((s₁.marks s.waiting .dropped).fates n)
        rw [heq]
        exact notSent_tells _
    · intro n hover
      obtain heq | ⟨⟨waits, hwaits, rfl⟩, -⟩ := hends n
      · refine heq.trans ((hone n).trans (if_neg ?_))
        rintro rfl
        exact hover hway.going
      · exact absurd (h.waiting waits hwaits).2.1 hover
    · intro sent hsent
      exact (notSent_uncertain _).trans (hstays sent hsent)

/-! ## The steps -/

theorem Kept.unholds {i : Nat} (h : Kept s s') : Kept s (s'.unholds i) :=
  ⟨h.handed, h.dropped, h.told, h.atEnd, h.stays⟩

namespace Good

theorem answered (h : Good s) {d : Delivery} (hworker : s.worker = .awaiting d) (answer : Answer)
    (ho : Orderly s (.answered answer)) :
    Good (s.answered d answer) ∧ Kept s (s.answered d answer) := by
  have hway : OnWay s d (d.at_ + 1) := by
    have hbusy := h.busy
    rw [hworker] at hbusy
    exact hbusy
  have hleft : Left s (some d.unit) := by
    have hleft := h.left
    rw [hworker] at hleft
    exact hleft
  cases answer with
  | ok =>
    have hcore : Core { s with oks := s.oks ++ [(d.unit.serial, d.at_)] } := by
      refine ⟨h.serials, h.waiting, h.order, h.unqueued, ⟨h.inOrder.order, h.inOrder.under⟩,
        h.ahead, h.holds, h.asked, h.alone, ?_⟩
      intro n unit hunit hdone i hi
      exact mem_append_left _ (h.done n unit hunit hdone i hi)
    have hon : OnWay { s with oks := s.oks ++ [(d.unit.serial, d.at_)] }
        { d with at_ := d.at_ + 1 } (d.at_ + 1) := by
      refine ⟨hway.queued, hway.control, hway.going, hway.ahead, hway.handed, ?_⟩
      intro i hi
      obtain hi | rfl := Nat.lt_succ_iff_lt_or_eq.mp hi
      · exact mem_append_left _ (hway.oks i hi)
      · exact mem_append_right _ (mem_singleton_self _)
    obtain ⟨hgood, hkept⟩ := hcore.comesTo hon (hleft.same rfl rfl rfl)
    exact ⟨hgood, hkept.after rfl rfl rfl⟩
  | closed =>
    obtain ⟨hheld, hnone⟩ := ho d hworker nofun
    refine h.toCore.settles hway hleft (rfl : Fate.unknown.failed = true)
      { s.hold with uncertain := some d.unit.sent } rfl rfl ?_ hheld
    intro sent hsent
    rw [hnone rfl] at hsent
    cases hsent
  | leaseLost =>
    refine h.toCore.settles hway hleft (rfl : Fate.lost.failed = true) s.hold.notSent
      (notSent_holding _) (notSent_tells _) ?_ (ho d hworker nofun).1
    intro sent hsent
    exact (notSent_uncertain _).trans hsent
  | refused message =>
    exact h.toCore.settles hway hleft (rfl : (Fate.refused message).failed = true)
      { s.hold with notice := some message } rfl ⟨message, rfl, prefix_refl _⟩
      (fun _ hsent => hsent) (ho d hworker nofun).1

theorem queue (h : Good s) (sent : Uncertain) (pieces : List Piece) :
    Good (s.queue sent pieces) ∧ Kept s (s.queue sent pieces) := by
  unfold State.queue
  split
  · exact ⟨h, Kept.same rfl rfl rfl⟩
  rename_i control hcontrol
  dsimp only
  let unit : InputUnit := ⟨sent, pieces, s.queued.length, control⟩
  have hcore : Core { s with waiting := s.waiting ++ [unit], queued := s.queued ++ [unit] } := by
    refine ⟨?_, ?_, ?_, ?_, ⟨h.inOrder.order, ?_⟩, ?_, h.holds, h.asked, h.alone, ?_⟩
    · intro n u hu
      obtain hu | ⟨rfl, rfl⟩ := get_append hu
      · exact h.serials n u hu
      · rfl
    · intro u hu
      obtain hu | rfl := mem_snoc.mp hu
      · obtain ⟨hqueued, hrest⟩ := h.waiting u hu
        exact ⟨get_append_left hqueued, hrest⟩
      · exact ⟨List.getElem?_concat_length, h.unqueued _ (Nat.le_refl _), hcontrol⟩
    · show (s.waiting ++ [unit]).Pairwise _
      rw [pairwise_append]
      refine ⟨h.order, pairwise_singleton _ _, ?_⟩
      intro u hu v hv
      obtain rfl := mem_singleton.mp hv
      exact h.waiting_lt hu
    · intro n hn
      have hn : (s.queued ++ [unit]).length ≤ n := hn
      rw [length_append] at hn
      exact h.unqueued n (by omega)
    · intro x hx
      obtain ⟨u, hu, hrest⟩ := h.inOrder.under x hx
      exact ⟨u, get_append_left hu, hrest⟩
    · intro x hx u hu
      obtain hu | rfl := mem_snoc.mp hu
      · exact h.ahead x hx u hu
      · exact h.handed_lt hx
    · intro n u hu hdone
      obtain hu | ⟨rfl, -⟩ := get_append hu
      · exact h.done n u hu hdone
      · have hgoing := h.unqueued s.queued.length (Nat.le_refl _)
        cases hgoing.symm.trans hdone
  have hleft : Left { s with waiting := s.waiting ++ [unit], queued := s.queued ++ [unit] }
      s.worker.unit := by
    intro n u hu hgoing
    obtain hu | ⟨-, rfl⟩ := get_append hu
    · obtain hwaits | hinHand := h.left n u hu hgoing
      · exact .inl (mem_append_left _ hwaits)
      · exact .inr hinHand
    · exact .inl (mem_append_right _ (mem_singleton_self _))
  split
  · rename_i hidle
    have hidle : s.worker = .idle := hidle
    rw [hidle] at hleft
    obtain ⟨hgood, hkept⟩ := hcore.works hleft
    exact ⟨hgood, hkept.after rfl rfl rfl⟩
  · refine ⟨⟨hcore, ?_, hleft⟩, Kept.same rfl rfl rfl⟩
    have hway : ∀ d bound, OnWay s d bound →
        OnWay { s with waiting := s.waiting ++ [unit], queued := s.queued ++ [unit] } d bound := by
      intro d bound hd
      refine ⟨get_append_left hd.queued, hd.control, hd.going, ?_, hd.handed, hd.oks⟩
      intro u hu
      obtain hu | rfl := mem_snoc.mp hu
      · exact hd.ahead u hu
      · exact (List.getElem?_eq_some_iff.mp hd.queued).1
    have hbusy : ∀ worker, Busy s worker →
        Busy { s with waiting := s.waiting ++ [unit], queued := s.queued ++ [unit] } worker := by
      intro worker hworker
      cases worker with
      | idle => trivial
      | next => trivial
      | pausing d => exact ⟨hway d _ hworker.1, hworker.2⟩
      | awaiting d => exact hway d _ hworker
    exact hbusy s.worker h.busy

theorem shows (h : Good s) (hold : Hold) (hholding : hold.holding = s.hold.holding)
    (huncertain : hold.uncertain = s.hold.uncertain) :
    Good { s with hold := hold } ∧ Kept s { s with hold := hold } :=
  ⟨h.same rfl rfl rfl rfl rfl hholding rfl rfl rfl rfl, Kept.same rfl rfl huncertain⟩

theorem send (h : Good s) (text : Text) : Good (s.send text) ∧ Kept s (s.send text) := by
  unfold State.send
  split
  · exact ⟨h, Kept.same rfl rfl rfl⟩
  split
  · exact h.shows _ rfl rfl
  · split
    · exact h.queue _ _
    · exact h.queue _ _

theorem type (h : Good s) (text : Text) : Good (s.type text) ∧ Kept s (s.type text) := by
  unfold State.type
  split
  · exact ⟨h, Kept.same rfl rfl rfl⟩
  · split
    · exact h.shows _ rfl rfl
    · exact h.queue _ _

theorem paste (h : Good s) (text said : Text) :
    Good (s.paste text said) ∧ Kept s (s.paste text said) := by
  unfold State.paste
  split
  · exact ⟨h, Kept.same rfl rfl rfl⟩
  · split
    · exact h.shows _ rfl rfl
    · exact h.queue _ _

theorem resize (h : Good s) : Good s.resize := by
  unfold State.resize
  split
  · exact h.same rfl rfl rfl rfl rfl rfl rfl rfl rfl rfl
  · exact h

theorem take (h : Good s) : Good s.take ∧ Kept s s.take := by
  unfold State.take
  split
  · exact ⟨h, Kept.same rfl rfl rfl⟩
  rename_i hnot
  have hnone : s.control = none := by
    have hholds := h.holds
    cases hcontrol : s.control with
    | none => rfl
    | some i =>
      rw [hcontrol] at hholds
      rw [hholds] at hnot
      exact absurd rfl hnot
  refine ⟨⟨⟨h.serials, h.waiting, h.order, h.unqueued, ⟨h.inOrder.order, h.inOrder.under⟩,
    h.ahead, h.holds, ?_, ?_, h.done⟩, h.busy.same rfl rfl rfl rfl rfl,
    h.left.same rfl rfl rfl⟩, Kept.same rfl rfl rfl⟩
  · intro t ht
    refine ⟨?_, ?_⟩
    · show t.asked ≤ s.asking + 1
      obtain ht | rfl := mem_snoc.mp ht
      · have := (h.asked t ht).1
        omega
      · exact Nat.le_refl _
    · intro hsome
      have hsome : s.control.isSome = true := hsome
      rw [hnone] at hsome
      cases hsome
  · refine nodup_snoc h.alone ?_
    intro hmem
    obtain ⟨t, ht, heq⟩ := mem_map.mp hmem
    have := (h.asked t ht).1
    have heq : t.asked = s.asking + 1 := heq
    omega

theorem takes (h : Good s) (takes : List Take)
    (hsub : ∀ t ∈ takes, ∃ u ∈ s.takes, t.asked = u.asked) (halone : (takes.map (·.asked)).Nodup) :
    Good { s with takes := takes } := by
  refine ⟨⟨h.serials, h.waiting, h.order, h.unqueued, ⟨h.inOrder.order, h.inOrder.under⟩,
    h.ahead, h.holds, ?_, halone, h.done⟩, h.busy.same rfl rfl rfl rfl rfl,
    h.left.same rfl rfl rfl⟩
  intro t ht
  obtain ⟨u, hu, heq⟩ := hsub t ht
  rw [heq]
  exact h.asked u hu

theorem takes_erased (h : Good s) (k : Nat) : Good { s with takes := s.takes.eraseIdx k } := by
  have hsub : (s.takes.eraseIdx k).Sublist s.takes := eraseIdx_sublist ..
  exact h.takes _ (fun t ht => ⟨t, hsub.subset ht, rfl⟩) (h.alone.sublist (hsub.map _))

theorem acquired (h : Good s) {k : Nat} {t : Take} (ht : s.takes[k]? = some t) :
    Good (s.acquired k t) ∧ Kept s (s.acquired k t) := by
  have hgood : Good { s with
      takes := s.takes.set k { t with made := some s.controls.length } } := by
    refine h.takes _ ?_ ?_
    · intro u hu
      obtain rfl | hu := mem_set_erase ht hu
      · exact ⟨t, mem_of_getElem? ht, rfl⟩
      · exact ⟨u, (eraseIdx_sublist ..).subset hu, rfl⟩
    · have hmap : (s.takes.set k { t with made := some s.controls.length }).map (·.asked) =
          s.takes.map (·.asked) := map_set_same ht rfl
      rw [hmap]
      exact h.alone
  exact ⟨hgood.same rfl rfl rfl rfl rfl rfl rfl rfl rfl rfl, Kept.same rfl rfl rfl⟩

theorem unacquired (h : Good s) (k : Nat) (t : Take) (error : AcquireError) :
    Good (s.unacquired k t error) ∧ Kept s (s.unacquired k t error) := by
  have herased := h.takes_erased k
  unfold State.unacquired
  dsimp only
  split
  · obtain ⟨hgood, hkept⟩ := herased.shows { s.hold with asking := false, notice := some _ } rfl rfl
    exact ⟨hgood, hkept.after rfl rfl rfl⟩
  · exact ⟨herased, Kept.same rfl rfl rfl⟩

theorem taken (h : Good s) {k : Nat} {t : Take} (ht : s.takes[k]? = some t) (i : Nat) :
    Good (s.taken k t i) ∧ Kept s (s.taken k t i) := by
  have herased := h.takes_erased k
  unfold State.taken
  dsimp only
  split
  · rename_i hasked
    have hasked : t.asked = s.asking := hasked
    have hnone : s.control = none := by
      have hnot := (h.asked t (mem_of_getElem? ht)).2
      cases hcontrol : s.control with
      | none => rfl
      | some j => exact absurd hasked (hnot (by rw [hcontrol]; rfl))
    have hempty : s.waiting = [] := by
      refine eq_nil_iff_forall_not_mem.mpr fun u hu => ?_
      have hcontrol := (h.waiting u hu).2.2
      rw [hnone] at hcontrol
      cases hcontrol
    have hgood : Good { s with
        takes := s.takes.eraseIdx k
        control := some i
        controls := s.controls.modify i fun c => { c with taken := true }
        sized := none
        hold := { s.hold with asking := false, holding := true } } := by
      refine ⟨⟨h.serials, ?_, h.order, h.unqueued, ⟨h.inOrder.order, h.inOrder.under⟩, h.ahead,
        rfl, ?_, herased.alone, h.done⟩, h.busy.same rfl rfl rfl rfl rfl,
    h.left.same rfl rfl rfl⟩
      · intro u hu
        have hu : u ∈ s.waiting := hu
        rw [hempty] at hu
        cases hu
      · intro u hu
        refine ⟨(herased.asked u hu).1, fun _ => ?_⟩
        show u.asked ≠ s.asking
        rw [← hasked]
        exact erase_ne h.alone ht hu
    refine ⟨hgood.resize, ?_⟩
    unfold State.resize
    split
    · exact Kept.same rfl rfl rfl
    · exact Kept.same rfl rfl rfl
  · exact ⟨herased.same rfl rfl rfl rfl rfl rfl rfl rfl rfl rfl, Kept.same rfl rfl rfl⟩

theorem release (h : Good s) : Good s.release ∧ Kept s s.release := by
  have hasked : Good { s with asking := s.asking + 1 } := by
    refine ⟨⟨h.serials, h.waiting, h.order, h.unqueued, ⟨h.inOrder.order, h.inOrder.under⟩,
      h.ahead, h.holds, ?_, h.alone, h.done⟩, h.busy.same rfl rfl rfl rfl rfl,
    h.left.same rfl rfl rfl⟩
    intro t ht
    have := (h.asked t ht).1
    refine ⟨?_, fun _ => ?_⟩
    · show t.asked ≤ s.asking + 1
      omega
    · show t.asked ≠ s.asking + 1
      omega
  obtain ⟨hgood, hkept⟩ := hasked.forget (if s.control.isSome then none else s.hold.notice)
  have hkept : Kept s _ := hkept.after rfl rfl rfl
  unfold State.release
  dsimp only
  split
  · exact ⟨hgood, hkept⟩
  · exact ⟨hgood.same rfl rfl rfl rfl rfl rfl rfl rfl rfl rfl, hkept.unholds⟩

theorem seen (h : Good s) (me : Option Nat) (report : Option Report) (ended : Bool) :
    Good (s.seen me report ended) ∧ Kept s (s.seen me report ended) := by
  have hgood : Good { s with controller := report } :=
    h.same rfl rfl rfl rfl rfl rfl rfl rfl rfl rfl
  unfold State.seen
  dsimp only
  split
  · exact ⟨hgood, Kept.same rfl rfl rfl⟩
  split
  · obtain ⟨hforgot, hkept⟩ := hgood.forget
      (if ended then none else some (({ s with controller := report } : State).tookIt me))
    have hkept : Kept s _ := hkept.after rfl rfl rfl
    exact ⟨hforgot.same rfl rfl rfl rfl rfl rfl rfl rfl rfl rfl, hkept.unholds⟩
  · exact ⟨hgood, Kept.same rfl rfl rfl⟩

theorem isLost (h : Good s) (me : Option Nat) (named : Option Nat) (why : ControlLoss) :
    Good (s.isLost me named why) ∧ Kept s (s.isLost me named why) := by
  unfold State.isLost
  split
  · exact ⟨h, Kept.same rfl rfl rfl⟩
  · exact h.forget _

theorem loses (h : Good s) (me : Option Nat) (i : Nat) (c : Control) (why : ControlLoss) :
    Good (s.loses me i c why) ∧ Kept s (s.loses me i c why) := by
  have hgood : Good (s.unholds i) := h.same rfl rfl rfl rfl rfl rfl rfl rfl rfl rfl
  obtain ⟨hlost, hkept⟩ := hgood.isLost me (if c.taken then some i else none) why
  exact ⟨hlost, hkept.after rfl rfl rfl⟩

theorem new : Good State.new := by
  refine ⟨⟨?_, ?_, List.Pairwise.nil, fun _ _ => rfl, ⟨List.Pairwise.nil, ?_⟩, ?_, rfl, ?_,
    nodup_nil, ?_⟩, trivial, ?_⟩
  · intro n unit hunit; cases hunit
  · intro unit hunit; cases hunit
  · intro x hx; cases hx
  · intro x hx; cases hx
  · intro t ht; cases ht
  · intro n unit hunit; cases hunit
  · intro n unit hunit; cases hunit

end Good

theorem fair {act : Act} (h : Good s' ∧ Kept s s') : Good s' ∧ Fair s s' act :=
  ⟨h.1, h.2.fair act⟩

theorem Good.step (h : Good s) {me : Option Nat} {act : Act} (ho : Orderly s act)
    (hs : step me s act = some s') : Good s' ∧ Fair s s' act := by
  cases act with
  | take =>
    cases hs
    exact fair h.take
  | acquired k =>
    obtain ⟨t, ht, hs⟩ := bind_eq_some_iff.mp hs
    split at hs
    · cases hs
      exact fair (h.acquired ht)
    · cases hs
  | unacquired k error =>
    obtain ⟨t, -, hs⟩ := bind_eq_some_iff.mp hs
    split at hs
    · cases hs
      exact fair (h.unacquired k t error)
    · cases hs
  | taken k =>
    obtain ⟨t, ht, hs⟩ := bind_eq_some_iff.mp hs
    obtain ⟨i, -, hs⟩ := bind_eq_some_iff.mp hs
    cases hs
    exact fair (h.taken ht i)
  | release =>
    cases hs
    exact fair h.release
  | seen report ended =>
    cases hs
    exact fair (h.seen me report ended)
  | send text =>
    cases hs
    exact fair (h.send text)
  | type text =>
    cases hs
    exact fair (h.type text)
  | paste text said =>
    cases hs
    exact fair (h.paste text said)
  | press said data =>
    cases hs
    exact fair (h.queue ⟨said, none⟩ [⟨data, false, none⟩])
  | fit size | unsized =>
    cases hs
    exact fair ⟨h.same rfl rfl rfl rfl rfl rfl rfl rfl rfl rfl, Kept.same rfl rfl rfl⟩
  | settleUncertain =>
    cases hs
    refine ⟨h.same rfl rfl rfl rfl rfl rfl rfl rfl rfl rfl, fun _ hx => .inl hx,
      fun _ _ _ _ _ => .inl rfl, fun _ _ _ _ => .inl rfl, fun _ _ => rfl, ?_⟩
    intro _ _ hact
    exact absurd rfl hact
  | settled =>
    simp only [TerminalControl.step] at hs
    split at hs
    · cases hs
      have hgood : Good { s with settling := false } :=
        h.same rfl rfl rfl rfl rfl rfl rfl rfl rfl rfl
      refine fair ⟨hgood.resize, ?_⟩
      unfold State.settled State.resize
      split
      · exact Kept.same rfl rfl rfl
      · exact Kept.same rfl rfl rfl
    · cases hs
  | paused =>
    have hbusy := h.busy
    have hleft := h.left
    simp only [TerminalControl.step] at hs
    split at hs
    · rename_i d hworker
      cases hs
      rw [hworker] at hbusy
      rw [hworker] at hleft
      exact fair (h.toCore.hands hbusy.1 hleft hbusy.2)
    all_goals cases hs
  | answered answer =>
    simp only [TerminalControl.step] at hs
    split at hs
    · rename_i d hworker
      split at hs
      · cases hs
        exact fair (h.answered hworker answer ho)
      · cases hs
    all_goals cases hs
  | goesOn =>
    simp only [TerminalControl.step] at hs
    split at hs
    · rename_i hnext
      cases hs
      have hleft := h.left
      rw [hnext] at hleft
      exact fair (h.toCore.works hleft)
    all_goals cases hs
  | loses i why =>
    obtain ⟨c, -, hs⟩ := bind_eq_some_iff.mp hs
    split at hs
    · cases hs
      exact fair (h.loses me i c why)
    · cases hs

theorem Good.accounted (h : Good s) : Accounted s := ⟨h.left, h.done⟩

/-- **In every run whose steps are orderly** what was handed over is in order and under its own
    control, each unit is accounted for, and a step, where it is orderly too, does only what it
    may. -/
theorem control_fair (me : Option Nat) {acts : List Act}
    (hmeets : Meets (step me) Orderly State.new acts)
    (hrun : run (step me) State.new acts = some s) :
    InOrder s ∧ Accounted s ∧
      ∀ act s', Orderly s act → step me s act = some s' → Fair s s' act := by
  have hgood : Good s :=
    Meets.invariant (fun _ _ _ h ho hs => (h.step ho hs).1) hmeets hrun Good.new
  exact ⟨hgood.inOrder, hgood.accounted, fun act s' ho hs => (hgood.step ho hs).2⟩

instance (s : State) : (act : Act) → Decidable (Orderly s act)
  | .answered answer =>
    match hworker : s.worker with
    | .awaiting d => decidable_of_iff
        (answer ≠ .ok → (s.control = some d.control ∨ s.waiting = []) ∧
          (answer = .closed → s.hold.uncertain = none)) (by
        constructor
        · intro h other hother
          cases hworker.symm.trans hother
          exact h
        · intro h
          exact h d hworker)
    | .idle | .next | .pausing _ => isTrue (by
        intro d hd
        rw [hworker] at hd
        cases hd)
  | .take | .acquired _ | .unacquired _ _ | .taken _ | .release | .seen _ _ | .send _ | .type _
  | .paste _ _ | .press _ _ | .fit _ | .settleUncertain | .settled | .unsized | .paused | .goesOn
  | .loses _ _ => isTrue trivial

/-- Control is taken, a line is typed and answered up to its Enter, and a key is pressed. -/
def typed : List Act :=
  [.take, .acquired 0, .taken 0, .send "ls\n".toList, .answered .ok, .press "Ctrl C".toList ['c'],
    .paused]

def dropped : List Act := [.loses 0 .closed, .answered .closed, .goesOn]

theorem control_fair_dropped : ∃ s, run (step none) State.new (typed ++ dropped) = some s ∧
    InOrder s ∧ Accounted s ∧
      ∀ act s', Orderly s act → step none s act = some s' → Fair s s' act := by
  have hmeets : meets (step none) (fun s act => decide (Orderly s act)) State.new
      (typed ++ dropped) = true := by decide +kernel
  have hruns : (run (step none) State.new (typed ++ dropped)).isSome = true := by decide +kernel
  obtain ⟨s, hs⟩ := isSome_iff_exists.mp hruns
  have horderly : Meets (step none) Orderly State.new (typed ++ dropped) := by
    simpa only [decide_eq_true_eq] using meets_iff.mp hmeets
  exact ⟨s, hs, control_fair none horderly hs⟩

def typedAgain : List Act :=
  [.take, .acquired 0, .taken 0, .type "a".toList, .loses 0 .closed, .answered .closed, .goesOn,
    .take, .acquired 0, .taken 0, .type "b".toList, .loses 1 .closed]

/-- As the second connection drops too, only the second is uncertain. -/
theorem first_uncertain_gone : ¬ ∀ (me : Option Nat) (acts : List Act) (s s' : State) (act : Act),
    run (step me) State.new acts = some s → step me s act = some s' → Fair s s' act := by
  intro h
  have hruns : (run (step none) State.new typedAgain).any (fun s =>
      s.hold.uncertain = some ⟨"a".toList, some "a".toList⟩ &&
        (step none s (.answered .closed)).any fun s' =>
          s'.hold.uncertain = some ⟨"b".toList, some "b".toList⟩) = true := by
    decide +kernel
  obtain ⟨s, hs, hstate⟩ := (any_eq_true _ _).mp hruns
  obtain ⟨huncertain, hstep⟩ := (Bool.and_eq_true _ _).mp hstate
  obtain ⟨s', hs', hother⟩ := (any_eq_true _ _).mp hstep
  have huncertain := of_decide_eq_true huncertain
  have hother := of_decide_eq_true hother
  have hstays := (h none typedAgain s s' _ hs hs').stays _ huncertain nofun
  rw [hother] at hstays
  exact absurd hstays (by decide)

end Yardsort.Mobile.TerminalControl
