import Yardsort.Mobile.FeedShows

/- What is shown of a workspace's activity over the runs of a feed.

   `Calls` is what holds of the calls that wait and of the subscriptions, `Good` the invariant of
   the runs whose steps are orderly: with it, what is shown is a stretch of what was recorded. -/
namespace Yardsort.Mobile.Feed
open Yardsort.Lib Remote

section
variable {paging : Paging}

/-! ## Calls and subscriptions -/

def Phase.Fits (s : State) : Phase → Prop
  | catchingUp after => s.newer = some after
  | listing => s.newer = none
  | subscribing after => s.newer = after
  | subscribed _ => True

/-- What holds of the calls that wait and of the subscriptions. -/
structure Calls (s : State) : Prop where
  calls : (s.follows.map (·.run)).Nodup
  late : ∀ f ∈ s.follows, f.run ≤ s.run
  past : ∀ (i : Nat) (sub : Subscription), s.subscriptions[i]? = some sub → sub.run ≤ s.run
  /-- A run makes one subscription. -/
  alone : ∀ (i j : Nat) (a b : Subscription), s.subscriptions[i]? = some a →
    s.subscriptions[j]? = some b → a.run = b.run → i = j
  made : ∀ f ∈ s.follows, ∀ i, f.phase = .subscribed i →
    ∃ sub : Subscription, s.subscriptions[i]? = some sub ∧ sub.run = f.run
  unmade : ∀ f ∈ s.follows, f.phase.waits = true → ∀ (i : Nat) (sub : Subscription),
    s.subscriptions[i]? = some sub → sub.run ≠ f.run
  fits : ∀ f ∈ s.follows, f.run = s.run → f.phase.Fits s
  /-- The subscription of the current run goes on from where the feed is. -/
  place : ∀ (i : Nat) (sub : Subscription), s.subscriptions[i]? = some sub → sub.run = s.run →
    sub.place ≤ s.log.length ∧ (s.newer = some sub.place ∨ s.newer = none) ∧
      (sub.newer = some sub.place ∨ sub.newer = none)
  asked : ∀ o ∈ s.olders, o.run ≤ s.run ∧ o.resets ≤ s.resets

namespace Calls

variable {s s' : State}

theorem fewer (h : Calls s) (hrun : s'.run = s.run) (hnewer : s'.newer = s.newer)
    (hlog : s.log.length ≤ s'.log.length) (hfollows : s'.follows.Sublist s.follows)
    (hsubs : ∀ (i : Nat) (sub : Subscription), s'.subscriptions[i]? = some sub →
      ∃ b, s.subscriptions[i]? = some { sub with ended := b })
    (hkept : ∀ (i : Nat) (sub : Subscription), s.subscriptions[i]? = some sub →
      ∃ b, s'.subscriptions[i]? = some { sub with ended := b })
    (holders : ∀ o ∈ s'.olders, o ∈ s.olders) (hresets : s'.resets = s.resets) : Calls s' := by
  constructor
  · exact h.calls.sublist (hfollows.map _)
  · rw [hrun]
    exact fun f hf => h.late f (hfollows.subset hf)
  · intro i sub hsub
    obtain ⟨b, hb⟩ := hsubs i sub hsub
    rw [hrun]
    exact h.past i { sub with ended := b } hb
  · intro i j a c ha hc hac
    obtain ⟨b, hb⟩ := hsubs i a ha
    obtain ⟨d, hd⟩ := hsubs j c hc
    exact h.alone i j _ _ hb hd hac
  · intro f hf i hphase
    obtain ⟨sub, hsub, hsubrun⟩ := h.made f (hfollows.subset hf) i hphase
    obtain ⟨b, hb⟩ := hkept i sub hsub
    exact ⟨_, hb, hsubrun⟩
  · intro f hf hwaits i sub hsub
    obtain ⟨b, hb⟩ := hsubs i sub hsub
    exact h.unmade f (hfollows.subset hf) hwaits i { sub with ended := b } hb
  · intro f hf hfrun
    have hfits := h.fits f (hfollows.subset hf) (hfrun.trans hrun)
    cases hphase : f.phase with
    | catchingUp after | listing
    | subscribing after => rw [hphase] at hfits; exact hnewer.trans hfits
    | subscribed i => trivial
  · intro i sub hsub hsubrun
    obtain ⟨b, hb⟩ := hsubs i sub hsub
    obtain ⟨hplace, hat, hsubnewer⟩ := h.place i _ hb (hsubrun.trans hrun)
    exact ⟨Nat.le_trans hplace hlog, hnewer ▸ hat, hsubnewer⟩
  · intro o ho
    rw [hrun, hresets]
    exact h.asked o (holders o ho)

theorem same (h : Calls s) (hrun : s'.run = s.run) (hnewer : s'.newer = s.newer)
    (hlog : s.log.length ≤ s'.log.length) (hfollows : s'.follows.Sublist s.follows)
    (hsubs : s'.subscriptions = s.subscriptions) (holders : ∀ o ∈ s'.olders, o ∈ s.olders)
    (hresets : s'.resets = s.resets) : Calls s' :=
  h.fewer hrun hnewer hlog hfollows (fun _ sub hsub => ⟨sub.ended, hsubs ▸ hsub⟩)
    (fun _ sub hsub => ⟨sub.ended, hsubs ▸ hsub⟩) holders hresets

theorem ends_get (s : State) (i j : Nat) : (s.ends i).subscriptions[j]? =
    (s.subscriptions[j]?).map fun sub => { sub with ended := sub.ended || i = j } := by
  unfold State.ends
  rw [List.getElem?_modify]
  cases s.subscriptions[j]? with
  | none => rfl
  | some sub =>
    by_cases hij : i = j
    · simp [hij]
    · simp [hij]

theorem ends (h : Calls s) (i : Nat) : Calls (s.ends i) := by
  refine h.fewer rfl rfl (Nat.le_refl _) (List.Sublist.refl _) ?_ ?_ (fun _ ho => ho) rfl
  · intro j sub hsub
    rw [ends_get, map_eq_some_iff] at hsub
    obtain ⟨old, hold, rfl⟩ := hsub
    exact ⟨old.ended, hold⟩
  · intro j sub hsub
    exact ⟨_, by rw [ends_get, hsub]; rfl⟩

theorem later (h : Calls s) (hrun : s'.run = s.run + 1) (hfollows : s'.follows = s.follows)
    (hsubs : s'.subscriptions = s.subscriptions)
    (holders : s'.olders = s.olders) (hresets : s'.resets = s.resets) : Calls s' := by
  constructor
  · rw [hfollows]; exact h.calls
  · intro f hf
    have := h.late f (hfollows ▸ hf)
    omega
  · intro i sub hsub
    have := h.past i sub (hsubs ▸ hsub)
    omega
  · rw [hsubs]; exact h.alone
  · rw [hfollows, hsubs]; exact h.made
  · rw [hfollows, hsubs]; exact h.unmade
  · intro f hf hfrun
    have := h.late f (hfollows ▸ hf)
    omega
  · intro i sub hsub hsubrun
    have := h.past i sub (hsubs ▸ hsub)
    omega
  · intro o ho
    rw [holders] at ho
    obtain ⟨horun, horesets⟩ := h.asked o ho
    rw [hresets]
    exact ⟨by omega, horesets⟩

theorem follow (h : Calls s) (channel : Nat) : Calls (s.follow channel) := by
  have hlater : Calls { s with run := s.run + 1, channel := some channel } :=
    h.later rfl rfl rfl rfl rfl
  have hnew : s.run + 1 ∉ s.follows.map (·.run) := by
    intro hmem
    obtain ⟨f, hf, hrun⟩ := mem_map.mp hmem
    have := h.late f hf
    omega
  have hlast : ∀ f ∈ (s.follow channel).follows, f ∈ s.follows ∨ f.run = s.run + 1 ∧
      (∃ after, s.newer = some after ∧ f.phase = .catchingUp after ∨
        s.newer = none ∧ f.phase = .listing) := by
    intro f hf
    obtain hf | hf := mem_append.mp hf
    · exact .inl hf
    · rw [mem_singleton] at hf
      subst hf
      cases hnewer : s.newer with
      | none => exact .inr ⟨rfl, 0, .inr ⟨rfl, rfl⟩⟩
      | some after => exact .inr ⟨rfl, after, .inl ⟨rfl, rfl⟩⟩
  constructor
  · exact nodup_snoc h.calls hnew
  · intro f hf
    obtain hf | ⟨hrun, -⟩ := hlast f hf
    · exact hlater.late f hf
    · exact Nat.le_of_eq hrun
  · exact hlater.past
  · exact h.alone
  · intro f hf i hphase
    obtain hf | ⟨-, after, ⟨-, hat⟩ | ⟨-, hat⟩⟩ := hlast f hf
    · exact h.made f hf i hphase
    · rw [hphase] at hat; cases hat
    · rw [hphase] at hat; cases hat
  · intro f hf hwaits i sub hsub
    obtain hf | ⟨hrun, -⟩ := hlast f hf
    · exact h.unmade f hf hwaits i sub hsub
    · have := h.past i sub hsub
      omega
  · intro f hf hrun
    obtain hf | ⟨-, after, ⟨hnewer, hat⟩ | ⟨hnewer, hat⟩⟩ := hlast f hf
    · have := h.late f hf
      have hrun : f.run = s.run + 1 := hrun
      omega
    · rw [hat]; exact hnewer
    · rw [hat]; exact hnewer
  · exact hlater.place
  · exact hlater.asked

theorem moves (h : Calls s) {k : Nat} {f g : Follow} (hf : s.follows[k]? = some f)
    (hrun : f.run = s.run) (hwas : f.phase.waits = true) (hgrun : g.run = f.run)
    (hwaits : g.phase.waits = true) (hfits : g.phase.Fits s') (hrun' : s'.run = s.run)
    (hfollows : s'.follows = s.follows.set k g)
    (hsubs : s'.subscriptions = s.subscriptions) (holders : s'.olders = s.olders)
    (hresets : s.resets ≤ s'.resets) : Calls s' := by
  have hfm : f ∈ s.follows := mem_of_getElem? hf
  have hnone : ∀ (i : Nat) (sub : Subscription), s.subscriptions[i]? = some sub →
      sub.run ≠ s.run := fun i sub hsub => hrun ▸ h.unmade f hfm hwas i sub hsub
  have hset : ∀ f' ∈ s'.follows, f' = g ∨ f' ∈ s.follows ∧ f'.run ≠ s.run := by
    intro f' hf'
    rw [hfollows] at hf'
    obtain rfl | hf' := mem_set_erase hf hf'
    · exact .inl rfl
    · exact .inr ⟨(eraseIdx_sublist ..).subset hf', hrun ▸ erase_ne h.calls hf hf'⟩
  constructor
  · rw [hfollows, map_set_same hf hgrun]
    exact h.calls
  · intro f' hf'
    obtain rfl | ⟨hf', -⟩ := hset f' hf'
    · rw [hgrun, hrun, hrun']
    · rw [hrun']
      exact h.late f' hf'
  · rw [hsubs, hrun']; exact h.past
  · rw [hsubs]; exact h.alone
  · intro f' hf' i hphase
    obtain rfl | ⟨hf', -⟩ := hset f' hf'
    · rw [hphase] at hwaits; cases hwaits
    · rw [hsubs]
      exact h.made f' hf' i hphase
  · rw [hsubs]
    intro f' hf' hwaits' i sub hsub
    obtain rfl | ⟨hf', -⟩ := hset f' hf'
    · rw [hgrun, hrun]
      exact hnone i sub hsub
    · exact h.unmade f' hf' hwaits' i sub hsub
  · intro f' hf' hfrun'
    obtain rfl | ⟨-, hne⟩ := hset f' hf'
    · exact hfits
    · exact absurd (hfrun'.trans hrun') hne
  · rw [hsubs]
    intro i sub hsub hsubrun
    exact absurd (hsubrun.trans hrun') (hnone i sub hsub)
  · intro o ho
    rw [holders] at ho
    obtain ⟨horun, horesets⟩ := h.asked o ho
    rw [hrun']
    exact ⟨horun, Nat.le_trans horesets hresets⟩

theorem subscribed (h : Calls s) {k : Nat} {f : Follow} (hf : s.follows[k]? = some f)
    (hwas : f.phase.waits = true) {newer : Option Nat} {place : Nat}
    (hplace : f.run = s.run → place ≤ s.log.length ∧ (s.newer = some place ∨ s.newer = none))
    (hnewer : newer = some place ∨ newer = none) : Calls (s.subscribed k f newer place) := by
  have hfm : f ∈ s.follows := mem_of_getElem? hf
  have hunmade := h.unmade f hfm hwas
  have hnew : ∀ (i : Nat) (sub : Subscription),
      (s.subscribed k f newer place).subscriptions[i]? = some sub →
      s.subscriptions[i]? = some sub ∨
        (i = s.subscriptions.length ∧ sub = ⟨f.run, newer, place, false⟩) :=
    fun i sub hsub => get_append hsub
  have hset : ∀ f' ∈ (s.subscribed k f newer place).follows,
      f' = { f with phase := .subscribed s.subscriptions.length } ∨
        f' ∈ s.follows ∧ f'.run ≠ f.run := by
    intro f' hf'
    obtain rfl | hf' := mem_set_erase hf hf'
    · exact .inl rfl
    · exact .inr ⟨(eraseIdx_sublist ..).subset hf', erase_ne h.calls hf hf'⟩
  constructor
  · show ((s.follows.set k _).map (·.run)).Nodup
    rw [map_set_same hf (by rfl)]
    exact h.calls
  · intro f' hf'
    obtain rfl | ⟨hf', -⟩ := hset f' hf'
    · exact h.late f hfm
    · exact h.late f' hf'
  · intro i sub hsub
    obtain hsub | ⟨-, rfl⟩ := hnew i sub hsub
    · exact h.past i sub hsub
    · exact h.late f hfm
  · intro i j a b ha hb hab
    obtain ha | ⟨rfl, rfl⟩ := hnew i a ha
    · obtain hb | ⟨rfl, rfl⟩ := hnew j b hb
      · exact h.alone i j a b ha hb hab
      · exact absurd hab (hunmade i a ha)
    · obtain hb | ⟨rfl, rfl⟩ := hnew j b hb
      · exact absurd hab.symm (hunmade j b hb)
      · rfl
  · intro f' hf' i hphase
    obtain rfl | ⟨hf', -⟩ := hset f' hf'
    · cases hphase
      exact ⟨_, List.getElem?_concat_length, rfl⟩
    · obtain ⟨sub, hsub, hrun⟩ := h.made f' hf' i hphase
      exact ⟨sub, get_append_left hsub, hrun⟩
  · intro f' hf' hwaits i sub hsub
    obtain rfl | ⟨hf', hne⟩ := hset f' hf'
    · cases hwaits
    · obtain hsub | ⟨-, rfl⟩ := hnew i sub hsub
      · exact h.unmade f' hf' hwaits i sub hsub
      · exact hne.symm
  · intro f' hf' hfrun
    obtain rfl | ⟨hf', -⟩ := hset f' hf'
    · trivial
    · have hfits := h.fits f' hf' hfrun
      cases hphase : f'.phase <;> rw [hphase] at hfits <;> exact hfits
  · intro i sub hsub hrun
    obtain hsub | ⟨-, rfl⟩ := hnew i sub hsub
    · exact h.place i sub hsub hrun
    · obtain ⟨hle, hat⟩ := hplace hrun
      exact ⟨hle, hat, hnewer⟩
  · exact h.asked

theorem batch (h : Calls s) {i : Nat} {sub : Subscription} (sub' : Subscription)
    (hsub : s.subscriptions[i]? = some sub) (hrun : sub.run = s.run) (hsame : sub'.run = sub.run)
    (hplace : sub'.place ≤ s.log.length)
    (hat : s'.newer = some sub'.place ∨ s'.newer = none)
    (hnewer : sub'.newer = some sub'.place ∨ sub'.newer = none) (hrun' : s'.run = s.run)
    (hlog : s'.log = s.log) (hfollows : s'.follows.Sublist s.follows)
    (hsubs : s'.subscriptions = s.subscriptions.set i sub') (holders : s'.olders = s.olders)
    (hresets : s'.resets = s.resets) : Calls s' := by
  have hold : ∀ (j : Nat) (b : Subscription), s'.subscriptions[j]? = some b →
      (j = i ∧ b = sub') ∨ (j ≠ i ∧ s.subscriptions[j]? = some b) := by
    rw [hsubs]
    exact fun j b hb => get_set hsub hb
  have hruns : ∀ (j : Nat) (b : Subscription), s'.subscriptions[j]? = some b →
      ∃ c : Subscription, s.subscriptions[j]? = some c ∧ c.run = b.run := by
    intro j b hb
    obtain ⟨rfl, rfl⟩ | ⟨-, hb⟩ := hold j b hb
    · exact ⟨sub, hsub, hsame.symm⟩
    · exact ⟨b, hb, rfl⟩
  constructor
  · exact h.calls.sublist (hfollows.map _)
  · rw [hrun']
    exact fun f hf => h.late f (hfollows.subset hf)
  · intro j b hb
    obtain ⟨c, hc, hcrun⟩ := hruns j b hb
    rw [hrun', ← hcrun]
    exact h.past j c hc
  · intro j l b d hb hd hbd
    obtain ⟨c, hc, hcrun⟩ := hruns j b hb
    obtain ⟨e, he, herun⟩ := hruns l d hd
    exact h.alone j l c e hc he (hcrun.trans (hbd.trans herun.symm))
  · intro f hf j hphase
    obtain ⟨b, hb, hbrun⟩ := h.made f (hfollows.subset hf) j hphase
    rw [hsubs]
    by_cases hji : j = i
    · subst hji
      cases hsub.symm.trans hb
      exact ⟨sub', get_set_self hsub, hsame.trans hbrun⟩
    · exact ⟨b, (get_set_ne hji).trans hb, hbrun⟩
  · intro f hf hwaits j b hb
    obtain ⟨c, hc, hcrun⟩ := hruns j b hb
    exact hcrun ▸ h.unmade f (hfollows.subset hf) hwaits j c hc
  -- a call that waits for the computer would have no subscription
  · intro f hf hfrun
    cases hwaits : f.phase.waits with
    | true =>
      have hne := h.unmade f (hfollows.subset hf) hwaits i sub hsub
      exact absurd (hrun.trans (hfrun.trans hrun').symm) hne
    | false =>
      cases hphase : f.phase <;> rw [hphase] at hwaits
      case subscribed => trivial
      all_goals cases hwaits
  · intro j b hb hbrun
    obtain ⟨rfl, rfl⟩ | ⟨hji, hb⟩ := hold j b hb
    · rw [hlog]
      exact ⟨hplace, hat, hnewer⟩
    · exact absurd (h.alone j i b sub hb hsub (hbrun.trans (hrun'.trans hrun.symm))) hji
  · rw [holders, hrun', hresets]
    exact h.asked

end Calls

/-! ## Steps -/

theorem addAfter_leaves (s : State) (events : List ActivityEvent) :
    (s.addAfter events).log = s.log ∧ (s.addAfter events).newer = s.newer ∧
      (s.addAfter events).run = s.run ∧ (s.addAfter events).follows = s.follows ∧
      (s.addAfter events).olders = s.olders ∧
      (s.addAfter events).subscriptions = s.subscriptions ∧
      (s.addAfter events).resets = s.resets := by
  unfold State.addAfter
  split
  · simp
  · simp

theorem turned_leaves (s : State) (page : Page) :
    (s.turned page).log = s.log ∧ (s.turned page).newer = s.newer ∧
      (s.turned page).run = s.run ∧ (s.turned page).follows = s.follows ∧
      (s.turned page).olders = s.olders ∧ (s.turned page).subscriptions = s.subscriptions ∧
      (s.turned page).resets = s.resets := by
  unfold State.turned State.addBefore
  split
  · simp
  · simp

theorem addAfter_offered (s : State) (b : Bool) (events : List ActivityEvent) : ∃ c,
    ({ s with hasOlder := b } : State).addAfter events =
      { s.addAfter events with hasOlder := c } := by
  have hfresh : ({ s with hasOlder := b } : State).fresh events = s.fresh events := rfl
  unfold State.addAfter
  rw [hfresh]
  by_cases hnil : s.fresh events = []
  · rw [if_pos hnil, if_pos hnil]
    exact ⟨b, rfl⟩
  · rw [if_neg hnil, if_neg hnil]
    unfold State.keeps
    by_cases hlen : MAX_KEPT < (s.events ++ s.fresh events).length
    · exact ⟨false, by simp only [if_pos hlen]⟩
    · exact ⟨s.older.isSome, by simp only [if_neg hlen]⟩

/-- The invariant of orderly runs. -/
structure Good (paging : Paging) (s : State) : Prop extends Calls s where
  shows_ : ∃ lo hi, Shows paging s lo hi
  /-- Nothing is shown until the feed has got somewhere. -/
  empty : s.newer = none → s.events = [] ∧ s.older = none

namespace Good

variable {s s' : State}

theorem new : Good paging State.new where
  calls := by simp [State.new]
  late := by simp [State.new]
  past := by simp [State.new]
  alone := by simp [State.new]
  made := by simp [State.new]
  unmade := by simp [State.new]
  fits := by simp [State.new]
  place := by simp [State.new]
  asked := by simp [State.new]
  shows_ := ⟨0, 0, by constructor <;> simp [State.new, Sees, Log.shown_self]⟩
  empty := by simp [State.new]

theorem same (h : Good paging s) (hcalls : Calls s') (hlog : s'.log = s.log)
    (hevents : s'.events = s.events) (hseen : s'.seen = s.seen) (hnewer : s'.newer = s.newer)
    (holder : s'.older = s.older) (hoffered : s'.hasOlder = s.hasOlder) (hcut : s'.cut = s.cut)
    (holders : s'.olders.Sublist s.olders) (hresets : s'.resets = s.resets)
    (hrun : s'.run = s.run ∨ s'.run = s.run + 1) : Good paging s' where
  toCalls := hcalls
  shows_ := by
    obtain ⟨lo, hi, hshows⟩ := h.shows_
    refine ⟨lo, hi, hshows.same hlog hevents hseen hnewer holder hoffered hcut holders ?_⟩
    intro o ho hcur
    obtain hrun | hrun := hrun
    · exact ⟨hcur.1.trans hrun, hcur.2.trans hresets⟩
    · have := (h.asked o (holders.subset ho)).1
      have := hcur.1
      omega
  empty := by
    rw [hnewer, hevents, holder]
    exact h.empty

theorem recorded (h : Good paging s) {row : Option ActivityEvent} {log : Log}
    (hlog : s.log.record row = some log) : Good paging { s with log := log } where
  toCalls := h.toCalls.same rfl rfl (by rw [Log.record_length hlog]; omega) (List.Sublist.refl _)
    rfl (fun _ ho => ho) rfl
  shows_ := by
    obtain ⟨lo, hi, hshows⟩ := h.shows_
    exact ⟨lo, hi, hshows.records hlog⟩
  empty := h.empty

theorem follow (h : Good paging s) (channel : Nat) : Good paging (s.follow channel) :=
  h.same (h.toCalls.follow channel) rfl rfl rfl rfl rfl rfl rfl (List.Sublist.refl _) rfl (.inr rfl)

theorem stop (h : Good paging s) : Good paging s.stop := by
  have hstopped : Good paging { s with run := s.run + 1, channel := none, subscription := none } :=
    h.same (h.toCalls.later rfl rfl rfl rfl rfl) rfl rfl rfl rfl rfl rfl rfl (List.Sublist.refl _)
      rfl (.inr rfl)
  unfold State.stop
  split
  · exact hstopped
  · exact hstopped.same (hstopped.toCalls.ends _) rfl rfl rfl rfl rfl rfl rfl
      (List.Sublist.refl _) rfl (.inl rfl)

theorem drops (h : Good paging s) (k : Nat) : Good paging (s.drops k) :=
  h.same (h.toCalls.same rfl rfl (Nat.le_refl _) (eraseIdx_sublist ..) rfl (fun _ ho => ho)
    rfl) rfl rfl rfl rfl rfl rfl rfl (List.Sublist.refl _) rfl (.inl rfl)

theorem asksOlder (h : Good paging s) : Good paging s.asksOlder := by
  unfold State.asksOlder
  split
  · rename_i channel cursor hchannel holder
    obtain ⟨lo, hi, hshows⟩ := h.shows_
    obtain rfl : cursor = lo := hshows.older cursor holder
    have hcut : s.cut = false := by
      cases hcut : s.cut with
      | false => rfl
      | true =>
        have hnone := (hshows.full hcut).2
        rw [holder] at hnone
        cases hnone
    have hsome : s.newer.isSome = true := by
      cases hnewer : s.newer with
      | some n => rfl
      | none =>
        have hnone := (h.empty hnewer).2
        rw [holder] at hnone
        cases hnone
    have hnew : Pending paging s cursor hi ⟨s.run, cursor, s.resets⟩ :=
      ⟨hsome, hshows.le, fun _ => .inl rfl, fun hyes => by rw [hcut] at hyes; cases hyes⟩
    have hold : ∀ o ∈ s.olders, o.current s → cursor ≤ o.cursor := by
      intro o ho hcur
      have := paging.within o.cursor
      obtain hcase | hcase := (hshows.pending o ho hcur).uncut hcut <;> omega
    have hpending : ∀ o ∈ s.olders ++ [(⟨s.run, cursor, s.resets⟩ : Older)], o.current s →
        Pending paging s cursor hi o := by
      intro o ho hcur
      obtain ho | ho := mem_append.mp ho
      · exact hshows.pending o ho hcur
      · rw [mem_singleton] at ho
        rw [ho]
        exact hnew
    have hasked : ∀ o ∈ s.olders ++ [(⟨s.run, cursor, s.resets⟩ : Older)],
        o.run ≤ s.run ∧ o.resets ≤ s.resets := by
      intro o ho
      obtain ho | ho := mem_append.mp ho
      · exact h.asked o ho
      · rw [mem_singleton] at ho
        rw [ho]
        exact ⟨Nat.le_refl _, Nat.le_refl _⟩
    refine ⟨⟨h.calls, h.late, h.past, h.alone, h.made, h.unmade, h.fits, h.place, hasked⟩,
      ⟨cursor, hi, { hshows with pending := ?_, back := ?_ }⟩, h.empty⟩
    · intro o ho hcur
      have hp := hpending o ho hcur
      exact ⟨hp.newer, hp.le, hp.uncut, hp.cut⟩
    · refine pairwise_append.mpr ⟨hshows.back, pairwise_singleton _ _, ?_⟩
      intro o ho o' ho' hcur _
      rw [mem_singleton] at ho'
      rw [ho']
      exact hold o ho hcur
  · exact h

theorem refused (h : Good paging s) {k : Nat} {f : Follow} (hf : s.follows[k]? = some f) :
    Good paging (s.refused k f) := by
  unfold State.refused
  split
  · rename_i after hphase
    split
    · rename_i hrun
      refine ⟨h.toCalls.moves (g := { f with phase := .listing }) hf hrun (by rw [hphase]; rfl) rfl
        rfl rfl rfl rfl rfl rfl (Nat.le_succ _), ⟨0, 0, ?_⟩, fun _ => ⟨rfl, rfl⟩⟩
      -- nothing is waited for that was asked before
      have hnone : ∀ o ∈ s.olders, ¬ o.current s.reset := by
        intro o ho hcur
        have hresets : o.resets = s.resets + 1 := hcur.2
        have := (h.asked o ho).2
        omega
      constructor
      · exact Nat.le_refl _
      · exact Nat.zero_le _
      · exact (Log.shown_self _ _).symm
      · exact fun _ => Iff.rfl
      · exact Nat.zero_le _
      · intro n hn; cases hn
      · intro o ho; cases ho
      · rfl
      · intro hcut; cases hcut
      · intro o ho hcur
        exact absurd hcur (hnone o ho)
      · obtain ⟨lo, hi, hshows⟩ := h.shows_
        exact hshows.back.imp_of_mem fun {o} _ ho _ _ hcur => absurd hcur (hnone o ho)
    · exact h.drops k
  · exact h.drops k
  · exact h.drops k
  · exact h.drops k

theorem listed (h : Good paging s) {k : Nat} {f : Follow} (hf : s.follows[k]? = some f)
    (hphase : f.phase = .listing) {place : Nat} (hplace : place ≤ s.log.length) :
    Good paging (s.listed k f (paging.page s.log place)) := by
  unfold State.listed
  split
  case isFalse => exact h.drops k
  rename_i hrun
  have hnone : s.newer = none := by
    have hfits := h.fits f (mem_of_getElem? hf) hrun
    rw [hphase] at hfits
    exact hfits
  obtain ⟨hevents, holder⟩ := h.empty hnone
  obtain ⟨lo, hi, hshows⟩ := h.shows_
  have hcut : s.cut = false := by
    cases hcut : s.cut with
    | false => rfl
    | true =>
      have hlength := (hshows.full hcut).1
      rw [hevents] at hlength
      cases hlength
  have hpage : (paging.page s.log place).events =
      s.log.shown (place - paging.back place) place := rfl
  have hpageNewer : (paging.page s.log place).newer = if place = 0 then none else some place := rfl
  have hpageOlder := page_older paging s.log place
  have hzero : place = 0 → (paging.page s.log place).older = none := by
    rintro rfl
    simp [Paging.page]
  generalize hp : paging.page s.log place = page at hpage hpageNewer hpageOlder hzero
  have hle : place - paging.back place ≤ place := Nat.sub_le ..
  obtain ⟨hlog', hnewer', hrun', hfollows', holders', hsubs', hresets'⟩ :=
    addAfter_leaves { s with older := page.older, newer := page.newer } page.events
  -- the feed with the page's cursor and before its events
  have hbase : Shows paging { s with older := page.older, hasOlder := page.older.isSome }
      (place - paging.back place) (place - paging.back place) := by
    have hany := hshows.anywhere hnone hevents holder (Nat.le_trans hle hplace)
    exact { hany with
      older := hpageOlder
      offered := rfl
      full := fun hyes => absurd (hcut.symm.trans hyes) Bool.false_ne_true
      pending := fun o ho hcur =>
        have hold := hany.pending o ho hcur
        ⟨hold.newer, hold.le, hold.uncut, hold.cut⟩ }
  have hadded : ∃ lo', Shows paging
      (({ s with older := page.older, newer := page.newer, hasOlder := page.older.isSome } :
        State).addAfter page.events) lo' place := by
    by_cases hzero' : place = 0
    · subst hzero'
      have hnil : page.events = [] := by
        rw [hpage, Nat.zero_sub]
        exact Log.shown_self _ _
      rw [hnil, hpageNewer, if_pos rfl]
      have hsame : ({ s with
          older := page.older
          newer := none
          hasOlder := page.older.isSome } : State).addAfter [] = { s with
          older := page.older
          hasOlder := page.older.isSome } := by
        rw [← hnone]
        rfl
      rw [hsame]
      rw [Nat.zero_sub] at hbase
      exact ⟨0, hbase⟩
    · rw [hpage, hpageNewer, if_neg hzero']
      exact hbase.extend hle hplace
  refine ⟨h.toCalls.moves (g := { f with phase := .subscribing page.newer }) hf hrun
    (by rw [hphase]; rfl) rfl rfl hnewer' hrun' ?_ hsubs' holders' (Nat.le_of_eq hresets'.symm),
    ?_, ?_⟩
  · dsimp only
    rw [hfollows']
  · obtain ⟨lo', hshown⟩ := hadded
    obtain ⟨c, hc⟩ := addAfter_offered { s with older := page.older, newer := page.newer }
      page.older.isSome page.events
    dsimp only at hc ⊢
    rw [hc] at hshown
    generalize ({ s with older := page.older, newer := page.newer } : State).addAfter
      page.events = u at hshown
    refine ⟨lo', place, hshown.same rfl rfl rfl rfl rfl ?_ rfl (List.Sublist.refl _) ?_⟩
    · exact hshown.offered.symm
    · exact fun _ _ hcur => hcur
  · intro hnewer
    have hpnone : page.newer = none := hnewer'.symm.trans hnewer
    have hzero' : place = 0 := by
      by_contra hne
      rw [hpageNewer, if_neg hne] at hpnone
      cases hpnone
    have hnil : page.events = [] := by
      rw [hpage, hzero', Nat.zero_sub]
      exact Log.shown_self _ _
    rw [hnil]
    exact ⟨hevents, hzero hzero'⟩

theorem subscribed (h : Good paging s) {k : Nat} {f : Follow} (hf : s.follows[k]? = some f)
    {n : Nat} {start : Option Nat × Nat} (hstart : starts s.log n f.phase = some start) :
    Good paging (s.subscribed k f start.1 start.2) := by
  obtain ⟨lo, hi, hshows⟩ := h.shows_
  have hfits := h.fits f (mem_of_getElem? hf)
  -- where the feed got to is something that was recorded
  have hwithin : ∀ after, s.newer = some after → after ≤ s.log.length := by
    intro after hafter
    rw [hshows.newer after hafter]
    exact hshows.within
  have hspec : f.phase.waits = true ∧ (f.run = s.run → start.2 ≤ s.log.length ∧
      (s.newer = some start.2 ∨ s.newer = none)) ∧
      (start.1 = some start.2 ∨ start.1 = none) := by
    cases hphase : f.phase with
    | catchingUp after =>
      rw [hphase] at hstart hfits
      cases hstart
      exact ⟨rfl, fun hrun => ⟨hwithin after (hfits hrun), .inl (hfits hrun)⟩, .inl rfl⟩
    | listing | subscribed i => rw [hphase] at hstart; cases hstart
    | subscribing after =>
      rw [hphase] at hstart hfits
      cases after with
      | some after =>
        cases hstart
        exact ⟨rfl, fun hrun => ⟨hwithin after (hfits hrun), .inl (hfits hrun)⟩, .inl rfl⟩
      | none =>
        unfold starts at hstart
        dsimp only at hstart
        split at hstart
        · rename_i hle
          cases hstart
          refine ⟨rfl, fun hrun => ⟨hle, .inr (hfits hrun)⟩, ?_⟩
          split
          · exact .inr rfl
          · exact .inl rfl
        · cases hstart
  obtain ⟨hwaits, hplace, hnewer⟩ := hspec
  exact h.same (h.toCalls.subscribed hf hwaits hplace hnewer) rfl rfl rfl rfl rfl rfl rfl
    (List.Sublist.refl _) rfl (.inl rfl)

theorem continues (h : Good paging s) {k i : Nat} {f : Follow} {sub : Subscription}
    (hf : s.follows[k]? = some f) (hphase : f.phase = .subscribed i)
    (hsub : s.subscriptions[i]? = some sub) : Good paging (s.continues k f i sub) := by
  unfold State.continues
  split
  case isFalse =>
    have hends : Good paging (s.ends i) := h.same (h.toCalls.ends i) rfl rfl rfl rfl rfl rfl rfl
      (List.Sublist.refl _) rfl (.inl rfl)
    exact hends.drops k
  rename_i hrun
  obtain ⟨sub', hsub', hsubrun⟩ := h.made f (mem_of_getElem? hf) i hphase
  cases hsub.symm.trans hsub'
  have hcurrent := hsubrun.trans hrun
  obtain ⟨hplace, hat, hnewer⟩ := h.place i sub hsub hcurrent
  obtain ⟨hlt, hget⟩ := List.getElem?_eq_some_iff.mp hsub
  have hset : s.subscriptions = s.subscriptions.set i sub := by
    rw [← hget]
    exact (set_getElem_self hlt).symm
  -- where the feed is then
  have hthen : (sub.newer.or s.newer = s.newer) ∨
      (s.newer = none ∧ sub.newer.or s.newer = some sub.place) := by
    obtain hsome | hnone := hnewer
    · obtain hat | hat := hat
      · exact .inl (by rw [hsome, hat]; rfl)
      · exact .inr ⟨hat, by rw [hsome]; rfl⟩
    · exact .inl (by rw [hnone]; rfl)
  have hcalls : Calls { s with
      subscription := some i
      newer := sub.newer.or s.newer
      follows := s.follows.eraseIdx k } := by
    refine h.toCalls.batch sub hsub hcurrent rfl hplace ?_ hnewer rfl rfl (eraseIdx_sublist ..)
      hset rfl rfl
    show sub.newer.or s.newer = some sub.place ∨ sub.newer.or s.newer = none
    obtain heq | ⟨-, heq⟩ := hthen
    · rw [heq]
      exact hat
    · exact .inl heq
  obtain heq | ⟨hnone, heq⟩ := hthen
  · exact h.same hcalls rfl rfl rfl heq rfl rfl rfl (List.Sublist.refl _) rfl (.inl rfl)
  · obtain ⟨lo, hi, hshows⟩ := h.shows_
    obtain ⟨hevents, holder⟩ := h.empty hnone
    have hany := hshows.anywhere hnone hevents holder hplace
    refine ⟨hcalls, ⟨sub.place, sub.place, { hany with newer := ?_, pending := ?_ }⟩, ?_⟩
    · intro n hn
      exact (Option.some.inj (heq.symm.trans hn)).symm
    · intro o ho hcur
      have hold := hany.pending o ho hcur
      have hsome := hold.newer
      rw [hnone] at hsome
      cases hsome
    · intro hnewer'
      have := heq.symm.trans hnewer'
      cases this

theorem paged (h : Good paging s) {k : Nat} {o : Older} (ho : s.olders[k]? = some o)
    (hfirst : ∀ earlier ∈ s.olders.take k, earlier.run ≠ o.run)
    (horderly : o.run = s.run → o.resets = s.resets ∧
      (s.cut = false ∨ (paging.page s.log o.cursor).events ≠ [])) :
    Good paging (s.paged k o (paging.page s.log o.cursor)) := by
  have hom : o ∈ s.olders := mem_of_getElem? ho
  have hsub : (s.olders.eraseIdx k).Sublist s.olders := eraseIdx_sublist ..
  have herased : Good paging { s with olders := s.olders.eraseIdx k } :=
    h.same (h.toCalls.same rfl rfl (Nat.le_refl _) (List.Sublist.refl _) rfl
      (fun _ ho' => hsub.subset ho') rfl) rfl rfl rfl rfl rfl rfl rfl hsub rfl (.inl rfl)
  unfold State.paged
  dsimp only
  split
  case isFalse => exact herased
  rename_i hrun
  obtain ⟨hresets, hpage⟩ := horderly hrun
  have hcurrent : o.current s := ⟨hrun, hresets⟩
  obtain ⟨lo, hi, hshows⟩ := h.shows_
  have hold := hshows.pending o hom hcurrent
  have hpending : Pending paging { s with olders := s.olders.eraseIdx k } lo hi o :=
    ⟨hold.newer, hold.le, hold.uncut, hold.cut⟩
  have hshows' : Shows paging { s with olders := s.olders.eraseIdx k } lo hi :=
    hshows.same rfl rfl rfl rfl rfl rfl rfl hsub fun _ _ hcur => hcur
  -- what was asked for before it in this run has come
  have hrest : ∀ o' ∈ s.olders.eraseIdx k, o'.current s → o'.cursor ≤ o.cursor := by
    intro o' ho' hcur
    obtain ⟨j, hjk, hj⟩ := mem_eraseIdx_iff_getElem?.mp ho'
    obtain ⟨hklt, hk⟩ := List.getElem?_eq_some_iff.mp ho
    obtain ⟨hjlt, hj'⟩ := List.getElem?_eq_some_iff.mp hj
    by_cases hlt : j < k
    · have hmem : o' ∈ s.olders.take k :=
        mem_of_getElem? ((List.getElem?_take_of_lt hlt).trans hj)
      exact absurd (hcur.1.trans hrun.symm) (hfirst o' hmem)
    · have hback := List.pairwise_iff_getElem.mp hshows.back k j hklt hjlt (by omega)
      rw [hk, hj'] at hback
      exact hback hcurrent hcur
  have hturned : ∃ lo', Shows paging
      (({ s with olders := s.olders.eraseIdx k } : State).turned
        (paging.page s.log o.cursor)) lo' hi := by
    by_cases hcut : s.cut = true
    · have hsome := hpage.resolve_left (by simp [hcut])
      exact ⟨lo, hshows'.turned_cut hcut hpending hsome⟩
    · exact hshows'.turned_uncut (by simpa using hcut) hpending hrest
  obtain ⟨hlog, hnewer, hrun', hfollows, holders, hsubs, hresets'⟩ :=
    turned_leaves { s with olders := s.olders.eraseIdx k } (paging.page s.log o.cursor)
  obtain ⟨lo', hshown⟩ := hturned
  refine ⟨herased.toCalls.same hrun' hnewer (Nat.le_of_eq (congrArg Log.length hlog.symm))
    (by rw [hfollows]) hsubs (fun o' ho' => holders ▸ ho') hresets', ⟨lo', hi, hshown⟩, ?_⟩
  intro hnone
  have hsome := hold.newer
  rw [show s.newer = none from hnewer.symm.trans hnone] at hsome
  cases hsome

theorem batch (h : Good paging s) {i : Nat} {sub : Subscription}
    (hsub : s.subscriptions[i]? = some sub) (hrun : sub.run = s.run) {place : Nat}
    (hlt : sub.place < place) (hplace : place ≤ s.log.length) :
    Good paging (s.batch i sub place) := by
  obtain ⟨lo, hi, hshows⟩ := h.shows_
  obtain ⟨hwithin, hat, -⟩ := h.place i sub hsub hrun
  have hhere : ∃ lo', Shows paging s lo' sub.place := by
    obtain hat | hat := hat
    · obtain rfl := hshows.newer sub.place hat
      exact ⟨lo, hshows⟩
    · obtain ⟨hevents, holder⟩ := h.empty hat
      exact ⟨sub.place, hshows.anywhere hat hevents holder hwithin⟩
  obtain ⟨lo', hhere⟩ := hhere
  have hmoved : Shows paging { s with
      subscriptions := s.subscriptions.set i ({ sub with newer := some place, place := place }) }
      lo' sub.place :=
    hhere.same rfl rfl rfl rfl rfl rfl rfl (List.Sublist.refl _) fun _ _ hcur => hcur
  obtain ⟨hi', hextended⟩ := hmoved.extend (Nat.le_of_lt hlt) hplace
  obtain ⟨hlog, hnewer, hrun', hfollows, holders, hsubs, hresets⟩ := addAfter_leaves
    { s with
      subscriptions := s.subscriptions.set i ({ sub with newer := some place, place := place })
      newer := some place } (s.log.shown sub.place place)
  have hsame : (s.batch i sub place).follows = s.follows := hfollows
  refine ⟨h.toCalls.batch ({ sub with newer := some place, place := place }) hsub hrun rfl hplace
    (.inl hnewer) (.inl rfl) hrun' hlog (by rw [hsame]) hsubs holders hresets,
    ⟨hi', place, hextended⟩, ?_⟩
  intro hnone
  have := hnewer.symm.trans hnone
  cases this

theorem ended (h : Good paging s) (i : Nat) (sub : Subscription) :
    Good paging (s.ended i sub) := by
  have hends : Good paging (s.ends i) := h.same (h.toCalls.ends i) rfl rfl rfl rfl rfl rfl rfl
    (List.Sublist.refl _) rfl (.inl rfl)
  unfold State.ended
  split
  · exact hends.same (hends.toCalls.same rfl rfl (Nat.le_refl _) (List.Sublist.refl _) rfl
      (fun _ ho => ho) rfl) rfl rfl rfl rfl rfl rfl rfl (List.Sublist.refl _) rfl (.inl rfl)
  · exact hends

theorem step {act : Act} (h : Good paging s) (ho : Orderly paging s act)
    (hs : step paging s act = some s') : Good paging s' := by
  cases act with
  | recorded row =>
    obtain ⟨log, hlog, hs⟩ := bind_eq_some_iff.mp hs
    cases hs
    exact h.recorded hlog
  | follow channel =>
    cases hs
    exact h.follow channel
  | stop =>
    cases hs
    exact h.stop
  | older =>
    cases hs
    exact h.asksOlder
  | refused k =>
    obtain ⟨f, hf, hs⟩ := bind_eq_some_iff.mp hs
    split at hs
    · cases hs
      exact h.refused hf
    · cases hs
  | unanswered k =>
    obtain ⟨f, -, hs⟩ := bind_eq_some_iff.mp hs
    split at hs
    · cases hs
      exact h.drops k
    · cases hs
  | listed k place =>
    obtain ⟨f, hf, hs⟩ := bind_eq_some_iff.mp hs
    split at hs
    · rename_i hlisted
      cases hs
      exact h.listed hf hlisted.1 hlisted.2
    · cases hs
  | subscribed k place =>
    obtain ⟨f, hf, hs⟩ := bind_eq_some_iff.mp hs
    obtain ⟨start, hstart, hs⟩ := bind_eq_some_iff.mp hs
    cases hs
    exact h.subscribed hf hstart
  | continues k =>
    obtain ⟨f, hf, hs⟩ := bind_eq_some_iff.mp hs
    split at hs
    · rename_i i hphase
      obtain ⟨sub, hsub, hs⟩ := bind_eq_some_iff.mp hs
      cases hs
      exact h.continues hf hphase hsub
    all_goals cases hs
  | paged k =>
    obtain ⟨o, hold, hs⟩ := bind_eq_some_iff.mp hs
    split at hs
    · rename_i hfirst
      cases hs
      refine h.paged hold ?_ (ho o hold)
      simpa using hfirst
    · cases hs
  | unpaged k =>
    dsimp only [Feed.step] at hs
    split at hs
    · cases hs
      have hsub : (s.olders.eraseIdx k).Sublist s.olders := eraseIdx_sublist ..
      exact h.same (h.toCalls.same rfl rfl (Nat.le_refl _) (List.Sublist.refl _) rfl
        (fun _ ho' => hsub.subset ho') rfl) rfl rfl rfl rfl rfl rfl rfl hsub rfl (.inl rfl)
    · cases hs
  | batch i place =>
    obtain ⟨sub, hsub, hs⟩ := bind_eq_some_iff.mp hs
    split at hs
    · rename_i hbatch
      cases hs
      exact h.batch hsub (ho sub hsub) hbatch.2.1 hbatch.2.2
    · cases hs
  | ended i =>
    obtain ⟨sub, -, hs⟩ := bind_eq_some_iff.mp hs
    split at hs
    · cases hs
    · cases hs
      exact h.ended i sub

end Good

/-- **In every run whose steps are orderly what is shown is exact**, in each state reached. -/
theorem feed_exact (paging : Paging) {s : State} {acts : List Act}
    (hmeets : Meets (step paging) (Orderly paging) State.new acts)
    (hrun : run (step paging) State.new acts = some s) : Exact s := by
  have hgood : Good paging s :=
    Meets.invariant (fun _ _ _ h ho hs => h.step ho hs) hmeets hrun Good.new
  obtain ⟨lo, hi, hshows⟩ := hgood.shows_
  exact hshows.exact

end

instance (paging : Paging) (s : State) : (act : Act) → Decidable (Orderly paging s act)
  | .batch i _ => inferInstanceAs (Decidable (∀ sub ∈ s.subscriptions[i]?, _))
  | .paged k => inferInstanceAs (Decidable (∀ o ∈ s.olders[k]?, _ → _ ∧ (_ ∨ _)))
  | .recorded _ | .follow _ | .stop | .older | .refused _ | .unanswered _ | .listed _ _
  | .subscribed _ _ | .continues _ | .unpaged _ | .ended _ => isTrue trivial

def oneRow : Paging where
  back n := min n 1
  some_ := by
    intro n hn
    omega
  within n := Nat.min_le_left n 1

def shownEvent (seq : Nat) (id : String) : Option ActivityEvent :=
  Activity.event noPayload (walkRow seq id)

def followedOn : List Act :=
  [.recorded (shownEvent 1 "e1"), .recorded (shownEvent 2 "e2"), .follow 1, .listed 0 2,
    .subscribed 0 0, .continues 0, .recorded (shownEvent 3 "e3"), .batch 0 3, .stop, .follow 2]

def olderThen : List Act := [.older, .paged 0, .subscribed 0 0, .continues 0]

theorem feed_exact_older : ∃ s, run (step oneRow) State.new (followedOn ++ olderThen) = some s ∧
    Exact s := by
  have hmeets : meets (step oneRow) (fun s act => decide (Orderly oneRow s act)) State.new
      (followedOn ++ olderThen) = true := by decide +kernel
  have hruns : (run (step oneRow) State.new (followedOn ++ olderThen)).isSome = true := by
    decide +kernel
  obtain ⟨s, hs⟩ := isSome_iff_exists.mp hruns
  have horderly : Meets (step oneRow) (Orderly oneRow) State.new (followedOn ++ olderThen) := by
    simpa only [decide_eq_true_eq] using meets_iff.mp hmeets
  exact ⟨s, hs, feed_exact oneRow horderly hs⟩

/-- The subscription is refused instead, and the older page comes before the first one does. -/
def clearedThen : List Act :=
  [.older, .recorded (shownEvent 4 "e4"), .refused 0, .paged 0, .listed 0 4]

/-- Then the oldest event and the newest are shown, and none of those between. -/
theorem gap_shown : ¬ ∀ (paging : Paging) (s : State) (acts : List Act),
    run (step paging) State.new acts = some s → Exact s := by
  intro h
  have hstate : (run (step oneRow) State.new (followedOn ++ clearedThen)).any (fun s => decide
      (s.log.length = 4 ∧ ∀ lo ∈ List.range 5, ∀ hi ∈ List.range 5,
        ¬ s.events = s.log.shown lo hi)) = true := by
    decide +kernel
  obtain ⟨s, hs, hend⟩ := (any_eq_true _ _).mp hstate
  obtain ⟨hlength, hnone⟩ := of_decide_eq_true hend
  obtain ⟨lo, hi, hle, hhi, hevents⟩ := (h oneRow s _ hs).contiguous
  exact hnone lo (by rw [mem_range]; omega) hi (by rw [mem_range]; omega) hevents

end Yardsort.Mobile.Feed
