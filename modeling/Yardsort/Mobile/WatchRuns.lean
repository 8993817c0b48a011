import Yardsort.Mobile.WatchKept

/- What is on the page over the runs of a watch: `Good` is the invariant of the runs whose steps are
   orderly, and `Drawing` what holds while what was held for an attachment is drawn. -/
namespace Yardsort.Mobile.Watch
open Yardsort.Lib Proto

section
variable {stream : Stream}

structure Good (stream : Stream) (s : State) : Prop extends Kept stream s, Faithful stream s where
  /-- While nothing is watched, the page is whole to the position that is kept. -/
  whole : s.attachment = none → ∀ p ∈ s.drawn, Whole stream s.shown p
  /-- What is watched is of the current run, and all that came of it is on the page. -/
  live : ∀ i ∈ s.attachment, ∃ a : Attachment, s.attachments[i]? = some a ∧
    a.run = s.run ∧ a.held = none ∧ Base stream s.shown a a.had
  /-- A call of the current run asked to go on from where the page ends. -/
  resumes : ∀ f ∈ s.follows, f.run = s.run → ∀ p ∈ f.resumeAfter, s.drawn = some p

section
variable (s : State)

theorem lets_attachment : s.lets.attachment = none := by
  unfold State.lets
  split
  · assumption
  · rfl

theorem lets_follows : s.lets.follows = s.follows := by
  unfold State.lets
  split <;> rfl

theorem lets_shown : s.lets.shown = s.shown := by
  unfold State.lets
  split <;> rfl

theorem lets_strayed : s.lets.strayed = s.strayed := by
  unfold State.lets
  split <;> rfl

theorem lets_drawn : s.lets.drawn = s.drawn := by
  unfold State.lets
  split <;> rfl

end

namespace Good

variable {s s' : State}

theorem new : Good stream State.new where
  follows := by simp [State.new]
  past := by simp [State.new]
  alone := by simp [State.new]
  calls := by simp [State.new]
  late := by simp [State.new]
  made := by simp [State.new]
  unmade := by simp [State.new]
  dealt := by simp [State.new]
  helds := by simp [State.new]
  exact := by simp [State.new]
  own := rfl
  whole := by simp [State.new]
  live := by simp [State.new]
  resumes := by simp [State.new]

theorem same (h : Good stream s) (hrun : s'.run = s.run) (hdrawn : s'.drawn = s.drawn)
    (hattachment : s'.attachment = s.attachment) (hattachments : s'.attachments = s.attachments)
    (hfollows : s'.follows = s.follows) (hshown : s'.shown = s.shown)
    (hstrayed : s'.strayed = s.strayed) : Good stream s' where
  toKept := h.toKept.same hrun hattachment hattachments hfollows
  exact := hshown ▸ h.exact
  own := hstrayed.trans h.own
  whole := by rw [hattachment, hdrawn, hshown]; exact h.whole
  live := by rw [hattachment, hattachments, hrun, hshown]; exact h.live
  resumes := by rw [hfollows, hrun, hdrawn]; exact h.resumes

theorem idle (h : Good stream s) {f : Follow} (hf : f ∈ s.follows) (hrun : f.run = s.run) :
    s.attachment = none := by
  cases hi : s.attachment with
  | none => rfl
  | some i =>
    obtain ⟨a, ha, harun, hheld, -⟩ := h.live i hi
    exact absurd (hrun.trans harun.symm) (h.no_call ha hheld f hf)

theorem remember (h : Good stream s) : ∀ p ∈ s.remember, Whole stream s.shown p := by
  intro p hp
  unfold State.remember at hp
  split at hp
  · rename_i hnone
    exact h.whole hnone p hp
  · rename_i i hi
    obtain ⟨a, ha, -, -, hbase⟩ := h.live i hi
    rw [ha] at hp
    exact hbase.whole (h.follows i a ha) hp

theorem forgets (h : Good stream s) (hcalls : ∀ f ∈ s.follows, f.run ≠ s.run) :
    Good stream { s with drawn := none } where
  toKept := h.toKept.same rfl rfl rfl rfl
  exact := h.exact
  own := h.own
  whole := by intro _ p hp; cases hp
  live := h.live
  resumes := fun f hf hrun => absurd hrun (hcalls f hf)

theorem gaveUp (h : Kept stream s) (hfaithful : Faithful stream s)
    (hwhole : ∀ p ∈ s'.drawn, Whole stream s.shown p) (hrun : s'.run = s.run + 1)
    (hattachment : s'.attachment = none) (hattachments : s'.attachments = s.lets.attachments)
    (hfollows : s'.follows = s.follows) (hshown : s'.shown = s.shown)
    (hstrayed : s'.strayed = s.strayed) : Good stream s' where
  toKept := h.gaveUp hrun hattachments hfollows
  exact := hshown ▸ hfaithful.exact
  own := hstrayed.trans hfaithful.own
  whole := fun _ => hshown ▸ hwhole
  live := by rw [hattachment]; intro i hi; cases hi
  resumes := by
    intro f hf hf'
    rw [hfollows] at hf
    have := h.late f hf
    omega

theorem follow (h : Good stream s) (hnone : s.attachment = none) (channel : Nat) :
    Good stream (s.follow channel) where
  toKept := h.toKept.follow channel
  exact := h.exact
  own := h.own
  whole := h.whole
  live := by
    intro i hi
    rw [show (s.follow channel).attachment = s.attachment from rfl, hnone] at hi
    cases hi
  resumes := by
    intro f hf hrun p hp
    have hrun : f.run = s.run + 1 := hrun
    obtain hf | hf := mem_append.mp hf
    · have := h.late f hf
      omega
    · rw [mem_singleton] at hf
      rw [hf] at hp
      exact hp

theorem stop (h : Good stream s) : Good stream s.stop :=
  gaveUp h.toKept h.toFaithful h.remember rfl (lets_attachment s) rfl (lets_follows s)
    (lets_shown s) (lets_strayed s)

theorem pageStarted (h : Good stream s) : Good stream s.pageStarted :=
  h.stop.forgets fun f hf => by
    have hfollows : s.stop.follows = s.follows := lets_follows s
    have := h.late f (hfollows ▸ hf)
    show f.run ≠ s.run + 1
    omega

theorem startsAgain (h : Good stream s) (hnone : s.attachment = none) (channel : Nat) :
    Good stream (s.startsAgain channel) := by
  have hcounted : Good stream { s with freshStarts := s.freshStarts + 1, movedOn := false } :=
    h.same rfl rfl rfl rfl rfl rfl rfl
  unfold State.startsAgain
  dsimp only
  split
  · exact hcounted.follow hnone channel
  · exact hcounted

theorem startOver (h : Good stream s) : Good stream s.startOver := by
  unfold State.startOver
  split
  · exact h.pageStarted
  · exact h.pageStarted.startsAgain (lets_attachment s) _

theorem tooLarge (h : Kept stream s) (hfaithful : Faithful stream s)
    (hwhole : ∀ p ∈ s.drawn, Whole stream s.shown p) : Good stream s.tooLarge := by
  refine gaveUp h hfaithful ?_ rfl (lets_attachment s) rfl (lets_follows s) (lets_shown s)
    (lets_strayed s)
  rw [show s.tooLarge.drawn = s.drawn from lets_drawn s]
  exact hwhole

theorem pageCaughtUp (h : Good stream s) : Good stream s.pageCaughtUp := by
  unfold State.pageCaughtUp
  split
  · exact h.same rfl rfl rfl rfl rfl rfl rfl
  · exact h

end Good

/-- Attachment `i` is dealt with, and `got` of it is on the page. -/
structure Drawing (stream : Stream) (s : State) (i : Nat) (a : Attachment) (got : List Item) :
    Prop extends Kept stream s where
  own : s.strayed = false
  watched : s.attachment = some i
  attached : s.attachments[i]? = some a
  current : a.run = s.run
  dealtWith : a.held = none
  base : Base stream s.shown a got

theorem State.hearsAll_held (s : State) (a : Attachment) (held : Option (List Told))
    (steps : List Told) (behind : List Bool) :
    s.hearsAll { a with held := held } steps behind = s.hearsAll a steps behind := by
  induction steps generalizing s behind with
  | nil => rfl
  | cons told steps ih =>
    have hhears : ∀ b, s.hears { a with held := held } b told = s.hears a b told := by
      intro b
      cases told <;> rfl
    rw [State.hearsAll, State.hearsAll, ih, hhears]

namespace Drawing

variable {s : State} {i : Nat} {a : Attachment} {got : List Item}

theorem good (h : Drawing stream s i a a.had) : Good stream s where
  toKept := h.toKept
  exact := h.base.exact (h.follows i a h.attached) (prefix_refl _)
  own := h.own
  whole := by
    rw [h.watched]
    intro hnone
    cases hnone
  live := by
    rw [h.watched]
    intro j hj
    cases hj
    exact ⟨a, h.attached, h.current, h.dealtWith, h.base⟩
  resumes := fun f hf hrun =>
    absurd (hrun.trans h.current.symm) (h.no_call h.attached h.dealtWith f hf)

theorem moved (h : Drawing stream s i a got) (b : Bool) :
    Drawing stream { s with movedOn := b } i a got where
  toKept := h.toKept.same rfl rfl rfl rfl
  own := h.own
  watched := h.watched
  attached := h.attached
  current := h.current
  dealtWith := h.dealtWith
  base := h.base

theorem draws (h : Drawing stream s i a got) (item : Item) :
    Drawing stream (s.draws a.run item) i a (got ++ [item]) where
  toKept := h.toKept.same rfl rfl rfl rfl
  own := by
    have hsome := h.base.isSome
    show (s.strayed || s.shown.isNone || decide (a.run ≠ s.run)) = false
    rw [h.own, h.current]
    simp [Option.isNone_eq_false_iff.mpr hsome]
  watched := h.watched
  attached := h.attached
  current := h.current
  dealtWith := h.dealtWith
  base := h.base.draws item

theorem hears (h : Drawing stream s i a got) {told : Told} (hfits : told.fits = true)
    (hopen : told.isEnd = false) :
    Drawing stream (s.hears a false told) i a (got ++ told.item.toList) := by
  cases told with
  | output bytes position => exact (h.moved _).draws (.write bytes)
  | resized size =>
    have hdrawable : drawable size = true := hfits
    rw [State.hears, if_pos hdrawable]
    exact h.draws (.resize size)
  | ended why => cases hopen

theorem ended (h : Drawing stream s i a a.had) (hended : a.ended = true) (why : AttachmentEnd)
    (channel : Nat) : Good stream (s.ended why channel) := by
  have hcalls : ∀ f ∈ s.follows, f.run ≠ s.run :=
    fun f hf => h.current ▸ h.no_call h.attached h.dealtWith f hf
  have hover : Good stream { s with attachment := none, drawn := s.remember } := {
    follows := h.follows
    past := h.past
    alone := h.alone
    calls := h.calls
    late := h.late
    made := h.made
    unmade := h.unmade
    dealt := by
      intro j b hb hbrun hbheld hbended
      have hj := h.dealt j b hb hbrun hbheld hbended
      rw [h.watched, Option.some.injEq] at hj
      subst hj
      cases h.attached.symm.trans hb
      rw [hended] at hbended
      cases hbended
    helds := h.helds
    exact := h.good.exact
    own := h.own
    whole := fun _ => h.good.remember
    live := by intro j hj; cases hj
    resumes := fun f hf hrun => absurd hrun (hcalls f hf) }
  have hagain : ∀ c,
      Good stream (State.again { s with attachment := none, drawn := s.remember } c) :=
    fun c => (hover.forgets hcalls).startsAgain rfl c
  cases why with
  | closed overloaded =>
    cases overloaded with
    | true => exact hover.forgets hcalls
    | false => exact hover
  | gap => exact hagain channel
  | detached resnapshotRequired =>
    cases resnapshotRequired with
    | true => exact hagain channel
    | false => exact hover
  | detachedHere => exact hover

theorem hears_last (h : Drawing stream s i a got) {told : Told} (behind : Bool)
    (hhad : got ++ told.item.toList = a.had) (hfits : told.fits = true)
    (hend : told.isEnd = true → a.ended = true) : Good stream (s.hears a behind told) := by
  cases told with
  | output bytes position =>
    have hdrawn := (h.moved (s.movedOn || s.past position)).draws (.write bytes)
    have hgood := (hhad ▸ hdrawn : Drawing stream _ i a a.had).good
    cases behind with
    | true => exact hgood.startOver
    | false => exact hgood
  | resized size =>
    have hdrawable : drawable size = true := hfits
    rw [State.hears, if_pos hdrawable]
    exact (hhad ▸ h.draws (.resize size) : Drawing stream _ i a a.had).good
  | ended why =>
    have hgot : got = a.had := by simpa [Told.item] using hhad
    subst hgot
    exact h.ended (hend rfl) why a.channel

theorem hears_all {steps : List Told} {behind : List Bool} (h : Drawing stream s i a got)
    (hhad : got ++ steps.filterMap Told.item = a.had) (hsettles : Settles steps behind)
    (hlast : ∀ told ∈ steps.dropLast, told.isEnd = false)
    (hend : ∀ told ∈ steps, told.isEnd = true → a.ended = true) :
    Good stream (s.hearsAll a steps behind) := by
  induction steps generalizing s got behind with
  | nil =>
    have hgot : got = a.had := by simpa using hhad
    subst hgot
    exact h.good
  | cons told steps ih =>
    obtain ⟨hfits, hbehind, hsettles⟩ := hsettles
    have hitem : [told].filterMap Told.item = told.item.toList := by
      cases told <;> rfl
    rw [← singleton_append, filterMap_append, hitem, ← append_assoc] at hhad
    cases steps with
    | nil =>
      rw [filterMap_nil, append_nil] at hhad
      exact h.hears_last _ hhad hfits (hend told (mem_cons_self ..))
    | cons next steps =>
      have hopen := hlast told (by simp)
      rw [State.hearsAll, hbehind (cons_ne_nil _ _)]
      refine ih (h.hears hfits hopen) hhad hsettles ?_ ?_
      · intro t ht
        exact hlast t (by simpa using .inr ht)
      · exact fun t ht => hend t (mem_cons_of_mem _ ht)

end Drawing

/-! ## Steps -/

namespace Good

variable {s : State}

theorem sets (h : Good stream s) {i : Nat} {b : Attachment}
    (hkept : Kept stream { s with attachments := s.attachments.set i b })
    (hother : s.attachment ≠ some i) :
    Good stream { s with attachments := s.attachments.set i b } where
  toKept := hkept
  exact := h.exact
  own := h.own
  whole := h.whole
  live := by
    intro j hj
    obtain ⟨a, ha, hrest⟩ := h.live j hj
    refine ⟨a, (get_set_ne ?_).trans ha, hrest⟩
    rintro rfl
    exact hother hj
  resumes := h.resumes

theorem detaches (h : Good stream s) (i : Nat) : Good stream (s.detaches i) where
  toKept := h.toKept.detaches i
  exact := h.exact
  own := h.own
  whole := h.whole
  live := by
    intro j hj
    obtain ⟨a, ha, hrun, hheld, hbase⟩ := h.live j hj
    by_cases hji : j = i
    · subst hji
      refine ⟨{ a with ended := true }, ?_, hrun, hheld, hbase⟩
      show (s.attachments.modify j _)[j]? = _
      rw [modify_eq_set ha, get_set_self ha]
    · refine ⟨a, ?_, hrun, hheld, hbase⟩
      show (s.attachments.modify i _)[j]? = _
      rw [List.getElem?_modify_ne _ _ (Ne.symm hji), ha]
  resumes := h.resumes

theorem unwatched (h : Good stream s) {i : Nat} {a : Attachment} (ha : s.attachments[i]? = some a)
    (hnot : a.run = s.run → a.held.isSome = true) : s.attachment ≠ some i := by
  intro hi
  obtain ⟨b, hb, hrun, hheld, -⟩ := h.live i hi
  cases ha.symm.trans hb
  have := hnot hrun
  rw [hheld] at this
  cases this

theorem ends (h : Good stream s) {i : Nat} {a : Attachment} (ha : s.attachments[i]? = some a)
    (hopen : a.ended = false) (why : AttachmentEnd) :
    Good stream ((s.detaches i).inTurn i false (.ended why)) := by
  have hat : (s.detaches i).attachments[i]? = some { a with ended := true } := by
    show (s.attachments.modify i _)[i]? = _
    rw [modify_eq_set ha, get_set_self ha]
  have hdetached := h.detaches i
  unfold State.inTurn
  rw [hat]
  dsimp only
  split
  · exact hdetached
  rename_i hrun
  have hrun : a.run = s.run := not_not.mp hrun
  split
  · rename_i hheld
    have hwatched := h.dealt i a ha hrun hheld hopen
    obtain ⟨b, hb, -, -, hbase⟩ := h.live i hwatched
    cases ha.symm.trans hb
    have hdrawing : Drawing stream (s.detaches i) i { a with ended := true } a.had := {
      toKept := hdetached.toKept
      own := h.own
      watched := hwatched
      attached := hat
      current := hrun
      dealtWith := hheld
      base := hbase.same rfl rfl }
    exact hdrawing.ended rfl why a.channel
  · rename_i steps hheld
    have hheld : a.held = some steps := hheld
    have hholds := h.helds i a steps ha hrun hheld
    have hunwatched := h.unwatched ha fun _ => by rw [hheld]; rfl
    refine hdetached.sets (hdetached.toKept.sets hat ?_ rfl rfl rfl ?_ id ?_) hunwatched
    · exact ((h.follows i a ha).ended true).held _
    · rw [hheld]; rfl
    · intro _ steps' hsteps'
      cases hsteps'
      refine ⟨?_, ?_, fun hended => by cases hended⟩
      · rw [filterMap_append, hholds.items]
        simp [Told.item]
      · rw [dropLast_concat]
        exact hholds.open_ hopen

theorem tells (h : Good stream s) {i : Nat} {a b : Attachment} (ha : s.attachments[i]? = some a)
    (hopen : a.ended = false) (hfollows : b.Follows stream) (hrun : b.run = a.run)
    (hheld : b.held = a.held) (hended : b.ended = a.ended) (hsnapshot : b.snapshot = a.snapshot)
    (hposition : b.position = a.position) {told : Told} {item : Item}
    (hitem : told.item = some item) (hhad : b.had = a.had ++ [item])
    (hlarge : a.run = s.run → a.held = none → told.fits = false → s.drawn = none)
    (behind : Bool) :
    Good stream (State.inTurn { s with attachments := s.attachments.set i b } i behind told) := by
  have htoldOpen : told.isEnd = false := by
    cases told with
    | ended why => cases hitem
    | output bytes position => rfl
    | resized size => rfl
  have hat : (s.attachments.set i b)[i]? = some b := get_set_self ha
  unfold State.inTurn
  rw [hat]
  dsimp only
  split
  -- in a run that is over nothing is told
  · rename_i hother
    have hother : a.run ≠ s.run := hrun ▸ hother
    have hkept := h.toKept.sets ha hfollows hrun hsnapshot hposition (by rw [hheld])
      (hended ▸ id) fun hcurrent => absurd hcurrent hother
    exact h.sets hkept (h.unwatched ha fun hcurrent => absurd hcurrent hother)
  · rename_i hcurrent
    have hcurrent : a.run = s.run := hrun ▸ not_not.mp hcurrent
    split
    · rename_i hnone
      have hnone' : a.held = none := hheld.symm.trans hnone
      have hkept := h.toKept.sets ha hfollows hrun hsnapshot hposition (by rw [hheld])
        (hended ▸ id) fun _ steps hsteps => by rw [hnone] at hsteps; cases hsteps
      have hwatched := h.dealt i a ha hcurrent hnone' hopen
      obtain ⟨c, hc, -, -, hbase⟩ := h.live i hwatched
      cases ha.symm.trans hc
      have hdrawing : Drawing stream { s with attachments := s.attachments.set i b } i b a.had := {
        toKept := hkept
        own := h.own
        watched := hwatched
        attached := hat
        current := hrun.trans hcurrent
        dealtWith := hnone
        base := hbase.same hsnapshot hposition }
      cases hfits : told.fits with
      | true =>
        refine hdrawing.hears_last behind ?_ hfits fun hend => ?_
        · rw [hitem, hhad]; rfl
        · rw [htoldOpen] at hend; cases hend
      | false =>
        -- too large: the position kept from before the attachment stays
        cases told with
        | output bytes position => cases hfits
        | ended why => cases hfits
        | resized size =>
          have hdrawn := hlarge hcurrent hnone' hfits
          have hnot : ¬ drawable size = true := by
            rw [show drawable size = false from hfits]
            exact Bool.false_ne_true
          rw [State.hears, if_neg hnot]
          refine tooLarge hkept ⟨h.exact, h.own⟩ ?_
          show ∀ p ∈ s.drawn, _
          rw [hdrawn]
          intro p hp
          cases hp
    · rename_i steps hsteps
      have hsteps' : a.held = some steps := hheld.symm.trans hsteps
      have hholds := h.helds i a steps ha hcurrent hsteps'
      have hunwatched := h.unwatched ha fun _ => by rw [hsteps']; rfl
      rw [List.set_set]
      have htoldItem : [told].filterMap Told.item = [item] := by
        rw [filterMap_cons_some hitem, filterMap_nil]
      refine h.sets (h.toKept.sets ha (hfollows.held _) hrun hsnapshot hposition ?_ ?_ ?_)
        hunwatched
      · rw [hsteps']; rfl
      · exact hended ▸ id
      · intro _ steps' hsteps'
        cases hsteps'
        refine ⟨?_, ?_, fun _ => ?_⟩
        · rw [filterMap_append, hholds.items, htoldItem]
          exact hhad.symm
        · rw [dropLast_concat]
          exact hholds.open_ hopen
        · intro t ht
          obtain ht | ht := mem_append.mp ht
          · exact hholds.open_ hopen t ht
          · rw [mem_singleton] at ht
            rw [ht]
            exact htoldOpen

theorem came (h : Good stream s) {i : Nat} {a : Attachment} (ha : s.attachments[i]? = some a)
    (hopen : a.ended = false) {frame : Frame} (hnumbered : Numbered stream a frame)
    (hlarge : a.run = s.run → a.held = none →
      ∀ size, frame.item = .resize size → drawable size = false → s.drawn = none)
    (behind : Bool) : Good stream (s.came stream i a frame behind) := by
  unfold State.came
  split
  · rename_i haccepts
    have hfollows := (h.follows i a ha).takes haccepts hnumbered
    obtain ⟨position, item⟩ := frame
    cases item with
    | write bytes =>
      refine h.tells ha hopen hfollows rfl rfl rfl rfl rfl rfl rfl ?_ behind
      intro _ _ hfits
      cases hfits
    | resize size =>
      refine h.tells ha hopen hfollows rfl rfl rfl rfl rfl rfl rfl ?_ behind
      exact fun hcurrent hnone hfits => hlarge hcurrent hnone size rfl hfits
  · exact h.ends ha hopen .gap

theorem begins (h : Good stream s) {k i : Nat} {f : Follow} {a : Attachment}
    (hf : s.follows[k]? = some f) (hmade : f.made = some i) (ha : s.attachments[i]? = some a)
    (hrun : f.run = s.run) {behind : List Bool}
    (hsettles : drawable a.size = true → Settles (a.held.getD []) behind) :
    Good stream (({ s with follows := s.follows.eraseIdx k } : State).begins i a behind) := by
  have hfm : f ∈ s.follows := mem_of_getElem? hf
  have hidle := h.idle hfm hrun
  obtain ⟨b, hb, harun, hheld, hresume⟩ := h.made f hfm i hmade
  cases ha.symm.trans hb
  obtain ⟨steps, hsteps⟩ := isSome_iff_exists.mp hheld
  have hholds := h.helds i a steps ha (harun.trans hrun) hsteps
  unfold State.begins
  split
  · have hfewer : Kept stream { s with follows := s.follows.eraseIdx k } :=
      h.toKept.fewer rfl rfl rfl (eraseIdx_sublist ..)
    have hwatched : Kept stream
        { s with attachment := some i, follows := s.follows.eraseIdx k } := by
      refine { hfewer with dealt := ?_ }
      intro j c hc hcrun hcheld hcended
      have hj := h.dealt j c hc hcrun hcheld hcended
      rw [hidle] at hj
      cases hj
    exact tooLarge hwatched ⟨h.exact, h.own⟩ (h.whole hidle)
  · rename_i hsize
    have hsize : drawable a.size = true := by simpa using hsize
    have hsettles := hsettles hsize
    rw [hsteps, getD_some] at hsettles ⊢
    have hend : ∀ told ∈ steps, told.isEnd = true → a.ended = true := by
      intro told htold hisEnd
      by_contra hopen
      have := hholds.open_ (by simpa using hopen) told htold
      rw [hisEnd] at this
      cases this
    have hhad : [] ++ steps.filterMap Told.item = a.had := hholds.items
    -- whatever the page is then, it ends where the attachment starts
    have hdraw : ∀ s' : State, s'.run = s.run → s'.attachment = some i →
        s'.attachments = s.attachments.set i { a with held := none } →
        s'.follows = s.follows.eraseIdx k → s'.strayed = false →
        Base stream s'.shown { a with held := none } [] →
        Good stream (s'.hearsAll a steps behind) := by
      intro s' hrun' hattachment hattachments hfollows hown hbase
      have hdrawing : Drawing stream s' i { a with held := none } [] := {
        toKept := h.toKept.deals hf ha hrun harun hattachment hrun' hattachments hfollows
        own := hown
        watched := hattachment
        attached := by rw [hattachments, get_set_self ha]
        current := (harun.trans hrun).trans hrun'.symm
        dealtWith := rfl
        base := hbase }
      rw [← State.hearsAll_held s' a none]
      exact hdrawing.hears_all hhad hsettles hholds.last hend
    cases hsnapshot : a.snapshot with
    | none =>
      refine hdraw _ rfl rfl (by rw [hsnapshot]) rfl h.own ?_
      have hdrawn := h.resumes f hfm hrun _ (hresume hsnapshot)
      obtain ⟨page, hshown, hpage⟩ := h.whole hidle _ hdrawn
      unfold Base
      rw [show ({ a with held := none } : Attachment).snapshot = none from hsnapshot]
      exact ⟨page, page, ⟨page, rfl, hpage⟩, hshown, by simp⟩
    | some snapshot =>
      refine hdraw _ rfl rfl (by rw [hsnapshot]; rfl) rfl ?_ ?_
      · show (s.strayed || decide (a.run ≠ s.run)) = false
        rw [h.own, harun, hrun]
        simp
      · unfold Base
        rw [show ({ a with held := none } : Attachment).snapshot = some snapshot from hsnapshot]
        rfl

theorem others_same (h : Good stream s) {s' : State} (hkept : Kept stream s')
    (hrun : s'.run = s.run) (hdrawn : s'.drawn = s.drawn)
    (hattachment : s'.attachment = s.attachment)
    (hattachments : ∀ (i : Nat) (a : Attachment), s.attachments[i]? = some a →
      s'.attachments[i]? = some a)
    (hshown : s'.shown = s.shown) (hstrayed : s'.strayed = s.strayed)
    (hcalls : ∀ f ∈ s'.follows, ∃ g ∈ s.follows, g.run = f.run ∧ g.resumeAfter = f.resumeAfter) :
    Good stream s' where
  toKept := hkept
  exact := hshown ▸ h.exact
  own := hstrayed.trans h.own
  whole := by rw [hattachment, hdrawn, hshown]; exact h.whole
  live := by
    rw [hattachment, hrun, hshown]
    intro i hi
    obtain ⟨a, ha, hrest⟩ := h.live i hi
    exact ⟨a, hattachments i a ha, hrest⟩
  resumes := by
    intro f hf hfrun p hp
    obtain ⟨g, hg, hgrun, hgresume⟩ := hcalls f hf
    rw [hdrawn]
    exact h.resumes g hg (hgrun.trans (hfrun.trans hrun)) p (hgresume ▸ hp)

theorem drops (h : Good stream s) (k : Nat) :
    Good stream { s with follows := s.follows.eraseIdx k } :=
  h.others_same (h.toKept.fewer rfl rfl rfl (eraseIdx_sublist ..)) rfl rfl rfl
    (fun _ _ ha => ha) rfl rfl fun f hf => ⟨f, (eraseIdx_sublist ..).subset hf, rfl, rfl⟩

theorem attached (h : Good stream s) {k : Nat} {f : Follow} (hf : s.follows[k]? = some f)
    (hmade : f.made = none) {snapshot : Option (List Item)} {position : Position} (size : TermSize)
    (hreplies : Replies f.resumeAfter position snapshot) :
    Good stream (s.attached k f snapshot position size) := by
  refine h.others_same (h.toKept.attached hf hmade hreplies) rfl rfl rfl ?_ rfl rfl ?_
  · intro i a ha
    exact get_append_left ha
  · intro g hg
    obtain hg | rfl := mem_or_eq_of_mem_set hg
    · exact ⟨g, hg, rfl, rfl⟩
    · exact ⟨f, mem_of_getElem? hf, rfl, rfl⟩

theorem refused (h : Good stream s) {k : Nat} {f : Follow} (hf : s.follows[k]? = some f)
    (hmade : f.made = none) : Good stream (s.refused k f) := by
  unfold State.refused
  split
  -- the other calls are of runs that are over, and this one asks for a snapshot
  · rename_i hagain
    have hkept := h.toKept.recalled (g := { f with resumeAfter := none }) hf rfl
      (by rw [hmade]; simp) (fun _ => hmade)
    have hresumes : ∀ g ∈ s.follows.set k { f with resumeAfter := none }, g.run = s.run →
        g.resumeAfter = none := by
      intro g hg hgrun
      obtain rfl | hg := mem_set_erase hf hg
      · rfl
      · exact absurd (hgrun.trans hagain.2.symm) (h.others hf hg)
    exact {
      toKept := hkept.same rfl rfl rfl rfl
      exact := h.exact
      own := h.own
      whole := by intro _ p hp; cases hp
      live := h.live
      resumes := by
        intro g hg hgrun p hp
        rw [hresumes g hg hgrun] at hp
        cases hp }
  · exact h.drops k

theorem returned (h : Good stream s) {k : Nat} {f : Follow} (hf : s.follows[k]? = some f)
    (i : Nat) : Good stream (s.returned k f i) := by
  have hfm : f ∈ s.follows := mem_of_getElem? hf
  unfold State.returned
  split
  · have hkept := h.toKept.recalled (g := { f with returned := true }) hf rfl (h.made f hfm)
      (fun hnone => hnone)
    refine h.others_same hkept rfl rfl rfl (fun _ _ ha => ha) rfl rfl ?_
    intro g hg
    obtain hg | rfl := mem_or_eq_of_mem_set hg
    · exact ⟨g, hg, rfl, rfl⟩
    · exact ⟨f, hfm, rfl, rfl⟩
  · exact (h.detaches i).drops k

theorem step {s' : State} {act : Act} (h : Good stream s) (ho : Orderly s act)
    (hs : step stream s act = some s') : Good stream s' := by
  cases act with
  | follow channel =>
    cases hs
    exact h.follow ho channel
  | stop =>
    cases hs
    exact h.stop
  | pageStarted =>
    cases hs
    exact h.pageStarted
  | startOver =>
    cases hs
    exact h.startOver
  | pageCaughtUp =>
    cases hs
    exact h.pageCaughtUp
  | attached k snapshot position size =>
    obtain ⟨f, hf, hs⟩ := bind_eq_some_iff.mp hs
    split at hs
    · rename_i hreply
      cases hs
      exact h.attached hf hreply.1 size hreply.2
    · cases hs
  | refused k =>
    obtain ⟨f, hf, hs⟩ := bind_eq_some_iff.mp hs
    split at hs
    · rename_i hmade
      cases hs
      exact h.refused hf hmade
    · cases hs
  | unanswered k =>
    obtain ⟨f, hf, hs⟩ := bind_eq_some_iff.mp hs
    split at hs
    · cases hs
      exact h.drops k
    · cases hs
  | returned k =>
    obtain ⟨f, hf, hs⟩ := bind_eq_some_iff.mp hs
    obtain ⟨i, -, hs⟩ := bind_eq_some_iff.mp hs
    split at hs
    · cases hs
    · cases hs
      exact h.returned hf i
  | deals k behind =>
    obtain ⟨f, hf, hs⟩ := bind_eq_some_iff.mp hs
    obtain ⟨i, hmade, hs⟩ := bind_eq_some_iff.mp hs
    obtain ⟨a, ha, hs⟩ := bind_eq_some_iff.mp hs
    split at hs
    · cases hs
      obtain ⟨hrun, hsettles⟩ := ho f hf i hmade a ha
      exact h.begins hf hmade ha hrun hsettles
    · cases hs
  | came i frame behind =>
    obtain ⟨a, ha, hs⟩ := bind_eq_some_iff.mp hs
    split at hs
    · rename_i hcame
      cases hs
      exact h.came ha hcame.1 hcame.2 (ho a ha) behind
    · cases hs
  | ends i why =>
    obtain ⟨a, ha, hs⟩ := bind_eq_some_iff.mp hs
    split at hs
    · cases hs
    · rename_i hopen
      cases hs
      exact h.ends ha (by simpa using hopen) why

end Good

/-- **In every run whose steps are orderly the page is faithful**, in each state reached. -/
theorem page_faithful (stream : Stream) {s : State} {acts : List Act}
    (hmeets : Meets (step stream) Orderly State.new acts)
    (hrun : run (step stream) State.new acts = some s) : Faithful stream s :=
  (Meets.invariant (fun _ _ _ h ho hs => h.step ho hs) hmeets hrun Good.new).toFaithful

end

instance (P : TermSize → Prop) [DecidablePred P] :
    (item : Item) → Decidable (∀ size, item = .resize size → P size)
  | .write _ => isTrue fun _ h => nomatch h
  | .resize size => decidable_of_iff (P size)
      ⟨fun h _ heq => by cases heq; exact h, fun h => h _ rfl⟩

instance (s : State) : (act : Act) → Decidable (Orderly s act)
  | .follow _ => inferInstanceAs (Decidable (s.attachment = none))
  | .deals k _ => inferInstanceAs (Decidable (∀ f ∈ s.follows[k]?, ∀ i ∈ f.made,
      ∀ a ∈ s.attachments[i]?, _ ∧ (_ → _)))
  | .came i _ _ => inferInstanceAs (Decidable (∀ a ∈ s.attachments[i]?, _ → _ → _))
  | .stop | .pageStarted | .startOver | .pageCaughtUp | .attached _ _ _ _ | .refused _
  | .unanswered _ | .returned _ | .ends _ _ => isTrue trivial

/-- Output, but for a terminal that was made too large at 7 and small again at 8. -/
def madeLarge : Stream where
  item _ n :=
    if n = 7 then [.resize ⟨2000, 24⟩] else if n = 8 then [.resize ⟨80, 24⟩] else [.write [0x61]]
  some_ := by
    intro _ n
    split
    · simp
    · split <;> simp
  piece := by
    intro _ n
    split
    · trivial
    · split <;> trivial

def resumed : List Act :=
  [.follow 1, .attached 0 (some [.write [0x41]]) ⟨1, 5⟩ ⟨80, 24⟩, .returned 0, .deals 0 [],
    .came 0 ⟨⟨1, 5⟩, .write [0x41]⟩ false, .stop, .follow 2, .attached 0 none ⟨1, 5⟩ ⟨80, 24⟩,
    .came 1 ⟨⟨1, 6⟩, .write [0x61]⟩ false, .returned 0, .deals 0 []]

theorem page_faithful_resumed : ∃ s, run (step madeLarge) State.new resumed = some s ∧
    Faithful madeLarge s := by
  have hmeets : meets (step madeLarge) (fun s act => decide (Orderly s act)) State.new
      resumed = true := by decide +kernel
  have hruns : (run (step madeLarge) State.new resumed).isSome = true := by decide +kernel
  obtain ⟨s, hs⟩ := isSome_iff_exists.mp hruns
  have horderly : Meets (step madeLarge) Orderly State.new resumed := by
    simpa only [decide_eq_true_eq] using meets_iff.mp hmeets
  exact ⟨s, hs, page_faithful madeLarge horderly hs⟩

/-- After a size too large, a watch goes on from the position before, and draws again what it
    drew. -/
theorem drawn_again : ¬ ∀ (stream : Stream) (s : State) (acts : List Act),
    run (step stream) State.new acts = some s → Faithful stream s := by
  intro h
  let again : List Act :=
    [.came 1 ⟨⟨1, 7⟩, .resize ⟨2000, 24⟩⟩ false, .follow 3, .attached 0 none ⟨1, 5⟩ ⟨80, 24⟩,
      .returned 0, .deals 0 [], .came 2 ⟨⟨1, 6⟩, .write [0x61]⟩ false]
  have hruns : (run (step madeLarge) State.new (resumed ++ again)).any (fun s => decide
      (s.shown = some ⟨⟨1, 5⟩, [.write [0x41]], [.write [0x41], .write [0x61], .write [0x61]]⟩)) =
      true := by decide +kernel
  obtain ⟨s, hs, hshown⟩ := (any_eq_true _ _).mp hruns
  obtain ⟨n, hn⟩ := (h madeLarge s _ hs).exact _ (of_decide_eq_true hshown)
  match n with
  | 0 | 1 => revert hn; decide
  | n + 2 =>
    simp [Stream.framesFrom, madeLarge] at hn

end Yardsort.Mobile.Watch
