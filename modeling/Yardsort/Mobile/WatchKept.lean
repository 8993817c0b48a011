import Yardsort.Mobile.Watch
import Yardsort.Lib.Table

/- What holds of a watch's calls and attachments, step by step.

   An attachment has had some frames of its stream, `Follows` says which. What is on the page is
   tied to the attachment that is watched (`Base`), or, while none is, to the position that is kept
   (`Whole`), so that a follow which resumes from there goes on where the page ends. `Kept` is what
   holds of calls and attachments beside. -/
namespace Yardsort.Mobile.Watch
open Yardsort.Lib Proto

/-! ## The stream and an attachment -/

variable {a : Attachment}

section
variable {stream : Stream}

theorem Stream.framesFrom_add (e s m n : Nat) :
    stream.framesFrom e s (m + n) = stream.framesFrom e s m ++ stream.framesFrom e (s + m) n := by
  induction m generalizing s with
  | zero => simp [framesFrom]
  | succ m ih =>
    rw [Nat.add_right_comm, framesFrom, framesFrom, ih, append_assoc]
    congr 3
    omega

theorem Stream.framesFrom_succ (e s n : Nat) :
    stream.framesFrom e s (n + 1) = stream.framesFrom e s n ++ stream.item e (s + n + 1) := by
  rw [framesFrom_add]
  simp [framesFrom]

theorem Piece.tail {item : Item} {frames : List Item} (h : Piece (item :: frames)) :
    Piece frames := by
  cases frames with
  | nil => trivial
  | cons frame frames =>
    cases item with
    | write bytes => exact h.2
    | resize size => exact h.elim

theorem Piece.last {bytes : Bytes} {frames : List Item} (h : Piece (.write bytes :: frames))
    (hlen : bytes.length ≠ MAX_OUTPUT_CHUNK) : frames = [] := by
  cases frames with
  | nil => rfl
  | cons frame frames => exact absurd h.1 hlen

theorem Piece.resize {size : TermSize} {frames : List Item}
    (h : Piece (.resize size :: frames)) : frames = [] := by
  cases frames with
  | nil => rfl
  | cons frame frames => exact h.elim

namespace Attachment

/-- What came is the snapshot and the stream after the attachment's position as far as item `due`,
    but for the frames that are ahead. -/
structure Follows (stream : Stream) (a : Attachment) : Prop where
  begun : a.position.seq ≤ a.due
  came : a.had ++ a.ahead = a.snapshot.getD [] ++
    stream.framesFrom a.position.epoch a.position.seq (a.due - a.position.seq)
  piece : Piece a.ahead
  /-- The next number is the one after `due`, once a frame of it came. -/
  number : a.drewAny = true → a.next = a.due + 1
  /-- Nothing is ahead where the last frame was the last of its item. -/
  whole : a.drewAny = true → a.mayContinue = false → a.ahead = []
  /-- A snapshot is writes, and one that nothing came of is still ahead. -/
  undrawn : a.drewAny = false → a.had = [] ∧ a.ahead ≠ [] ∧ a.ahead.all Item.isWrite = true

theorem new_follows {resumeAfter : Option Position} {position : Position} {size : TermSize}
    {snapshot : Option (List Item)} (run channel : Nat)
    (h : Replies resumeAfter position snapshot) :
    (Attachment.new snapshot position size run channel).Follows stream where
  begun := Nat.le_refl _
  came := by
    simp only [Attachment.new, Nat.sub_self, Stream.framesFrom]
    simp
  piece := by
    cases snapshot with
    | none => trivial
    | some snapshot => exact h.2.1
  number := by
    cases snapshot with
    | none => intro _; rfl
    | some snapshot => intro hdrew; cases hdrew
  whole := by
    cases snapshot with
    | none => intro _ _; rfl
    | some snapshot => intro hdrew; cases hdrew
  undrawn := by
    cases snapshot with
    | none => intro hdrew; cases hdrew
    | some snapshot => intro _; exact ⟨rfl, h.1, h.2.2⟩

theorem Follows.expected (h : a.Follows stream) :
    (a.expected stream).1 ≠ [] ∧ Piece (a.expected stream).1 ∧
      a.position.seq ≤ (a.expected stream).2 ∧
      a.had ++ (a.expected stream).1 = a.snapshot.getD [] ++
        stream.framesFrom a.position.epoch a.position.seq
          ((a.expected stream).2 - a.position.seq) := by
  have hbegun := h.begun
  have hcame := h.came
  cases hahead : a.ahead with
  | cons frame frames =>
    have hexpected : a.expected stream = (frame :: frames, a.due) := by
      simp only [Attachment.expected, hahead]
    rw [hahead] at hcame
    rw [hexpected]
    exact ⟨cons_ne_nil _ _, hahead ▸ h.piece, hbegun, hcame⟩
  | nil =>
    have hexpected : a.expected stream = (stream.item a.position.epoch (a.due + 1), a.due + 1) := by
      simp only [Attachment.expected, hahead]
    rw [hahead, append_nil] at hcame
    rw [hexpected]
    refine ⟨stream.some_ _ _, stream.piece _ _, Nat.le_succ_of_le hbegun, ?_⟩
    have hsub : a.due + 1 - a.position.seq = (a.due - a.position.seq) + 1 := by omega
    have hadd : a.position.seq + (a.due - a.position.seq) + 1 = a.due + 1 := by omega
    show a.had ++ stream.item a.position.epoch (a.due + 1) = _ ++
      stream.framesFrom a.position.epoch a.position.seq (a.due + 1 - a.position.seq)
    rw [hcame, hsub, Stream.framesFrom_succ, hadd, append_assoc]

theorem Follows.opens {a : Attachment} (h : a.Follows stream) {size : TermSize}
    (hhead : (a.expected stream).1.head? = some (.resize size)) : a.drewAny = true := by
  by_contra hdrew
  obtain ⟨-, hne, hwrites⟩ := h.undrawn (by simpa using hdrew)
  cases hahead : a.ahead with
  | nil => exact hne hahead
  | cons frame frames =>
    simp only [Attachment.expected, hahead, List.head?_cons, Option.some.injEq] at hhead
    rw [hahead, hhead] at hwrites
    simp [Item.isWrite] at hwrites

theorem Follows.takes (h : a.Follows stream) {frame : Frame} (haccepts : a.accepts frame = true)
    (hnumbered : Numbered stream a frame) :
    (a.takes stream frame).Follows stream := by
  obtain ⟨hhead, hseq⟩ := hnumbered haccepts
  obtain ⟨hne, hpiece, hbegun, hcame⟩ := h.expected
  obtain ⟨position, item⟩ := frame
  cases hframes : (a.expected stream).1 with
  | nil => exact absurd hframes hne
  | cons first frames =>
    rw [hframes, List.head?_cons, Option.some.injEq] at hhead
    subst hhead
    rw [hframes] at hpiece hcame
    have hhad : (a.had ++ [first]) ++ frames = a.snapshot.getD [] ++
        stream.framesFrom a.position.epoch a.position.seq
          ((a.expected stream).2 - a.position.seq) := by
      rw [append_assoc]
      exact hcame
    have htail : (a.expected stream).1.tail = frames := by rw [hframes]; rfl
    have hnext : position.seq + 1 = (a.expected stream).2 + 1 := congrArg (· + 1) hseq
    cases first with
    | write bytes =>
      refine ⟨hbegun, ?_, ?_, fun _ => hnext, ?_, fun hdrew => ?_⟩
      · simpa only [Attachment.takes, htail] using hhad
      · simpa only [Attachment.takes, htail] using hpiece.tail
      · intro _ hmay
        show (a.expected stream).1.tail = []
        rw [htail]
        refine hpiece.last fun hlen => ?_
        simp [Attachment.takes, hlen] at hmay
      · simp [Attachment.takes] at hdrew
    | resize size =>
      have hdrewAny : a.drewAny = true := h.opens (by rw [hframes]; rfl)
      refine ⟨hbegun, ?_, ?_, fun _ => hnext, ?_, fun hdrew => ?_⟩
      · simpa only [Attachment.takes, htail] using hhad
      · simpa only [Attachment.takes, htail] using hpiece.tail
      · intro _ _
        show (a.expected stream).1.tail = []
        rw [htail]
        exact hpiece.resize
      · simp [Attachment.takes, hdrewAny] at hdrew

theorem Follows.drawn (h : a.Follows stream) {p : Position} (hp : a.drawn = some p) :
    a.ahead = [] ∧ p = ⟨a.position.epoch, a.due⟩ := by
  unfold Attachment.drawn at hp
  split at hp
  · cases hp
  rename_i hdrawn
  have hboth : a.drewAny = true ∧ a.mayContinue = false := by
    simpa using hdrawn
  refine ⟨h.whole hboth.1 hboth.2, ?_⟩
  have hnext := h.number hboth.1
  rw [← Option.some.inj hp, hnext]
  rfl

theorem Follows.ended {a : Attachment} (h : a.Follows stream) (b : Bool) :
    ({ a with ended := b } : Attachment).Follows stream :=
  ⟨h.begun, h.came, h.piece, h.number, h.whole, h.undrawn⟩

theorem Follows.held (h : a.Follows stream) (steps : Option (List Told)) :
    ({ a with held := steps } : Attachment).Follows stream :=
  ⟨h.begun, h.came, h.piece, h.number, h.whole, h.undrawn⟩

end Attachment

def Whole (stream : Stream) (shown : Option Shown) (p : Position) : Prop :=
  ∃ page, shown = some page ∧ page.position.epoch = p.epoch ∧ page.position.seq ≤ p.seq ∧
    page.items = page.snapshot ++
      stream.framesFrom p.epoch page.position.seq (p.seq - page.position.seq)

/-- The page has `got` of an attachment, after its snapshot's `reset` or all before its position. -/
def Base (stream : Stream) (shown : Option Shown) (a : Attachment) (got : List Item) : Prop :=
  match a.snapshot with
  | some snapshot => shown = some ⟨a.position, snapshot, got⟩
  | none => ∃ before page, Whole stream (some before) a.position ∧ shown = some page ∧
      page = { before with items := before.items ++ got }

theorem Base.exact {shown : Option Shown} {got : List Item} (h : Base stream shown a got)
    (hfollows : a.Follows stream) (hgot : got <+: a.had) :
    ∀ page ∈ shown, ∃ n, page.items <+:
      page.snapshot ++ stream.framesFrom page.position.epoch page.position.seq n := by
  intro page hpage
  have hahead : got <+: a.had ++ a.ahead := hgot.trans (prefix_append _ _)
  rw [hfollows.came] at hahead
  unfold Base at h
  split at h
  · rename_i snapshot hsnapshot
    subst h
    cases hpage
    rw [hsnapshot] at hahead
    exact ⟨_, hahead⟩
  · rename_i hsnapshot
    obtain ⟨before, after, ⟨page', hbefore, hepoch, hseq, hitems⟩, rfl, rfl⟩ := h
    cases hpage
    cases hbefore
    rw [hsnapshot, getD_none, nil_append] at hahead
    refine ⟨(a.position.seq - before.position.seq) + (a.due - a.position.seq), ?_⟩
    show before.items ++ got <+: before.snapshot ++
      stream.framesFrom before.position.epoch before.position.seq _
    have hadd : before.position.seq + (a.position.seq - before.position.seq) = a.position.seq := by
      omega
    rw [hitems, Stream.framesFrom_add, hepoch, hadd, ← append_assoc]
    exact (prefix_append_right_inj _).mpr hahead

theorem Base.whole {shown : Option Shown} {a : Attachment} (h : Base stream shown a a.had)
    (hfollows : a.Follows stream) {p : Position} (hp : a.drawn = some p) :
    Whole stream shown p := by
  obtain ⟨hahead, rfl⟩ := hfollows.drawn hp
  have hbegun := hfollows.begun
  have hcame := hfollows.came
  rw [hahead, append_nil] at hcame
  unfold Base at h
  split at h
  · rename_i snapshot hsnapshot
    rw [hsnapshot] at hcame
    exact ⟨_, h, rfl, hbegun, hcame⟩
  · rename_i hsnapshot
    obtain ⟨before, page, ⟨page', hbefore, hepoch, hseq, hitems⟩, hshown, rfl⟩ := h
    cases hbefore
    rw [hsnapshot, getD_none, nil_append] at hcame
    refine ⟨_, hshown, hepoch, Nat.le_trans hseq hbegun, ?_⟩
    have hsplit : a.due - before.position.seq =
        (a.position.seq - before.position.seq) + (a.due - a.position.seq) := by omega
    have hadd : before.position.seq + (a.position.seq - before.position.seq) = a.position.seq := by
      omega
    show before.items ++ a.had = before.snapshot ++
      stream.framesFrom a.position.epoch before.position.seq (a.due - before.position.seq)
    rw [hitems, hsplit, Stream.framesFrom_add, hadd, hcame, append_assoc]

theorem Base.draws {shown : Option Shown} {got : List Item} (h : Base stream shown a got)
    (item : Item) :
    Base stream (shown.map fun page => { page with items := page.items ++ [item] }) a
      (got ++ [item]) := by
  unfold Base at h ⊢
  split at h
  · rw [h]; rfl
  · obtain ⟨before, page, hbefore, rfl, rfl⟩ := h
    refine ⟨before, _, hbefore, rfl, ?_⟩
    simp

theorem Base.isSome {shown : Option Shown} {got : List Item} (h : Base stream shown a got) :
    shown.isSome = true := by
  unfold Base at h
  split at h
  · rw [h]; rfl
  · obtain ⟨before, page, -, rfl, -⟩ := h
    rfl

theorem Base.same {shown : Option Shown} {b : Attachment} {got : List Item}
    (h : Base stream shown a got) (hsnapshot : b.snapshot = a.snapshot)
    (hposition : b.position = a.position) : Base stream shown b got := by
  unfold Base at h ⊢
  rw [hsnapshot, hposition]
  exact h

/-! ## Calls and attachments -/

def Told.item : Told → Option Item
  | output bytes _ => some (.write bytes)
  | resized size => some (.resize size)
  | ended _ => none

def Told.isEnd : Told → Bool
  | ended _ => true
  | output _ _ | resized _ => false

structure Holds (a : Attachment) (steps : List Told) : Prop where
  items : steps.filterMap Told.item = a.had
  last : ∀ told ∈ steps.dropLast, told.isEnd = false
  open_ : a.ended = false → ∀ told ∈ steps, told.isEnd = false

/-- What holds of the calls that wait and of the attachments, whatever is on the page. -/
structure Kept (stream : Stream) (s : State) : Prop where
  follows : ∀ (i : Nat) (a : Attachment), s.attachments[i]? = some a → a.Follows stream
  past : ∀ (i : Nat) (a : Attachment), s.attachments[i]? = some a → a.run ≤ s.run
  /-- A run makes one attachment. -/
  alone : ∀ (i j : Nat) (a b : Attachment), s.attachments[i]? = some a →
    s.attachments[j]? = some b → a.run = b.run → i = j
  calls : (s.follows.map (·.run)).Nodup
  late : ∀ f ∈ s.follows, f.run ≤ s.run
  made : ∀ f ∈ s.follows, ∀ i ∈ f.made, ∃ a : Attachment, s.attachments[i]? = some a ∧
    a.run = f.run ∧ a.held.isSome = true ∧
      (a.snapshot = none → f.resumeAfter = some a.position)
  unmade : ∀ f ∈ s.follows, f.made = none → ∀ (i : Nat) (a : Attachment),
    s.attachments[i]? = some a → a.run ≠ f.run
  /-- Of the current run, the attachment that was dealt with is watched until it ends. -/
  dealt : ∀ (i : Nat) (a : Attachment), s.attachments[i]? = some a → a.run = s.run →
    a.held = none → a.ended = false → s.attachment = some i
  helds : ∀ (i : Nat) (a : Attachment) (steps : List Told), s.attachments[i]? = some a →
    a.run = s.run → a.held = some steps → Holds a steps

namespace Kept

variable {s s' : State}

theorem same (h : Kept stream s) (hrun : s'.run = s.run)
    (hattachment : s'.attachment = s.attachment)
    (hattachments : s'.attachments = s.attachments) (hfollows : s'.follows = s.follows) :
    Kept stream s' := by
  constructor
  · rw [hattachments]; exact h.follows
  · rw [hattachments, hrun]; exact h.past
  · rw [hattachments]; exact h.alone
  · rw [hfollows]; exact h.calls
  · rw [hfollows, hrun]; exact h.late
  · rw [hfollows, hattachments]; exact h.made
  · rw [hfollows, hattachments]; exact h.unmade
  · rw [hattachments, hrun, hattachment]; exact h.dealt
  · rw [hattachments, hrun]; exact h.helds

theorem no_call (h : Kept stream s) {i : Nat} (ha : s.attachments[i]? = some a)
    (hheld : a.held = none) : ∀ f ∈ s.follows, f.run ≠ a.run := by
  intro f hf hrun
  cases hmade : f.made with
  | none => exact h.unmade f hf hmade i a ha hrun.symm
  | some j =>
    obtain ⟨b, hb, hbrun, hbheld, -⟩ := h.made f hf j hmade
    obtain rfl := h.alone i j a b ha hb (hrun.symm.trans hbrun.symm)
    cases ha.symm.trans hb
    rw [hheld] at hbheld
    cases hbheld

theorem fewer (h : Kept stream s) (hrun : s'.run = s.run)
    (hattachment : s'.attachment = s.attachment)
    (hattachments : s'.attachments = s.attachments) (hfollows : s'.follows.Sublist s.follows) :
    Kept stream s' := by
  constructor
  · rw [hattachments]; exact h.follows
  · rw [hattachments, hrun]; exact h.past
  · rw [hattachments]; exact h.alone
  · exact h.calls.sublist (hfollows.map _)
  · rw [hrun]; exact fun f hf => h.late f (hfollows.subset hf)
  · rw [hattachments]; exact fun f hf => h.made f (hfollows.subset hf)
  · rw [hattachments]; exact fun f hf => h.unmade f (hfollows.subset hf)
  · rw [hattachments, hrun, hattachment]; exact h.dealt
  · rw [hattachments, hrun]; exact h.helds

theorem sets (h : Kept stream s) {i : Nat} {b : Attachment} (ha : s.attachments[i]? = some a)
    (hfollows : b.Follows stream) (hrun : b.run = a.run) (hsnapshot : b.snapshot = a.snapshot)
    (hposition : b.position = a.position) (hheld : b.held.isSome = a.held.isSome)
    (hended : b.ended = false → a.ended = false)
    (hsteps : a.run = s.run → ∀ steps, b.held = some steps → Holds b steps) :
    Kept stream { s with attachments := s.attachments.set i b } := by
  constructor
  · exact forall_set ha h.follows hfollows
  · exact forall_set ha h.past (hrun ▸ h.past i a ha)
  · intro j k c d hc hd hcd
    obtain ⟨rfl, rfl⟩ | ⟨-, hcj⟩ := get_set ha hc
    · obtain ⟨rfl, -⟩ | ⟨-, hdk⟩ := get_set ha hd
      · rfl
      · exact h.alone j k a d ha hdk (hrun.symm.trans hcd)
    · obtain ⟨rfl, rfl⟩ | ⟨-, hdk⟩ := get_set ha hd
      · exact h.alone j k c a hcj ha (hcd.trans hrun)
      · exact h.alone j k c d hcj hdk hcd
  · exact h.calls
  · exact h.late
  · intro f hf j hj
    obtain ⟨c, hc, hcrun, hcheld, hcresume⟩ := h.made f hf j hj
    by_cases hij : j = i
    · subst hij
      cases ha.symm.trans hc
      refine ⟨b, get_set_self ha, hrun.trans hcrun, hheld.trans hcheld, ?_⟩
      rw [hsnapshot, hposition]
      exact hcresume
    · exact ⟨c, (get_set_ne hij).trans hc, hcrun, hcheld, hcresume⟩
  · intro f hf hmade
    exact forall_set ha (h.unmade f hf hmade) (hrun ▸ h.unmade f hf hmade i a ha)
  · intro j c hc hcrun hcheld hcended
    obtain ⟨rfl, rfl⟩ | ⟨-, hc⟩ := get_set ha hc
    · have hnone : a.held = none := by
        rw [hcheld] at hheld
        simpa using hheld.symm
      exact h.dealt j a ha (hrun.symm.trans hcrun) hnone (hended hcended)
    · exact h.dealt j c hc hcrun hcheld hcended
  · intro j c steps hc hcrun hcheld
    obtain ⟨-, rfl⟩ | ⟨-, hc⟩ := get_set ha hc
    · exact hsteps (hrun.symm.trans hcrun) steps hcheld
    · exact h.helds j c steps hc hcrun hcheld

theorem detaches (h : Kept stream s) (i : Nat) : Kept stream (s.detaches i) := by
  unfold State.detaches
  cases ha : s.attachments[i]? with
  | none =>
    rw [List.modify_eq_set_getElem?, ha]
    exact h
  | some a =>
    rw [modify_eq_set ha]
    refine h.sets ha ((h.follows i a ha).ended true) rfl rfl rfl rfl ?_ ?_
    · intro hended; cases hended
    · intro hrun steps hsteps
      have hholds := h.helds i a steps ha hrun hsteps
      exact ⟨hholds.items, hholds.last, fun hended => by cases hended⟩

theorem later (h : Kept stream s) (hrun : s'.run = s.run + 1)
    (hattachments : s'.attachments = s.attachments) (hfollows : s'.follows = s.follows) :
    Kept stream s' := by
  have hnone : ∀ (i : Nat) (a : Attachment), s.attachments[i]? = some a → a.run ≠ s'.run := by
    intro i a ha
    have := h.past i a ha
    omega
  constructor
  · rw [hattachments]; exact h.follows
  · intro i a ha
    rw [hattachments] at ha
    have := h.past i a ha
    omega
  · rw [hattachments]; exact h.alone
  · rw [hfollows]; exact h.calls
  · intro f hf
    rw [hfollows] at hf
    have := h.late f hf
    omega
  · rw [hfollows, hattachments]; exact h.made
  · rw [hfollows, hattachments]; exact h.unmade
  · rw [hattachments]; exact fun i a ha hrun => absurd hrun (hnone i a ha)
  · rw [hattachments]; exact fun i a steps ha hrun => absurd hrun (hnone i a ha)

theorem gaveUp (h : Kept stream s) (hrun : s'.run = s.run + 1)
    (hattachments : s'.attachments = s.lets.attachments) (hfollows : s'.follows = s.follows) :
    Kept stream s' := by
  unfold State.lets at hattachments
  split at hattachments
  · exact h.later hrun hattachments hfollows
  · rename_i i hi
    exact (h.detaches i).later hrun hattachments hfollows

theorem follow (h : Kept stream s) (channel : Nat) : Kept stream (s.follow channel) := by
  have hlater : Kept stream { s with run := s.run + 1 } := h.later rfl rfl rfl
  have hnew : s.run + 1 ∉ s.follows.map (·.run) := by
    intro hmem
    obtain ⟨f, hf, hrun⟩ := mem_map.mp hmem
    have := h.late f hf
    omega
  constructor
  · exact hlater.follows
  · exact hlater.past
  · exact h.alone
  · exact nodup_snoc h.calls hnew
  · intro f hf
    obtain hf | hf := mem_append.mp hf
    · exact hlater.late f hf
    · rw [mem_singleton] at hf
      rw [hf]
      exact Nat.le_refl _
  · intro f hf i hi
    obtain hf | hf := mem_append.mp hf
    · exact h.made f hf i hi
    · rw [mem_singleton] at hf
      rw [hf] at hi
      cases hi
  · intro f hf hmade i a ha
    obtain hf | hf := mem_append.mp hf
    · exact h.unmade f hf hmade i a ha
    · rw [mem_singleton] at hf
      have := h.past i a ha
      rw [hf]
      show a.run ≠ s.run + 1
      omega
  · exact hlater.dealt
  · exact hlater.helds

theorem recalled (h : Kept stream s) {k : Nat} {f g : Follow} (hf : s.follows[k]? = some f)
    (hrun : g.run = f.run)
    (hmade : ∀ i ∈ g.made, ∃ a : Attachment, s.attachments[i]? = some a ∧ a.run = f.run ∧
      a.held.isSome = true ∧ (a.snapshot = none → g.resumeAfter = some a.position))
    (hunmade : g.made = none → f.made = none) :
    Kept stream { s with follows := s.follows.set k g } := by
  have hfm : f ∈ s.follows := mem_of_getElem? hf
  constructor
  · exact h.follows
  · exact h.past
  · exact h.alone
  · show ((s.follows.set k g).map (·.run)).Nodup
    rw [map_set_same hf hrun]
    exact h.calls
  · exact forall_mem_set h.late (hrun ▸ h.late f hfm)
  · exact forall_mem_set h.made (hrun ▸ hmade)
  · intro f' hf' hnone i a ha
    obtain hf' | rfl := mem_or_eq_of_mem_set hf'
    · exact h.unmade f' hf' hnone i a ha
    · rw [hrun]
      exact h.unmade f hfm (hunmade hnone) i a ha
  · exact h.dealt
  · exact h.helds

theorem others (h : Kept stream s) {k : Nat} {f g : Follow} (hf : s.follows[k]? = some f)
    (hg : g ∈ s.follows.eraseIdx k) : g.run ≠ f.run :=
  erase_ne h.calls hf hg

theorem attached (h : Kept stream s) {k : Nat} {f : Follow} (hf : s.follows[k]? = some f)
    (hmade : f.made = none) {snapshot : Option (List Item)} {position : Position} {size : TermSize}
    (hreplies : Replies f.resumeAfter position snapshot) :
    Kept stream (s.attached k f snapshot position size) := by
  have hfm : f ∈ s.follows := mem_of_getElem? hf
  have hunmade := h.unmade f hfm hmade
  have hnew : ∀ (i : Nat) (a : Attachment),
      (s.attachments ++ [Attachment.new snapshot position size f.run f.channel])[i]? = some a →
      s.attachments[i]? = some a ∨
        (i = s.attachments.length ∧ a = Attachment.new snapshot position size f.run f.channel) :=
    fun i a ha => get_append ha
  constructor
  · intro i a ha
    obtain ha | ⟨-, rfl⟩ := hnew i a ha
    · exact h.follows i a ha
    · exact Attachment.new_follows f.run f.channel hreplies
  · intro i a ha
    obtain ha | ⟨-, rfl⟩ := hnew i a ha
    · exact h.past i a ha
    · exact h.late f hfm
  · intro i j a b ha hb hab
    obtain ha | ⟨rfl, rfl⟩ := hnew i a ha
    · obtain hb | ⟨rfl, rfl⟩ := hnew j b hb
      · exact h.alone i j a b ha hb hab
      · exact absurd hab (hunmade i a ha)
    · obtain hb | ⟨rfl, rfl⟩ := hnew j b hb
      · exact absurd hab.symm (hunmade j b hb)
      · rfl
  · show ((s.follows.set k _).map (·.run)).Nodup
    rw [map_set_same hf (by rfl)]
    exact h.calls
  · exact forall_mem_set h.late (h.late f hfm)
  · intro g hg i hi
    obtain hg | rfl := mem_or_eq_of_mem_set hg
    · obtain ⟨a, ha, hrest⟩ := h.made g hg i hi
      exact ⟨a, get_append_left ha, hrest⟩
    · cases hi
      refine ⟨_, List.getElem?_concat_length, rfl, rfl, ?_⟩
      intro hnone
      have hnone : snapshot = none := hnone
      rw [hnone] at hreplies
      exact hreplies
  · intro g hg hnone i a ha
    obtain rfl | hg := mem_set_erase hf hg
    · cases hnone
    · obtain ha | ⟨-, rfl⟩ := hnew i a ha
      · exact h.unmade g ((eraseIdx_sublist ..).subset hg) hnone i a ha
      · exact (h.others hf hg).symm
  · intro i a ha hrun hheld hended
    obtain ha | ⟨-, rfl⟩ := hnew i a ha
    · exact h.dealt i a ha hrun hheld hended
    · cases hheld
  · intro i a steps ha hrun hsteps
    obtain ha | ⟨-, rfl⟩ := hnew i a ha
    · exact h.helds i a steps ha hrun hsteps
    · cases hsteps
      exact ⟨rfl, by simp, by simp⟩

theorem deals (h : Kept stream s) {k i : Nat} {f : Follow} (hf : s.follows[k]? = some f)
    (ha : s.attachments[i]? = some a) (hrun : f.run = s.run) (harun : a.run = f.run)
    (hattachment : s'.attachment = some i) (hrun' : s'.run = s.run)
    (hattachments : s'.attachments = s.attachments.set i { a with held := none })
    (hfollows : s'.follows = s.follows.eraseIdx k) : Kept stream s' := by
  have hold : ∀ (j : Nat) (b : Attachment), s'.attachments[j]? = some b →
      (j = i ∧ b = { a with held := none }) ∨ (j ≠ i ∧ s.attachments[j]? = some b) := by
    rw [hattachments]
    exact fun j b hb => get_set ha hb
  have hsame : ∀ (j : Nat) (b : Attachment), s'.attachments[j]? = some b →
      ∃ c : Attachment, s.attachments[j]? = some c ∧ c.run = b.run := by
    intro j b hb
    obtain ⟨rfl, rfl⟩ | ⟨-, hb⟩ := hold j b hb
    · exact ⟨a, ha, rfl⟩
    · exact ⟨b, hb, rfl⟩
  have hmem : ∀ g ∈ s'.follows, g ∈ s.follows ∧ g.run ≠ s.run := by
    rw [hfollows, ← hrun]
    exact fun g hg => ⟨(eraseIdx_sublist ..).subset hg, h.others hf hg⟩
  -- an attachment of the current run is this one
  have honly : ∀ (j : Nat) (b : Attachment), s.attachments[j]? = some b → b.run = s.run →
      j = i :=
    fun j b hb hbrun => h.alone j i b a hb ha (hbrun.trans (hrun.symm.trans harun.symm))
  constructor
  · intro j b hb
    obtain ⟨-, rfl⟩ | ⟨-, hb⟩ := hold j b hb
    · exact (h.follows i a ha).held none
    · exact h.follows j b hb
  · intro j b hb
    obtain ⟨c, hc, hcrun⟩ := hsame j b hb
    rw [hrun', ← hcrun]
    exact h.past j c hc
  · intro j l b d hb hd hbd
    obtain ⟨c, hc, hcrun⟩ := hsame j b hb
    obtain ⟨e, he, herun⟩ := hsame l d hd
    exact h.alone j l c e hc he (hcrun.trans (hbd.trans herun.symm))
  · rw [hfollows]
    exact h.calls.sublist ((eraseIdx_sublist ..).map _)
  · rw [hrun']
    exact fun g hg => h.late g (hmem g hg).1
  · intro g hg j hj
    obtain ⟨hgm, hgrun⟩ := hmem g hg
    obtain ⟨b, hb, hbrun, hrest⟩ := h.made g hgm j hj
    refine ⟨b, ?_, hbrun, hrest⟩
    rw [hattachments, get_set_ne, hb]
    rintro rfl
    cases ha.symm.trans hb
    exact hgrun (hbrun.symm.trans (harun.trans hrun))
  · intro g hg hnone j b hb
    obtain ⟨c, hc, hcrun⟩ := hsame j b hb
    exact hcrun ▸ h.unmade g (hmem g hg).1 hnone j c hc
  · intro j b hb hbrun hheld hended
    obtain ⟨rfl, -⟩ | ⟨hji, hb⟩ := hold j b hb
    · exact hattachment
    · exact absurd (honly j b hb (hbrun.trans hrun')) hji
  · intro j b steps hb hbrun hsteps
    obtain ⟨-, rfl⟩ | ⟨hji, hb⟩ := hold j b hb
    · cases hsteps
    · exact absurd (honly j b hb (hbrun.trans hrun')) hji

end Kept

end

end Yardsort.Mobile.Watch
