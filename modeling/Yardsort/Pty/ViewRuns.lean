import Yardsort.Lib.Run
import Yardsort.Pty.View

/- What numbered viewers are handed over any run of a session's sections.

   `Told` says how what one viewer was handed lies on the numbered stream: it begins at an
   item `n`, and the items of the stream come after it in order, as far as they do. For a
   viewer still attached they come as far as the stream does (`UpToDate`). `InStep` is the
   invariant that keeps this: numbers and size in step with the stream, the replay a tail
   of it, and no attachment's id used twice. -/
namespace Yardsort.Pty
open Yardsort.Lib

def Sent.toItem : Sent → Option Item
  | .bytes _ => none
  | .item i => some i

def logOf (sent : List (Nat × Sent)) (id : Nat) : List Item :=
  sent.filterMap (fun p => if p.1 = id then p.2.toItem else none)

def View.log {T : Type} (v : View T) (id : Nat) : List Item := logOf v.sent id

def Item.counted : Item → Bool
  | .output .. | .resized .. => true
  | _ => false

/-- A first item that puts the viewer after item `n`, the terminal then at `size`. -/
def Item.Opens (n : Nat) (size : TermSize) : Item → Prop
  | .snapshot seq size' _ => seq = n ∧ size' = size
  | .resumed seq size' => seq = n ∧ size' = size
  | _ => False

/-- What was handed out begins after item `n` of the stream, and `items` are the numbered
    ones among the rest of it. -/
def Began (first : TermSize) (stream : List Kept) (log : List Item) (n : Nat)
    (items : List Item) : Prop :=
  n ≤ stream.length ∧ ∃ opening rest, log = opening :: rest ∧
    opening.Opens n (sizeAfter first (stream.take n)) ∧ rest.filter Item.counted = items

/-- The items after `n` follow without a gap, as far as they do. -/
def Told (first : TermSize) (stream : List Kept) (log : List Item) : Prop :=
  ∃ n items, Began first stream log n items ∧ items <+: numberFrom n (stream.drop n)

def UpToDate (first : TermSize) (stream : List Kept) (log : List Item) : Prop :=
  ∃ n, Began first stream log n (numberFrom n (stream.drop n))

theorem UpToDate.told {first : TermSize} {stream : List Kept} {log : List Item}
    (h : UpToDate first stream log) : Told first stream log := by
  obtain ⟨n, hn⟩ := h
  exact ⟨n, _, hn, prefix_refl _⟩

theorem numbered_counted (seq : Nat) (kept : Kept) : (kept.numbered seq).counted = true := by
  cases kept <;> rfl

theorem numberFrom_counted (seq : Nat) (items : List Kept) :
    (numberFrom seq items).filter Item.counted = numberFrom seq items := by
  induction items generalizing seq with
  | nil => rfl
  | cons item items ih =>
    rw [numberFrom, filter_cons_of_pos (numbered_counted _ _), ih]

theorem Began.grow {first : TermSize} {stream : List Kept} {log items : List Item} {n : Nat}
    (h : Began first stream log n items) (new : List Kept) (more : List Item) :
    Began first (stream ++ new) (log ++ more) n (items ++ more.filter Item.counted) := by
  obtain ⟨hn, opening, rest, rfl, hopen, rfl⟩ := h
  refine ⟨?_, opening, rest ++ more, rfl, ?_, filter_append ..⟩
  · rw [length_append]
    exact Nat.le_trans hn (Nat.le_add_right _ _)
  · rwa [take_append_of_le_length hn]

theorem Told.grow {first : TermSize} {stream : List Kept} {log : List Item}
    (h : Told first stream log) (new : List Kept) : Told first (stream ++ new) log := by
  obtain ⟨n, items, hb, hp⟩ := h
  have hb' := hb.grow new []
  rw [append_nil, filter_nil, append_nil] at hb'
  refine ⟨n, items, hb', hp.trans ?_⟩
  rw [drop_append_of_le_length hb.1, numberFrom_append]
  exact prefix_append _ _

theorem UpToDate.grow {first : TermSize} {stream : List Kept} {log more : List Item}
    (h : UpToDate first stream log) {new : List Kept}
    (hmore : more.filter Item.counted = numberFrom stream.length new) :
    UpToDate first (stream ++ new) (log ++ more) := by
  obtain ⟨n, hb⟩ := h
  refine ⟨n, ?_⟩
  have hb' := hb.grow new more
  have hlen : n + (stream.drop n).length = stream.length := by
    rw [length_drop]
    have := hb.1
    omega
  rw [drop_append_of_le_length hb.1, numberFrom_append, hlen, ← hmore]
  exact hb'

theorem logOf_append (sent sent' : List (Nat × Sent)) (id : Nat) :
    logOf (sent ++ sent') id = logOf sent id ++ logOf sent' id := filterMap_append

theorem logOf_one (to_ id : Nat) (sent : Sent) :
    logOf [(to_, sent)] id = if to_ = id then sent.toItem.toList else [] := by
  by_cases h : to_ = id
  · rw [if_pos h, logOf, filterMap_cons, if_pos h]
    cases sent <;> rfl
  · rw [if_neg h, logOf, filterMap_cons, if_neg h]
    rfl

theorem logOf_offered (to_ id : Nat) (items : List Item) :
    logOf (items.map (fun item => (to_, Sent.item item))) id = if to_ = id then items else [] := by
  induction items with
  | nil => split <;> rfl
  | cons item items ih =>
    rw [map_cons, ← singleton_append, logOf_append, ih, logOf_one]
    by_cases h : to_ = id
    · rw [if_pos h, if_pos h, if_pos h]
      rfl
    · rw [if_neg h, if_neg h, if_neg h]
      rfl

theorem logOf_fresh {sent : List (Nat × Sent)} {id : Nat} (h : ∀ p ∈ sent, p.1 < id) :
    logOf sent id = [] := by
  refine List.filterMap_eq_nil_iff.mpr (fun p hp => if_neg ?_)
  have := h p hp
  omega

/-- How `hands` hands every numbered viewer `item`, and terminals what is not one. -/
structure Hands (hands : Nat × Sink → Option (Nat × Sent)) (item : Item)
    (sinks : List (Nat × Sink)) : Prop where
  numbered : ∀ id, (id, .numbered) ∈ sinks → hands (id, .numbered) = some (id, .item item)
  terminal : ∀ id p, (id, .terminal) ∈ sinks → hands (id, .terminal) = some p →
    p.1 = id ∧ p.2.toItem = none

variable {hands : Nat × Sink → Option (Nat × Sent)}

theorem Hands.tail {item : Item} {s : Nat × Sink} {sinks : List (Nat × Sink)}
    (h : Hands hands item (s :: sinks)) : Hands hands item sinks :=
  ⟨fun id hid => h.numbered id (mem_cons_of_mem _ hid),
    fun id p hid => h.terminal id p (mem_cons_of_mem _ hid)⟩

theorem Hands.owner {item : Item} {sinks : List (Nat × Sink)} (h : Hands hands item sinks)
    {s : Nat × Sink} {p : Nat × Sent} (hs : s ∈ sinks) (hp : hands s = some p) : p.1 = s.1 := by
  obtain ⟨id, _ | _⟩ := s
  · exact (h.terminal id p hs hp).1
  · rw [h.numbered id hs, Option.some.injEq] at hp
    rw [← hp]

/-- **Each numbered viewer is handed the item once**, and nobody else has it. -/
theorem logOf_hands {item : Item} {sinks : List (Nat × Sink)} (h : Hands hands item sinks)
    (hnodup : (sinks.map Prod.fst).Nodup) (id : Nat) :
    logOf (sinks.filterMap hands) id = if (id, Sink.numbered) ∈ sinks then [item] else [] := by
  induction sinks with
  | nil => rfl
  | cons s sinks ih =>
    rw [map_cons, nodup_cons] at hnodup
    obtain ⟨hnew, hnodup⟩ := hnodup
    have hrest := ih h.tail hnodup
    have hmem : ∀ kind, (s.1, kind) ∉ sinks :=
      fun kind hk => hnew (mem_map.mpr ⟨(s.1, kind), hk, rfl⟩)
    obtain ⟨at_, kind⟩ := s
    cases kind with
    | terminal =>
      have hout : logOf ((((at_, Sink.terminal) :: sinks).filterMap hands)) id =
          logOf (sinks.filterMap hands) id := by
        cases hh : hands (at_, .terminal) with
        | none => rw [filterMap_cons_none hh]
        | some p =>
          obtain ⟨to_, sent⟩ := p
          have hnone : sent.toItem = none := (h.terminal at_ _ mem_cons_self hh).2
          rw [filterMap_cons_some hh, ← singleton_append, logOf_append, logOf_one, hnone]
          exact congrArg (· ++ _) (ite_self [])
      rw [hout, hrest]
      refine if_congr ?_ rfl rfl
      rw [mem_cons]
      exact ⟨Or.inr, fun hm => hm.resolve_left (fun he => Sink.noConfusion (Prod.ext_iff.mp he).2)⟩
    | numbered =>
      rw [filterMap_cons_some (h.numbered at_ mem_cons_self), ← singleton_append,
        logOf_append, hrest]
      by_cases hid : at_ = id
      · subst hid
        rw [if_neg (hmem .numbered), if_pos mem_cons_self, append_nil, logOf_one, if_pos rfl]
        rfl
      · rw [logOf_one, if_neg hid, nil_append]
        refine if_congr ?_ rfl rfl
        rw [mem_cons]
        exact ⟨Or.inr, fun hm => hm.resolve_left (fun he => hid (Prod.ext_iff.mp he).1.symm)⟩

/-- The numbers and the size are those of the stream, the replay keeps a tail of it, no two
    viewers have one id, and every numbered viewer has followed it. -/
structure InStep {T : Type} (v : View T) : Prop where
  seq : v.seq = v.stream.length
  size : v.session.size = sizeAfter v.first v.stream
  kept : ∀ r, v.replay = some r → r.Keeps v.first v.stream
  nodup : (v.sinks.map Prod.fst).Nodup
  fresh : ∀ s ∈ v.sinks, s.1 < v.nextAttachment
  sentFresh : ∀ p ∈ v.sent, p.1 < v.nextAttachment
  told : ∀ id, v.log id ≠ [] → Told v.first v.stream (v.log id)
  attached : ∀ id, (id, Sink.numbered) ∈ v.sinks → UpToDate v.first v.stream (v.log id)

theorem inStep_new {T : Type} (E : Emulator T) (holds : Holds) (size : TermSize) :
    InStep (View.new E holds size) :=
  ⟨rfl, rfl, (fun _ h => by cases h), nodup_nil, (fun _ h => by cases h),
    (fun _ h => by cases h), (fun _ h => absurd rfl h), (fun _ h => by cases h)⟩

variable {T : Type} {v w : View T}

theorem InStep.frame (h : InStep v) (hseq : w.seq = v.seq) (hsize : w.session.size = v.session.size)
    (hreplay : w.replay = v.replay) (hsinks : w.sinks.Sublist v.sinks)
    (hnext : w.nextAttachment = v.nextAttachment) (hfirst : w.first = v.first)
    (hstream : w.stream = v.stream) (hsent : w.sent = v.sent) : InStep w := by
  have hlog : ∀ id, w.log id = v.log id := fun id => congrArg (logOf · id) hsent
  refine ⟨?_, ?_, ?_, h.nodup.sublist (hsinks.map _), ?_, ?_, ?_, ?_⟩
  · rw [hseq, hstream, h.seq]
  · rw [hsize, hstream, hfirst, h.size]
  · rw [hreplay, hstream, hfirst]
    exact h.kept
  · rw [hnext]
    exact fun s hs => h.fresh s (hsinks.subset hs)
  · rw [hnext, hsent]
    exact h.sentFresh
  · intro id
    rw [hlog, hfirst, hstream]
    exact h.told id
  · intro id hid
    rw [hlog, hfirst, hstream]
    exact h.attached id (hsinks.subset hid)

theorem InStep.hand (h : InStep v) {item : Item} (new : List Kept)
    (hitem : [item].filter Item.counted = numberFrom v.seq new) (hhands : Hands hands item v.sinks)
    (hsent : w.sent = v.sent ++ v.sinks.filterMap hands) (hseq : w.seq = v.seq + new.length)
    (hstream : w.stream = v.stream ++ new) (hsize : w.session.size = sizeAfter v.session.size new)
    (hkept : ∀ r, w.replay = some r → r.Keeps v.first (v.stream ++ new))
    (hsinks : w.sinks.Sublist v.sinks) (hnext : w.nextAttachment = v.nextAttachment)
    (hfirst : w.first = v.first) : InStep w := by
  have hlog : ∀ id, w.log id =
      v.log id ++ if (id, Sink.numbered) ∈ v.sinks then [item] else [] := by
    intro id
    rw [View.log, hsent, logOf_append, logOf_hands hhands h.nodup]
    rfl
  have hlast : ∀ id, (id, Sink.numbered) ∈ v.sinks → UpToDate w.first w.stream (w.log id) := by
    intro id hid
    rw [hlog, if_pos hid, hfirst, hstream]
    exact (h.attached id hid).grow (h.seq ▸ hitem)
  refine ⟨?_, ?_, ?_, h.nodup.sublist (hsinks.map _), ?_, ?_, ?_, ?_⟩
  · rw [hseq, hstream, length_append, h.seq]
  · rw [hsize, hfirst, hstream, sizeAfter_append, h.size]
  · rw [hfirst, hstream]
    exact hkept
  · rw [hnext]
    exact fun s hs => h.fresh s (hsinks.subset hs)
  · intro p hp
    rw [hnext]
    rw [hsent, mem_append] at hp
    obtain hp | hp := hp
    · exact h.sentFresh p hp
    · obtain ⟨s, hs, hp⟩ := mem_filterMap.mp hp
      rw [hhands.owner hs hp]
      exact h.fresh s hs
  · intro id hne
    by_cases hid : (id, Sink.numbered) ∈ v.sinks
    · exact (hlast id hid).told
    · rw [hlog, if_neg hid, append_nil] at hne ⊢
      rw [hfirst, hstream]
      exact (h.told id hne).grow new
  · exact fun id hid => hlast id (hsinks.subset hid)

theorem offer_log (v : View T) (to_ : Nat) (items : List Item) (accepts id : Nat) :
    (v.offer to_ items accepts).log id =
      v.log id ++ if to_ = id then items.take (accepts + 1) else [] := by
  rw [View.log, View.offer, logOf_append, logOf_offered]
  rfl

theorem InStep.offer (h : InStep v) {id : Nat} {items : List Item} {accepts : Nat}
    (hid : id < v.nextAttachment) (hout : ∀ s ∈ v.sinks, s.1 ≠ id)
    (htold : Told v.first v.stream (v.log id ++ items.take (accepts + 1))) :
    InStep (v.offer id items accepts) ∧
      (v.offer id items accepts).log id = v.log id ++ items.take (accepts + 1) := by
  have hlog := offer_log v id items accepts
  refine ⟨⟨h.seq, h.size, h.kept, h.nodup, h.fresh, ?_, ?_, ?_⟩, ?_⟩
  · intro p hp
    obtain hp | hp := mem_append.mp hp
    · exact h.sentFresh p hp
    · obtain ⟨item, _, rfl⟩ := mem_map.mp hp
      exact hid
  · intro other hne
    by_cases heq : id = other
    · subst heq
      rw [hlog, if_pos rfl]
      exact htold
    · rw [hlog, if_neg heq, append_nil] at hne ⊢
      exact h.told other hne
  · intro other hother
    rw [hlog, if_neg (fun heq => hout _ hother heq.symm), append_nil]
    exact h.attached other hother
  · rw [hlog, if_pos rfl]

theorem hands_told (item : Item) (sinks : List (Nat × Sink)) :
    Hands (View.told item) item sinks :=
  ⟨fun _ _ => rfl, fun _ _ _ h => by cases h⟩

theorem tell_log (h : (v.sinks.map Prod.fst).Nodup) (item : Item) (gone : List Nat) (id : Nat) :
    (v.tell item gone).log id =
      v.log id ++ if (id, Sink.numbered) ∈ v.sinks then [item] else [] := by
  rw [View.log, View.tell, logOf_append, logOf_hands (hands_told item v.sinks) h]
  rfl

theorem InStep.tell (h : InStep v) {item : Item} (hitem : item.counted = false) (gone : List Nat) :
    InStep (v.tell item gone) := by
  refine h.hand [] ?_ (hands_told item v.sinks) rfl rfl (append_nil _).symm rfl ?_
    filter_sublist rfl rfl
  · rw [filter_cons_of_neg (by rw [hitem]; exact Bool.false_ne_true)]
    rfl
  · rw [append_nil]
    exact h.kept

theorem InStep.announce (h : InStep v) (now : Instant) (gone : List Nat) :
    InStep (v.announce now gone) := by
  have hsession : InStep
      { v with session := { v.session with control := (v.session.control.controller now).2 } } :=
    h.frame rfl rfl rfl (List.Sublist.refl _) rfl rfl rfl rfl
  unfold View.announce
  dsimp only
  split
  · exact hsession
  · refine InStep.tell ?_ rfl gone
    exact hsession.frame rfl rfl rfl (List.Sublist.refl _) rfl rfl rfl rfl

theorem announce_same (v : View T) (now : Instant) (gone : List Nat) :
    (v.announce now gone).nextAttachment = v.nextAttachment ∧
      (v.announce now gone).seq = v.seq ∧ (v.announce now gone).replay = v.replay ∧
      (v.announce now gone).first = v.first ∧ (v.announce now gone).stream = v.stream ∧
      (v.announce now gone).session.size = v.session.size ∧
      (v.announce now gone).exit = v.exit ∧
      (v.announce now gone).session.exited = v.session.exited := by
  unfold View.announce
  dsimp only
  split <;> exact ⟨rfl, rfl, rfl, rfl, rfl, rfl, rfl, rfl⟩

theorem announce_sinks (v : View T) (now : Instant) (gone : List Nat) :
    (v.announce now gone).sinks.Sublist v.sinks := by
  unfold View.announce
  dsimp only
  split
  · exact List.Sublist.refl _
  · exact filter_sublist

theorem announce_log (h : (v.sinks.map Prod.fst).Nodup) (now : Instant) (gone : List Nat) (id : Nat) :
    (v.announce now gone).log id = v.log id ++
      if (v.session.control.controller now).1 ≠ v.announced ∧ (id, Sink.numbered) ∈ v.sinks then
        [Item.control (v.session.control.controller now).1] else [] := by
  unfold View.announce
  dsimp only
  by_cases hsame : (v.session.control.controller now).1 = v.announced
  · rw [if_pos hsame, if_neg (fun hc => hc.1 hsame), append_nil]
    rfl
  · rw [if_neg hsame]
    refine (tell_log h _ gone id).trans ?_
    refine congrArg (v.log id ++ ·) (if_congr ?_ rfl rfl)
    exact ⟨fun hid => ⟨hsame, hid⟩, And.right⟩

theorem announce_announced (v : View T) (now : Instant) (gone : List Nat) :
    (v.announce now gone).announced = (v.session.control.controller now).1 := by
  unfold View.announce
  dsimp only
  split
  · rename_i hsame
    exact hsame.symm
  · rfl

/-! ### A viewer attaches -/

/-- What a viewer that attaches is handed, `opening` first. -/
def firstItems (opening : List Item) (controller : Controller) (exit : Option ExitInfo)
    (accepts : Nat) : List Item :=
  opening.take (accepts + 1) ++
    if accepts < opening.length then []
    else (Item.control controller :: exit.toList.map .exited).take (accepts - opening.length + 1)

theorem watch_log (E : Emulator T) (h : InStep v) (after : Option Nat)
    (accepts : Nat) (now : Instant) (gone : List Nat) (id : Nat) :
    (v.watch E after accepts now gone).log id = v.log id ++
      (if v.nextAttachment = id then
        firstItems (v.opening E (v.replay.getD (.new v.seq v.session.size)) after)
          (v.session.control.controller now).1 v.exit accepts
      else if (v.session.control.controller now).1 ≠ v.announced ∧ (id, Sink.numbered) ∈ v.sinks then
        [.control (v.session.control.controller now).1] else []) := by
  unfold View.watch
  dsimp only
  generalize v.opening E (v.replay.getD (.new v.seq v.session.size)) after = first
  generalize hw : (({ v with
    nextAttachment := v.nextAttachment + 1
    replay := some (v.replay.getD (.new v.seq v.session.size)) } : View T).offer
      v.nextAttachment first accepts).announce now gone = w
  have hannounced : w.announced = (v.session.control.controller now).1 := by
    rw [← hw, announce_announced]
    rfl
  have hexit : w.exit = v.exit := by
    rw [← hw]
    exact (announce_same _ _ _).2.2.2.2.2.2.1
  have hlog : w.log id = v.log id ++ (if v.nextAttachment = id then first.take (accepts + 1)
      else if (v.session.control.controller now).1 ≠ v.announced ∧ (id, Sink.numbered) ∈ v.sinks then
        [.control (v.session.control.controller now).1] else []) := by
    rw [← hw]
    refine (announce_log (by exact h.nodup) now gone id).trans ?_
    rw [offer_log]
    by_cases hid : v.nextAttachment = id
    -- the new attachment is not told that control changed hands: it is not attached yet
    · subst hid
      rw [if_pos rfl, if_pos rfl, if_neg (fun hc => Nat.lt_irrefl _ (h.fresh _ hc.2)),
        append_nil]
      rfl
    · rw [if_neg hid, if_neg hid, append_nil]
      rfl
  rw [← hannounced] at hlog ⊢
  rw [← hexit]
  split
  · rename_i hcut
    refine hlog.trans (congrArg (v.log id ++ ·) (if_congr Iff.rfl ?_ rfl))
    rw [firstItems, if_pos hcut, append_nil]
  · rename_i hall
    have hrest : (w.offer v.nextAttachment (.control w.announced :: w.exit.toList.map .exited)
        (accepts - first.length)).log id = v.log id ++ (if v.nextAttachment = id then
          firstItems first w.announced w.exit accepts
        else if w.announced ≠ v.announced ∧ (id, Sink.numbered) ∈ v.sinks then
          [.control w.announced] else []) := by
      rw [offer_log, hlog]
      by_cases hid : v.nextAttachment = id
      · rw [if_pos hid, if_pos hid, if_pos hid, firstItems, if_neg hall, append_assoc]
      · rw [if_neg hid, if_neg hid, if_neg hid, append_nil]
    split
    · exact hrest
    · exact hrest

theorem InStep.attach (E : Emulator T) (h : InStep v) (open_ : Bool) :
    InStep (v.attach E open_) := by
  have hlog : ∀ id, (v.attach E open_).log id = v.log id := by
    intro id
    rw [View.log, View.attach, logOf_append, logOf_one]
    exact (congrArg _ (ite_self [])).trans (append_nil _)
  have hin : ∀ s ∈ (v.attach E open_).sinks, s ∈ v.sinks ∨ s = (v.nextAttachment, .terminal) := by
    intro s hs
    simp only [View.attach] at hs
    split at hs
    · obtain hs | hs := mem_snoc.mp hs
      · exact Or.inl hs
      · exact Or.inr hs
    · exact Or.inl hs
  refine ⟨h.seq, h.size, h.kept, ?_, ?_, ?_, ?_, ?_⟩
  · simp only [View.attach]
    split
    · rw [map_append, nodup_append]
      refine ⟨h.nodup, List.nodup_singleton _, ?_⟩
      intro a ha b hb
      obtain ⟨s, hs, rfl⟩ := mem_map.mp ha
      have := h.fresh s hs
      rw [map_singleton, mem_singleton] at hb
      omega
    · exact h.nodup
  · intro s hs
    obtain hs | rfl := hin s hs
    · exact Nat.lt_succ_of_lt (h.fresh s hs)
    · exact Nat.lt_succ_self _
  · intro p hp
    obtain hp | hp := mem_snoc.mp hp
    · exact Nat.lt_succ_of_lt (h.sentFresh p hp)
    · rw [hp]
      exact Nat.lt_succ_self _
  · intro id
    rw [hlog]
    exact h.told id
  · intro id hid
    rw [hlog]
    obtain hid | hid := hin _ hid
    · exact h.attached id hid
    · exact Sink.noConfusion (Prod.ext_iff.mp hid).2

theorem InStep.replay (h : InStep v) :
    (v.replay.getD (.new v.seq v.session.size)).Keeps v.first v.stream := by
  cases hr : v.replay with
  | none => exact Replay.new_keeps h.seq h.size
  | some r => exact h.kept r hr

/-- **What a numbered viewer is handed first**: that its screen shows everything up to the
    item it came back after, and the items since, if they are all kept; otherwise a
    snapshot, after the last item. -/
theorem opening_eq (E : Emulator T) (h : InStep v) {r : Replay} (hr : r.Keeps v.first v.stream)
    (after : Option Nat) :
    (∃ n, after = some n ∧ r.base ≤ n ∧ n ≤ v.seq ∧ v.opening E r after =
        .resumed n (sizeAfter v.first (v.stream.take n)) :: numberFrom n (v.stream.drop n)) ∨
      (∀ n, after = some n → ¬ (r.base ≤ n ∧ n ≤ v.seq)) ∧ v.opening E r after =
        [.snapshot v.seq v.session.size (E.snapshot v.terminal)] := by
  cases after with
  | none => exact Or.inr ⟨(fun _ h => by cases h), rfl⟩
  | some n =>
    have hs := Replay.since_eq hr n
    rw [← h.seq] at hs
    by_cases hin : r.base ≤ n ∧ n ≤ v.seq
    · rw [if_pos hin] at hs
      refine Or.inl ⟨n, rfl, hin.1, hin.2, ?_⟩
      rw [View.opening, bind_some, hs]
      rfl
    · rw [if_neg hin] at hs
      refine Or.inr ⟨?_, ?_⟩
      · rintro m ⟨rfl⟩
        exact hin
      · rw [View.opening, bind_some, hs]
        rfl

theorem opening_began (E : Emulator T) (h : InStep v) {r : Replay}
    (hr : r.Keeps v.first v.stream) (after : Option Nat) :
    ∃ n opening, n ≤ v.stream.length ∧ opening.Opens n (sizeAfter v.first (v.stream.take n)) ∧
      v.opening E r after = opening :: numberFrom n (v.stream.drop n) := by
  obtain ⟨n, _, _, hn, heq⟩ | ⟨_, heq⟩ := opening_eq E h hr after
  · exact ⟨n, .resumed n _, h.seq ▸ hn, ⟨rfl, rfl⟩, heq⟩
  · refine ⟨v.stream.length, .snapshot v.seq v.session.size (E.snapshot v.terminal), Nat.le_refl _,
      ⟨h.seq, ?_⟩, ?_⟩
    · rw [List.take_length, h.size]
    · rw [heq, drop_length]
      rfl

theorem counted_rest (controller : Controller) (exit : Option ExitInfo) (accepts : Nat) :
    ((Item.control controller :: exit.toList.map Item.exited).take accepts).filter Item.counted =
      [] := by
  have hnone : (Item.control controller :: exit.toList.map Item.exited).filter Item.counted = [] := by
    cases exit <;> rfl
  refine filter_eq_nil_iff.mpr (fun item hitem => ?_)
  exact filter_eq_nil_iff.mp hnone item (mem_of_mem_take hitem)

theorem InStep.watch (E : Emulator T) (h : InStep v) (after : Option Nat) (accepts : Nat)
    (now : Instant) (gone : List Nat) : InStep (v.watch E after accepts now gone) := by
  have hr := h.replay
  generalize hrep : v.replay.getD (.new v.seq v.session.size) = r at hr
  obtain ⟨n, opening, hn, hopens, hopening⟩ := opening_began E h hr after
  -- the attachment has its id, and the replay is there
  have hbegun : InStep { v with nextAttachment := v.nextAttachment + 1, replay := some r } := by
    refine ⟨h.seq, h.size, ?_, h.nodup, ?_, ?_, h.told, h.attached⟩
    · rintro _ ⟨rfl⟩
      exact hr
    · exact fun s hs => Nat.lt_succ_of_lt (h.fresh s hs)
    · exact fun p hp => Nat.lt_succ_of_lt (h.sentFresh p hp)
  have hout : ∀ s ∈ v.sinks, s.1 ≠ v.nextAttachment := by
    intro s hs
    have := h.fresh s hs
    omega
  have hempty : v.log v.nextAttachment = [] := logOf_fresh h.sentFresh
  -- the opening, as far as the viewer takes it
  have hbegan : ∀ items, items <+: numberFrom n (v.stream.drop n) →
      Began v.first v.stream (opening :: items) n items := by
    intro items hp
    refine ⟨hn, opening, items, rfl, hopens, filter_eq_self.mpr (fun item hitem => ?_)⟩
    have hall := filter_eq_self.mp (numberFrom_counted n (v.stream.drop n))
    exact hall item (hp.subset hitem)
  have htold : Told v.first v.stream
      (v.log v.nextAttachment ++ (v.opening E r after).take (accepts + 1)) := by
    rw [hempty, hopening, nil_append, take_succ_cons]
    exact ⟨n, _, hbegan _ ( take_prefix _ _), take_prefix _ _⟩
  obtain ⟨hoffered, hlog⟩ := hbegun.offer (Nat.lt_succ_self _) hout htold
  have hannounced := hoffered.announce now gone
  have hsame := announce_same
    (({ v with nextAttachment := v.nextAttachment + 1, replay := some r } : View T).offer
      v.nextAttachment (v.opening E r after) accepts) now gone
  have hsinks := announce_sinks
    (({ v with nextAttachment := v.nextAttachment + 1, replay := some r } : View T).offer
      v.nextAttachment (v.opening E r after) accepts) now gone
  have hlog' := announce_log hoffered.nodup now gone v.nextAttachment
  rw [if_neg (fun hc => hout _ hc.2 rfl), append_nil, hlog] at hlog'
  replace hlog' := hlog'.trans (congrArg (· ++ _) hempty)
  rw [nil_append] at hlog'
  unfold View.watch
  rw [hrep]
  dsimp only
  generalize (({ v with nextAttachment := v.nextAttachment + 1, replay := some r } : View T).offer
      v.nextAttachment (v.opening E r after) accepts).announce now gone = w at *
  obtain ⟨hnext, _, _, hfirst, hstream, _, _, _⟩ := hsame
  have hnotIn : ∀ s ∈ w.sinks, s.1 ≠ v.nextAttachment := fun s hs => hout s (hsinks.subset hs)
  split
  · exact hannounced
  -- the viewer took the whole opening
  rename_i hall
  have hlen : (v.opening E r after).take (accepts + 1) = v.opening E r after :=
    take_of_length_le (by omega)
  have hupto : ∀ more, more.filter Item.counted = [] →
      UpToDate w.first w.stream (w.log v.nextAttachment ++ more) := by
    intro more hmore
    have hu : UpToDate v.first v.stream (v.opening E r after) := by
      rw [hopening]
      exact ⟨n, hbegan _ (prefix_refl _)⟩
    have hg : UpToDate v.first (v.stream ++ []) (v.opening E r after ++ more) := hu.grow hmore
    rw [append_nil] at hg
    rw [hlog', hlen, hfirst, hstream]
    exact hg
  have hrest := fun k => counted_rest w.announced w.exit k
  obtain ⟨hoffered', hlog''⟩ := hannounced.offer
    (hnext ▸ Nat.lt_succ_self _) hnotIn
    (hupto _ (hrest (accepts - (v.opening E r after).length + 1))).told
  split
  · exact hoffered'
  refine ⟨hoffered'.seq, hoffered'.size, hoffered'.kept, ?_, ?_, hoffered'.sentFresh,
    hoffered'.told, ?_⟩
  · rw [map_append, nodup_append]
    refine ⟨hoffered'.nodup, List.nodup_singleton _, ?_⟩
    intro a ha b hb
    obtain ⟨s, hs, rfl⟩ := mem_map.mp ha
    rw [map_singleton, mem_singleton] at hb
    exact hb ▸ hnotIn s hs
  · intro s hs
    obtain hs | hs := mem_snoc.mp hs
    · exact hoffered'.fresh s hs
    · rw [hs]
      exact hnext ▸ Nat.lt_succ_self _
  · intro id hid
    obtain hid | hid := mem_append.mp hid
    · exact hoffered'.attached id hid
    · rw [mem_singleton] at hid
      obtain rfl : id = v.nextAttachment := congrArg Prod.fst hid
      have hu := hupto _ (hrest (accepts - (v.opening E r after).length + 1))
      rw [← hlog''] at hu
      exact hu

theorem InStep.pushed (h : InStep v) (item : Kept) (r : Replay)
    (hr : v.replay.map (·.push item) = some r) : r.Keeps v.first (v.stream ++ [item]) := by
  obtain ⟨r₀, h₀, rfl⟩ := map_eq_some_iff.mp hr
  exact Replay.push_keeps (h.kept r₀ h₀) item

theorem responder_terminal {now : Instant} {id : Nat} (h : (v.responder now).1 = some id) :
    (id, Sink.terminal) ∈ v.sinks := by
  simp only [View.responder] at h
  split at h
  · cases h
  obtain ⟨s, hs, rfl⟩ := map_eq_some_iff.mp h
  have hkind : s.2 = .terminal := by simpa using List.find?_some hs
  have hmem : s ∈ v.sinks := mem_reverse.mp (mem_of_find?_eq_some hs)
  rwa [← hkind]

theorem hands_handed (h : InStep v) {responder : Option Nat}
    (hr : ∀ id, responder = some id → (id, Sink.terminal) ∈ v.sinks) (seq : Nat)
    (batch quiet : Bytes) : Hands (View.handed seq batch quiet responder) (.output seq quiet) v.sinks := by
  constructor
  · intro id hid
    have hne : some id ≠ responder := by
      intro heq
      have hsame := List.inj_on_of_nodup_map h.nodup hid (hr id heq.symm) rfl
      exact Sink.noConfusion (Prod.ext_iff.mp hsame).2
    simp only [View.handed, if_neg hne]
  · intro id p _ hp
    obtain ⟨_, hp⟩ := Option.ite_none_left_eq_some.mp hp
    cases hp
    exact ⟨rfl, rfl⟩

theorem InStep.deliver (E : Emulator T) (h : InStep v) (batch : Bytes) (now shown : Instant)
    (gone gone' : List Nat) : InStep (v.deliver E batch now shown gone gone').2 := by
  have ha := h.announce now gone
  have hresp : InStep ((v.announce now gone).responder now).2 :=
    ha.frame rfl rfl rfl (List.Sublist.refl _) rfl rfl rfl rfl
  have hterm : ∀ id, ((v.announce now gone).responder now).1 = some id →
      (id, Sink.terminal) ∈ ((v.announce now gone).responder now).2.sinks :=
    fun id => responder_terminal
  unfold View.deliver
  dsimp only
  generalize (v.announce now gone).responder now = r at *
  obtain ⟨responder, w⟩ := r
  dsimp only at hresp hterm ⊢
  exact hresp.hand [.output _] rfl (hands_handed hresp hterm (w.seq + 1) batch _) rfl rfl rfl rfl
    (hresp.pushed _) filter_sublist rfl rfl

theorem InStep.asked (E : Emulator T) (h : InStep v) (ask : Ask) (now : Instant)
    (gone : List Nat) : InStep (v.asked E ask now gone) := by
  unfold View.asked
  dsimp only
  split
  · rename_i hsize
    exact h.frame rfl hsize rfl (List.Sublist.refl _) rfl rfl rfl rfl
  · exact h.hand [.resized (ask.apply v.session now).size] rfl (hands_told _ v.sinks) rfl rfl rfl
      rfl (h.pushed _) filter_sublist rfl rfl

theorem InStep.exited (h : InStep v) (exit : ExitInfo) (gone : List Nat) :
    InStep (v.exited exit gone) := by
  refine InStep.tell ?_ rfl gone
  exact h.frame rfl rfl rfl (List.Sublist.refl _) rfl rfl rfl rfl

theorem localTyped_size (s : Session) (data : Bytes) (now : Instant) :
    (s.localTyped data now).2.size = s.size ∧ (s.localTyped data now).2.exited = s.exited := by
  unfold Session.localTyped
  cases presence data with
  | some focus => exact ⟨rfl, rfl⟩
  | none => dsimp only; split <;> exact ⟨rfl, rfl⟩

theorem inStep_step (E : Emulator T) {t : Turn} (h : InStep v) (hs : v.step E t = some w) :
    InStep w := by
  obtain ⟨locked, gone, gone'⟩ := t
  cases locked with
  | attach open_ =>
    cases hs
    exact h.attach E open_
  | watch after accepts now =>
    cases hs
    exact h.watch E after accepts now gone'
  | detach attachment =>
    cases hs
    exact h.frame rfl rfl rfl filter_sublist rfl rfl rfl rfl
  | deliver batch now shown =>
    simp only [View.step] at hs
    split at hs
    · cases hs
    · cases hs
      exact h.deliver E batch now shown gone' gone
  | ask ask now =>
    cases hs
    exact (h.asked E ask now gone).announce now gone'
  | localTyped data now =>
    cases hs
    exact h.frame rfl (localTyped_size v.session data now).1 rfl (List.Sublist.refl _) rfl rfl rfl rfl
  | controller now =>
    cases hs
    exact h.announce now gone'
  | exited exit =>
    simp only [View.step] at hs
    split at hs
    · cases hs
    · cases hs
      exact h.exited exit gone

theorem Began.unique {first : TermSize} {stream : List Kept} {log items items' : List Item}
    {n n' : Nat} (h : Began first stream log n items) (h' : Began first stream log n' items') :
    n = n' ∧ items = items' := by
  obtain ⟨_, opening, rest, rfl, hopen, rfl⟩ := h
  obtain ⟨_, opening', rest', heq, hopen', rfl⟩ := h'
  cases heq
  refine ⟨?_, rfl⟩
  cases opening with
  | snapshot seq size bytes | resumed seq size => exact hopen.1.symm.trans hopen'.1
  | output | resized | control | exited => exact absurd hopen id

/-- What is promised of a session's numbered stream: `first` is the size it began at and
    `stream` its items so far, numbered from 1. -/
structure Followed (E : Emulator T) (v : View T) : Prop where
  /-- The number of the last item, and the size it left the terminal at. -/
  last : v.seq = v.stream.length ∧ v.session.size = sizeAfter v.first v.stream
  /-- The replay holds exactly the items after `base`, and the size after that one. -/
  kept : ∀ r, v.replay = some r → r.base ≤ v.seq ∧ r.items = v.stream.drop r.base ∧
    r.baseSize = sizeAfter v.first (v.stream.take r.base) ∧
    r.bytes = (r.items.map Kept.cost).sum ∧ r.bytes ≤ REPLAY_BYTES
  since : ∀ r after, v.replay = some r → r.since after =
    if r.base ≤ after ∧ after ≤ v.seq then
      some (sizeAfter v.first (v.stream.take after), numberFrom after (v.stream.drop after))
    else none
  /-- A viewer that attaches is handed first that it resumes, or a snapshot. -/
  opens : ∀ after accepts now gone,
    ((v.watch E after accepts now gone).log v.nextAttachment).head? =
      some (match after.filter (fun n =>
          (v.replay.getD (.new v.seq v.session.size)).base ≤ n ∧ n ≤ v.seq) with
        | some n => .resumed n (sizeAfter v.first (v.stream.take n))
        | none => .snapshot v.seq v.session.size (E.snapshot v.terminal))
  /-- Whoever was handed anything was handed items in order without a gap, and who is still
      attached every one of them. -/
  told : ∀ id, v.log id ≠ [] → Told v.first v.stream (v.log id)
  attached : ∀ id, (id, Sink.numbered) ∈ v.sinks → UpToDate v.first v.stream (v.log id)
  /-- From the item on where the later of two viewers begins, both have the same items. -/
  alike : ∀ id id' n k items items', (id, Sink.numbered) ∈ v.sinks → (id', Sink.numbered) ∈ v.sinks →
    Began v.first v.stream (v.log id) n items → Began v.first v.stream (v.log id') k items' →
    n ≤ k → items.drop (k - n) = items'

def Kept.output? : Kept → Option Bytes
  | .output bytes => some bytes
  | .resized _ => none

def View.outputs {T : Type} (v : View T) : List Bytes := v.stream.filterMap Kept.output?

def plain : Emulator Bytes :=
  { new := fun _ => [], feed := (· ++ ·), setSize := fun shown _ => shown,
    snapshot := fun shown => [ESC, 0x63] ++ shown, cursor := fun _ => (0, 0),
    bracketed := fun _ => false }

def viewAfter (turns : List Turn) : View Bytes :=
  (run (View.step plain) (.new plain .default ⟨80, 24⟩) turns).getD (.new plain .default ⟨80, 24⟩)

theorem run_viewAfter {turns : List Turn}
    (h : (run (View.step plain) (.new plain .default ⟨80, 24⟩) turns).isSome = true) :
    run (View.step plain) (.new plain .default ⟨80, 24⟩) turns = some (viewAfter turns) := by
  obtain ⟨v, hv⟩ := isSome_iff_exists.mp h
  rw [viewAfter, hv, getD_some]

end Yardsort.Pty
