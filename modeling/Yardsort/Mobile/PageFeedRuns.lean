import Yardsort.Mobile.PageFeed

/- That the window and the queue keep their counts, and what follows for the page. -/
namespace Yardsort.Mobile.PageFeed
open Yardsort.Lib
open TerminalControl (TermSize)

def ToPage.id? : ToPage → Option Nat
  | .output id _ => some id
  | _ => none

section
variable {t : Tape} {e : Event} {message : ToPage}

@[simp] theorem note_feed : (t.note e).feed = t.feed := rfl

@[simp] theorem note_account : (t.note e).account = t.account.note e := Account.of_snoc t.log e

@[simp] theorem send_feed : (t.send message).feed = t.feed := by
  unfold Tape.send
  split <;> rfl

theorem send_account : (t.send message).account =
    if t.feed.post then t.account.note (.posted message) else t.account := by
  unfold Tape.send
  split
  · exact note_account
  · rfl

end

/-- What is called back finds nothing waiting, and everything that was posted drawn. -/
def Honest (log : List Event) : Prop :=
  ∀ before waiting after, log = before ++ Event.caughtUp waiting :: after →
    waiting = [] ∧ (Account.of before).undrawn = []

theorem Honest.snoc {log : List Event} {e : Event} (h : Honest log)
    (he : ∀ waiting, e = .caughtUp waiting → waiting = [] ∧ (Account.of log).undrawn = []) :
    Honest (log ++ [e]) := by
  intro before waiting after hlog
  obtain rfl | ⟨rest, last, rfl⟩ := List.eq_nil_or_concat' after
  · obtain ⟨rfl, hlast⟩ := List.append_inj' hlog rfl
    exact he waiting (List.cons.inj hlast).1
  · rw [← cons_append, ← append_assoc] at hlog
    exact h before waiting rest (List.append_inj' hlog rfl).1

def ids (feed : PageFeed) : List Nat :=
  feed.withPage.map (·.1) ++ feed.waiting.filterMap (ToPage.id? ·.message)

structure Counted (feed : PageFeed) : Prop where
  withPage : feed.bytesWithPage = ((feed.withPage.map (·.2)).sum : Nat)
  waiting : feed.bytesWaiting = ((feed.waiting.map (·.bytes)).sum : Nat)
  once : (ids feed).Nodup
  below : ∀ id ∈ ids feed, id < feed.next
  sized : ∀ held ∈ feed.waiting, held.bytes = held.message.bytes
  written : ∀ held ∈ feed.waiting, ∀ size, held.message ≠ .reset size
  window : (feed.withPage.map (·.2)).sum ≤ MAX_WITH_PAGE ∨
    ∃ entry ∈ feed.withPage, (feed.withPage.map (·.2)).sum = entry.2
  bounded : (feed.waiting.map (·.bytes)).sum ≤ MAX_WAITING

structure Told (t : Tape) : Prop where
  inOrder : (t.account.posted ++ t.feed.waiting.map (·.message)).Sublist t.account.written
  noneSkipped : t.feed.post = true → t.account.behind = false →
    t.account.posted ++ t.feed.waiting.map (·.message) = t.account.written
  undrawn : t.account.undrawn = if t.feed.post then t.feed.withPage else []
  honest : Honest t.log

/-- While something waits, something of a size is with the page. -/
def Moving (feed : PageFeed) : Prop := feed.waiting ≠ [] → 0 < feed.bytesWithPage

structure Inv (t : Tape) : Prop where
  counted : Counted t.feed
  told : Told t
  moving : Moving t.feed

theorem start_inv : Inv .start where
  counted := ⟨rfl, rfl, .nil, nofun, nofun, nofun, .inl (Nat.zero_le _), Nat.zero_le _⟩
  told := ⟨.slnil, fun _ _ => rfl, rfl, by
    intro before waiting after h
    cases before <;> cases h⟩
  moving := fun h => absurd rfl h

section
variable {t : Tape}

theorem roomFor_iff {bytes : Nat} : t.roomFor bytes = true ↔
    t.feed.bytesWithPage = 0 ∨ t.feed.bytesWithPage + bytes ≤ MAX_WITH_PAGE := by
  simp [Tape.roomFor]

theorem Counted.pos_of_full {bytes : Nat} (h : Counted t.feed) (hfull : ¬ t.roomFor bytes) :
    0 < t.feed.bytesWithPage := by
  have hne := (not_or.mp (mt roomFor_iff.mpr hfull)).1
  have := h.withPage
  omega

theorem sum_snoc (l : List (Nat × Nat)) (id bytes : Nat) :
    ((l ++ [(id, bytes)]).map (·.2)).sum = (l.map (·.2)).sum + bytes := by
  simp

theorem window_snoc {feed : PageFeed} {id bytes : Nat} (h : Counted feed)
    (hroom : feed.bytesWithPage = 0 ∨ feed.bytesWithPage + bytes ≤ MAX_WITH_PAGE ∨ bytes = 0) :
    ((feed.withPage ++ [(id, bytes)]).map (·.2)).sum ≤ MAX_WITH_PAGE ∨
      ∃ entry ∈ feed.withPage ++ [(id, bytes)],
        ((feed.withPage ++ [(id, bytes)]).map (·.2)).sum = entry.2 := by
  have hcount := h.withPage
  rw [sum_snoc]
  obtain hzero | hfits | hnone := hroom
  · exact .inr ⟨(id, bytes), by simp, by simp only; omega⟩
  · exact .inl (by omega)
  · obtain hle | ⟨entry, hentry, hsum⟩ := h.window
    · exact .inl (by omega)
    · exact .inr ⟨entry, mem_append_left _ hentry, by omega⟩

end

theorem filter_fresh {l : List (Nat × Nat)} {id : Nat} (h : id ∉ l.map (·.1)) :
    l.filter (·.1 ≠ id) = l := by
  refine filter_eq_self.mpr fun entry hentry => ?_
  have hne : entry.1 ≠ id := fun he => h (mem_map.mpr ⟨entry, hentry, he⟩)
  simpa using hne

section
variable {t : Tape} {next : Held} {rest : List Held}

theorem shift_feed (hc : Counted t.feed) (hw : t.feed.waiting = next :: rest) :
    (t.shift next rest).feed = { t.feed with
      waiting := rest
      bytesWaiting := t.feed.bytesWaiting - next.bytes
      withPage := t.feed.withPage ++ ((ToPage.id? next.message).toList.map (·, next.bytes))
      bytesWithPage := t.feed.bytesWithPage + next.bytes } := by
  have honce := hc.once
  have hsize := hc.sized next (by simp [hw])
  rw [ids, hw] at honce
  obtain ⟨message, bytes⟩ := next
  cases message with
  | output id data =>
    have hfresh : id ∉ t.feed.withPage.map (·.1) := fun hmem =>
      (nodup_append.mp honce).2.2 id hmem id (by simp [ToPage.id?]) rfl
    simp only [Tape.shift, Tape.sendOutput, send_feed, filter_fresh hfresh, ToPage.id?,
      toList_some, map_cons, map_nil]
  | reset size | resize size =>
    obtain rfl : bytes = 0 := hsize
    simp [Tape.shift, ToPage.id?]

theorem shift_ids (hc : Counted t.feed) (hw : t.feed.waiting = next :: rest) :
    ids (t.shift next rest).feed = ids t.feed := by
  rw [shift_feed hc hw, ids, ids, hw]
  cases h : ToPage.id? next.message <;> simp [h]

theorem shift_counted (hc : Counted t.feed) (hw : t.feed.waiting = next :: rest)
    (hroom : ¬ (0 < next.bytes ∧ ¬ t.roomFor next.bytes)) :
    Counted (t.shift next rest).feed := by
  have hids := shift_ids hc hw
  have hfeed := shift_feed hc hw
  have hrest : ∀ held ∈ rest, held ∈ t.feed.waiting := fun held h => by simp [hw, h]
  have hsize := hc.sized next (by simp [hw])
  have hwith := hc.withPage
  have hwaiting := hc.waiting
  have hbound := hc.bounded
  rw [hw, map_cons, sum_cons] at hwaiting hbound
  have hsum : (((ToPage.id? next.message).toList.map (·, next.bytes)).map (·.2)).sum =
      next.bytes := by
    cases hm : next.message <;> simp [ToPage.id?, hsize, hm, ToPage.bytes]
  refine ⟨?_, ?_, by rw [hids]; exact hc.once, ?_, ?_, ?_, ?_, ?_⟩
  · rw [hfeed, map_append, sum_append, hsum]
    simp only
    omega
  · rw [hfeed]
    simp only
    omega
  · rw [hids, hfeed]
    exact hc.below
  · rw [hfeed]
    exact fun held h => hc.sized held (hrest held h)
  · rw [hfeed]
    exact fun held h => hc.written held (hrest held h)
  · rw [hfeed]
    cases hid : ToPage.id? next.message with
    | none => simpa using hc.window
    | some id =>
      refine window_snoc hc ?_
      by_cases hpos : 0 < next.bytes
      · have hyes : t.roomFor next.bytes = true := by
          by_contra hno
          exact hroom ⟨hpos, hno⟩
        obtain h | h := roomFor_iff.mp hyes
        · exact .inl h
        · exact .inr (.inl h)
      · exact .inr (.inr (by omega))
  · rw [hfeed]
    simp only
    omega

theorem shift_account : (t.shift next rest).account =
    if t.feed.post then t.account.note (.posted next.message) else t.account := by
  obtain ⟨message, bytes⟩ := next
  cases message <;> simp only [Tape.shift, Tape.sendOutput, send_account] <;> rfl

theorem send_honest {message : ToPage} (h : Honest t.log) : Honest (t.send message).log := by
  unfold Tape.send
  split
  · exact h.snoc (fun waiting he => by cases he)
  · exact h

theorem shift_honest (h : Honest t.log) : Honest (t.shift next rest).log := by
  obtain ⟨message, bytes⟩ := next
  cases message <;> exact send_honest h

theorem shift_told (hc : Counted t.feed) (h : Told t) (hw : t.feed.waiting = next :: rest) :
    Told (t.shift next rest) := by
  have hfeed := shift_feed hc hw
  have haccount := @shift_account t next rest
  have horder := h.inOrder
  have hskip := h.noneSkipped
  have hundrawn := h.undrawn
  have hsize := hc.sized next (by simp [hw])
  have hwritten := hc.written next (by simp [hw])
  rw [hw, map_cons] at horder hskip
  cases hpost : t.feed.post with
  | false =>
    rw [hpost, if_neg (by simp)] at haccount hundrawn
    refine ⟨?_, ?_, ?_, shift_honest h.honest⟩
    · rw [haccount, hfeed]
      have hdrop : (t.account.posted ++ rest.map (·.message)).Sublist
          (t.account.posted ++ next.message :: rest.map (·.message)) :=
        (List.sublist_cons_self _ _).append_left _
      exact hdrop.trans horder
    · rw [hfeed, hpost]
      nofun
    · rw [haccount, hfeed, hpost, hundrawn, if_neg (by simp)]
  | true =>
    rw [hpost, if_pos rfl] at haccount hundrawn
    refine ⟨?_, ?_, ?_, shift_honest h.honest⟩
    · rw [haccount, hfeed]
      cases hm : next.message with
      | reset size => exact absurd hm (hwritten size)
      | output id data | resize size => simpa [Account.note, hm] using horder
    · rw [haccount, hfeed]
      cases hm : next.message with
      | reset size => exact absurd hm (hwritten size)
      | output id data | resize size => simpa [Account.note, hm] using hskip
    · rw [haccount, hfeed, hpost, if_pos rfl]
      cases hm : next.message with
      | reset size => exact absurd hm (hwritten size)
      | output id data => simp [Account.note, ToPage.id?, hundrawn, hsize, hm, ToPage.bytes]
      | resize size => simp [Account.note, ToPage.id?, hundrawn]

end

theorem sendWaiting_keeps (waiting : List Held) {t : Tape} (hw : t.feed.waiting = waiting)
    (hc : Counted t.feed) (h : Told t) : Inv (t.sendWaiting waiting) := by
  induction waiting generalizing t with
  | nil => exact ⟨hc, h, fun hne => absurd hw hne⟩
  | cons next rest ih =>
    rw [Tape.sendWaiting]
    split
    · rename_i hfull
      exact ⟨hc, h, fun _ => hc.pos_of_full hfull.2⟩
    · rename_i hroom
      apply ih
      · rw [shift_feed hc hw]
      · exact shift_counted hc hw hroom
      · exact shift_told hc h hw

theorem sendWaiting_account (waiting : List Held) {t : Tape} (hw : t.feed.waiting = waiting)
    (hc : Counted t.feed) :
    (t.sendWaiting waiting).feed.post = t.feed.post ∧
      (t.sendWaiting waiting).account.written = t.account.written ∧
      (t.sendWaiting waiting).account.behind = t.account.behind ∧
      2 * (t.sendWaiting waiting).feed.waiting.length +
        (t.sendWaiting waiting).feed.withPage.length ≤
        2 * t.feed.waiting.length + t.feed.withPage.length := by
  induction waiting generalizing t with
  | nil => exact ⟨rfl, rfl, rfl, Nat.le_refl _⟩
  | cons next rest ih =>
    rw [Tape.sendWaiting]
    split
    · exact ⟨rfl, rfl, rfl, Nat.le_refl _⟩
    rename_i hroom
    have hfeed := shift_feed hc hw
    have haccount := @shift_account t next rest
    obtain ⟨hpost, hwritten, hbehind, hle⟩ :=
      ih (by rw [hfeed]) (shift_counted hc hw hroom)
    have hnote : (t.shift next rest).account.written = t.account.written ∧
        (t.shift next rest).account.behind = t.account.behind := by
      rw [haccount]
      split
      · cases next.message <;> exact ⟨rfl, rfl⟩
      · exact ⟨rfl, rfl⟩
    have hone : (ToPage.id? next.message).toList.length ≤ 1 := by
      cases ToPage.id? next.message <;> simp
    refine ⟨hpost.trans (by rw [hfeed]), hwritten.trans hnote.1, hbehind.trans hnote.2, ?_⟩
    refine Nat.le_trans hle ?_
    rw [hfeed, hw]
    simp only [length_append, length_map, length_cons]
    omega

/-! ## One call -/

theorem note_honest {t : Tape} {e : Event} (h : Honest t.log) (he : ∀ waiting, e ≠ .caughtUp waiting) :
    Honest (t.note e).log := by
  apply h.snoc
  intro waiting hcaught
  exact absurd hcaught (he waiting)

theorem connect_inv {t : Tape} (post : Bool) (h : Inv t) :
    Inv ((t.note (.connected post)).connect post) where
  counted := ⟨rfl, rfl, .nil, nofun, nofun, nofun, .inl (Nat.zero_le _), Nat.zero_le _⟩
  told := by
    have haccount : ((t.note (.connected post)).connect post).account = ⟨[], [], false, []⟩ :=
      note_account
    refine ⟨?_, ?_, ?_, note_honest h.told.honest nofun⟩
    · rw [haccount]
      exact .slnil
    · rw [haccount]
      intro _ _
      rfl
    · rw [haccount]
      exact (ite_self _).symm
  moving := fun hne => absurd rfl hne

theorem clearWaiting_counted {t : Tape} (h : Counted t.feed) : Counted t.clearWaiting.feed where
  withPage := h.withPage
  waiting := rfl
  once := by
    have honce := h.once
    rw [ids] at honce
    simpa [ids, Tape.clearWaiting] using (nodup_append.mp honce).1
  below := by
    intro id hid
    have hmem : id ∈ t.feed.withPage.map (·.1) := by simpa [ids, Tape.clearWaiting] using hid
    exact h.below id (mem_append_left _ hmem)
  sized := nofun
  written := nofun
  window := h.window
  bounded := Nat.zero_le _

theorem reset_inv {t : Tape} (size : TermSize) (h : Inv t) : Inv ((t.note .restarted).reset size) where
  counted := by
    rw [Tape.reset, send_feed]
    exact clearWaiting_counted (t := t.note .restarted) h.counted
  told := by
    have haccount : ((t.note .restarted).reset size).account =
        { t.account with written := [], posted := [], behind := false } := by
      rw [Tape.reset, send_account]
      have hnote : (t.note .restarted).clearWaiting.account = t.account.note .restarted :=
        note_account
      rw [hnote]
      split <;> rfl
    have hfeed : ((t.note .restarted).reset size).feed = (t.note .restarted).clearWaiting.feed := send_feed
    refine ⟨?_, ?_, ?_, send_honest (note_honest h.told.honest nofun)⟩
    · rw [haccount, hfeed]
      exact .slnil
    · rw [haccount, hfeed]
      intro _ _
      rfl
    · rw [haccount, hfeed]
      exact h.told.undrawn
  moving := by
    rw [Tape.reset, send_feed]
    exact fun hne => absurd rfl hne

section
variable {t : Tape}

/-- A message is written: it has its place at the end of what waits, or is sent. -/
structure Wrote (t : Tape) (message : ToPage) : Prop where
  counted : Counted t.feed
  moving : Moving t.feed
  inOrder : ((t.account.posted ++ t.feed.waiting.map (·.message)) ++ [message]).Sublist
    t.account.written
  noneSkipped : t.feed.post = true → t.account.behind = false →
    (t.account.posted ++ t.feed.waiting.map (·.message)) ++ [message] = t.account.written
  undrawn : t.account.undrawn = if t.feed.post then t.feed.withPage else []
  honest : Honest t.log
  fresh : ∀ id, ToPage.id? message = some id → id ∉ ids t.feed ∧ id < t.feed.next
  drawable : ∀ size, message ≠ .reset size

theorem wrote_output (data : List UInt8) (h : Inv t) :
    Wrote ({ t with feed := { t.feed with next := t.feed.next + 1 } }.note
      (.wrote (.output t.feed.next data))) (.output t.feed.next data) where
  counted := { h.counted with
    below := fun id hid => Nat.lt_succ_of_lt (h.counted.below id hid) }
  moving := h.moving
  inOrder := by
    rw [note_account]
    exact h.told.inOrder.append_right [_]
  noneSkipped := by
    intro hpost hbehind
    rw [note_account] at hbehind ⊢
    exact congrArg (· ++ [_]) (h.told.noneSkipped hpost hbehind)
  undrawn := by
    rw [note_account]
    exact h.told.undrawn
  honest := note_honest h.told.honest nofun
  fresh := by
    rintro id ⟨⟩
    refine ⟨fun hmem => ?_, Nat.lt_succ_self _⟩
    exact Nat.lt_irrefl _ (h.counted.below _ hmem)
  drawable := nofun

theorem wrote_resize (size : TermSize) (h : Inv t) :
    Wrote (t.note (.wrote (.resize size))) (.resize size) where
  counted := h.counted
  moving := h.moving
  inOrder := by
    rw [note_account]
    exact h.told.inOrder.append_right [_]
  noneSkipped := by
    intro hpost hbehind
    rw [note_account] at hbehind ⊢
    exact congrArg (· ++ [_]) (h.told.noneSkipped hpost hbehind)
  undrawn := by
    rw [note_account]
    exact h.told.undrawn
  honest := note_honest h.told.honest nofun
  fresh := nofun
  drawable := nofun

theorem hold_inv {message : ToPage} (h : Wrote t message)
    (hfull : 0 < t.feed.bytesWithPage)
    (hbound : t.feed.bytesWaiting + message.bytes ≤ MAX_WAITING) :
    Inv (t.hold message message.bytes) where
  counted :=
    { withPage := h.counted.withPage
      waiting := by
        have := h.counted.waiting
        simp only [Tape.hold, map_append, sum_append, map_cons, map_nil,
          sum_cons, sum_nil]
        omega
      once := by
        have hids : ids (t.hold message message.bytes).feed =
            ids t.feed ++ (ToPage.id? message).toList := by
          cases hid : ToPage.id? message <;> simp [ids, Tape.hold, hid]
        rw [hids]
        cases hid : ToPage.id? message with
        | none => simpa using h.counted.once
        | some id =>
          rw [toList_some]
          exact h.counted.once.append (List.nodup_singleton id)
            (List.disjoint_singleton.mpr (h.fresh id hid).1)
      below := by
        intro id hid
        have hmem : id ∈ ids t.feed ∨ ToPage.id? message = some id := by
          simp only [ids, Tape.hold, filterMap_append, filterMap_cons, filterMap_nil,
            mem_append] at hid ⊢
          cases hsome : ToPage.id? message with
          | none => simpa [hsome] using hid
          | some id' =>
            simp only [hsome, mem_singleton, Option.some.injEq] at hid ⊢
            tauto
        obtain hmem | hmem := hmem
        · exact h.counted.below id hmem
        · exact (h.fresh id hmem).2
      sized := by
        intro held hheld
        obtain hheld | hheld := mem_snoc.mp hheld
        · exact h.counted.sized held hheld
        · rw [hheld]
      written := by
        intro held hheld
        obtain hheld | hheld := mem_snoc.mp hheld
        · exact h.counted.written held hheld
        · rw [hheld]
          exact h.drawable
      window := h.counted.window
      bounded := by
        have := h.counted.waiting
        simp only [Tape.hold, map_append, sum_append, map_cons, map_nil,
          sum_cons, sum_nil]
        omega }
  told :=
    { inOrder := by simpa [Tape.hold, Tape.account] using h.inOrder
      noneSkipped := by simpa [Tape.hold, Tape.account] using h.noneSkipped
      undrawn := h.undrawn
      honest := h.honest }
  moving := fun _ => hfull

theorem sent_told {message : ToPage} {entries : List (Nat × Nat)} (h : Wrote t message)
    (hw : t.feed.waiting = [])
    (hentries : entries = (ToPage.id? message).toList.map (·, message.bytes)) {t' : Tape}
    (hfeed : t'.feed.post = t.feed.post ∧ t'.feed.waiting = [] ∧
      t'.feed.withPage = t.feed.withPage ++ entries)
    (haccount : t'.account =
      if t.feed.post then t.account.note (.posted message) else t.account)
    (hhonest : Honest t'.log) : Told t' := by
  obtain ⟨hpost, hwaiting, hwith⟩ := hfeed
  have horder := h.inOrder
  have hskip := h.noneSkipped
  have hundrawn := h.undrawn
  rw [hw, map_nil, append_nil] at horder hskip
  cases hp : t.feed.post with
  | false =>
    rw [hp, if_neg (by simp)] at haccount hundrawn
    refine ⟨?_, ?_, ?_, hhonest⟩
    · rw [haccount, hwaiting, map_nil, append_nil]
      exact (sublist_append_left _ _).trans horder
    · rw [hpost, hp]
      nofun
    · rw [haccount, hpost, hp, hundrawn, if_neg (by simp)]
  | true =>
    rw [hp, if_pos rfl] at haccount hundrawn
    refine ⟨?_, ?_, ?_, hhonest⟩
    · rw [haccount, hwaiting]
      cases message with
      | reset size => exact absurd rfl (h.drawable size)
      | output id data | resize size => simpa [Account.note] using horder
    · rw [haccount, hwaiting, hpost]
      cases message with
      | reset size => exact absurd rfl (h.drawable size)
      | output id data | resize size => simpa [Account.note, hp] using hskip
    · rw [haccount, hpost, hp, hwith, hentries, if_pos rfl]
      cases message with
      | reset size => exact absurd rfl (h.drawable size)
      | output id data => simp [Account.note, ToPage.id?, hundrawn, ToPage.bytes]
      | resize size => simp [Account.note, ToPage.id?, hundrawn]

theorem resize_inv (size : TermSize) (h : Inv t) :
    Inv ((t.note (.wrote (.resize size))).resize size) := by
  have hwrote := wrote_resize size h
  unfold Tape.resize
  dsimp only
  split
  · rename_i hne
    have hpos : 0 < t.feed.bytesWithPage := h.moving hne
    refine hold_inv hwrote hpos ?_
    have := h.counted.waiting
    have := h.counted.bounded
    simp only [ToPage.bytes, note_feed]
    omega
  · rename_i hnone
    have hw : t.feed.waiting = [] := not_not.mp hnone
    refine ⟨?_, ?_, ?_⟩
    · rw [send_feed]
      exact h.counted
    · exact sent_told hwrote hw rfl
        ⟨by rw [send_feed], by rw [send_feed]; exact hw, by rw [send_feed]; simp [ToPage.id?]⟩
        send_account (send_honest hwrote.honest)
    · rw [send_feed]
      exact h.moving

theorem sendOutput_inv {id : Nat} {data : List UInt8} (h : Wrote t (.output id data))
    (hw : t.feed.waiting = []) (hroom : t.roomFor data.length = true) :
    Inv (t.sendOutput (.output id data) id data.length) := by
  obtain ⟨hnew, hlt⟩ := h.fresh id rfl
  have hfresh : id ∉ t.feed.withPage.map (·.1) := fun hmem => hnew (mem_append_left _ hmem)
  have hfeed : (t.sendOutput (.output id data) id data.length).feed = { t.feed with
      withPage := t.feed.withPage ++ [(id, data.length)]
      bytesWithPage := t.feed.bytesWithPage + data.length } := by
    rw [Tape.sendOutput, send_feed, filter_fresh hfresh]
  have hids : ids (t.sendOutput (.output id data) id data.length).feed = ids t.feed ++ [id] := by
    rw [hfeed]
    simp [ids, hw]
  refine ⟨⟨?_, ?_, ?_, ?_, ?_, ?_, ?_, ?_⟩, ?_, ?_⟩
  · have := h.counted.withPage
    rw [hfeed, sum_snoc]
    simp only
    omega
  · rw [hfeed]
    exact h.counted.waiting
  · rw [hids]
    exact h.counted.once.append (List.nodup_singleton id) (List.disjoint_singleton.mpr hnew)
  · rw [hids, hfeed]
    intro other hother
    obtain hother | hother := mem_snoc.mp hother
    · exact h.counted.below other hother
    · rw [hother]
      exact hlt
  · rw [hfeed]
    exact h.counted.sized
  · rw [hfeed]
    exact h.counted.written
  · rw [hfeed]
    apply window_snoc h.counted
    obtain hzero | hfits := roomFor_iff.mp hroom
    · exact .inl hzero
    · exact .inr (.inl hfits)
  · rw [hfeed]
    exact h.counted.bounded
  · refine sent_told h hw rfl ⟨by rw [hfeed], by rw [hfeed]; exact hw, by rw [hfeed]; rfl⟩ ?_ ?_
    · rw [Tape.sendOutput, send_account]
      rfl
    · exact send_honest h.honest
  · rw [hfeed]
    exact fun hne => absurd hw hne

theorem behind_inv {message : ToPage} (h : Wrote t message) :
    Inv (t.clearWaiting.note .behind) where
  counted := clearWaiting_counted h.counted
  told := by
    have haccount : (t.clearWaiting.note .behind).account = { t.account with behind := true } :=
      note_account
    refine ⟨?_, ?_, ?_, note_honest h.honest nofun⟩
    · have hfirst : t.account.posted.Sublist
          ((t.account.posted ++ t.feed.waiting.map (·.message)) ++ [message]) := by simp
      rw [haccount]
      simpa [Tape.clearWaiting] using hfirst.trans h.inOrder
    · rw [haccount]
      nofun
    · rw [haccount]
      exact h.undrawn
  moving := fun hne => absurd rfl hne

theorem write_inv {behind : Tape → Tape} (hbehind : ∀ t, Inv t → Inv (behind t))
    (data : List UInt8) (h : Inv t) :
    Inv ((t.note (.wrote (.output t.feed.next data))).write behind data) := by
  have hwrote := wrote_output data h
  unfold Tape.write
  dsimp only
  split
  · rename_i hwait
    have hpos : 0 < t.feed.bytesWithPage := by
      obtain hne | hfull := hwait
      · exact h.moving hne
      · exact hwrote.counted.pos_of_full hfull
    split
    · exact hbehind _ (behind_inv hwrote)
    · rename_i hfits
      exact hold_inv hwrote hpos (by simpa [ToPage.bytes] using hfits)
  · rename_i hgoes
    obtain ⟨hnone, hroom⟩ := not_or.mp hgoes
    exact sendOutput_inv hwrote (not_not.mp hnone) (not_not.mp hroom)

end

section
variable {l : List (Nat × Nat)} {id bytes : Nat}

theorem sum_filter (honce : (l.map (·.1)).Nodup) (h : (id, bytes) ∈ l) :
    ((l.filter (·.1 ≠ id)).map (·.2)).sum + bytes = (l.map (·.2)).sum ∧
      (l.filter (·.1 ≠ id)).length + 1 = l.length := by
  obtain ⟨before, after, rfl⟩ := append_of_mem h
  rw [map_append, map_cons, List.nodup_middle, nodup_cons] at honce
  obtain ⟨hfresh, -⟩ := honce
  rw [mem_append, not_or] at hfresh
  rw [filter_append, filter_cons_of_neg (by simp), filter_fresh hfresh.1,
    filter_fresh hfresh.2]
  simp only [map_append, sum_append, map_cons, sum_cons, length_append,
    length_cons]
  omega

theorem le_sum {entry : Nat × Nat} (h : entry ∈ l) : entry.2 ≤ (l.map (·.2)).sum := by
  induction l with
  | nil => cases h
  | cons first l ih =>
    rw [map_cons, sum_cons]
    obtain rfl | h := mem_cons.mp h
    · omega
    · have := ih h
      omega

end

def Tape.took (id bytes : Nat) (t : Tape) : Tape :=
  { t with feed := { t.feed with
    withPage := t.feed.withPage.filter (·.1 ≠ id)
    bytesWithPage := t.feed.bytesWithPage - bytes } }

section
variable {t : Tape} {id bytes : Nat}

theorem took_counted (h : Counted t.feed) (hmem : (id, bytes) ∈ t.feed.withPage) :
    Counted (t.took id bytes).feed := by
  have honce := h.once
  rw [ids] at honce
  obtain ⟨hsum, -⟩ := sum_filter (nodup_append.mp honce).1 hmem
  have hsub : (ids (t.took id bytes).feed).Sublist (ids t.feed) :=
    ((filter_sublist (l := t.feed.withPage)).map _).append_right _
  refine ⟨?_, h.waiting, h.once.sublist hsub, ?_, h.sized, h.written, ?_, h.bounded⟩
  · have := h.withPage
    simp only [Tape.took]
    omega
  · exact fun other hother => h.below other (hsub.subset hother)
  · simp only [Tape.took]
    obtain hle | ⟨entry, hentry, hone⟩ := h.window
    · exact .inl (by omega)
    · by_cases hsame : entry.1 = id
      -- the one message was drawn
      · have := le_sum hmem
        have hbytes : entry.2 = bytes := by
          have h₁ := lookup_of_mem (nodup_append.mp honce).1 hentry
          rw [hsame, lookup_of_mem (nodup_append.mp honce).1 hmem] at h₁
          exact (Option.some.inj h₁).symm
        exact .inl (by omega)
      · have hkept : entry ∈ t.feed.withPage.filter (·.1 ≠ id) :=
          mem_filter.mpr ⟨hentry, by simpa using hsame⟩
        have := le_sum hkept
        exact .inr ⟨entry, hkept, by omega⟩

theorem drew_told (h : Told t) : Told ((t.note (.drew id)).took id bytes) := by
  have haccount : ((t.note (.drew id)).took id bytes).account = t.account.note (.drew id) :=
    note_account
  refine ⟨?_, ?_, ?_, note_honest h.honest nofun⟩
  · rw [haccount]
    exact h.inOrder
  · rw [haccount]
    exact h.noneSkipped
  · rw [haccount]
    cases hpost : t.feed.post <;> simp [Account.note, Tape.took, h.undrawn, hpost]

theorem unknown_inv (h : Inv t) (hnone : t.feed.withPage.lookup id = none) :
    Inv (t.note (.drew id)) where
  counted := h.counted
  told := by
    have hfresh : id ∉ t.feed.withPage.map (·.1) := by
      intro hmem
      obtain ⟨entry, hentry, rfl⟩ := mem_map.mp hmem
      have honce := h.counted.once
      rw [ids] at honce
      have hsome := lookup_of_mem (nodup_append.mp honce).1 hentry
      rw [hnone] at hsome
      cases hsome
    refine ⟨?_, ?_, ?_, note_honest h.told.honest nofun⟩
    · rw [note_account]
      exact h.told.inOrder
    · rw [note_account]
      exact h.told.noneSkipped
    · rw [note_account]
      have hfilter := filter_fresh hfresh
      cases hpost : t.feed.post with
      | false => simp [Account.note, h.told.undrawn, hpost]
      | true => simpa [Account.note, h.told.undrawn, hpost] using hfilter
  moving := h.moving

theorem drawn_inv {caughtUp : Tape → Tape} (hcaught : ∀ t, Inv t → Inv (caughtUp t)) (id : Nat)
    (h : Inv t) : Inv ((t.note (.drew id)).drawn caughtUp id) := by
  unfold Tape.drawn
  dsimp only
  cases hlookup : (t.note (.drew id)).feed.withPage.lookup id with
  | none => exact unknown_inv h hlookup
  | some bytes =>
    have hinv := sendWaiting_keeps _ rfl
      (took_counted (t := t.note (.drew id)) h.counted (mem_of_lookup hlookup))
      (drew_told h.told)
    dsimp only
    split
    · rename_i hdone
      apply hcaught
      refine ⟨hinv.counted, ⟨?_, ?_, ?_, ?_⟩, hinv.moving⟩
      · rw [note_account]
        exact hinv.told.inOrder
      · rw [note_account]
        exact hinv.told.noneSkipped
      · rw [note_account]
        exact hinv.told.undrawn
      · apply hinv.told.honest.snoc
        rintro waiting ⟨⟩
        refine ⟨hdone.1, hinv.told.undrawn.trans ?_⟩
        split
        · exact hdone.2
        · rfl
    · exact hinv

end

mutual

theorem perform_inv : ∀ (call : Call) {t : Tape}, Inv t → Inv (call.perform t)
  | .connect post, _, h => connect_inv post h
  | .reset size, _, h => reset_inv size h
  | .write data behind, _, h => write_inv (fun _ => performAll_inv behind) data h
  | .resize size, _, h => resize_inv size h
  | .drawn id caughtUp, _, h => drawn_inv (fun _ => performAll_inv caughtUp) id h

theorem performAll_inv : ∀ (calls : List Call) {t : Tape}, Inv t → Inv (performAll calls t)
  | [], _, h => h
  | call :: calls, _, h => performAll_inv calls (perform_inv call h)

end

theorem answer_progress {t : Tape} {id : Nat} (h : Inv t) (hid : id ∈ t.feed.withPage.map (·.1)) :
    ((Call.drawn id []).perform t).feed.post = t.feed.post ∧
      ((Call.drawn id []).perform t).account.written = t.account.written ∧
      ((Call.drawn id []).perform t).account.behind = t.account.behind ∧
      2 * ((Call.drawn id []).perform t).feed.waiting.length +
        ((Call.drawn id []).perform t).feed.withPage.length + 1 ≤
        2 * t.feed.waiting.length + t.feed.withPage.length := by
  obtain ⟨⟨_, bytes⟩, hentry, rfl⟩ := mem_map.mp hid
  have honce := h.counted.once
  rw [ids] at honce
  have hkeys := (nodup_append.mp honce).1
  have hlookup := lookup_of_mem hkeys hentry
  obtain ⟨-, hlength⟩ := sum_filter hkeys hentry
  obtain ⟨hpost, hwritten, hbehind, hle⟩ := sendWaiting_account _ rfl
    (took_counted (t := t.note (.drew _)) h.counted hentry)
  have hnote : ∀ t : Tape, (t.note (.caughtUp t.feed.waiting)).account = t.account :=
    fun _ => note_account
  have hdrew : ∀ id bytes, ((t.note (.drew id)).took id bytes).account =
      t.account.note (.drew id) := fun _ _ => note_account
  rw [hdrew] at hwritten hbehind
  rw [Call.perform, Tape.drawn]
  dsimp only at hlookup ⊢
  rw [note_feed, hlookup]
  dsimp only
  simp only [Tape.took, note_feed] at hle hpost
  split
  · rw [performAll]
    refine ⟨hpost, ?_, ?_, ?_⟩
    · rw [hnote]
      exact hwritten
    · rw [hnote]
      exact hbehind
    · simp only [note_feed] at hle ⊢
      omega
  · refine ⟨hpost, hwritten, hbehind, ?_⟩
    omega

theorem answers_cons (id : Nat) (rest : List Nat) (t : Tape) :
    t.answers (id :: rest) = ((Call.drawn id []).perform t).answers rest := by
  rw [Tape.answers, map_cons, performAll]
  rfl

theorem answers_drain (known : List Nat) {t : Tape} (h : Inv t) (hknown : Known known t) :
    known.length ≤ 2 * t.feed.waiting.length + t.feed.withPage.length ∧
      Inv (t.answers known) ∧ (t.answers known).feed.post = t.feed.post ∧
      (t.answers known).account.written = t.account.written ∧
      (t.answers known).account.behind = t.account.behind := by
  induction known generalizing t with
  | nil => exact ⟨Nat.zero_le _, h, rfl, rfl, rfl⟩
  | cons id known ih =>
    obtain ⟨hid, hrest⟩ := hknown
    obtain ⟨hpost, hwritten, hbehind, hless⟩ := answer_progress h hid
    obtain ⟨hlength, hinv, hpost', hwritten', hbehind'⟩ := ih (perform_inv (.drawn id []) h) hrest
    rw [answers_cons, length_cons]
    exact ⟨by omega, hinv, hpost'.trans hpost, hwritten'.trans hwritten,
      hbehind'.trans hbehind⟩

theorem Inv.nothing_waits {t : Tape} (h : Inv t) (hnone : t.feed.withPage = []) :
    t.feed.waiting = [] := by
  by_contra hne
  have hpos := h.moving hne
  have hcount := h.counted.withPage
  rw [hnone, map_nil, sum_nil] at hcount
  omega

theorem exists_pos {l : List (Nat × Nat)} (h : 0 < (l.map (·.2)).sum) : ∃ entry ∈ l, 0 < entry.2 := by
  induction l with
  | nil => simp at h
  | cons first l ih =>
    by_cases hfirst : 0 < first.2
    · exact ⟨first, by simp, hfirst⟩
    · rw [map_cons, sum_cons] at h
      obtain ⟨entry, hentry, hpos⟩ := ih (by omega)
      exact ⟨entry, by simp [hentry], hpos⟩

theorem Inv.kept {t : Tape} (h : Inv t) : Kept t where
  inOrder := h.told.inOrder
  noneSkipped := h.told.noneSkipped
  undrawn hpost := h.told.undrawn.trans (if_pos hpost)
  sized := h.counted.sized
  moving hne := by
    have hpos := h.moving hne
    have hcount := h.counted.withPage
    exact exists_pos (by omega)
  drains known hknown := by
    obtain ⟨hlength, hinv, hpost, hwritten, hbehind⟩ := answers_drain known h hknown
    refine ⟨hlength, fun hnone => ?_⟩
    have hwaiting := hinv.nothing_waits hnone
    refine ⟨hwaiting, fun hpage hnot => ?_⟩
    have hall := hinv.told.noneSkipped (hpost.trans hpage) (hbehind.trans hnot)
    rw [hwaiting, map_nil, append_nil] at hall
    exact hall.trans hwritten
  window := h.counted.window
  bounded := h.counted.bounded
  caughtUp := h.told.honest

def twoWritten (first second : List UInt8) : Tape :=
  performAll [.connect true, .write first [], .write second []] .start

/-- **With no room left at the page**, what is written waits, and goes once the page has drawn. -/
theorem second_waits {first second : List UInt8} (hsome : first ≠ [])
    (hfull : MAX_WITH_PAGE < first.length + second.length) (hfits : second.length ≤ MAX_WAITING) :
    (twoWritten first second).feed.waiting.map (·.message) = [.output 1 second] ∧
      (twoWritten first second).account.posted = [.output 0 first] ∧
      ((twoWritten first second).answers [0]).feed.waiting = [] ∧
      ((twoWritten first second).answers [0]).account.posted =
        [.output 0 first, .output 1 second] := by
  have hpos : first.length ≠ 0 := by simpa using hsome
  have hmore : ¬ (first.length : Int) + second.length ≤ MAX_WITH_PAGE := by omega
  have hnot : ¬ (MAX_WAITING : Int) < second.length := by omega
  have htwo : twoWritten first second =
      ⟨⟨true, [(0, first.length)], first.length, [⟨.output 1 second, second.length⟩],
          second.length, 2⟩,
        [.connected true, .wrote (.output 0 first), .posted (.output 0 first),
          .wrote (.output 1 second)]⟩ := by
    simp [twoWritten, performAll, Call.perform, Tape.connect, Tape.write, Tape.roomFor,
      Tape.sendOutput, Tape.send, Tape.hold, Tape.note, Tape.start, hpos, hmore, hnot]
  rw [htwo]
  refine ⟨rfl, rfl, ?_, ?_⟩
  · simp [Tape.answers, performAll, Call.perform, Tape.drawn, Tape.note, Tape.sendWaiting,
      Tape.roomFor, Tape.shift, Tape.sendOutput, Tape.send]
  · simp [Tape.answers, performAll, Call.perform, Tape.drawn, Tape.note, Tape.sendWaiting,
      Tape.roomFor, Tape.shift, Tape.sendOutput, Tape.send, Tape.account, Account.of, Account.note]

end Yardsort.Mobile.PageFeed
