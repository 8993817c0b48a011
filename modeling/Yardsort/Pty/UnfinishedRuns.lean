import Mathlib.Data.List.Induction
import Yardsort.Pty.QuietCopy

/- What `Unfinished` keeps of a stream, and what it is worth to a viewer.

   A sequence or a character is open after a stream exactly when the stream ends in a byte that
   begins it and bytes that go on in it (`Opened`); without the limit, `whole` keeps of these what
   is not carried out on the way. Within the limit a fresh follower that is given the bytes kept is
   where the stream left the first one. Past it, it is given two bytes, and of an escape whose
   second byte is one that `Escape` ignores, they say less than the introducer does
   (`replays_iff`). -/
namespace Yardsort.Pty
open Yardsort.Lib

namespace Unfinished

def follow (state : State) (stream : Bytes) : State := stream.foldl (fun s b => (step s b).1) state

def GoesOn : State → Bytes → Prop
  | _, [] => True
  | s, b :: bs => (step s b).2 = false ∧ (step s b).1 ≠ .ground ∧ GoesOn (step s b).1 bs

instance : (s : State) → (bs : Bytes) → Decidable (GoesOn s bs)
  | _, [] => inferInstanceAs (Decidable True)
  | s, b :: bs =>
    have := instDecidableGoesOn (step s b).1 bs
    inferInstanceAs (Decidable (_ ∧ _ ∧ _))

/-- What is kept of bytes that go on in a state: all that is not carried out where it stands. -/
def keptOf : State → Bytes → Bytes
  | _, [] => []
  | s, b :: bs => (if isControl b && s.inSequence then [] else [b]) ++ keptOf (step s b).1 bs

theorem follow_append (s : State) (xs ys : Bytes) :
    follow s (xs ++ ys) = follow (follow s xs) ys := foldl_append ..

theorem goesOn_append {s : State} {xs ys : Bytes} :
    GoesOn s (xs ++ ys) ↔ GoesOn s xs ∧ GoesOn (follow s xs) ys := by
  induction xs generalizing s with
  | nil => simp [GoesOn, follow]
  | cons b xs ih =>
    simp only [cons_append, GoesOn, ih, and_assoc]
    rfl

/-- What begins afresh is what it would be with nothing open. -/
theorem step_restart {s : State} {b : UInt8} (h : (step s b).2 = true) :
    (step s b).1 = (step .ground b).1 := by
  by_cases hesc : b = ESC
  · simp [step, hesc]
  · by_cases hcan : b = CAN ∨ b = SUB
    · simp [step, hesc, hcan]
    · cases s <;> simp only [step, hesc, hcan, if_false] at h ⊢
      case utf8 left =>
        split at h
        · cases h
        · rename_i hcont
          rw [if_neg hcont]
      all_goals cases h

theorem step_carried {s : State} {b : UInt8} (hr : (step s b).2 = false)
    (hb : isControl b = true) (hs : s.inSequence = true) : (step s b).1 = s := by
  obtain ⟨hesc, hcan⟩ := not_restart hr
  have hlow : b.toNat < 32 := UInt8.lt_iff_toNat_lt.mp (of_decide_eq_true hb)
  have hge : ∀ c : UInt8, 32 ≤ c.toNat → ¬ c ≤ b := by
    intro c hc hle
    have := UInt8.le_iff_toNat_le.mp hle
    omega
  have hne : ∀ c : UInt8, 32 ≤ c.toNat → b ≠ c := by
    rintro c hc rfl
    omega
  cases s with
  | escape => simp [step, hesc, hcan, afterEscape, hge, hne]
  | escapeIntermediate | csi => simp [step, hesc, hcan, hge]
  | ground | utf8 left | string e => cases hs

theorem follow_keptOf {s : State} {bs : Bytes} (h : GoesOn s bs) :
    GoesOn s (keptOf s bs) ∧ follow s (keptOf s bs) = follow s bs := by
  induction bs generalizing s with
  | nil => exact ⟨trivial, rfl⟩
  | cons b bs ih =>
    obtain ⟨hr, hn, hgo⟩ := h
    obtain ⟨ihgo, ihfollow⟩ := ih hgo
    rw [keptOf]
    split
    · rename_i hcarried
      obtain ⟨hctl, hseq⟩ := Bool.and_eq_true_iff.mp hcarried
      have hstays := step_carried hr hctl hseq
      rw [hstays] at ihgo ihfollow ⊢
      rw [nil_append]
      refine ⟨ihgo, ihfollow.trans ?_⟩
      show _ = follow (step s b).1 bs
      rw [hstays]
    · exact ⟨⟨hr, hn, ihgo⟩, ihfollow⟩

structure Whole where
  state : State
  bytes : Bytes

def Whole.read (w : Whole) (b : UInt8) : Whole :=
  let (next, restart) := step w.state b
  if !restart && isControl b && w.state.inSequence then { w with state := next }
  else if next = .ground then { state := next, bytes := [] }
  else if restart then { state := next, bytes := [b] }
  else { state := next, bytes := w.bytes ++ [b] }

def whole (stream : Bytes) : Whole := stream.foldl Whole.read { state := .ground, bytes := [] }

theorem read_state (w : Whole) (b : UInt8) : (w.read b).state = (step w.state b).1 := by
  unfold Whole.read
  dsimp only
  split
  · rfl
  · split
    · rfl
    · split <;> rfl

theorem whole_state (stream : Bytes) : (whole stream).state = follow .ground stream := by
  induction stream using List.reverseRecOn with
  | nil => rfl
  | append_singleton stream b ih =>
    rw [whole, foldl_append, follow_append, ← ih]
    exact read_state _ b

theorem read_begins {w : Whole} {b : UInt8} (hr : (step w.state b).2 = true)
    (hn : (step w.state b).1 ≠ .ground) : w.read b = ⟨(step w.state b).1, [b]⟩ := by
  rw [Whole.read]
  simp [hr, hn]

theorem read_goesOn {w : Whole} {b : UInt8} (hr : (step w.state b).2 = false)
    (hn : (step w.state b).1 ≠ .ground) :
    w.read b = ⟨(step w.state b).1,
      w.bytes ++ if isControl b && w.state.inSequence then [] else [b]⟩ := by
  rw [Whole.read]
  dsimp only
  rw [hr]
  by_cases hc : isControl b && w.state.inSequence
  · simp [hc]
  · simp [hc, hn]

theorem foldl_goesOn {w : Whole} {bs : Bytes} (h : GoesOn w.state bs) :
    bs.foldl Whole.read w = ⟨follow w.state bs, w.bytes ++ keptOf w.state bs⟩ := by
  induction bs generalizing w with
  | nil => simp [follow, keptOf]
  | cons b bs ih =>
    obtain ⟨hr, hn, hgo⟩ := h
    rw [foldl_cons, ih (by rw [read_state]; exact hgo), read_goesOn hr hn, keptOf,
      append_assoc]
    rfl

/-- A stream ends in a byte that begins something and bytes that go on in it. -/
structure Opened (stream before : Bytes) (first : UInt8) (rest : Bytes) : Prop where
  cut : stream = before ++ first :: rest
  begins : (step (follow .ground before) first).2 = true
  opens : (step .ground first).1 ≠ .ground
  goesOn : GoesOn (step .ground first).1 rest

theorem Opened.whole {stream before rest : Bytes} {first : UInt8}
    (h : Opened stream before first rest) :
    whole stream = ⟨follow (step .ground first).1 rest,
      first :: keptOf (step .ground first).1 rest⟩ := by
  have hbegins := h.begins
  have hopens := h.opens
  rw [← whole_state] at hbegins
  rw [← step_restart hbegins] at hopens
  have hread := read_begins hbegins hopens
  rw [step_restart hbegins] at hread
  rw [h.cut, Unfinished.whole, foldl_append, foldl_cons]
  show List.foldl Whole.read ((Unfinished.whole before).read first) rest = _
  rw [hread, foldl_goesOn h.goesOn]
  rfl

theorem opened_or_idle (stream : Bytes) :
    whole stream = ⟨.ground, []⟩ ∨ ∃ before first rest, Opened stream before first rest := by
  induction stream using List.reverseRecOn with
  | nil => exact .inl rfl
  | append_singleton stream b ih =>
    have hlast : whole (stream ++ [b]) = (whole stream).read b := by
      rw [whole, foldl_append]
      rfl
    have hstate := whole_state stream
    cases hr : (step (whole stream).state b).2 with
    | true =>
      -- Something begins here, or what was open is cancelled.
      by_cases hn : (step .ground b).1 = .ground
      · left
        have hn := (step_restart hr).trans hn
        rw [hlast, Whole.read]
        simp [hr, hn]
      · right
        exact ⟨stream, b, [], rfl, hstate ▸ hr, hn, trivial⟩
    | false =>
      by_cases hn : (step (whole stream).state b).1 = .ground
      · left
        have hcarried : (isControl b && (whole stream).state.inSequence) = false := by
          rw [Bool.eq_false_iff]
          intro hc
          obtain ⟨hctl, hseq⟩ := Bool.and_eq_true_iff.mp hc
          have hstays := step_carried hr hctl hseq
          rw [← hstays, hn] at hseq
          cases hseq
        rw [hlast, Whole.read]
        simp [hr, hn, hcarried]
      · right
        obtain hidle | ⟨before, first, rest, hopened⟩ := ih
        -- With nothing open every byte begins afresh.
        · rw [hidle] at hr
          by_cases hesc : b = ESC
          · simp [step, hesc] at hr
          · by_cases hcan : b = CAN ∨ b = SUB <;> simp [step, hesc, hcan] at hr
        · refine ⟨before, first, rest ++ [b], ?_, hopened.begins, hopened.opens, ?_⟩
          · rw [hopened.cut, append_assoc]
            rfl
          · rw [hopened.whole] at hr hn
            exact goesOn_append.mpr ⟨hopened.goesOn, hr, hn, trivial⟩

/-- What is kept of bytes within the limit, or past it. -/
def short (bytes : Bytes) : Bytes := if MAX_UNFINISHED < bytes.length then bytes.take 2 else bytes

/-- The follower keeps what `whole` does, up to the limit. -/
structure Holds (u : Unfinished) (w : Whole) : Prop where
  state : u.state = w.state
  bytes : u.bytes = short w.bytes
  overflowed : u.overflowed = decide (MAX_UNFINISHED < w.bytes.length)

theorem holds_keep {u : Unfinished} {w : Whole} (h : Holds u w) (b : UInt8) :
    Holds (u.keep b) ⟨w.state, w.bytes ++ [b]⟩ := by
  obtain ⟨hstate, hbytes, hover⟩ := h
  have hmax : 2 ≤ MAX_UNFINISHED := by decide
  rw [short] at hbytes
  unfold keep
  by_cases hlong : MAX_UNFINISHED < w.bytes.length
  · rw [if_pos hlong] at hbytes
    rw [if_pos (hover.trans (decide_eq_true hlong))]
    refine ⟨hstate, ?_, ?_⟩
    · rw [hbytes, short, if_pos (by simp; omega), take_append_of_le_length (by omega)]
    · rw [hover, length_append]
      exact decide_eq_decide.mpr ⟨fun _ => by simp; omega, fun _ => hlong⟩
  · rw [if_neg hlong] at hbytes
    rw [if_neg (by simp [hover, hlong]), hbytes]
    split
    · rename_i hroom
      refine ⟨hstate, ?_, ?_⟩
      · rw [short, if_neg (by simp; omega)]
      · rw [hover, length_append]
        exact decide_eq_decide.mpr ⟨fun _ => by omega, fun h => by simp at h; omega⟩
    · rename_i hfull
      refine ⟨hstate, ?_, ?_⟩
      · rw [short, if_pos (by simp; omega), take_append_of_le_length (by omega)]
      · exact (decide_eq_true (by simp; omega)).symm

theorem holds_empty (s : State) : Holds ⟨s, [], false⟩ ⟨s, []⟩ := ⟨rfl, rfl, rfl⟩

theorem holds_read {u : Unfinished} {w : Whole} (h : Holds u w) (b : UInt8) :
    Holds (u.feedByte b) (w.read b) := by
  rw [feedByte, Whole.read, ← h.state]
  dsimp only
  split
  · exact ⟨rfl, h.bytes, h.overflowed⟩
  split
  · rename_i hground
    rw [hground]
    exact holds_empty _
  · split
    · exact holds_keep (holds_empty _) b
    · have hheld : Holds { u with state := (step u.state b).1 } ⟨(step u.state b).1, w.bytes⟩ :=
        ⟨rfl, h.bytes, h.overflowed⟩
      exact holds_keep hheld b

theorem holds_feed (stream : Bytes) : Holds (new.feed stream) (whole stream) := by
  induction stream using List.reverseRecOn with
  | nil => exact holds_empty _
  | append_singleton stream b ih =>
    rw [feed, whole, foldl_append, foldl_append]
    exact holds_read ih b

theorem feed_state (stream : Bytes) : (new.feed stream).state = follow .ground stream :=
  (holds_feed stream).state.trans (whole_state stream)

theorem feed_append (u : Unfinished) (xs ys : Bytes) : u.feed (xs ++ ys) = (u.feed xs).feed ys :=
  foldl_append ..

theorem feedByte_state (u : Unfinished) (b : UInt8) : (u.feedByte b).state = (step u.state b).1 := by
  have hkeep : ∀ u' : Unfinished, (u'.keep b).state = u'.state := by
    intro u'
    unfold keep
    split
    · rfl
    · split <;> rfl
  unfold feedByte
  dsimp only
  split
  · rfl
  · split
    · rfl
    · split <;> exact hkeep _

theorem feed_follow (u : Unfinished) (stream : Bytes) :
    (u.feed stream).state = follow u.state stream := by
  induction stream generalizing u with
  | nil => rfl
  | cons b stream ih =>
    show ((u.feedByte b).feed stream).state = follow (step u.state b).1 stream
    rw [ih, feedByte_state]

/-! ## Given to a fresh follower -/

def fed (batches : List Bytes) : Unfinished := batches.foldl feed new

theorem fed_eq (batches : List Bytes) : fed batches = new.feed batches.flatten := by
  induction batches using List.reverseRecOn with
  | nil => rfl
  | append_singleton batches batch ih =>
    rw [fed, foldl_append, flatten_append, feed_append, ← ih, flatten_singleton]
    rfl

/-- What the bytes kept are good for: a fresh follower that is given them is where the stream left
    this one, and stays with it whatever follows; and there are none exactly between sequences. -/
structure Replays (u : Unfinished) : Prop where
  same : (new.feed u.bytes).state = u.state
  after : ∀ rest, ((new.feed u.bytes).feed rest).state = (u.feed rest).state
  idle : u.state = .ground ↔ u.bytes = []

/-- An escape sequence that outgrew the limit, where the byte kept after its `ESC` is one that
    `Escape` ignores, and the sequence has got further since. -/
def Misled (stream : Bytes) : Prop :=
  ∃ before body second more, stream = before ++ ESC :: body ∧ GoesOn .escape body ∧
    keptOf .escape body = second :: more ∧ MAX_UNFINISHED < more.length + 2 ∧
    (step .escape second).1 = .escape ∧ follow .escape body ≠ .escape

theorem step_esc (s : State) : step s ESC = (.escape, true) := rfl

theorem goesOn_utf8 {n : Nat} {rest : Bytes} (h : GoesOn (.utf8 n) rest) (hn : 0 < n) :
    rest.length < n ∧ (∀ b ∈ rest, 0x80 ≤ b ∧ b ≤ 0xbf) ∧
      follow (.utf8 n) rest = .utf8 (n - rest.length) ∧ keptOf (.utf8 n) rest = rest := by
  induction rest generalizing n with
  | nil => exact ⟨hn, by simp, rfl, rfl⟩
  | cons b rest ih =>
    obtain ⟨hr, hne, hgo⟩ := h
    obtain ⟨hesc, hcan⟩ := not_restart hr
    have hcont : 0x80 ≤ b ∧ b ≤ 0xbf := by
      by_contra hcont
      simp [step, hesc, hcan, hcont] at hr
    have hleft : 1 < n := by
      by_contra hleft
      simp [step, hesc, hcan, hcont, hleft] at hne
    have hstep : step (.utf8 n) b = (.utf8 (n - 1), false) := by
      simp [step, hesc, hcan, hcont, hleft]
    rw [hstep] at hgo
    obtain ⟨hlen, hall, hfollow, hkept⟩ := ih hgo (by omega)
    refine ⟨by simp; omega, ?_, ?_, ?_⟩
    · intro c hc
      obtain rfl | hc := mem_cons.mp hc
      · exact hcont
      · exact hall c hc
    · show follow (step (.utf8 n) b).1 rest = _
      rw [hstep, hfollow, length_cons]
      congr 1
      omega
    · rw [keptOf, hstep, hkept]
      simp [State.inSequence]

/-- What a byte begins: nothing, a character of two to four bytes, or an escape. -/
theorem step_ground (b : UInt8) : (step .ground b).1 = .ground ∨ b = ESC ∨
    ∃ n, (step .ground b).1 = .utf8 n ∧ 0 < n ∧ n ≤ 3 := by
  by_cases hesc : b = ESC
  · exact .inr (.inl hesc)
  · by_cases hcan : b = CAN ∨ b = SUB
    · exact .inl (by simp [step, hesc, hcan])
    · simp only [step, hesc, hcan, if_false, ground]
      split
      · exact .inr (.inr ⟨1, rfl, by decide, by decide⟩)
      split
      · exact .inr (.inr ⟨2, rfl, by decide, by decide⟩)
      · split
        · exact .inr (.inr ⟨3, rfl, by decide, by decide⟩)
        · exact .inl rfl

theorem step_settled {s : State} {b : UInt8} (hs : escaped s = true) (hne : s ≠ .escape)
    (hr : (step s b).2 = false) (hn : (step s b).1 ≠ .ground) : (step s b).1 = s := by
  obtain ⟨hesc, hcan⟩ := not_restart hr
  cases s with
  | escape => exact absurd rfl hne
  | ground | utf8 left => cases hs
  | escapeIntermediate | csi | string e =>
    simp only [step, hesc, hcan, if_false] at hn ⊢
    split at hn
    · exact absurd rfl hn
    · rename_i hstays
      rw [if_neg hstays]

theorem follow_settled {s : State} {bs : Bytes} (hs : escaped s = true) (hne : s ≠ .escape)
    (h : GoesOn s bs) : follow s bs = s := by
  induction bs with
  | nil => rfl
  | cons b bs ih =>
    obtain ⟨hr, hn, hgo⟩ := h
    have hstays := step_settled hs hne hr hn
    rw [hstays] at hgo
    show follow (step s b).1 bs = s
    rw [hstays, ih hgo]

/-- Within the limit the bytes kept lead where the stream did. -/
theorem follow_whole (stream : Bytes) : follow .ground (whole stream).bytes = (whole stream).state := by
  obtain hidle | ⟨before, first, rest, hopened⟩ := opened_or_idle stream
  · rw [hidle]
    rfl
  · rw [hopened.whole]
    exact (follow_keptOf hopened.goesOn).2

theorem whole_bytes_nil (stream : Bytes) :
    (whole stream).state = .ground ↔ (whole stream).bytes = [] := by
  obtain hidle | ⟨before, first, rest, hopened⟩ := opened_or_idle stream
  · simp [hidle]
  · have hwhole := hopened.whole
    rw [hwhole]
    simp only [reduceCtorEq, iff_false]
    have hne : ∀ s, s ≠ .ground → GoesOn s rest → follow s rest ≠ .ground := by
      clear hwhole hopened
      induction rest with
      | nil => exact fun _ hs _ => hs
      | cons b rest ih => exact fun s _ hgo => ih _ hgo.2.1 hgo.2.2
    exact hne _ hopened.opens hopened.goesOn

/-- Past the limit, the two bytes kept lead there exactly if the second one counts. -/
theorem follow_short {stream before rest : Bytes} {first : UInt8}
    (h : Opened stream before first rest) (hlong : MAX_UNFINISHED < (whole stream).bytes.length) :
    first = ESC ∧ ∃ second more, keptOf .escape rest = second :: more ∧
      MAX_UNFINISHED < more.length + 2 ∧ (whole stream).state = follow .escape rest ∧
      follow .ground ((whole stream).bytes.take 2) = (step .escape second).1 := by
  have hmax : 4 ≤ MAX_UNFINISHED := by decide
  have hgoes := h.goesOn
  have hwhole := h.whole
  obtain hground | rfl | ⟨n, hn, hpos, hle⟩ := step_ground first
  · exact absurd hground h.opens
  · rw [step_esc] at hgoes hwhole
    rw [hwhole] at hlong ⊢
    cases hkept : keptOf .escape rest with
    | nil =>
      rw [hkept] at hlong
      simp at hlong
      omega
    | cons second more =>
      rw [hkept] at hlong
      have hmore : MAX_UNFINISHED < (ESC :: second :: more).length := hlong
      refine ⟨rfl, second, more, rfl, hmore, rfl, ?_⟩
      rfl
  · rw [hn] at hgoes hwhole
    obtain ⟨hlen, -, -, hkept⟩ := goesOn_utf8 hgoes hpos
    rw [hwhole, hkept, length_cons] at hlong
    omega

theorem replays_feed_iff (stream : Bytes) : Replays (new.feed stream) ↔
    follow .ground (short (whole stream).bytes) = (whole stream).state := by
  have hholds := holds_feed stream
  have hsame : (new.feed (new.feed stream).bytes).state =
      follow .ground (short (whole stream).bytes) := by rw [feed_state, hholds.bytes]
  have hidle : (new.feed stream).state = .ground ↔ (new.feed stream).bytes = [] := by
    rw [hholds.state, whole_bytes_nil, hholds.bytes, short]
    split
    · cases (whole stream).bytes <;> simp
    · rfl
  constructor
  · intro h
    rw [← hsame, h.same, hholds.state]
  · intro h
    have hstate := hsame.trans (h.trans hholds.state.symm)
    refine ⟨hstate, ?_, hidle⟩
    intro rest
    rw [feed_follow _ rest, hstate, feed_follow _ rest]

theorem misled_elsewhere {stream : Bytes} (h : Misled stream) :
    follow .ground (short (whole stream).bytes) ≠ (whole stream).state := by
  obtain ⟨before, body, second, more, hcut, hgo, hkept, hlong, hignored, hfurther⟩ := h
  have hopened : Opened stream before ESC body := ⟨hcut, rfl, by decide, hgo⟩
  have hbytes : (whole stream).bytes = ESC :: second :: more := by
    rw [hopened.whole]
    show ESC :: keptOf .escape body = _
    rw [hkept]
  have hshort : short (whole stream).bytes = [ESC, second] := by
    have hmore : MAX_UNFINISHED < (ESC :: second :: more).length := hlong
    rw [short, hbytes, if_pos hmore]
    rfl
  rw [hshort, hopened.whole]
  intro h
  exact hfurther (h.symm.trans hignored)

/-- **Where the bytes kept stand in for the open sequence.** They do, whatever was fed and however
    it was cut, except for an escape sequence past the limit that began with a byte `Escape`
    ignores. -/
theorem replays_iff (batches : List Bytes) : Replays (fed batches) ↔ ¬ Misled batches.flatten := by
  rw [fed_eq, replays_feed_iff]
  generalize batches.flatten = stream
  constructor
  · exact fun h hmisled => misled_elsewhere hmisled h
  · intro h
    rw [short]
    split
    · rename_i hlong
      obtain hidle | ⟨before, first, rest, hopened⟩ := opened_or_idle stream
      · rw [hidle] at hlong
        exact absurd hlong (Nat.not_lt_zero _)
      · obtain ⟨rfl, second, more, hkept, hlen, hstate, hfollow⟩ := follow_short hopened hlong
        rw [hfollow, hstate]
        have hgo : GoesOn .escape rest := hopened.goesOn
        by_cases hignored : (step .escape second).1 = .escape
        · rw [hignored]
          by_contra hfurther
          exact h ⟨before, rest, second, more, hopened.cut, hgo, hkept, hlen, hignored,
            Ne.symm hfurther⟩
        -- The second byte says what it is, and that is what it stays.
        · obtain ⟨hgo', hfollow'⟩ := follow_keptOf hgo
          rw [hkept] at hgo' hfollow'
          obtain ⟨hr, hn, hmore⟩ := hgo'
          have hescaped := step_escaped (s := .escape) rfl hr hn
          rw [← hfollow']
          exact (follow_settled hescaped hignored hmore).symm
    · exact follow_whole stream

theorem letters_goOn (n : Nat) :
    GoesOn (.string true) (List.replicate n 0x61) ∧
      keptOf (.string true) (List.replicate n 0x61) = List.replicate n 0x61 ∧
      follow (.string true) (List.replicate n 0x61) = .string true := by
  have hstep : step (.string true) 0x61 = (.string true, false) := rfl
  induction n with
  | zero => exact ⟨trivial, rfl, rfl⟩
  | succ n ih =>
    obtain ⟨hgo, hkept, hfollow⟩ := ih
    rw [replicate_succ]
    refine ⟨⟨by rw [hstep], by rw [hstep]; decide, by rw [hstep]; exact hgo⟩, ?_, ?_⟩
    · rw [keptOf, hstep, hkept]
      rfl
    · show follow (step (.string true) 0x61).1 (List.replicate n 0x61) = _
      rw [hstep, hfollow]

def title (n : Nat) : Bytes := ESC :: 0x80 :: 0x5d :: List.replicate n 0x61

theorem title_misled {n : Nat} (h : MAX_UNFINISHED < n + 3) : Misled (title n) := by
  obtain ⟨hgo, hkept, hfollow⟩ := letters_goOn n
  refine ⟨[], 0x80 :: 0x5d :: List.replicate n 0x61, 0x80, 0x5d :: List.replicate n 0x61, rfl, ?_,
    ?_, ?_, rfl, ?_⟩
  · exact ⟨rfl, by decide, rfl, by decide, hgo⟩
  · show [0x80] ++ ([0x5d] ++ keptOf (.string true) (List.replicate n 0x61)) = _
    rw [hkept]
    rfl
  · rw [length_cons, length_replicate]
    exact h
  · show follow (.string true) (List.replicate n 0x61) ≠ _
    rw [hfollow]
    decide

/-- A viewer that is given what is kept of a title of 4,096 letters takes what follows for text. -/
theorem title_not_replayed : ¬ Replays (fed [title 4096]) := by
  rw [fed_eq, flatten_singleton, replays_feed_iff]
  exact misled_elsewhere (title_misled (by decide))

end Unfinished

end Yardsort.Pty
