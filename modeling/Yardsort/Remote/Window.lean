import Yardsort.Remote.Sizes

/- Windows of recorded activity (`activity`, `activity_window` and the activity cursors of
   `core/src/remote.rs`): the events nearest one side of a number, as many as fit in a frame, and
   the two cursors a page of them carries.

   `activityWindow_spec` says all a window is: for every filter and bound it is there, it is what
   is nearest the bound, and it is empty only when nothing is on that side. -/
namespace Yardsort.Remote
open Yardsort.Lib Yardsort.Proto Yardsort.Remote.Activity

/-- Activity cursors name an event by its number, and which way to walk from it: `o` for older,
    `n` for newer. -/
def ACTIVITY_CURSOR_PREFIX : String := "a1."

def activityCursor (direction : Char) (seq : Nat) : Answer Cursor :=
  issue (ACTIVITY_CURSOR_PREFIX ++ String.singleton direction ++ toString seq)

/-- `str::parse::<i64>`, kept when it is positive: what starts with `-` is not. -/
def parseSeq (digits : List Char) : Option Nat :=
  let digits := if digits.head? = some '+' then digits.tail else digits
  let seq := Nat.ofDigitChars 10 digits 0
  if digits ≠ [] ∧ digits.all Char.isDigit ∧ 0 < seq ∧ seq ≤ I64_MAX then some seq else none

def activityBound (cursor : Cursor) : Answer (EventBound × Nat) :=
  match (stripPrefix ACTIVITY_CURSOR_PREFIX cursor.text).map String.toList with
  | some ('o' :: digits) =>
    match parseSeq digits with
    | some seq => .ok (.before seq, seq)
    | none => .error .cursorExpired
  | some ('n' :: digits) =>
    match parseSeq digits with
    | some seq => .ok (.after seq, seq)
    | none => .error .cursorExpired
  | _ => .error .cursorExpired

theorem digits_isDigit {seq : Nat} {c : Char} (hc : c ∈ Nat.toDigits 10 seq) :
    c.isDigit = true := Nat.isDigit_of_mem_toDigits (by decide) (by decide) hc

theorem digits_ne_nil (seq : Nat) : Nat.toDigits 10 seq ≠ [] := by
  intro h
  have := @Nat.length_toDigits_pos 10 seq
  rw [h] at this
  exact absurd this (Nat.lt_irrefl 0)

theorem parseSeq_digits {seq : Nat} (hpos : 0 < seq) (hlt : seq < I64_MAX) :
    parseSeq (Nat.toDigits 10 seq) = some seq := by
  have hplus : (Nat.toDigits 10 seq).head? ≠ some '+' := by
    intro h
    have hdigit := digits_isDigit (mem_of_head? h)
    exact absurd hdigit (by decide)
  have hall : (Nat.toDigits 10 seq).all Char.isDigit = true :=
    all_eq_true.mpr fun c hc => digits_isDigit hc
  unfold parseSeq
  rw [if_neg hplus]
  dsimp only
  rw [Nat.ofDigitChars_ten_toDigits,
    if_pos ⟨digits_ne_nil seq, hall, hpos, Nat.le_of_lt hlt⟩]

theorem graphicByte_digit {c : Char} (h : c.isDigit = true) :
    (String.utf8EncodeChar c).all graphicByte = true := by
  obtain ⟨hlow, hhigh⟩ := Char.isDigit_iff_toNat.mp h
  have hascii : c.val.toNat ≤ 0x7f := Json.digit_ascii h
  have hencode : String.utf8EncodeChar c = [UInt8.ofNat c.val.toNat] := by
    unfold String.utf8EncodeChar
    dsimp only
    rw [if_pos hascii]
  have hnat : (UInt8.ofNat c.val.toNat).toNat = c.val.toNat :=
    UInt8.toNat_ofNat_of_lt' (Nat.lt_of_le_of_lt hascii (by decide))
  have hzero : '0'.toNat = 48 := by decide
  have hnine : '9'.toNat = 57 := by decide
  have htoNat : c.toNat = c.val.toNat := rfl
  rw [hencode, List.all_cons, List.all_nil, Bool.and_true, graphicByte, Bool.and_eq_true,
    decide_eq_true_eq, decide_eq_true_eq, UInt8.le_iff_toNat_le, UInt8.le_iff_toNat_le, hnat]
  show 33 ≤ _ ∧ _ ≤ 126
  omega

theorem activityCursor_text {direction : Char} (hdirection : direction = 'o' ∨ direction = 'n')
    {seq : Nat} (hlt : seq < I64_MAX) :
    ∃ cursor, activityCursor direction seq = .ok cursor ∧
      cursor.text.toList = ['a', '1', '.', direction] ++ Nat.toDigits 10 seq := by
  have htext : (ACTIVITY_CURSOR_PREFIX ++ String.singleton direction ++ toString seq).toList =
      ['a', '1', '.', direction] ++ Nat.toDigits 10 seq := by
    rw [String.toList_append, String.toList_append, Nat.toString_eq_ofList_toDigits,
      String.toList_ofList, String.toList_singleton]
    rfl
  have hbytes := utf8_eq (ACTIVITY_CURSOR_PREFIX ++ String.singleton direction ++ toString seq)
  rw [htext, flatMap_append] at hbytes
  have hstart : (['a', '1', '.', direction].flatMap String.utf8EncodeChar).length = 4 ∧
      (['a', '1', '.', direction].flatMap String.utf8EncodeChar).all graphicByte = true := by
    obtain rfl | rfl := hdirection <;> decide +kernel
  have hdigits : ((Nat.toDigits 10 seq).flatMap String.utf8EncodeChar).length ≤ 19 := by
    rw [Json.ascii_length fun c hc => Json.digit_ascii (digits_isDigit hc)]
    exact (Nat.length_toDigits_le_iff (by decide) (by decide)).mpr
      (Nat.lt_trans hlt (by decide))
  have hgraphic : ((Nat.toDigits 10 seq).flatMap String.utf8EncodeChar).all graphicByte = true := by
    rw [List.all_flatMap]
    exact all_eq_true.mpr fun c hc => graphicByte_digit (digits_isDigit hc)
  have hok : checkCursor (ACTIVITY_CURSOR_PREFIX ++ String.singleton direction ++ toString seq) =
      .ok () := by
    have hlen := congrArg List.length hbytes
    rw [length_append] at hlen
    have hne : utf8 (ACTIVITY_CURSOR_PREFIX ++ String.singleton direction ++ toString seq) ≠ [] := by
      intro h
      rw [h, length_nil] at hlen
      omega
    have hmax : ¬ MAX_CURSOR_LEN <
        (utf8 (ACTIVITY_CURSOR_PREFIX ++ String.singleton direction ++ toString seq)).length := by
      show ¬ 256 < _
      omega
    rw [checkCursor, if_neg hne, if_neg hmax, hbytes, List.all_append, hstart.2, hgraphic]
    rfl
  refine ⟨⟨_, hok⟩, ?_, htext⟩
  rw [activityCursor, issue, Cursor.new_ok hok]

theorem strip_activity {cursor : Cursor} {rest : List Char}
    (h : cursor.text.toList = ['a', '1', '.'] ++ rest) :
    (stripPrefix ACTIVITY_CURSOR_PREFIX cursor.text).map String.toList = some rest := by
  have hstart : ACTIVITY_CURSOR_PREFIX.toList = ['a', '1', '.'] := by decide
  have hpre : (['a', '1', '.'] : List Char).isPrefixOf (['a', '1', '.'] ++ rest) = true :=
    List.isPrefixOf_iff_prefix.mpr ⟨rest, rfl⟩
  rw [stripPrefix, hstart, h, if_pos hpre, map_some, String.toList_ofList]
  rfl

theorem older_cursor {seq : Nat} (hpos : 0 < seq) (hlt : seq < I64_MAX) :
    ∃ cursor, activityCursor 'o' seq = .ok cursor ∧
      activityBound cursor = .ok (.before seq, seq) := by
  obtain ⟨cursor, hissue, htext⟩ := activityCursor_text (.inl rfl) hlt
  refine ⟨cursor, hissue, ?_⟩
  have hstrip : (stripPrefix ACTIVITY_CURSOR_PREFIX cursor.text).map String.toList =
      some ('o' :: Nat.toDigits 10 seq) := strip_activity htext
  unfold activityBound
  rw [hstrip]
  simp only [parseSeq_digits hpos hlt]

theorem newer_cursor {seq : Nat} (hpos : 0 < seq) (hlt : seq < I64_MAX) :
    ∃ cursor, activityCursor 'n' seq = .ok cursor ∧
      activityBound cursor = .ok (.after seq, seq) := by
  obtain ⟨cursor, hissue, htext⟩ := activityCursor_text (.inr rfl) hlt
  refine ⟨cursor, hissue, ?_⟩
  have hstrip : (stripPrefix ACTIVITY_CURSOR_PREFIX cursor.text).map String.toList =
      some ('n' :: Nat.toDigits 10 seq) := strip_activity htext
  unfold activityBound
  rw [hstrip]
  simp only [parseSeq_digits hpos hlt]

/-- The rows nearest a bound: the first of what comes after it, the last of what comes before. -/
def nearest (bound : EventBound) (n : Nat) (rows : List EventRow) : List EventRow :=
  match bound with
  | .after _ => rows.take n
  | .newest | .before _ => rows.drop (rows.length - n)

/-- What `activityWindow` read: the events shown, the first and last numbers read (shown or not),
    and whether more lay beyond. -/
structure EventWindow where
  events : List ActivityEvent
  first : Option Nat
  last : Option Nat
  more : Bool

section
variable (read : String → Payload)

/-- Up to `size` events on one side of `bound`, as many as fit in a frame: those nearest the bound
    when not all do. -/
def activityWindow (events : Events) (filter : EventFilter) (bound : EventBound) (size : Nat) :
    Answer EventWindow := do
  -- One more than a page says whether there is another.
  let rows := events.window filter bound (size + 1)
  let held := nearest bound size rows
  let fit ← fitting held.length fun n => eventsSize ((nearest bound n held).filterMap (event read))
  let kept := nearest bound fit held
  .ok
    { events := kept.filterMap (event read)
      first := kept.head?.map (·.seq)
      last := kept.getLast?.map (·.seq)
      more := size < rows.length || fit < held.length }

/-- Where a page starts: at the newest, or from the event a cursor names, which must still be kept
    and in the same filter. -/
def pageBound (events : Events) (filter : EventFilter) : Option Cursor → Answer EventBound
  | none => .ok .newest
  | some cursor => do
    let (bound, seq) ← activityBound cursor
    if events.eventMatches filter seq then .ok bound else .error .cursorExpired

def olderCursor (window : EventWindow) (bound : EventBound) : Answer (Option Cursor) :=
  match window.first, bound with
  -- Walking forward from a cursor, the cursor's own event is older than this page.
  | some first, .after _ => some <$> activityCursor 'o' first
  | some first, _ => if window.more then some <$> activityCursor 'o' first else .ok none
  | none, _ => .ok none

def newerCursor (window : EventWindow) (bound : EventBound) : Answer (Option Cursor) :=
  match window.last, bound with
  | some last, _ => some <$> activityCursor 'n' last
  -- Nothing new since the cursor: the same position, to ask from again.
  | none, .after seq => some <$> activityCursor 'n' seq
  | none, _ => .ok none

def activityPage (events : Events) (filter : EventFilter) (cursor : Option Cursor)
    (limit : Option Nat) : Answer ActivityPage := do
  let bound ← pageBound events filter cursor
  let window ← activityWindow read events filter bound (pageSize limit)
  let older ← olderCursor window bound
  let newer ← newerCursor window bound
  .ok ⟨window.events, older, newer⟩

end

def EventBound.admits (bound : EventBound) (row : EventRow) : Bool :=
  match bound with
  | .newest => row.seq < I64_MAX
  | .before seq => row.seq < seq
  | .after seq => seq < row.seq

def Events.side (events : Events) (filter : EventFilter) (bound : EventBound) : List EventRow :=
  (events.matching filter).filter bound.admits

theorem window_eq (events : Events) (filter : EventFilter) (bound : EventBound) (limit : Nat) :
    events.window filter bound limit = nearest bound limit (events.side filter bound) := by
  cases bound with
  | newest
  | before seq => exact (congrArg List.reverse List.take_reverse).trans (List.reverse_reverse _)
  | after seq => rfl

theorem nearest_length (bound : EventBound) (n : Nat) (rows : List EventRow) :
    (nearest bound n rows).length = min n rows.length := by
  cases bound with
  | after seq => exact length_take
  | newest | before seq => rw [nearest, length_drop]; omega

theorem nearest_nearest {m n : Nat} (h : m ≤ n) (bound : EventBound) (rows : List EventRow) :
    nearest bound m (nearest bound n rows) = nearest bound m rows := by
  cases bound with
  | after seq => rw [nearest, nearest, nearest, take_take, Nat.min_eq_left h]
  | newest | before seq =>
    rw [nearest, nearest, nearest, drop_drop, length_drop]
    congr 1
    omega

/-- All a window is: what is nearest the bound, in a size that fits, and something of what there
    is. -/
structure WindowSpec (read : String → Payload) (side : List EventRow) (bound : EventBound)
    (window : EventWindow) (kept : List EventRow) : Prop where
  kept_eq : kept = nearest bound kept.length side
  some_of : side ≠ [] → kept ≠ []
  events : window.events = kept.filterMap (event read)
  first : window.first = kept.head?.map (·.seq)
  last : window.last = kept.getLast?.map (·.seq)
  more : window.more = true ↔ kept.length < side.length
  fits : eventsSize window.events ≤ PAGE_BUDGET

theorem eventsSize_nil : eventsSize [] ≤ PAGE_BUDGET := by decide +kernel

theorem nearest_one (bound : EventBound) {rows : List EventRow} (h : 0 < rows.length) :
    ∃ row, nearest bound 1 rows = [row] := by
  have hlen := nearest_length bound 1 rows
  rw [Nat.min_eq_left h] at hlen
  exact List.length_eq_one_iff.mp hlen

/-- **A window is always there**, whatever is recorded and however large. -/
theorem activityWindow_spec (read : String → Payload) (events : Events) (filter : EventFilter)
    (bound : EventBound) {size : Nat} (hsize : 0 < size) :
    ∃ window kept, activityWindow read events filter bound size = .ok window ∧
      WindowSpec read (events.side filter bound) bound window kept := by
  have hheld : nearest bound size (events.window filter bound (size + 1)) =
      nearest bound size (events.side filter bound) := by
    rw [window_eq, nearest_nearest (Nat.le_succ size)]
  have hlen := nearest_length bound size (events.side filter bound)
  have hrows : (events.window filter bound (size + 1)).length =
      min (size + 1) (events.side filter bound).length := by
    rw [window_eq, nearest_length]
  obtain ⟨fit, hfit⟩ := @fitting_ok (nearest bound size (events.side filter bound)).length
    (fun n => eventsSize ((nearest bound n (nearest bound size (events.side filter bound))).filterMap
      (event read))) (by
      intro hpos
      obtain ⟨row, hrow⟩ := nearest_one bound hpos
      rw [hrow]
      exact event_fits row)
  obtain ⟨hle, hfits⟩ := fitting_fits hfit
  have hkept : nearest bound fit (nearest bound size (events.side filter bound)) =
      nearest bound fit (events.side filter bound) := nearest_nearest (by omega) bound _
  have hkeptLen : (nearest bound fit (events.side filter bound)).length = fit := by
    rw [nearest_length]
    omega
  have hwindow : activityWindow read events filter bound size = .ok
      { events := (nearest bound fit (events.side filter bound)).filterMap (event read)
        first := (nearest bound fit (events.side filter bound)).head?.map (·.seq)
        last := (nearest bound fit (events.side filter bound)).getLast?.map (·.seq)
        more := size < min (size + 1) (events.side filter bound).length ||
          fit < (nearest bound size (events.side filter bound)).length } := by
    rw [← hkept, ← hrows]
    unfold activityWindow
    dsimp only
    rw [hheld, hfit]
    rfl
  refine ⟨_, nearest bound fit (events.side filter bound), hwindow, ?_⟩
  exact
    { kept_eq := by rw [hkeptLen]
      some_of := by
        intro hne hnil
        have hpos := length_pos_iff.mpr hne
        have hzero := congrArg List.length hnil
        rw [hkeptLen, length_nil] at hzero
        have := (hfits (by omega)).1
        omega
      events := rfl
      first := rfl
      last := rfl
      more := by
        rw [hkeptLen, Bool.or_eq_true, decide_eq_true_eq, decide_eq_true_eq]
        omega
      fits := by
        by_cases hzero : 0 < (nearest bound size (events.side filter bound)).length
        · have := (hfits hzero).2
          rw [hkept] at this
          exact this
        · have hnil : nearest bound fit (events.side filter bound) = [] :=
            length_eq_zero_iff.mp (by omega)
          dsimp only
          rw [hnil]
          exact eventsSize_nil }

end Yardsort.Remote
