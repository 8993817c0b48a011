import Yardsort.Activity.Transcript
import Yardsort.Lib.JsonSize

/- The reading of a transcript against what stands in it.

   The reading keeps the turns as texts and the id of one message, the last it wrote to; what stands
   in the file keeps the blocks of every message of the turn. `Follows` is what holds between the
   two. A line that fits moves both to states that follow each other again (`follows_add`), and a
   line that does not fit leaves turns that differ (`fits_of_add`). -/
namespace Yardsort.Activity.Transcript
open Yardsort.Lib Stamps
open Digest (Turn)

/-- Whatever number of its lines is wanted, the file had them at some moment of being written. -/
theorem linesAfter_take (bytes : Bytes) : ∀ (buffer : Bytes) (k : Nat),
    ∃ n, linesAfter buffer (bytes.take n) = (linesAfter buffer bytes).take k := by
  induction bytes with
  | nil =>
    intro buffer k
    exact ⟨0, by simp [linesAfter]⟩
  | cons b bytes ih =>
    intro buffer k
    by_cases hb : b = 0x0a
    · cases hline : lineText (buffer ++ [b]) with
      | none =>
        obtain ⟨n, hn⟩ := ih [] k
        refine ⟨n + 1, ?_⟩
        simp only [take_succ_cons, linesAfter, if_pos hb, hline]
        simpa using hn
      | some line =>
        cases k with
        | zero => exact ⟨0, by simp [linesAfter]⟩
        | succ k =>
          obtain ⟨n, hn⟩ := ih [] k
          refine ⟨n + 1, ?_⟩
          simp only [take_succ_cons, linesAfter, if_pos hb, hline]
          simpa using hn
    · obtain ⟨n, hn⟩ := ih (buffer ++ [b]) k
      refine ⟨n + 1, ?_⟩
      simp only [take_succ_cons, linesAfter, if_neg hb]
      exact hn

theorem linesAfter_starts (bytes : Bytes) : ∀ (buffer : Bytes) (n : Nat),
    linesAfter buffer (bytes.take n) <+: linesAfter buffer bytes := by
  induction bytes with
  | nil =>
    intro buffer n
    simp [linesAfter]
  | cons b bytes ih =>
    intro buffer n
    cases n with
    | zero => simp [linesAfter]
    | succ n =>
      simp only [take_succ_cons, linesAfter]
      split
      · exact (prefix_append_right_inj _).mpr (ih [] n)
      · exact ih (buffer ++ [b]) n

theorem linesAfter_line (line rest : Bytes) : ∀ buffer : Bytes, 0x0a ∉ line →
    linesAfter buffer (line ++ 0x0a :: rest) =
      (lineText (buffer ++ line ++ [0x0a])).toList ++ linesAfter [] rest := by
  induction line with
  | nil =>
    intro buffer _
    simp [linesAfter]
  | cons b line ih =>
    intro buffer h
    obtain ⟨hb, hline⟩ := not_or.mp (mt mem_cons.mpr h)
    rw [cons_append, linesAfter, if_neg (Ne.symm hb), ih _ hline, append_assoc buffer [b],
      singleton_append]

theorem newline_notMem {line : Text} (h : '\n' ∉ line) : 0x0a ∉ utf8 (String.ofList line) := by
  rw [utf8_eq, String.toList_ofList, mem_flatMap]
  intro ⟨c, hc, hin⟩
  obtain hhigh | hlow := Nat.lt_or_ge 0x7f c.val.toNat
  · exact absurd (utf8EncodeChar_high hhigh hin) (by decide)
  · unfold String.utf8EncodeChar at hin
    rw [if_pos hlow, mem_singleton] at hin
    have hval : c.val.toNat = 10 := by
      have := congrArg UInt8.toNat hin
      rw [UInt8.toNat_ofNat_of_lt' (Nat.lt_of_le_of_lt hlow (by decide))] at this
      exact this.symm
    have hchar : c = '\n' := Char.ext (UInt32.toNat_inj.mp hval)
    exact h (hchar ▸ hc)

def fileOf (lines : List Text) : Bytes :=
  lines.flatMap fun line => utf8 (String.ofList line) ++ [0x0a]

/-- **A file written a line at a time is read a line at a time.** -/
theorem eachLine_fileOf {lines : List Text} (h : ∀ line ∈ lines, '\n' ∉ line) :
    eachLine (fileOf lines) = lines.map trimBreaks := by
  induction lines with
  | nil => rfl
  | cons line lines ih =>
    have hline : lineText (utf8 (String.ofList line) ++ [0x0a]) = some (trimBreaks line) := by
      have hutf : utf8 (String.ofList line) ++ [0x0a] = utf8 (String.ofList (line ++ ['\n'])) := by
        simp only [utf8_eq, String.toList_ofList, flatMap_append]
        rfl
      rw [hutf, lineText, fromUtf8_utf8, map_some, String.toList_ofList]
      simp [trimBreaks]
    rw [fileOf, flatMap_cons, append_assoc, singleton_append, eachLine,
      linesAfter_line _ _ _ (newline_notMem (h line mem_cons_self)), nil_append, hline]
    exact congrArg (trimBreaks line :: ·)
      (ih fun other hother => h other (mem_cons_of_mem _ hother))

@[simp] theorem addTexts_nil (blocks : List Text) : addTexts blocks [] = blocks := rfl
theorem addTexts_cons (blocks texts : List Text) (text : Text) :
    addTexts blocks (text :: texts) = addTexts (addTexts blocks [text]) texts := rfl

theorem addTexts_mem {blocks : List Text} {text : Text} (h : text ∈ blocks) :
    addTexts blocks [text] = blocks := by
  simp [addTexts, h]

theorem addTexts_notMem {blocks : List Text} {text : Text} (h : text ∉ blocks) :
    addTexts blocks [text] = blocks ++ [text] := by
  simp [addTexts, h]

theorem prefix_addTexts (texts : List Text) : ∀ blocks, blocks <+: addTexts blocks texts := by
  induction texts with
  | nil => simp
  | cons text texts ih =>
    intro blocks
    rw [addTexts_cons]
    apply List.IsPrefix.trans _ (ih _)
    by_cases h : text ∈ blocks
    · exact (addTexts_mem h).symm ▸ prefix_rfl
    · exact (addTexts_notMem h).symm ▸ prefix_append ..

theorem addTexts_ne_nil {blocks texts : List Text} (h : blocks ≠ [] ∨ texts ≠ []) :
    addTexts blocks texts ≠ [] := by
  cases texts with
  | nil => simpa using h
  | cons text texts =>
    intro hnil
    have hfirst := prefix_addTexts texts (addTexts blocks [text])
    rw [← addTexts_cons, hnil, prefix_nil] at hfirst
    by_cases hin : text ∈ blocks
    · rw [addTexts_mem hin] at hfirst
      simp [hfirst] at hin
    · rw [addTexts_notMem hin] at hfirst
      simp at hfirst

theorem addTexts_same {blocks texts : List Text} (h : ∀ text ∈ texts, text ∈ blocks) :
    addTexts blocks texts = blocks := by
  induction texts with
  | nil => rfl
  | cons text texts ih =>
    rw [addTexts_cons, addTexts_mem (h text mem_cons_self)]
    exact ih fun other hother => h other (mem_cons_of_mem _ hother)

theorem said_snoc {blocks : List Text} (h : blocks ≠ []) (text : Text) :
    BREAK.intercalate (blocks ++ [text]) = BREAK.intercalate blocks ++ BREAK ++ text := by
  induction blocks with
  | nil => exact absurd rfl h
  | cons first blocks ih =>
    cases blocks with
    | nil => simp [intercalate_cons_cons]
    | cons second blocks =>
      rw [cons_append, cons_append, intercalate_cons_cons,
        intercalate_cons_cons, ← cons_append, ih (by simp)]
      simp

theorem say_other (texts : List Text) : ∀ said,
    texts.foldl (sayText false) said = said ++ texts := by
  induction texts with
  | nil => simp
  | cons text texts ih =>
    intro said
    have hstep : sayText false said text = said ++ [text] := by
      unfold sayText
      split <;> simp
    rw [foldl_cons, hstep, ih, append_assoc, singleton_append]

def sayMore (last text : Text) : Text :=
  if text.isSuffixOf last then last else last ++ BREAK ++ text

theorem say_same (texts : List Text) : ∀ (said : List Text) (last : Text),
    texts.foldl (sayText true) (said ++ [last]) = said ++ [texts.foldl sayMore last] := by
  induction texts with
  | nil => simp
  | cons text texts ih =>
    intro said last
    have hstep : sayText true (said ++ [last]) text = said ++ [sayMore last text] := by
      by_cases h : text <:+ last <;> simp [sayText, sayMore, h]
    rw [foldl_cons, foldl_cons, hstep, ih]

theorem sayMore_suffix {last text : Text} (h : text <:+ last) : sayMore last text = last := by
  simp [sayMore, h]

theorem sayMore_other {last text : Text} (h : ¬ text <:+ last) :
    sayMore last text = last ++ BREAK ++ text := by
  simp [sayMore, h]

/-- **Where its end is what tells a block, the message's text grows as its blocks do.** -/
theorem sayMore_recognised {texts : List Text} : ∀ {blocks : List Text}, blocks ≠ [] →
    Recognised blocks texts →
    texts.foldl sayMore (BREAK.intercalate blocks) = BREAK.intercalate (addTexts blocks texts) := by
  induction texts with
  | nil => simp
  | cons text texts ih =>
    intro blocks hne h
    obtain ⟨hone, hrest⟩ := h
    rw [foldl_cons, addTexts_cons, ← ih (addTexts_ne_nil (.inl hne)) hrest]
    congr 1
    by_cases hin : text ∈ blocks
    · rw [sayMore_suffix (hone.mpr hin), addTexts_mem hin]
    · rw [sayMore_other (mt hone.mp hin), addTexts_notMem hin, said_snoc hne]

theorem recognised_of_sayMore {blocks : List Text} {text : Text} (hne : blocks ≠ [])
    (h : sayMore (BREAK.intercalate blocks) text = BREAK.intercalate (addTexts blocks [text])) :
    text <:+ BREAK.intercalate blocks ↔ text ∈ blocks := by
  by_cases hin : text ∈ blocks
  · refine iff_of_true ?_ hin
    by_contra hend
    rw [sayMore_other hend, addTexts_mem hin] at h
    simpa [BREAK] using congrArg List.length h
  · refine iff_of_false ?_ hin
    intro hend
    rw [sayMore_suffix hend, addTexts_notMem hin, said_snoc hne] at h
    simpa [BREAK] using congrArg List.length h

theorem messages_snoc (lines : List Written) (line : Written) :
    messages (lines ++ [line]) =
      Groups.put source (fun line => addTexts [] line.1.texts)
        (fun blocks line => addTexts blocks line.1.texts) (messages lines)
        (line, lines.length) := by
  rw [messages, List.zipIdx_append, List.zipIdx_singleton, Groups.groups_snoc, Nat.zero_add]
  rfl

theorem messages_nodup (lines : List Written) : ((messages lines).map (·.1)).Nodup :=
  Groups.nodup_groups _

theorem messages_any {lines : List Written} {message : Source × List Text}
    (h : message ∈ messages lines) : message.2 ≠ [] := by
  apply Groups.groups_rule (P := fun _ blocks => blocks ≠ []) _ _ h
  · intro line
    exact addTexts_ne_nil (.inr line.1.any)
  · intro lines blocks line hblocks
    exact addTexts_ne_nil (.inl hblocks)

theorem messages_more {lines : List Written} {line : Written}
    {before after : List (Source × List Text)} {blocks : List Text}
    (h : messages lines = before ++ (source (line, lines.length), blocks) :: after) :
    messages (lines ++ [line]) =
      before ++ (source (line, lines.length), addTexts blocks line.texts) :: after := by
  have hnodup := messages_nodup lines
  rw [h, map_append, map_cons, nodup_append] at hnodup
  rw [messages_snoc, h]
  apply Groups.put_of_mem
  intro hin
  exact hnodup.2.2 _ hin _ mem_cons_self rfl

theorem messages_new {lines : List Written} {line : Written}
    (h : ∀ message ∈ messages lines, message.1 ≠ source (line, lines.length)) :
    messages (lines ++ [line]) =
      messages lines ++ [(source (line, lines.length), addTexts [] line.texts)] := by
  rw [messages_snoc]
  apply Groups.put_of_notMem
  intro hin
  obtain ⟨message, hmessage, heq⟩ := mem_map.mp hin
  exact h message hmessage heq

theorem source_fresh (lines : List Written) {line : Written} (hid : line.id = none) :
    ∀ message ∈ messages lines, message.1 ≠ source (line, lines.length) := by
  intro message hmessage heq
  obtain ⟨other, hother, hsource⟩ := (Groups.keys_groups _ _).mp (mem_map_of_mem hmessage)
  rw [heq, source, source, hid] at hsource
  split at hsource
  · cases hsource
  -- Its number is that of a line of the turn, and those are smaller.
  have hlt := List.snd_lt_of_mem_zipIdx hother
  rw [Source.line.inj hsource] at hlt
  omega

def tell (told : List Spoken) : Line → List Spoken
  | .typed timestamp user => told ++ [⟨(typedAt timestamp).getD 0, user, []⟩]
  | .wrote line =>
    match told.getLast? with
    | none => told
    | some turn => told.dropLast ++ [{ turn with lines := turn.lines ++ [line] }]
  | .other => told

@[simp] theorem tell_nil (line : Written) : tell [] (.wrote line) = [] := rfl

@[simp] theorem tell_wrote (told : List Spoken) (turn : Spoken) (line : Written) :
    tell (told ++ [turn]) (.wrote line) =
      told ++ [{ turn with lines := turn.lines ++ [line] }] := by
  simp [tell]

theorem writtenNext_last {lines : List Line} (h : conversation lines = []) (line : Line) :
    writtenNext (lines ++ [line]) = writtenNext lines ++ writtenNext [line] := by
  induction lines with
  | nil => rfl
  | cons first lines ih =>
    cases first with
    | typed timestamp user => cases h
    | wrote first => exact congrArg (first :: ·) (ih h)
    | other => exact ih h

theorem writtenNext_over {lines : List Line} (h : conversation lines ≠ []) (line : Line) :
    writtenNext (lines ++ [line]) = writtenNext lines := by
  induction lines with
  | nil => exact absurd rfl h
  | cons first lines ih =>
    cases first with
    | typed timestamp user => rfl
    | wrote first => exact congrArg (first :: ·) (ih h)
    | other => exact ih h

/-- **The conversation of a longer file** is that of the file, and what its last line tells. -/
theorem conversation_snoc (lines : List Line) (line : Line) :
    conversation (lines ++ [line]) = tell (conversation lines) line := by
  induction lines with
  | nil => cases line <;> simp [conversation, tell, writtenNext]
  | cons first lines ih =>
    cases first with
    | wrote first => exact ih
    | other => exact ih
    | typed timestamp user =>
      simp only [cons_append, conversation, ih]
      obtain hnil | ⟨told, turn, htold⟩ := List.eq_nil_or_concat' (conversation lines)
      · rw [hnil, writtenNext_last hnil]
        cases line <;> simp [tell, writtenNext]
      · rw [writtenNext_over (by simp [htold]), htold, ← cons_append]
        cases line with
        | typed timestamp user => rfl
        | wrote line => rw [tell_wrote, tell_wrote, cons_append]
        | other => rfl

theorem told_snoc (parse : Text → Option Value) (lines : List Text) (line : Text) :
    told parse (lines ++ [line]) = tell (told parse lines) (lineOf parse line) := by
  rw [told, map_append, map_singleton, conversation_snoc]
  rfl

/-! ## The reading follows the conversation -/

def Source.id : Source → Option Text
  | .message id => some id
  | .line _ => none

def lastId (told : List Spoken) : Option Text :=
  ((told.getLast?.bind fun turn => (messages turn.lines).getLast?).map (·.1)).bind Source.id

structure Follows (told : List Spoken) (reading : Reading) : Prop where
  turns : reading.turns = told.map Spoken.turn
  id : reading.messageId = lastId told

theorem Follows.nil : Follows [] ⟨[], none⟩ := ⟨rfl, rfl⟩

theorem map_turn_snoc (told : List Spoken) (turn : Spoken) :
    (told ++ [turn]).map Spoken.turn = told.map Spoken.turn ++ [turn.turn] := by
  rw [map_append, map_singleton]

theorem wrote_snoc {told : List Spoken} {turn : Spoken} {reading : Reading}
    (h : Follows (told ++ [turn]) reading) (line : Written) :
    reading.wrote line =
      ⟨told.map Spoken.turn ++ [⟨turn.at_, turn.user,
          line.texts.foldl (sayText (line.id.isSome && line.id == reading.messageId))
            ((messages turn.lines).map said)⟩], line.id⟩ := by
  rw [Reading.wrote, h.turns, map_turn_snoc, List.getLast?_concat]
  simp [Spoken.turn]

theorem same_iff {told : List Spoken} {turn : Spoken} {reading : Reading}
    (h : Follows (told ++ [turn]) reading) (line : Written) :
    (line.id.isSome && line.id == reading.messageId) = true ↔
      ∃ id blocks, line.id = some id ∧
        (messages turn.lines).getLast? = some (.message id, blocks) := by
  have hid : reading.messageId =
      ((messages turn.lines).getLast?.map (·.1)).bind Source.id := by
    rw [h.id, lastId, List.getLast?_concat, bind_some]
  rw [Bool.and_eq_true, beq_iff_eq, hid, isSome_iff_exists]
  constructor
  · intro ⟨⟨id, hline⟩, hsame⟩
    rw [hline] at hsame
    obtain ⟨from?, hfrom, heq⟩ := bind_eq_some_iff.mp hsame.symm
    obtain ⟨⟨other, blocks⟩, hlast, rfl⟩ := map_eq_some_iff.mp hfrom
    cases other with
    | message other =>
      cases Option.some.inj heq
      exact ⟨_, blocks, hline, hlast⟩
    | line n => cases heq
  · intro ⟨id, blocks, hline, hlast⟩
    refine ⟨⟨id, hline⟩, ?_⟩
    rw [hline, hlast]
    rfl

theorem source_some {line : Written} {id : Text} (h : line.id = some id) (n : Nat) :
    source (line, n) = .message id := by
  rw [source, h]

theorem follows_more {told : List Spoken} {turn : Spoken} {reading : Reading}
    (h : Follows (told ++ [turn]) reading) {line : Written} {id : Text} {blocks : List Text}
    (hid : line.id = some id) (hlast : (messages turn.lines).getLast? = some (.message id, blocks))
    (hknown : Recognised blocks line.texts) :
    Follows (tell (told ++ [turn]) (.wrote line)) (reading.wrote line) := by
  have hsame := (same_iff h line).mpr ⟨id, blocks, hid, hlast⟩
  obtain ⟨before, hbefore⟩ := List.getLast?_eq_some_iff.mp hlast
  have hany : blocks ≠ [] := messages_any (mem_of_getLast? hlast)
  rw [← source_some hid turn.lines.length] at hbefore
  have hmore := messages_more hbefore
  rw [tell_wrote]
  refine ⟨?_, ?_⟩
  · rw [wrote_snoc h, hsame, hbefore, map_append, map_singleton, say_same,
      map_turn_snoc, Spoken.turn, hmore, map_append, map_singleton]
    rw [show said (source (line, turn.lines.length), blocks) = BREAK.intercalate blocks from rfl,
      sayMore_recognised hany hknown]
    rfl
  · rw [wrote_snoc h, lastId, List.getLast?_concat, bind_some, hmore, List.getLast?_concat,
      source_some hid, hid]
    rfl

theorem source_id (line : Written) (n : Nat) : (source (line, n)).id = line.id := by
  rw [source]
  cases hid : line.id <;> simp [Source.id]

theorem not_same {told : List Spoken} {turn : Spoken} {reading : Reading}
    (h : Follows (told ++ [turn]) reading) {line : Written}
    (hnew : ∀ message ∈ messages turn.lines, message.1 ≠ source (line, turn.lines.length)) :
    (line.id.isSome && line.id == reading.messageId) = false := by
  rw [Bool.eq_false_iff]
  intro hsame
  obtain ⟨id, blocks, hid, hlast⟩ := (same_iff h line).mp hsame
  exact hnew _ (mem_of_getLast? hlast) (source_some hid _).symm

theorem other_turns {told : List Spoken} {turn : Spoken} {reading : Reading}
    (h : Follows (told ++ [turn]) reading) {line : Written}
    (hother : (line.id.isSome && line.id == reading.messageId) = false) :
    (reading.wrote line).turns = told.map Spoken.turn ++
      [⟨turn.at_, turn.user, (messages turn.lines).map said ++ line.texts⟩] := by
  rw [wrote_snoc h, hother, say_other]

theorem follows_new {told : List Spoken} {turn : Spoken} {reading : Reading}
    (h : Follows (told ++ [turn]) reading) {line : Written}
    (hnew : ∀ message ∈ messages turn.lines, message.1 ≠ source (line, turn.lines.length))
    (hone : line.texts.length = 1) :
    Follows (tell (told ++ [turn]) (.wrote line)) (reading.wrote line) := by
  obtain ⟨text, htext⟩ := List.length_eq_one_iff.mp hone
  rw [tell_wrote]
  refine ⟨?_, ?_⟩
  · rw [other_turns h (not_same h hnew), map_turn_snoc, Spoken.turn, messages_new hnew, htext]
    simp [said, addTexts]
  · rw [wrote_snoc h, lastId, List.getLast?_concat, bind_some, messages_new hnew,
      List.getLast?_concat]
    exact (source_id line turn.lines.length).symm

theorem source_ne_iff {lines : List Written} {line : Written} :
    (∀ message ∈ messages lines, message.1 ≠ source (line, lines.length)) ↔
      ∀ id, line.id = some id → ∀ message ∈ messages lines, message.1 ≠ .message id := by
  cases hid : line.id with
  | none => simpa using fun s blocks hin => source_fresh lines hid (s, blocks) hin
  | some id =>
    rw [source_some hid]
    constructor
    · intro h other heq
      cases heq
      exact h
    · intro h
      exact h id rfl

theorem typedAt_isSome (timestamp : Option Text) :
    (typedAt timestamp).isSome ↔ ∀ text, timestamp = some text → Readable text := by
  cases timestamp with
  | none => simp [typedAt]
  | some text => simp [typedAt, isoToMs_isSome]

theorem follows_typed {told : List Spoken} {reading : Reading} (h : Follows told reading)
    {timestamp : Option Text} {at_ : Int} (hat : typedAt timestamp = some at_) (user : Text) :
    Follows (tell told (.typed timestamp user)) ⟨reading.turns ++ [⟨at_, user, []⟩], none⟩ := by
  refine ⟨?_, ?_⟩
  · simp [tell, hat, h.turns, Spoken.turn, messages, Groups.groups]
  · simp [tell, lastId, messages, Groups.groups]

/-- **A line that fits keeps the reading with the conversation.** -/
theorem follows_add {told : List Spoken} {reading : Reading} (h : Follows told reading)
    {line : Line} (hfits : Fits told line) :
    ∃ next, reading.add line = some next ∧ Follows (tell told line) next := by
  cases line with
  | other => exact ⟨reading, rfl, h⟩
  | typed timestamp user =>
    obtain ⟨at_, hat⟩ := isSome_iff_exists.mp ((typedAt_isSome timestamp).mpr hfits)
    exact ⟨_, by rw [Reading.add, hat]; rfl, follows_typed h hat user⟩
  | wrote line =>
    refine ⟨reading.wrote line, rfl, ?_⟩
    obtain rfl | ⟨told, turn, rfl⟩ := List.eq_nil_or_concat' told
    -- Before the first typed message, nothing is said.
    · have hnone : reading.wrote line = reading := by simp [Reading.wrote, h.turns]
      rw [hnone, tell_nil]
      exact h
    · obtain ⟨id, blocks, hid, hlast, hknown⟩ | ⟨hnew, hone⟩ := hfits turn (by simp)
      · exact follows_more h hid hlast hknown
      · exact follows_new h (source_ne_iff.mpr hnew) hone

/-- **And one that does not fit is told by the turns it leaves**, where it holds one text if it goes
    on with a message. -/
theorem fits_of_add {told : List Spoken} {reading next : Reading} (h : Follows told reading)
    {line : Line} (hadd : reading.add line = some next)
    (hturns : next.turns = (tell told line).map Spoken.turn)
    (hone : ∀ written turn, line = .wrote written → told.getLast? = some turn →
      (∃ message ∈ messages turn.lines, message.1 = source (written, turn.lines.length)) →
      written.texts.length = 1) :
    Fits told line := by
  cases line with
  | other => trivial
  | typed timestamp user =>
    apply (typedAt_isSome timestamp).mp
    obtain ⟨at_, hat, -⟩ := map_eq_some_iff.mp hadd
    exact isSome_iff_exists.mpr ⟨at_, hat⟩
  | wrote line =>
    cases Option.some.inj hadd
    intro turn hturn
    obtain ⟨told, rfl⟩ := List.getLast?_eq_some_iff.mp hturn
    replace hone := hone line turn rfl hturn
    rw [tell_wrote, map_turn_snoc] at hturns
    by_cases hnew : ∀ message ∈ messages turn.lines,
        message.1 ≠ source (line, turn.lines.length)
    -- The message begins here: as many texts are said as the line holds.
    · refine .inr ⟨source_ne_iff.mp hnew, ?_⟩
      rw [other_turns h (not_same h hnew)] at hturns
      have hsaid := congrArg (fun turn => turn.said.length)
        (singleton_inj.mp (append_cancel_left hturns))
      simpa [Spoken.turn, messages_new hnew] using hsaid
    -- It has begun before: if it is not the last, what is said is one text too many.
    · obtain ⟨⟨from?, blocks⟩, hin, hfrom⟩ := by simpa only [not_forall, not_not] using hnew
      have hone := hone ⟨_, hin, hfrom⟩
      obtain ⟨text, htext⟩ := List.length_eq_one_iff.mp hone
      cases hfrom
      obtain ⟨before, after, hsplit⟩ := append_of_mem hin
      have hmore := messages_more hsplit
      cases hsame : line.id.isSome && line.id == reading.messageId with
      | false =>
        rw [other_turns h hsame] at hturns
        have hsaid := congrArg (fun turn => turn.said.length)
          (singleton_inj.mp (append_cancel_left hturns))
        rw [Spoken.turn, hmore, hsplit, htext] at hsaid
        simp at hsaid
      | true =>
        obtain ⟨id, blocks, hid, hlast⟩ := (same_iff h line).mp hsame
        obtain ⟨before, hbefore⟩ := List.getLast?_eq_some_iff.mp hlast
        refine .inl ⟨id, blocks, hid, hlast, ?_⟩
        rw [← source_some hid turn.lines.length] at hbefore
        rw [wrote_snoc h, hsame, hbefore, map_append, map_singleton, say_same,
          Spoken.turn, messages_more hbefore, map_append, map_singleton, htext] at hturns
        have hsaid := congrArg Turn.said (singleton_inj.mp (append_cancel_left hturns))
        rw [htext]
        refine ⟨?_, trivial⟩
        apply recognised_of_sayMore (messages_any (mem_of_getLast? hlast))
        exact singleton_inj.mp (append_cancel_left hsaid)

theorem follows_skipped {told : List Spoken} {reading : Reading} (h : Follows told reading)
    {line : Line} (hadds : ¬ Adds told line) : Follows (tell told line) reading := by
  cases line with
  | other => exact h
  | typed timestamp user => exact absurd trivial hadds
  | wrote line =>
    obtain rfl | ⟨told, turn, rfl⟩ := List.eq_nil_or_concat' told
    · exact h
    -- Each of its texts is a block of its message.
    · have hall : ∀ text ∈ line.texts, ∃ message ∈ messages turn.lines,
          message.1 = source (line, turn.lines.length) ∧ text ∈ message.2 := by
        intro text htext
        by_contra hnone
        apply hadds
        refine ⟨turn, by simp, text, htext, ?_⟩
        intro message hmessage hfrom hin
        exact hnone ⟨message, hmessage, hfrom, hin⟩
      obtain ⟨text, htext⟩ := exists_mem_of_ne_nil _ line.any
      obtain ⟨⟨_, blocks⟩, hmessage, rfl, -⟩ := hall text htext
      obtain ⟨before, after, hsplit⟩ := append_of_mem hmessage
      have hsame : addTexts blocks line.texts = blocks := by
        apply addTexts_same
        intro text htext
        obtain ⟨other, hother, hfrom, hin⟩ := hall text htext
        have heq := List.inj_on_of_nodup_map (messages_nodup turn.lines) hother hmessage hfrom
        rw [heq] at hin
        exact hin
      have hmessages : messages (turn.lines ++ [line]) = messages turn.lines := by
        rw [messages_more hsplit, hsame, hsplit]
      rw [tell_wrote]
      refine ⟨?_, ?_⟩
      · rw [h.turns, map_turn_snoc, map_turn_snoc, Spoken.turn, Spoken.turn, hmessages]
      · rw [h.id, lastId, lastId, List.getLast?_concat, List.getLast?_concat, bind_some,
          bind_some, hmessages]

section
variable {parse : Text → Option Value}

theorem contains_iff {pat line : Text} : contains pat line = true ↔ pat <:+: line := by
  rw [contains]
  cases h : Text.cut pat line with
  | none => simpa using Text.not_infix_of_cut_none h
  | some parts => exact iff_of_true rfl ⟨parts.1, parts.2, (Text.cut_eq h).symm⟩

theorem skipped_iff {line : Text} : skipped line = true ↔ ¬ Plain line := by
  simp only [skipped, Plain, ← contains_iff]
  cases contains TOOL_RESULT line <;> cases contains USER line <;> cases contains ASSISTANT line <;>
    simp

def ClearLines (parse : Text → Option Value) (lines : List Text) : Prop :=
  ∀ before line after, lines = before ++ line :: after →
    (Adds (told parse before) (lineOf parse line) → Plain line) ∧
      (Plain line → Fits (told parse before) (lineOf parse line))

theorem ClearLines.of_prefix {lines more : List Text} (hclear : ClearLines parse more)
    (h : lines <+: more) : ClearLines parse lines := by
  obtain ⟨rest, rfl⟩ := h
  intro before line after heq
  apply hclear before line (after ++ rest)
  rw [heq, append_assoc, cons_append]

theorem ClearLines.snoc {lines : List Text} (h : ClearLines parse lines) {line : Text}
    (hline : (Adds (told parse lines) (lineOf parse line) → Plain line) ∧
      (Plain line → Fits (told parse lines) (lineOf parse line))) :
    ClearLines parse (lines ++ [line]) := by
  intro before other after heq
  obtain rfl | ⟨after, last, rfl⟩ := List.eq_nil_or_concat' after
  · obtain ⟨rfl, hother⟩ := List.append_inj' heq rfl
    cases hother
    exact hline
  · rw [← cons_append, ← append_assoc] at heq
    obtain ⟨rfl, -⟩ := List.append_inj' heq rfl
    exact h before other after rfl

theorem readLines_snoc (lines : List Text) (line : Text) :
    readLines parse (lines ++ [line]) =
      (readLines parse lines).bind fun reading => reading.read parse line := by
  rw [readLines, List.foldlM_append]
  simp [readLines]

/-- **The reading of clear lines follows what they tell.** -/
theorem follows_of_clear {lines : List Text} (h : ClearLines parse lines) :
    ∃ reading, readLines parse lines = some reading ∧ Follows (told parse lines) reading := by
  induction lines using List.reverseRecOn with
  | nil => exact ⟨_, rfl, Follows.nil⟩
  | append_singleton lines line ih =>
    obtain ⟨reading, hread, hfollows⟩ := ih (h.of_prefix (prefix_append ..))
    have hline := h lines line [] rfl
    rw [readLines_snoc, hread, told_snoc, bind_some, Reading.read]
    split
    · rename_i hskipped
      exact ⟨reading, rfl, follows_skipped hfollows (mt hline.1 (skipped_iff.mp hskipped))⟩
    · rename_i hplain
      exact follows_add hfollows (hline.2 (not_not.mp (mt skipped_iff.mpr hplain)))

theorem faithful_of_clear {bytes : Bytes} (h : Clear parse bytes) : Faithful parse bytes := by
  refine ⟨?_, ?_⟩
  · obtain ⟨reading, hread, hfollows⟩ := follows_of_clear h
    rw [readClaude, hread, map_some, hfollows.turns]
  · intro before line after heq hskipped
    exact mt (h before line after heq).1 (skipped_iff.mp hskipped)

/-- The lines of a file read right at every moment are clear. -/
theorem clear_of_faithful {bytes : Bytes} (hone : OneEach parse bytes)
    (h : ∀ n, Faithful parse (bytes.take n)) : ∀ {lines : List Text},
    lines <+: eachLine bytes → ClearLines parse lines := by
  intro lines
  induction lines using List.reverseRecOn with
  | nil =>
    intro _ before line after heq
    simp at heq
  | append_singleton lines line ih =>
    intro hstarts
    have hclear := ih ((prefix_append lines [line]).trans hstarts)
    apply hclear.snoc
    -- The moment the line has just been written.
    obtain ⟨n, hn⟩ := linesAfter_take bytes [] (lines ++ [line]).length
    rw [← eachLine, ← eachLine, ← List.prefix_iff_eq_take.mp hstarts] at hn
    have hfaithful := h n
    constructor
    · intro hadds
      by_contra hplain
      exact hfaithful.drops lines line [] hn (skipped_iff.mpr hplain) hadds
    · intro hplain
      have hskipped : ¬ skipped line = true := fun h => skipped_iff.mp h hplain
      obtain ⟨reading, hread, hfollows⟩ := follows_of_clear hclear
      have hreads := hfaithful.reads
      rw [hn, readClaude, hn, readLines_snoc, hread, bind_some, Reading.read,
        if_neg hskipped, told_snoc] at hreads
      obtain ⟨next, hadd, hturns⟩ := map_eq_some_iff.mp hreads
      apply fits_of_add hfollows hadd hturns
      intro written turn hline hturn
      obtain ⟨rest, hrest⟩ := hstarts
      rw [append_assoc] at hrest
      exact hone lines line rest written turn hrest.symm hline hturn

theorem Clear.take {bytes : Bytes} (h : Clear parse bytes) (n : Nat) :
    Clear parse (bytes.take n) :=
  ClearLines.of_prefix h (linesAfter_starts bytes [] n)

end

/-- **A transcript is read for what it says where its lines are clear**, and where a line that goes
    on with a message holds one text, at every moment it is written only there. -/
theorem claude_read (parse : Text → Option Value) (bytes : Bytes) :
    (Clear parse bytes → Faithful parse bytes) ∧
    (OneEach parse bytes → ((∀ n, Faithful parse (bytes.take n)) ↔ Clear parse bytes)) := by
  refine ⟨faithful_of_clear, fun hone => ⟨?_, ?_⟩⟩
  · intro h
    exact clear_of_faithful hone h prefix_rfl
  · intro hclear n
    exact faithful_of_clear (hclear.take n)

def pieces (texts : List String) : Text := texts.flatMap String.toList

def STAMP : Text := pieces ["2026-09-25", "T11:07:32.796Z"]

def typedLine : Text :=
  pieces ["\x7b\"type\":\"user\",", "\"timestamp\":\""] ++ STAMP ++
    pieces ["\",\"message\":\x7b", "\"content\":", "\"Go on\"\x7d\x7d"]

def textLine (text : String) : Text :=
  pieces ["\x7b\"type\":", "\"assistant\",", "\"message\":\x7b", "\"id\":\"m1\",",
    "\"content\":[\x7b", "\"type\":\"text\",", "\"text\":\"", text, "\"\x7d]\x7d\x7d"]

def mixedLine : Text :=
  pieces ["\x7b\"type\":\"user\",", "\"message\":\x7b", "\"content\":[\x7b", "\"type\":",
    "\"tool_result\"\x7d,", "\x7b\"type\":\"text\",", "\"text\":\"Stop\"", "\x7d]\x7d\x7d"]

def field (key : String) (value : Value) : Text × Value := (key.toList, value)

def text (text : String) : Value := .string text.toList

def textEntry (said : String) : Value :=
  .object [field "type" (text "assistant"),
    field "message" (.object [field "id" (text "m1"),
      field "content" (.array [.object [field "type" (text "text"), field "text" (text said)]])])]

def parsed (line : Text) : Option Value :=
  if line = typedLine then
    some (.object [field "type" (text "user"),
      field "timestamp" (.string STAMP),
      field "message" (.object [field "content" (text "Go on")])])
  else if line = textLine "All done" then some (textEntry "All done")
  else if line = textLine "done" then some (textEntry "done")
  else if line = mixedLine then
    some (.object [field "type" (text "user"),
      field "message" (.object [field "content" (.array
        [.object [field "type" (text "tool_result")],
          .object [field "type" (text "text"), field "text" (text "Stop")]])])])
  else none

theorem lines_read :
    (skipped typedLine = false ∧
      lineOf parsed typedLine = .typed (some STAMP) "Go on".toList) ∧
    (skipped (textLine "All done") = false ∧ lineOf parsed (textLine "All done") =
      .wrote ⟨some "m1".toList, ["All done".toList], cons_ne_nil _ _⟩) ∧
    (skipped (textLine "done") = false ∧ lineOf parsed (textLine "done") =
      .wrote ⟨some "m1".toList, ["done".toList], cons_ne_nil _ _⟩) ∧
    skipped mixedLine = true ∧ lineOf parsed mixedLine = .typed none "Stop".toList := by
  decide +kernel

/-- **A block that ends another is lost, and a typed line that holds a tool's result too.** -/
theorem ending_block_lost :
    readClaude parsed (fileOf [typedLine, textLine "All done", textLine "done"]) =
      some [⟨1790334452796, "Go on".toList, ["All done".toList]⟩] ∧
    ((told parsed [typedLine, textLine "All done", textLine "done"]).map Spoken.turn) =
      [⟨1790334452796, "Go on".toList, ["All done\n\ndone".toList]⟩] ∧
    ¬ Faithful parsed (fileOf [typedLine, textLine "All done", textLine "done"]) ∧
    ¬ Faithful parsed (fileOf [mixedLine]) := by
  obtain ⟨htyped, hdone, hend, hmixedRead⟩ := lines_read
  have hat : typedAt (some STAMP) = some 1790334452796 := by decide +kernel
  have hlines : eachLine (fileOf [typedLine, textLine "All done", textLine "done"]) =
      [typedLine, textLine "All done", textLine "done"] := by
    rw [eachLine_fileOf (by decide +kernel)]
    decide +kernel
  have hmixed : eachLine (fileOf [mixedLine]) = [mixedLine] := by
    rw [eachLine_fileOf (by decide +kernel)]
    decide +kernel
  have hread : readClaude parsed (fileOf [typedLine, textLine "All done", textLine "done"]) =
      some [⟨1790334452796, "Go on".toList, ["All done".toList]⟩] := by
    rw [readClaude, hlines]
    simp [readLines, Reading.read, Reading.add, htyped, hdone, hend, hat, Reading.wrote, sayText]
    exact ⟨"All ".toList, rfl⟩
  have htold : ((told parsed [typedLine, textLine "All done", textLine "done"]).map
      Spoken.turn) = [⟨1790334452796, "Go on".toList, ["All done\n\ndone".toList]⟩] := by
    have hspoken : told parsed [typedLine, textLine "All done", textLine "done"] =
        [⟨1790334452796, "Go on".toList,
          [⟨some "m1".toList, ["All done".toList], cons_ne_nil _ _⟩,
            ⟨some "m1".toList, ["done".toList], cons_ne_nil _ _⟩]⟩] := by
      simp [told, conversation, writtenNext, htyped, hdone, hend, hat]
    rw [hspoken]
    decide +kernel
  refine ⟨hread, htold, ?_, ?_⟩
  · intro h
    have hreads := h.reads
    rw [hread, hlines, htold] at hreads
    revert hreads
    decide +kernel
  · intro h
    apply h.drops [] mixedLine [] hmixed hmixedRead.1
    rw [hmixedRead.2]
    trivial

end Yardsort.Activity.Transcript
