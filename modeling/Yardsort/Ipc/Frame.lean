import Yardsort.Lib.Reader
import Yardsort.Ipc.Wire

/- What crosses the daemon's socket, and how it is framed (`pty-ipc/src/proto.rs`).

   A frame is `[u32 length][u8 kind][payload]`, little-endian, and the length counts the
   kind. Numbered output has a header of its own in the payload. Only `readFrom` knows of
   `MAX_FRAME`: `encode` makes a frame of any size.

   What `serde_json` reads of who controls a session, and of how it exited, is a parameter,
   `ItemReader`. -/
namespace Yardsort.Ipc
open Yardsort.Lib Yardsort.Pty

def KIND_REQUEST : UInt8 := 1
def KIND_RESPONSE : UInt8 := 2
def KIND_OUTPUT : UInt8 := 4
def KIND_NUMBERED : UInt8 := 5

def MAX_FRAME : Nat := 8 * 1024 * 1024

inductive IoError where
  | unexpectedEof
  | other (message : String)

structure Frame where
  kind : UInt8
  payload : Bytes

namespace Frame

def output (stream : StreamId) (bytes : Bytes) : Frame :=
  { kind := KIND_OUTPUT, payload := leBytes 4 stream.toNat ++ bytes }

def encode (f : Frame) : Option Bytes :=
  if f.payload.length + 1 < 2^32 then
    some (leBytes 4 (f.payload.length + 1) ++ f.kind :: f.payload)
  else none

def readFrom (r : Reader) : Except IoError (Frame × Reader) :=
  match readExact r 5 with
  | none => .error .unexpectedEof
  | some (header, r) =>
    let len := ofLe (header.take 4)
    if len = 0 then .error (.other "empty frame")
    else if MAX_FRAME < len then .error (.other s!"frame of {len} bytes is too large")
    else
      match readExact r (len - 1), header.drop 4 with
      | some (payload, r), kind :: _ => .ok ({ kind := kind, payload := payload }, r)
      | _, _ => .error .unexpectedEof

end Frame

def ITEM_SNAPSHOT : UInt8 := 0
def ITEM_OUTPUT : UInt8 := 1
def ITEM_RESIZED : UInt8 := 2
def ITEM_RESUMED : UInt8 := 3
def ITEM_CONTROL : UInt8 := 4
def ITEM_EXITED : UInt8 := 5

/-- Stream, item and number, before what each item carries. -/
def NUMBERED_HEADER : Nat := 4 + 1 + 8

/-- How the JSON of two items is read back (`serde_json::from_slice`). -/
structure ItemReader where
  controller : Bytes → Except String Controller
  exit : Bytes → Except String ExitInfo

def sizeBytes (size : TermSize) : Bytes := leBytes 2 size.cols ++ leBytes 2 size.rows

def optionalSize : Option TermSize → Bytes
  | some size => sizeBytes size
  | none => []

def parts : Item → UInt8 × Nat × Option TermSize × Bytes
  | .snapshot seq size bytes => (ITEM_SNAPSHOT, seq, some size, bytes)
  | .output seq bytes => (ITEM_OUTPUT, seq, none, bytes)
  | .resized seq size => (ITEM_RESIZED, seq, some size, [])
  | .resumed seq size => (ITEM_RESUMED, seq, some size, [])
  | .control controller => (ITEM_CONTROL, 0, none, Controller.json controller)
  | .exited exit => (ITEM_EXITED, 0, none, ExitInfo.json exit)

namespace Frame

def numbered (stream : StreamId) (item : Item) : Frame :=
  let (tag, seq, size, bytes) := parts item
  { kind := KIND_NUMBERED
    payload := leBytes 4 stream.toNat ++ tag :: leBytes 8 seq ++ optionalSize size ++ bytes }

def truncated : IoError := .other "truncated numbered frame"

def readSize (rest : Bytes) : Except IoError (TermSize × Bytes) :=
  if rest.length < 4 then .error truncated
  else .ok ({ cols := ofLe (rest.take 2), rows := ofLe ((rest.drop 2).take 2) }, rest.drop 4)

def readItem (json : ItemReader) (tag : UInt8) (seq : Nat) (rest : Bytes) : Except IoError Item :=
  if tag = ITEM_SNAPSHOT then
    (readSize rest).map (fun (size, bytes) => .snapshot seq size bytes)
  else if tag = ITEM_OUTPUT then .ok (.output seq rest)
  else if tag = ITEM_RESIZED then (readSize rest).map (fun (size, _) => .resized seq size)
  else if tag = ITEM_RESUMED then (readSize rest).map (fun (size, _) => .resumed seq size)
  else if tag = ITEM_CONTROL then
    match json.controller rest with
    | .ok controller => .ok (.control controller)
    | .error e => .error (.other e)
  else if tag = ITEM_EXITED then
    match json.exit rest with
    | .ok exit => .ok (.exited exit)
    | .error e => .error (.other e)
  else .error (.other s!"unknown numbered item {tag}")

def asNumbered (json : ItemReader) (f : Frame) : Except IoError (StreamId × Item) :=
  if f.payload.length < NUMBERED_HEADER then .error truncated
  else
    let stream := UInt32.ofNat (ofLe (f.payload.take 4))
    let tag := (f.payload.drop 4).headD 0
    let seq := ofLe ((f.payload.drop 5).take 8)
    (readItem json tag seq (f.payload.drop NUMBERED_HEADER)).map (fun item => (stream, item))

end Frame

namespace Frame

def encodeAll : List Frame → Option Bytes
  | [] => some []
  | f :: fs => f.encode.bind (fun bytes => (encodeAll fs).map (bytes ++ ·))

/-- Read frames, one after another, until a read fails: the frames, and why it did. `fuel`
    is at least how many there are. -/
def readAll : Nat → Reader → List Frame × Option IoError
  | 0, _ => ([], none)
  | fuel + 1, r =>
    match readFrom r with
    | .error e => ([], some e)
    | .ok (frame, r) => (frame :: (readAll fuel r).1, (readAll fuel r).2)

theorem encode_some {f : Frame} (h : f.payload.length + 1 < 2^32) :
    f.encode = some (leBytes 4 (f.payload.length + 1) ++ f.kind :: f.payload) := if_pos h

theorem encode_length {f : Frame} {bytes : Bytes} (h : f.encode = some bytes) :
    bytes.length = f.payload.length + 5 := by
  unfold encode at h
  split at h
  · cases h
    rw [length_append, leBytes_length, length_cons]
    omega
  · cases h

theorem readFrom_encode {f : Frame} {bytes rest : Bytes} (h : f.encode = some bytes) {r : Reader}
    (hr : r.Open) (hflat : r.flatten = bytes ++ rest) :
    (f.payload.length < MAX_FRAME ∧
      ∃ r' : Reader, readFrom r = .ok (f, r') ∧ r'.flatten = rest ∧ r'.Open) ∨
    (MAX_FRAME ≤ f.payload.length ∧ readFrom r =
      .error (.other s!"frame of {f.payload.length + 1} bytes is too large")) := by
  unfold encode at h
  split at h
  · rename_i hfits
    cases h
    have hlen : (leBytes 4 (f.payload.length + 1) ++ [f.kind]).length = 5 := by
      rw [length_append, leBytes_length, length_singleton]
    have hcut : r.flatten = (leBytes 4 (f.payload.length + 1) ++ [f.kind]) ++ (f.payload ++ rest) := by
      rw [hflat]
      simp only [append_assoc, cons_append, nil_append]
    obtain ⟨r₁, hread, hrest, hopen⟩ := readExact_append hr hcut
    rw [hlen] at hread
    have htake : (leBytes 4 (f.payload.length + 1) ++ [f.kind]).take 4 =
        leBytes 4 (f.payload.length + 1) := List.take_left' (leBytes_length 4 _)
    have hdrop : (leBytes 4 (f.payload.length + 1) ++ [f.kind]).drop 4 = [f.kind] :=
      List.drop_left' (leBytes_length 4 _)
    have hval : ofLe (leBytes 4 (f.payload.length + 1)) = f.payload.length + 1 :=
      ofLe_leBytes_of_lt (Nat.lt_of_lt_of_le hfits (by decide))
    unfold readFrom
    rw [hread]
    simp only [htake, hdrop, hval]
    rw [if_neg (Nat.succ_ne_zero _)]
    by_cases hbig : MAX_FRAME < f.payload.length + 1
    · rw [if_pos hbig]
      exact Or.inr ⟨Nat.lt_succ_iff.mp hbig, rfl⟩
    · rw [if_neg hbig]
      obtain ⟨r₂, hread₂, hrest₂, hopen₂⟩ := readExact_append hopen hrest
      refine Or.inl ⟨by omega, r₂, ?_, hrest₂, hopen₂⟩
      rw [Nat.add_sub_cancel, hread₂]
  · cases h

theorem readFrom_end {r : Reader} (hr : r.Open) (h : r.flatten = []) :
    readFrom r = .error .unexpectedEof := by
  rw [readFrom, readExact_end hr h]

/-- **Frames come back, in order, and then the end of the stream.** -/
theorem readAll_encodeAll {frames : List Frame} (hsmall : ∀ f ∈ frames, f.payload.length < MAX_FRAME) :
    ∃ wire, encodeAll frames = some wire ∧ ∀ r : Reader, r.Open → r.flatten = wire →
      ∀ fuel, frames.length < fuel → readAll fuel r = (frames, some .unexpectedEof) := by
  induction frames with
  | nil =>
    refine ⟨[], rfl, fun r hr hflat fuel hfuel => ?_⟩
    obtain ⟨fuel, rfl⟩ := Nat.exists_eq_add_of_lt hfuel
    rw [length_nil, Nat.zero_add, readAll, readFrom_end hr hflat]
  | cons f fs ih =>
    have hf := hsmall f mem_cons_self
    obtain ⟨wire, hwire, hread⟩ := ih (fun g hg => hsmall g (mem_cons_of_mem _ hg))
    have hfits : f.payload.length + 1 < 2^32 :=
      Nat.lt_of_le_of_lt hf (by decide)
    refine ⟨leBytes 4 (f.payload.length + 1) ++ f.kind :: f.payload ++ wire, ?_,
      fun r hr hflat fuel hfuel => ?_⟩
    · rw [encodeAll, encode_some hfits, bind_some, hwire, map_some]
    · obtain ⟨n, rfl⟩ := Nat.exists_eq_add_of_lt hfuel
      obtain ⟨_, r', hone, hrest, hopen⟩ | ⟨hbig, _⟩ := readFrom_encode (encode_some hfits) hr hflat
      · have hall := hread r' hopen hrest (fs.length + 1 + n)
          (by rw [Nat.add_assoc]; omega)
        rw [length_cons]
        rw [readAll, hone]
        simp only [hall]
      · exact absurd hf (Nat.not_lt.mpr hbig)

/-- The numbers are such as the source's types hold: 64 bits for an item's, 16 for a size's. -/
def SizeFits (size : TermSize) : Prop := size.cols < 2^16 ∧ size.rows < 2^16

def ItemFits : Item → Prop
  | .snapshot seq size _ | .resized seq size | .resumed seq size => seq < 2^64 ∧ SizeFits size
  | .output seq _ => seq < 2^64
  | _ => True

def JsonComesBack (json : ItemReader) : Item → Prop
  | .control controller => json.controller (Controller.json controller) = .ok controller
  | .exited exit => json.exit (ExitInfo.json exit) = .ok exit
  | _ => True

theorem sizeBytes_length (size : TermSize) : (sizeBytes size).length = 4 := by
  rw [sizeBytes, length_append, leBytes_length, leBytes_length]

theorem readSize_sizeBytes {size : TermSize} (h : SizeFits size) (bytes : Bytes) :
    readSize (sizeBytes size ++ bytes) = .ok (size, bytes) := by
  have hlen : ¬ (sizeBytes size ++ bytes).length < 4 := by
    rw [length_append, sizeBytes_length]
    omega
  have hcols : (sizeBytes size ++ bytes).take 2 = leBytes 2 size.cols := by
    rw [sizeBytes, append_assoc]
    exact List.take_left' (leBytes_length 2 _)
  have hrows : ((sizeBytes size ++ bytes).drop 2).take 2 = leBytes 2 size.rows := by
    rw [sizeBytes, append_assoc, List.drop_left' (leBytes_length 2 _)]
    exact List.take_left' (leBytes_length 2 _)
  have hbytes : (sizeBytes size ++ bytes).drop 4 = bytes := List.drop_left' (sizeBytes_length size)
  rw [readSize, if_neg hlen, hcols, hrows, hbytes, ofLe_leBytes_of_lt h.1, ofLe_leBytes_of_lt h.2]

theorem asNumbered_header (json : ItemReader) (kind tag : UInt8) (stream : StreamId) {seq : Nat}
    (hseq : seq < 2^64) (rest : Bytes) :
    asNumbered json ⟨kind, leBytes 4 stream.toNat ++ tag :: leBytes 8 seq ++ rest⟩ =
      (readItem json tag seq rest).map (fun item => (stream, item)) := by
  have hhead : (leBytes 4 stream.toNat ++ tag :: leBytes 8 seq).length = NUMBERED_HEADER := by
    rw [length_append, length_cons, leBytes_length, leBytes_length]
    rfl
  generalize hp : leBytes 4 stream.toNat ++ tag :: leBytes 8 seq ++ rest = payload
  have hlen : ¬ payload.length < NUMBERED_HEADER := by
    rw [← hp, length_append, hhead]
    omega
  have hcut : payload = leBytes 4 stream.toNat ++ (tag :: (leBytes 8 seq ++ rest)) := by
    rw [← hp, append_assoc, cons_append]
  have hstream : payload.take 4 = leBytes 4 stream.toNat := by
    rw [hcut]
    exact List.take_left' (leBytes_length 4 _)
  have htail : payload.drop 4 = tag :: (leBytes 8 seq ++ rest) := by
    rw [hcut]
    exact List.drop_left' (leBytes_length 4 _)
  have hnumber : (payload.drop 5).take 8 = leBytes 8 seq := by
    rw [show 5 = 4 + 1 from rfl, ← drop_drop, htail, drop_succ_cons, drop_zero]
    exact List.take_left' (leBytes_length 8 _)
  have hrest : payload.drop NUMBERED_HEADER = rest := by
    rw [← hp]
    exact List.drop_left' hhead
  rw [asNumbered, if_neg hlen]
  simp only [hstream, htail, hnumber, hrest, List.headD_cons, uint32_round_trip]
  rw [ofLe_leBytes_of_lt (Nat.lt_of_lt_of_le hseq (by decide))]

theorem readItem_parts {json : ItemReader} {item : Item} (hfits : ItemFits item)
    (hjson : JsonComesBack json item) :
    readItem json (parts item).1 (parts item).2.1
      (optionalSize (parts item).2.2.1 ++ (parts item).2.2.2) = .ok item := by
  cases item with
  | snapshot seq size bytes =>
    simp only [parts, optionalSize, readItem, if_true, readSize_sizeBytes hfits.2]
    rfl
  | output seq bytes => rfl
  | resized seq size =>
    have htag : ITEM_RESIZED ≠ ITEM_SNAPSHOT ∧ ITEM_RESIZED ≠ ITEM_OUTPUT := by decide
    simp only [parts, optionalSize, readItem, if_neg htag.1, if_neg htag.2, if_true,
      readSize_sizeBytes hfits.2]
    rfl
  | resumed seq size =>
    have htag : ITEM_RESUMED ≠ ITEM_SNAPSHOT ∧ ITEM_RESUMED ≠ ITEM_OUTPUT ∧
      ITEM_RESUMED ≠ ITEM_RESIZED := by decide
    simp only [parts, optionalSize, readItem, if_neg htag.1, if_neg htag.2.1, if_neg htag.2.2,
      if_true, readSize_sizeBytes hfits.2]
    rfl
  | control controller =>
    have htag : ITEM_CONTROL ≠ ITEM_SNAPSHOT ∧ ITEM_CONTROL ≠ ITEM_OUTPUT ∧
      ITEM_CONTROL ≠ ITEM_RESIZED ∧ ITEM_CONTROL ≠ ITEM_RESUMED := by decide
    have hread : json.controller (Controller.json controller) = .ok controller := hjson
    simp only [parts, optionalSize, nil_append, readItem, if_neg htag.1, if_neg htag.2.1,
      if_neg htag.2.2.1, if_neg htag.2.2.2, if_true, hread]
  | exited exit =>
    have htag : ITEM_EXITED ≠ ITEM_SNAPSHOT ∧ ITEM_EXITED ≠ ITEM_OUTPUT ∧
      ITEM_EXITED ≠ ITEM_RESIZED ∧ ITEM_EXITED ≠ ITEM_RESUMED ∧ ITEM_EXITED ≠ ITEM_CONTROL := by
      decide
    have hread : json.exit (ExitInfo.json exit) = .ok exit := hjson
    simp only [parts, optionalSize, nil_append, readItem, if_neg htag.1, if_neg htag.2.1,
      if_neg htag.2.2.1, if_neg htag.2.2.2.1, if_neg htag.2.2.2.2, if_true, hread]

theorem parts_seq {item : Item} (hfits : ItemFits item) : (parts item).2.1 < 2^64 := by
  cases item with
  | snapshot | resized | resumed => exact hfits.1
  | output => exact hfits
  | control | exited => exact Nat.two_pow_pos 64

/-- **Every item comes back, to the viewer it is for.** -/
theorem asNumbered_numbered {json : ItemReader} {item : Item} (hfits : ItemFits item)
    (hjson : JsonComesBack json item) (stream : StreamId) :
    asNumbered json (numbered stream item) = .ok (stream, item) := by
  have hall := asNumbered_header json KIND_NUMBERED (parts item).1 stream (parts_seq hfits)
    (optionalSize (parts item).2.2.1 ++ (parts item).2.2.2)
  rw [readItem_parts hfits hjson, ← append_assoc] at hall
  exact hall

theorem asNumbered_short (json : ItemReader) {f : Frame} (h : f.payload.length < NUMBERED_HEADER) :
    asNumbered json f = .error truncated := if_pos h

theorem asNumbered_sizeless (json : ItemReader) {f : Frame}
    (h : f.payload.length < NUMBERED_HEADER + 4)
    (htag : f.payload[4]? = some ITEM_SNAPSHOT ∨ f.payload[4]? = some ITEM_RESIZED ∨
      f.payload[4]? = some ITEM_RESUMED) : asNumbered json f = .error truncated := by
  by_cases hshort : f.payload.length < NUMBERED_HEADER
  · exact asNumbered_short json hshort
  · have hrest : (f.payload.drop NUMBERED_HEADER).length < 4 := by
      rw [length_drop]
      omega
    have hsize : readSize (f.payload.drop NUMBERED_HEADER) = .error truncated := if_pos hrest
    have hhead : ∀ {tag : UInt8}, f.payload[4]? = some tag → (f.payload.drop 4).headD 0 = tag := by
      intro tag hsome
      rw [List.headD_eq_head?_getD, List.head?_drop, hsome, getD_some]
    rw [asNumbered, if_neg hshort]
    obtain htag | htag | htag := htag
    · simp only [hhead htag, readItem, if_true, hsize]
      rfl
    · have hne : ITEM_RESIZED ≠ ITEM_SNAPSHOT ∧ ITEM_RESIZED ≠ ITEM_OUTPUT := by decide
      simp only [hhead htag, readItem, if_neg hne.1, if_neg hne.2, if_true, hsize]
      rfl
    · have hne : ITEM_RESUMED ≠ ITEM_SNAPSHOT ∧ ITEM_RESUMED ≠ ITEM_OUTPUT ∧
        ITEM_RESUMED ≠ ITEM_RESIZED := by decide
      simp only [hhead htag, readItem, if_neg hne.1, if_neg hne.2.1, if_neg hne.2.2, if_true, hsize]
      rfl

/-- **The codec loses nothing.** Frames within the limit come back in order however their
    bytes arrive, and then the end of the stream; a numbered item comes back to its viewer;
    and a numbered payload cut short is refused. -/
theorem frames_come_back (frames : List Frame) (json : ItemReader) (stream : StreamId) (item : Item)
    (hsmall : ∀ f ∈ frames, f.payload.length < MAX_FRAME) (hfits : ItemFits item)
    (hjson : JsonComesBack json item) :
    (∃ wire, encodeAll frames = some wire ∧ ∀ r : Reader, r.Open → r.flatten = wire →
      ∀ fuel, frames.length < fuel → readAll fuel r = (frames, some .unexpectedEof)) ∧
    asNumbered json (numbered stream item) = .ok (stream, item) ∧
    ∀ f : Frame, (f.payload.length < NUMBERED_HEADER → asNumbered json f = .error truncated) ∧
      (f.payload.length < NUMBERED_HEADER + 4 → (f.payload[4]? = some ITEM_SNAPSHOT ∨
        f.payload[4]? = some ITEM_RESIZED ∨ f.payload[4]? = some ITEM_RESUMED) →
        asNumbered json f = .error truncated) :=
  ⟨readAll_encodeAll hsmall, asNumbered_numbered hfits hjson stream,
    fun _ => ⟨asNumbered_short json, asNumbered_sizeless json⟩⟩

def knowsPhone : ItemReader :=
  { controller := fun text =>
      if text = Controller.json (.leased "phone") then .ok (.leased "phone")
      else .error "expected value at line 1 column 1"
    exit := fun _ => .error "expected value at line 1 column 1" }

theorem phone_frames_come_back :
    (∃ wire, encodeAll [output 7 [0x68, 0x69], numbered 3 (.control (.leased "phone"))] = some wire ∧
      ∀ r : Reader, r.Open → r.flatten = wire → ∀ fuel, 2 < fuel → readAll fuel r =
        ([output 7 [0x68, 0x69], numbered 3 (.control (.leased "phone"))], some .unexpectedEof)) ∧
    asNumbered knowsPhone (numbered 3 (.control (.leased "phone"))) =
      .ok (3, .control (.leased "phone")) := by
  have hknown : knowsPhone.controller (Controller.json (.leased "phone")) =
      .ok (.leased "phone") := by
    simp only [knowsPhone, if_true]
  have hall := frames_come_back [output 7 [0x68, 0x69], numbered 3 (.control (.leased "phone"))]
    knowsPhone 3 (.control (.leased "phone")) (by decide +kernel) trivial hknown
  exact ⟨hall.1, hall.2.1⟩

end Frame

end Yardsort.Ipc
