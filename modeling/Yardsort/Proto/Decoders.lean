import Yardsort.Proto.Frame

/- Reading terminal output: `OutputFrame::decode` (`remote-proto/src/terminal.rs`), and
   `decodeFrame` of the devices (`packages/remote-client/src/frame.ts`), which are two readers of
   one format.

   A number of the devices is a natural number here: those read are below 2^53, where a
   JavaScript number is exact. -/
namespace Yardsort.Proto
open Yardsort.Lib

def bytesAt (at_ w : Nat) (frame : Bytes) : Bytes := (frame.drop at_).take w

namespace OutputFrame

/-- Read a frame that arrived whole, checking its size before anything else. -/
def decode (frame : Bytes) : Except FrameError OutputFrame :=
  if OUTPUT_HEADER_LEN + MAX_OUTPUT_CHUNK < frame.length then
    .error (.tooLarge (frame.length - OUTPUT_HEADER_LEN))
  else if frame.length < OUTPUT_HEADER_LEN then .error .truncated
  else if frame.getD 0 0 ≠ OUTPUT_KIND then .error .wrongKind
  else if frame.getD 1 0 ≠ OUTPUT_VERSION then .error (.unknownVersion (frame.getD 1 0))
  else
    .ok
      { stream := UInt32.ofNat (ofLe (bytesAt 4 4 frame))
        position :=
          { epoch := UInt32.ofNat (ofLe (bytesAt 8 4 frame))
            seq := UInt64.ofNat (ofLe (bytesAt 12 8 frame)) }
        bytes := frame.drop OUTPUT_HEADER_LEN }

end OutputFrame

structure JsFrame where
  stream : Nat
  epoch : Nat
  seq : Nat
  bytes : Bytes

inductive FrameErrorKind where
  | truncated
  | wrongKind
  | unknownVersion
  | tooLarge
  | seqTooLarge

/-- The high half of the largest sequence number a JavaScript number holds exactly. -/
def MAX_SEQ_HIGH : Nat := 0x1fffff

def getUint32 (at_ : Nat) (frame : Bytes) : Nat := ofLe (bytesAt at_ 4 frame)

def decodeFrame (frame : Bytes) : Except FrameErrorKind JsFrame :=
  if OUTPUT_HEADER_LEN + MAX_OUTPUT_CHUNK < frame.length then .error .tooLarge
  else if frame.length < OUTPUT_HEADER_LEN then .error .truncated
  else if frame.getD 0 0 ≠ OUTPUT_KIND then .error .wrongKind
  else if frame.getD 1 0 ≠ OUTPUT_VERSION then .error .unknownVersion
  else
    let low := getUint32 12 frame
    let high := getUint32 16 frame
    if MAX_SEQ_HIGH < high then .error .seqTooLarge
    else
      .ok
        { stream := getUint32 4 frame
          epoch := getUint32 8 frame
          seq := high * 0x100000000 + low
          bytes := frame.drop OUTPUT_HEADER_LEN }

def OutputFrame.js (frame : OutputFrame) : JsFrame :=
  ⟨frame.stream.toNat, frame.position.epoch.toNat, frame.position.seq.toNat, frame.bytes⟩

def FrameError.kind : FrameError → FrameErrorKind
  | .truncated => .truncated
  | .wrongKind => .wrongKind
  | .unknownVersion _ => .unknownVersion
  | .tooLarge _ => .tooLarge

def MAX_SAFE_INTEGER : Nat := 9007199254740991

def asRead : Except FrameError OutputFrame → Except FrameErrorKind JsFrame
  | .error error => .error error.kind
  | .ok frame =>
    if frame.position.seq.toNat ≤ MAX_SAFE_INTEGER then .ok frame.js else .error .seqTooLarge

theorem ofLe_lt (bytes : Bytes) : ofLe bytes < 256 ^ bytes.length := by
  induction bytes with
  | nil => simp [ofLe]
  | cons b bytes ih =>
    have hb := b.toNat_lt
    rw [ofLe, length_cons, Nat.pow_succ]
    omega

theorem ofLe_append (low high : Bytes) :
    ofLe (low ++ high) = ofLe low + 256 ^ low.length * ofLe high := by
  induction low with
  | nil => simp [ofLe]
  | cons b low ih =>
    rw [cons_append, ofLe, ofLe, ih, length_cons, Nat.pow_succ, Nat.mul_add,
      Nat.mul_comm (256 ^ low.length) 256, Nat.mul_assoc, Nat.add_assoc]

theorem bytesAt_lt (at_ w : Nat) (frame : Bytes) : ofLe (bytesAt at_ w frame) < 256 ^ w := by
  apply Nat.lt_of_lt_of_le (ofLe_lt _)
  apply Nat.pow_le_pow_right (by decide)
  exact List.length_take_le w _

theorem seq_halves {frame : Bytes} (h : OUTPUT_HEADER_LEN ≤ frame.length) :
    ofLe (bytesAt 12 8 frame) = getUint32 16 frame * 0x100000000 + getUint32 12 frame := by
  have hsplit : bytesAt 12 8 frame = bytesAt 12 4 frame ++ bytesAt 16 4 frame := by
    rw [bytesAt, bytesAt, bytesAt, show 8 = 4 + 4 from rfl, List.take_add, drop_drop]
  have hlength : (bytesAt 12 4 frame).length = 4 := by
    unfold OUTPUT_HEADER_LEN at h
    rw [bytesAt, length_take, length_drop]
    omega
  rw [hsplit, ofLe_append, hlength, getUint32, getUint32]
  omega

/-- **The two readers of one message**: what one refuses the other refuses, and for the same
    reason, but for the sequence numbers a device cannot hold. -/
theorem decodeFrame_eq (frame : Bytes) : decodeFrame frame = asRead (OutputFrame.decode frame) := by
  unfold decodeFrame OutputFrame.decode
  split
  · rfl
  split
  · rfl
  · rename_i hlarge hshort
    have hlow := bytesAt_lt 12 4 frame
    have hhalves := seq_halves (Nat.le_of_not_lt hshort)
    have hstream := bytesAt_lt 4 4 frame
    have hepoch := bytesAt_lt 8 4 frame
    have hseq := bytesAt_lt 12 8 frame
    split
    · rfl
    split
    · rfl
    · dsimp only [asRead]
      rw [UInt64.toNat_ofNat_of_lt' hseq]
      have hsafe : MAX_SEQ_HIGH < getUint32 16 frame ↔
          ¬ ofLe (bytesAt 12 8 frame) ≤ MAX_SAFE_INTEGER := by
        rw [hhalves]
        unfold getUint32 MAX_SEQ_HIGH MAX_SAFE_INTEGER at *
        omega
      by_cases h : MAX_SEQ_HIGH < getUint32 16 frame
      · rw [if_pos h, if_neg (hsafe.mp h)]
      · rw [if_neg h, if_pos (not_not.mp (mt hsafe.mpr h)), OutputFrame.js]
        simp only [UInt32.toNat_ofNat_of_lt' hstream, UInt32.toNat_ofNat_of_lt' hepoch]
        rw [UInt64.toNat_ofNat_of_lt' hseq, hhalves]
        rfl

theorem OutputFrame.decode_encode {frame : OutputFrame} {wire : Bytes}
    (h : frame.encode = .ok wire) : OutputFrame.decode wire = .ok frame := by
  have hlarge := OutputFrame.encode_length h
  unfold OutputFrame.encode at h
  split at h
  · cases h
  cases h
  have hlength := frame.header_length
  have hstream : bytesAt 4 4 (frame.header ++ frame.bytes) = leBytes 4 frame.stream.toNat := rfl
  have hepoch : bytesAt 8 4 (frame.header ++ frame.bytes) =
      leBytes 4 frame.position.epoch.toNat := rfl
  have hseq : bytesAt 12 8 (frame.header ++ frame.bytes) =
      leBytes 8 frame.position.seq.toNat := rfl
  have hpayload : (frame.header ++ frame.bytes).drop OUTPUT_HEADER_LEN = frame.bytes :=
    List.drop_left' hlength
  have hkind : (frame.header ++ frame.bytes).getD 0 0 = OUTPUT_KIND := rfl
  have hversion : (frame.header ++ frame.bytes).getD 1 0 = OUTPUT_VERSION := rfl
  have hshort : ¬ (frame.header ++ frame.bytes).length < OUTPUT_HEADER_LEN := by
    rw [length_append]
    omega
  rw [OutputFrame.decode, if_neg (Nat.not_lt.mpr hlarge), if_neg hshort, hkind, hversion,
    if_neg (not_not.mpr rfl), if_neg (not_not.mpr rfl), hstream, hepoch, hseq, hpayload,
    uint32_round_trip, uint32_round_trip, uint64_round_trip]

def LinkReader.Reads (json : LinkReader) : LinkFrame → Prop
  | .opened _ what => json.channelOpen what.json = some what
  | .closed _ reason => json.closeReason reason.json = some reason
  | .text _ _ => True
  | .binary _ _ => True

theorem LinkFrame.decode_encoded {json : LinkReader} {frame : LinkFrame} (hreads : json.Reads frame)
    (h : frame.encode.length ≤ MAX_MESSAGE) : LinkFrame.decode json frame.encode = .ok frame := by
  rw [LinkFrame.encode_length] at h
  rw [LinkFrame.decode_encode json frame h]
  cases frame with
  | opened channel what =>
    have hwhat : json.channelOpen what.json = some what := hreads
    simp only [hwhat]
  | closed channel reason =>
    have hreason : json.closeReason reason.json = some reason := hreads
    simp only [hreason]
  | text channel bytes => rfl
  | binary channel bytes => rfl

/-- **The readers agree**: on what a host writes, on any message at all whose sequence number a
    device can hold, and the reader of link frames undoes the writer. -/
theorem readers_agree (json : LinkReader) :
    (∀ frame wire, OutputFrame.encode frame = .ok wire →
      frame.position.seq.toNat ≤ MAX_SAFE_INTEGER →
      OutputFrame.decode wire = .ok frame ∧ decodeFrame wire = .ok frame.js) ∧
    (∀ message, ofLe (bytesAt 12 8 message) ≤ MAX_SAFE_INTEGER →
      decodeFrame message =
        ((OutputFrame.decode message).map OutputFrame.js).mapError FrameError.kind) ∧
    ∀ frame, json.Reads frame → frame.encode.length ≤ MAX_MESSAGE →
      LinkFrame.decode json frame.encode = .ok frame := by
  refine ⟨?_, ?_, fun frame => LinkFrame.decode_encoded⟩
  · intro frame wire hwire hsafe
    have hdecode := OutputFrame.decode_encode hwire
    refine ⟨hdecode, ?_⟩
    rw [decodeFrame_eq, hdecode, asRead, if_pos hsafe]
  · intro message hsafe
    rw [decodeFrame_eq]
    cases hdecode : OutputFrame.decode message with
    | error error => rfl
    | ok frame =>
      have hseq : frame.position.seq.toNat = ofLe (bytesAt 12 8 message) := by
        unfold OutputFrame.decode at hdecode
        repeat' split at hdecode
        all_goals cases hdecode
        exact UInt64.toNat_ofNat_of_lt' (bytesAt_lt 12 8 message)
      rw [asRead, if_pos (hseq ▸ hsafe)]
      rfl

def secondOutput : OutputFrame := ⟨7, ⟨1, 2⟩, [0x68, 0x69]⟩

/-- The names of the reasons, read back; and an output frame. -/
theorem readers_agree_replaced :
    (∃ wire, secondOutput.encode = .ok wire ∧ wire.length = 22 ∧
      OutputFrame.decode wire = .ok secondOutput ∧ decodeFrame wire = .ok secondOutput.js) ∧
    LinkFrame.decode ⟨fun _ => none, fun json => [.gone, .replaced, .unknown].find? (·.json = json)⟩
      (LinkFrame.closed 7 .replaced).encode = .ok (.closed 7 .replaced) := by
  constructor
  · have hwire : secondOutput.encode = .ok (secondOutput.header ++ secondOutput.bytes) :=
      if_neg (by decide)
    exact ⟨_, hwire, by decide +kernel,
      (readers_agree ⟨fun _ => none, fun _ => none⟩).1 _ _ hwire (by decide)⟩
  apply (readers_agree _).2.2
  · show [CloseReason.gone, .replaced, .unknown].find? (·.json = CloseReason.json .replaced) = _
    decide +kernel
  · decide +kernel

end Yardsort.Proto
