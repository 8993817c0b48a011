import Yardsort.Lib.Bytes

/- The binary frames of the remote protocol (`remote-proto`): a host's link
   carries every device's messages in link frames, and terminal output travels
   as output frames inside them.

   Both readers check a frame's size before anything else. What `serde_json`
   reads of an open or a close frame's payload is a parameter, `LinkReader`. -/
namespace Yardsort.Proto
open Yardsort.Lib

def MAX_ID_LEN : Nat := 128

inductive IdError where
  | empty
  | tooLong
  | badCharacter
  deriving DecidableEq

def idByte (b : UInt8) : Bool :=
  (0x61 ≤ b && b ≤ 0x7a) || (0x41 ≤ b && b ≤ 0x5a) || (0x30 ≤ b && b ≤ 0x39) ||
    b == 0x2d || b == 0x5f || b == 0x2e || b == 0x3a

def checkId (text : String) : Except IdError Unit :=
  if utf8 text = [] then .error .empty
  else if MAX_ID_LEN < (utf8 text).length then .error .tooLong
  else if (utf8 text).all idByte then .ok ()
  else .error .badCharacter

structure Id where
  text : String
  ok : checkId text = .ok ()

instance : DecidableEq Id := fun a b =>
  decidable_of_iff (a.text = b.text) ⟨fun h => by cases a; cases b; cases h; rfl, congrArg _⟩

abbrev DeviceId := Id
abbrev GrantId := Id
abbrev HostId := Id

def Id.new (text : String) : Except IdError Id :=
  match h : checkId text with
  | .ok () => .ok ⟨text, h⟩
  | .error e => .error e

theorem Id.eq_of_text {a b : Id} (h : a.text = b.text) : a = b := by
  cases a
  cases b
  cases h
  rfl

theorem Id.text_of_new {text : String} {id : Id} (h : Id.new text = .ok id) : id.text = text := by
  unfold Id.new at h
  split at h
  · exact (Except.ok.inj h) ▸ rfl
  · exact absurd h nofun

def MAX_CONTROL_FRAME : Nat := 64 * 1024
def MAX_OUTPUT_CHUNK : Nat := 64 * 1024
def MAX_QUEUED_OUTPUT : Nat := 1024 * 1024
def OUTPUT_HEADER_LEN : Nat := 20

/-- How much may wait for one socket before the relay gives up on it. -/
def MAX_QUEUED : Nat := 2 * MAX_QUEUED_OUTPUT

def LINK_HEADER_LEN : Nat := 5

def MAX_MESSAGE : Nat :=
  LINK_HEADER_LEN +
    if OUTPUT_HEADER_LEN + MAX_OUTPUT_CHUNK < MAX_CONTROL_FRAME then MAX_CONTROL_FRAME
    else OUTPUT_HEADER_LEN + MAX_OUTPUT_CHUNK

abbrev Channel := UInt32

def NOTICE_CHANNEL : Channel := 0

structure ChannelOpen where
  device : DeviceId
  grant : GrantId
  deriving DecidableEq

inductive CloseReason where
  | gone
  | unauthenticated
  | revoked
  | hostOffline
  | overloaded
  | replaced
  | refused
  | invalid
  | restarting
  | unknown
  deriving DecidableEq

/-- A message on a host's link (`LinkFrame::Open` and its siblings). -/
inductive LinkFrame where
  | opened (channel : Channel) (what : ChannelOpen)
  | closed (channel : Channel) (reason : CloseReason)
  | text (channel : Channel) (bytes : Bytes)
  | binary (channel : Channel) (bytes : Bytes)
  deriving DecidableEq

inductive LinkError where
  | truncated
  | unknownKind (kind : UInt8)
  | tooLarge
  | malformed

def CloseReason.name : CloseReason → String
  | .gone => "gone"
  | .unauthenticated => "unauthenticated"
  | .revoked => "revoked"
  | .hostOffline => "hostOffline"
  | .overloaded => "overloaded"
  | .replaced => "replaced"
  | .refused => "refused"
  | .invalid => "invalid"
  | .restarting => "restarting"
  | .unknown => "unknown"

def CloseReason.json (r : CloseReason) : Bytes := utf8 ("\"" ++ r.name ++ "\"")

def ChannelOpen.json (o : ChannelOpen) : Bytes :=
  utf8 ("\x7b\"device\":\"" ++ o.device.text ++ "\",\"grant\":\"" ++ o.grant.text ++ "\"\x7d")

/-- How the payloads of open and close frames are read (`serde_json::from_slice`). -/
structure LinkReader where
  channelOpen : Bytes → Option ChannelOpen
  closeReason : Bytes → Option CloseReason

def KIND_OPEN : UInt8 := 1
def KIND_CLOSE : UInt8 := 2
def KIND_TEXT : UInt8 := 3
def KIND_BINARY : UInt8 := 4

namespace LinkFrame

def channel : LinkFrame → Channel
  | opened c _ | closed c _ | text c _ | binary c _ => c

def kind : LinkFrame → UInt8
  | opened .. => KIND_OPEN
  | closed .. => KIND_CLOSE
  | text .. => KIND_TEXT
  | binary .. => KIND_BINARY

def payload : LinkFrame → Bytes
  | opened _ what => what.json
  | closed _ reason => reason.json
  | text _ bytes | binary _ bytes => bytes

def encode (f : LinkFrame) : Bytes := f.kind :: leBytes 4 f.channel.toNat ++ f.payload

def decode (json : LinkReader) (frame : Bytes) : Except LinkError LinkFrame :=
  if MAX_MESSAGE < frame.length then .error .tooLarge
  else if frame.length < LINK_HEADER_LEN then .error .truncated
  else
    let channel := UInt32.ofNat (ofLe ((frame.drop 1).take 4))
    let payload := frame.drop LINK_HEADER_LEN
    match frame.head? with
    | some 1 =>
      match json.channelOpen payload with
      | some what => .ok (opened channel what)
      | none => .error .malformed
    | some 2 =>
      match json.closeReason payload with
      | some reason => .ok (closed channel reason)
      | none => .error .malformed
    | some 3 => .ok (text channel payload)
    | some 4 => .ok (binary channel payload)
    | some other => .error (.unknownKind other)
    | none => .error .truncated

theorem encode_length (f : LinkFrame) : f.encode.length = LINK_HEADER_LEN + f.payload.length := by
  simp only [encode, LINK_HEADER_LEN, length_cons, length_append, leBytes_length]

theorem decode_encode (json : LinkReader) (f : LinkFrame)
    (h : LINK_HEADER_LEN + f.payload.length ≤ MAX_MESSAGE) :
    decode json f.encode =
      match f with
      | opened c what =>
        match json.channelOpen what.json with
        | some what => .ok (opened c what)
        | none => .error .malformed
      | closed c reason =>
        match json.closeReason reason.json with
        | some reason => .ok (closed c reason)
        | none => .error .malformed
      | text c bytes => .ok (text c bytes)
      | binary c bytes => .ok (binary c bytes) := by
  have hlen := f.encode_length
  have h₁ : ¬ MAX_MESSAGE < f.encode.length := by omega
  have h₂ : ¬ f.encode.length < LINK_HEADER_LEN := by omega
  have hchannel : UInt32.ofNat (ofLe ((f.encode.drop 1).take 4)) = f.channel := by
    have ht : (f.encode.drop 1).take 4 = leBytes 4 f.channel.toNat := by
      rw [encode, cons_append, drop_succ_cons, drop_zero]
      exact List.take_left' (leBytes_length 4 _)
    rw [ht, uint32_round_trip]
  have hpayload : f.encode.drop LINK_HEADER_LEN = f.payload := by
    have hl : (f.kind :: leBytes 4 f.channel.toNat).length = LINK_HEADER_LEN := by
      simp [LINK_HEADER_LEN]
    exact List.drop_left' hl
  have hhead : f.encode.head? = some f.kind := rfl
  rw [decode, if_neg h₁, if_neg h₂, hchannel, hpayload, hhead]
  cases f <;> rfl

end LinkFrame

structure StreamPosition where
  epoch : UInt32
  seq : UInt64

structure OutputFrame where
  stream : UInt32
  position : StreamPosition
  bytes : Bytes

inductive FrameError where
  | truncated
  | wrongKind
  | unknownVersion (version : UInt8)
  | tooLarge (bytes : Nat)

def OUTPUT_KIND : UInt8 := 1
def OUTPUT_VERSION : UInt8 := 1

namespace OutputFrame

def header (f : OutputFrame) : Bytes :=
  [OUTPUT_KIND, OUTPUT_VERSION, 0, 0] ++ leBytes 4 f.stream.toNat ++
    leBytes 4 f.position.epoch.toNat ++ leBytes 8 f.position.seq.toNat

def encode (f : OutputFrame) : Except FrameError Bytes :=
  if MAX_OUTPUT_CHUNK < f.bytes.length then .error (.tooLarge f.bytes.length)
  else .ok (f.header ++ f.bytes)

theorem header_length (f : OutputFrame) : f.header.length = OUTPUT_HEADER_LEN := by
  simp [header, OUTPUT_HEADER_LEN]

theorem encode_length {f : OutputFrame} {wire : Bytes} (h : f.encode = .ok wire) :
    wire.length ≤ OUTPUT_HEADER_LEN + MAX_OUTPUT_CHUNK := by
  unfold encode at h
  split at h
  · cases h
  · cases h
    rw [length_append, header_length]
    omega

end OutputFrame

end Yardsort.Proto
