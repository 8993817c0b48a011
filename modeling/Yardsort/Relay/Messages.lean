import Yardsort.Proto.Frame

/- What the relay does with one message (`host_message` and `device_message` in
   `server/src/relay.rs`), and whether the other end of a host's link can read
   what comes of it.

   Every relay socket takes messages up to `MAX_MESSAGE` bytes: the server's
   ends of both kinds of socket, and the connector's end of a host's link. A
   device's text arrives bare and goes on inside a link frame, so a text within
   `LINK_HEADER_LEN` bytes of the limit is taken from the device and does not
   fit the host's socket. `device_text_reaches_host` is exact about it, and
   `host_frames_reach_relay` is the other direction, which has no such gap. -/
namespace Yardsort.Relay
open Yardsort.Lib Yardsort.Proto

inductive Message where
  | text (text : String)
  | binary (bytes : Bytes)
  deriving DecidableEq

def Message.size : Message → Nat
  | .text t => (utf8 t).length
  | .binary bytes => bytes.length

/-- A socket set to `limit` delivers exactly the messages up to it, and fails on
    a larger one. -/
def delivers (limit : Nat) (m : Message) : Bool := m.size ≤ limit

def linkMessage (f : LinkFrame) : Message := .binary f.encode

inductive ToDevice where
  | close (reason : CloseReason)
  | push (message : Message)
  deriving DecidableEq

/-- A frame from a host. `serves` says whether a device is on a channel; a frame
    for a channel the relay closed a moment ago is dropped. -/
def hostFrame (serves : Channel → Bool) (frame : LinkFrame) :
    Except CloseReason (Option (Channel × ToDevice)) :=
  if serves frame.channel then
    match frame with
    | .opened .. => .error .invalid
    | .closed c reason => .ok (some (c, .close (if reason = .gone then .refused else reason)))
    | .text c bytes =>
      match fromUtf8 bytes with
      | some text => .ok (some (c, .push (.text text)))
      | none => .error .invalid
    | .binary c bytes => .ok (some (c, .push (.binary bytes)))
  else
    match frame with
    | .opened .. => .error .invalid
    | _ => .ok none

def hostMessage (json : LinkReader) (serves : Channel → Bool) (message : Message) :
    Except CloseReason (Option (Channel × ToDevice)) :=
  match message with
  | .text _ => .error .invalid
  | .binary bytes =>
    match LinkFrame.decode json bytes with
    | .error _ => .error .invalid
    | .ok frame => hostFrame serves frame

def deviceMessage (channel : Channel) (message : Message) : Except CloseReason Message :=
  match message with
  | .text text => .ok (linkMessage (.text channel (utf8 text)))
  | .binary _ => .error .invalid

/-- What a host's connector makes of a message on its link; `none` ends the link. -/
def hostHears (json : LinkReader) (message : Message) : Option LinkFrame :=
  if delivers MAX_MESSAGE message then
    match message with
    | .text _ => none
    | .binary bytes => (LinkFrame.decode json bytes).toOption
  else none

/-- A device's text gets through to its host: it goes out as a frame that the
    host's socket delivers and its connector reads as that text. -/
def TextReachesHost (json : LinkReader) (channel : Channel) (text : String) : Prop :=
  ∃ frame : Bytes, deviceMessage channel (.text text) = .ok (.binary frame) ∧
    frame.length ≤ MAX_MESSAGE ∧
    LinkFrame.decode json frame = .ok (.text channel (utf8 text)) ∧
    hostHears json (.binary frame) = some (.text channel (utf8 text))

/-- A host's frame gets through to the relay: the relay's socket delivers it, no
    link is closed over it, and the device on its channel is sent `message`. -/
def ReachesRelay (json : LinkReader) (frame : LinkFrame) (message : Message) : Prop :=
  delivers MAX_MESSAGE (linkMessage frame) = true ∧
    ∀ serves, hostMessage json serves (linkMessage frame) =
      .ok (if serves frame.channel then some (frame.channel, .push message) else none)

theorem deviceMessage_text (channel : Channel) (text : String) :
    deviceMessage channel (.text text) = .ok (.binary (LinkFrame.text channel (utf8 text)).encode) :=
  rfl

theorem decode_text {json : LinkReader} {channel : Channel} {bytes : Bytes}
    (h : LINK_HEADER_LEN + bytes.length ≤ MAX_MESSAGE) :
    LinkFrame.decode json (LinkFrame.text channel bytes).encode = .ok (.text channel bytes) :=
  LinkFrame.decode_encode json (.text channel bytes) h

theorem long_text_ends_link {json : LinkReader} {channel : Channel} {bytes : Bytes}
    (h : MAX_MESSAGE < LINK_HEADER_LEN + bytes.length) :
    hostHears json (linkMessage (.text channel bytes)) = none := by
  have hlen : (LinkFrame.text channel bytes).encode.length = LINK_HEADER_LEN + bytes.length :=
    LinkFrame.encode_length _
  have hd : delivers MAX_MESSAGE (linkMessage (.text channel bytes)) = false := by
    simp only [delivers, linkMessage, Message.size, hlen, decide_eq_false_iff_not]
    omega
  simp [hostHears, hd]

theorem text_reaches_host_iff (json : LinkReader) (channel : Channel) (text : String) :
    TextReachesHost json channel text ↔ LINK_HEADER_LEN + (utf8 text).length ≤ MAX_MESSAGE := by
  have hlen : (LinkFrame.text channel (utf8 text)).encode.length =
      LINK_HEADER_LEN + (utf8 text).length := LinkFrame.encode_length _
  constructor
  · intro ⟨frame, hframe, hle, _⟩
    rw [deviceMessage_text] at hframe
    cases hframe
    rw [← hlen]
    exact hle
  · intro h
    have hdec : LinkFrame.decode json (LinkFrame.text channel (utf8 text)).encode =
        .ok (.text channel (utf8 text)) := decode_text h
    have hd : delivers MAX_MESSAGE (.binary (LinkFrame.text channel (utf8 text)).encode) = true := by
      simp only [delivers, Message.size, hlen, decide_eq_true_eq]
      exact h
    refine ⟨_, deviceMessage_text channel text, hlen ▸ h, hdec, ?_⟩
    simp only [hostHears, hd, if_true, hdec]
    rfl

theorem reaches_relay {json : LinkReader} {frame : LinkFrame} {message : Message}
    (hsize : LINK_HEADER_LEN + frame.payload.length ≤ MAX_MESSAGE)
    (hread : LinkFrame.decode json frame.encode = .ok frame)
    (hpush : ∀ serves, hostFrame serves frame =
      .ok (if serves frame.channel then some (frame.channel, .push message) else none)) :
    ReachesRelay json frame message := by
  constructor
  · simp only [delivers, linkMessage, Message.size, LinkFrame.encode_length, decide_eq_true_eq]
    exact hsize
  · intro serves
    show hostMessage json serves (.binary frame.encode) = _
    rw [← hpush serves]
    simp only [hostMessage, hread]

theorem host_text_reaches_relay (json : LinkReader) (channel : Channel) (text : String)
    (h : (utf8 text).length ≤ MAX_CONTROL_FRAME) :
    ReachesRelay json (.text channel (utf8 text)) (.text text) := by
  have hsize : LINK_HEADER_LEN + (utf8 text).length ≤ MAX_MESSAGE := by
    have hmax : LINK_HEADER_LEN + MAX_CONTROL_FRAME ≤ MAX_MESSAGE := by decide
    omega
  refine reaches_relay hsize (decode_text hsize) (fun serves => ?_)
  cases hs : serves channel <;> simp [hostFrame, LinkFrame.channel, hs]

theorem host_output_reaches_relay (json : LinkReader) (channel : Channel) (output : OutputFrame)
    (wire : Bytes) (h : output.encode = .ok wire) :
    ReachesRelay json (.binary channel wire) (.binary wire) := by
  have hsize : LINK_HEADER_LEN + wire.length ≤ MAX_MESSAGE := by
    have hmax : LINK_HEADER_LEN + (OUTPUT_HEADER_LEN + MAX_OUTPUT_CHUNK) ≤ MAX_MESSAGE := by decide
    have := OutputFrame.encode_length h
    omega
  refine reaches_relay hsize (LinkFrame.decode_encode json (.binary channel wire) hsize)
    (fun serves => ?_)
  cases hs : serves channel <;> simp [hostFrame, LinkFrame.channel, hs]

/-- **Both directions of a host's link.** A device's text reaches its host exactly
    when it leaves room for the frame's header; every control message and every
    output frame of a host reaches the relay. -/
theorem link_limits (json : LinkReader) (channel : Channel) :
    (∀ text, TextReachesHost json channel text ↔
      (utf8 text).length ≤ MAX_MESSAGE - LINK_HEADER_LEN) ∧
    (∀ text, (utf8 text).length ≤ MAX_CONTROL_FRAME →
      ReachesRelay json (.text channel (utf8 text)) (.text text)) ∧
    (∀ output wire, OutputFrame.encode output = .ok wire →
      ReachesRelay json (.binary channel wire) (.binary wire)) := by
  refine ⟨fun text => ?_, host_text_reaches_relay json channel,
    host_output_reaches_relay json channel⟩
  rw [text_reaches_host_iff]
  have hmax : LINK_HEADER_LEN ≤ MAX_MESSAGE := by decide
  omega

/-- Reads an open or a close frame's payload as it is written: no spaces, no escapes. -/
def plainReader : LinkReader where
  channelOpen b :=
    match b.splitOn 0x22 with
    | [_, _, _, device, _, _, _, grant, _] => do
      let device ← (Id.new (← fromUtf8 device)).toOption
      let grant ← (Id.new (← fromUtf8 grant)).toOption
      let what : ChannelOpen := { device := device, grant := grant }
      if what.json = b then some what else none
    | _ => none
  closeReason b :=
    [.gone, .unauthenticated, .revoked, .hostOffline, .overloaded, .replaced, .refused, .invalid,
      .restarting, .unknown].find? (fun r => r.json == b)

def longText : String := String.ofList (List.replicate MAX_MESSAGE 'a')

/-- The relay takes a text of `MAX_MESSAGE` letters from a device, and the frame
    it makes of it ends the host's link. -/
theorem long_text_is_taken_and_ends_link :
    delivers MAX_MESSAGE (.text longText) = true ∧
      hostHears plainReader (linkMessage (.text 1 (utf8 longText))) = none ∧
      ¬ TextReachesHost plainReader 1 longText := by
  have hlen : (utf8 longText).length = MAX_MESSAGE := utf8_length_replicate (by decide) _
  have hheader : 0 < LINK_HEADER_LEN := by decide
  refine ⟨?_, long_text_ends_link (by omega), ?_⟩
  · simp [delivers, Message.size, hlen]
  · rw [text_reaches_host_iff]
    omega

/-- A short control message and a short piece of output. -/
theorem link_limits_small :
    TextReachesHost plainReader 1 "\x7b\x7d" ∧
      ReachesRelay plainReader (.text 1 (utf8 "\x7b\x7d")) (.text "\x7b\x7d") ∧
      ReachesRelay plainReader
        (.binary 1 ((OutputFrame.header ⟨7, ⟨3, 9⟩, [0x6f, 0x6b]⟩) ++ [0x6f, 0x6b]))
        (.binary ((OutputFrame.header ⟨7, ⟨3, 9⟩, [0x6f, 0x6b]⟩) ++ [0x6f, 0x6b])) := by
  have h := link_limits plainReader 1
  have hlen : (utf8 "\x7b\x7d").length = 2 := by rw [utf8_length]; rfl
  refine ⟨(h.1 _).mpr ?_, h.2.1 _ ?_, h.2.2 ⟨7, ⟨3, 9⟩, [0x6f, 0x6b]⟩ _ rfl⟩
  · rw [hlen]; decide
  · rw [hlen]; decide

end Yardsort.Relay
