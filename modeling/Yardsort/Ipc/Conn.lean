import Yardsort.Ipc.Frame

/- What the daemon and its client write to each other (`Conn` in `pty-ipc/src/server.rs`,
   `DaemonClient::send` in `client.rs`), and whether the other end can read it.

   A connection queues what it sends for its own writer thread, and drops a client that lets
   too much pile up. Neither end asks how large a frame is before it writes it, and
   `Frame.readFrom` refuses one over `MAX_FRAME`: `sendings_readable_iff` is exact about what
   can be read. -/
namespace Yardsort.Ipc
open Yardsort.Lib Yardsort.Pty

def MAX_QUEUED_BYTES : Nat := 32 * 1024 * 1024
def RESUME_PROTOCOL : Nat := 3

structure Conn where
  /-- Frames for the writer thread, and how many bytes of them it has not taken yet. -/
  queue : List Bytes
  queued : Nat
  gone : Bool
  /-- The writer thread has ended, and with it the queue's other end. -/
  closed : Bool
  /-- The protocol the client said it speaks. -/
  protocol : Nat

namespace Conn

def send (c : Conn) (frame : Frame) : Option Conn :=
  if c.gone then some c
  else
    match frame.encode with
    | none => none
    | some bytes =>
      let pending := c.queued + bytes.length
      if MAX_QUEUED_BYTES < pending then some { c with queued := pending, gone := true }
      else if c.closed then some { c with queued := pending, gone := true }
      else some { c with queued := pending, queue := c.queue ++ [bytes] }

/-- Whether the viewer is still there, and the connection. -/
def sendOutput (c : Conn) (stream : StreamId) (bytes : Bytes) : Option (Bool × Conn) :=
  (c.send (Frame.output stream bytes)).map (fun c => (!c.gone, c))

/-- Who controls the session and that it exited: a client from before protocol 3 cannot read
    these. -/
def isNew : Item → Bool
  | .control _ | .exited _ => true
  | _ => false

def sendNumbered (c : Conn) (stream : StreamId) (item : Item) : Option (Bool × Conn) :=
  if !isNew item || RESUME_PROTOCOL ≤ c.protocol then
    (c.send (Frame.numbered stream item)).map (fun c => (!c.gone, c))
  else some (!c.gone, c)

def respond (c : Conn) (id : Nat) (result : OpResult) : Option Conn :=
  c.send { kind := KIND_RESPONSE, payload := responseJson id result }

end Conn

def clientSend (connected : Bool) (id : Nat) (op : Command) : Option Bytes :=
  if connected then
    Frame.encode { kind := KIND_REQUEST, payload := requestJson id op }
  else none

inductive Sending where
  | output (c : Conn) (stream : StreamId) (bytes : Bytes)
  | numbered (c : Conn) (stream : StreamId) (item : Item)
  | response (c : Conn) (id : Nat) (result : OpResult)
  | request (connected : Bool) (id : Nat) (op : Command)

namespace Sending

/-- The frames it adds to what the writer thread will write, or writes itself. -/
def writes : Sending → List Bytes
  | output c stream bytes =>
    ((c.sendOutput stream bytes).map (fun r => r.2.queue.drop c.queue.length)).getD []
  | numbered c stream item =>
    ((c.sendNumbered stream item).map (fun r => r.2.queue.drop c.queue.length)).getD []
  | response c id result => ((c.respond id result).map (·.queue.drop c.queue.length)).getD []
  | request connected id op => (clientSend connected id op).toList

def frame : Sending → Frame
  | output _ stream bytes => .output stream bytes
  | numbered _ stream item => .numbered stream item
  | response _ id result => { kind := KIND_RESPONSE, payload := responseJson id result }
  | request _ id op => { kind := KIND_REQUEST, payload := requestJson id op }

/-- Every frame it writes is accepted at the other end, however its bytes arrive and whatever
    comes after them. -/
def Readable (s : Sending) : Prop :=
  ∀ bytes ∈ s.writes, ∀ (r : Reader) (rest : Bytes), r.Open → r.flatten = bytes ++ rest →
    ∃ r' : Reader, Frame.readFrom r = .ok (s.frame, r') ∧ r'.flatten = rest ∧ r'.Open

/-- **How much it is about**: the bytes shown, and what is said of them; or the JSON text. -/
def carries : Sending → Nat
  | output _ _ bytes => 4 + bytes.length
  | numbered _ _ (.snapshot _ _ bytes) => NUMBERED_HEADER + 4 + bytes.length
  | numbered _ _ (.output _ bytes) => NUMBERED_HEADER + bytes.length
  | numbered _ _ (.resized ..) | numbered _ _ (.resumed ..) => NUMBERED_HEADER + 4
  | numbered _ _ (.control controller) => NUMBERED_HEADER + (Controller.json controller).length
  | numbered _ _ (.exited exit) => NUMBERED_HEADER + (ExitInfo.json exit).length
  | response _ id result => (responseJson id result).length
  | request _ id op => (requestJson id op).length

def Takes (c : Conn) (size : Nat) : Prop :=
  c.gone = false ∧ c.closed = false ∧ c.queued + (size + 5) ≤ MAX_QUEUED_BYTES

def GoesOut (s : Sending) : Prop :=
  match s with
  | output c _ _ | response c _ _ => Takes c s.carries
  | numbered c _ item =>
    (Conn.isNew item = false ∨ RESUME_PROTOCOL ≤ c.protocol) ∧ Takes c s.carries
  | request connected _ _ => connected = true ∧ s.carries + 1 < 2^32

end Sending

namespace Sending

theorem frame_payload (s : Sending) : s.frame.payload.length = s.carries := by
  have hsize : ∀ size, (sizeBytes size).length = 4 := Frame.sizeBytes_length
  cases s with
  | output c stream bytes =>
    rw [frame, Frame.output, length_append, leBytes_length]
    rfl
  | numbered c stream item =>
    cases item <;>
      simp only [frame, Frame.numbered, parts, optionalSize, carries, NUMBERED_HEADER,
        length_append, length_cons, leBytes_length, hsize, length_nil]
  | response | request => rfl

theorem send_queue (c : Conn) (f : Frame) :
    (Takes c f.payload.length → ∃ c' bytes, c.send f = some c' ∧ f.encode = some bytes ∧
      c'.queue = c.queue ++ [bytes]) ∧
    (¬ Takes c f.payload.length → ∀ c', c.send f = some c' → c'.queue = c.queue) := by
  unfold Conn.send
  by_cases hgone : c.gone = true
  · rw [if_pos hgone]
    refine ⟨fun h => absurd h.1 (by rw [hgone]; exact Bool.noConfusion), ?_⟩
    rintro _ _ ⟨rfl⟩
    rfl
  · rw [if_neg hgone]
    rw [Bool.not_eq_true] at hgone
    constructor
    · rintro ⟨_, hclosed, hroom⟩
      have hfits : f.payload.length + 1 < 2^32 := by
        have : MAX_QUEUED_BYTES < 2^32 := by decide
        omega
      have hlen := Frame.encode_length (Frame.encode_some hfits)
      rw [Frame.encode_some hfits] at *
      simp only [hlen, if_neg (Nat.not_lt.mpr hroom), hclosed, if_neg Bool.false_ne_true]
      exact ⟨_, _, rfl, rfl, rfl⟩
    · intro hnot c' hc'
      cases hf : f.encode with
      | none =>
        rw [hf] at hc'
        cases hc'
      | some bytes =>
        have hlen := Frame.encode_length hf
        rw [hf] at hc'
        simp only [hlen] at hc'
        split at hc'
        · cases hc'
          rfl
        · rename_i hroom
          split at hc'
          · cases hc'
            rfl
          · rename_i hclosed
            exact absurd ⟨hgone, Bool.not_eq_true _ ▸ hclosed, Nat.not_lt.mp hroom⟩ hnot

/-- **What is written**: the frame and nothing else, if anything is. -/
theorem writes_eq (s : Sending) :
    (s.GoesOut → ∃ bytes, s.frame.encode = some bytes ∧ s.writes = [bytes]) ∧
      (¬ s.GoesOut → s.writes = []) := by
  have hpayload := s.frame_payload
  have hadded : ∀ (c c' : Conn) (bytes : Bytes), c'.queue = c.queue ++ [bytes] →
      c'.queue.drop c.queue.length = [bytes] := fun c c' bytes h => by rw [h, drop_left]
  have hconn : ∀ (c : Conn) (f : Frame),
      (Takes c f.payload.length → ∃ bytes, f.encode = some bytes ∧
        ((c.send f).map (fun c' => c'.queue.drop c.queue.length)).getD [] = [bytes]) ∧
      (¬ Takes c f.payload.length →
        ((c.send f).map (fun c' => c'.queue.drop c.queue.length)).getD [] = []) := by
    intro c f
    obtain ⟨hyes, hno⟩ := send_queue c f
    constructor
    · intro htakes
      obtain ⟨c', bytes, hsend, hf, hqueue⟩ := hyes htakes
      refine ⟨bytes, hf, ?_⟩
      rw [hsend, map_some, getD_some, hadded c c' bytes hqueue]
    · intro hnot
      cases hsend : c.send f with
      | none => rfl
      | some c' => rw [map_some, getD_some, hno hnot c' hsend, drop_length]
  cases s with
  | output c stream bytes =>
    have h := hconn c (Frame.output stream bytes)
    rw [show (Frame.output stream bytes).payload.length = _ from hpayload] at h
    simp only [writes, Conn.sendOutput, Option.map_map, comp_def]
    exact h
  | numbered c stream item =>
    have h := hconn c (Frame.numbered stream item)
    rw [show (Frame.numbered stream item).payload.length = _ from hpayload] at h
    simp only [writes, Conn.sendNumbered, GoesOut]
    by_cases hnew : Conn.isNew item = false ∨ RESUME_PROTOCOL ≤ c.protocol
    · rw [if_pos (by simpa using hnew), Option.map_map]
      exact ⟨fun hgo => h.1 hgo.2, fun hnot => h.2 (fun htakes => hnot ⟨hnew, htakes⟩)⟩
    · rw [if_neg (by simpa using hnew), map_some, getD_some, drop_length]
      exact ⟨fun hgo => absurd hgo.1 hnew, fun _ => rfl⟩
  | response c id result =>
    exact hconn c { kind := KIND_RESPONSE, payload := responseJson id result }
  | request connected id op =>
    simp only [writes, clientSend, GoesOut, carries]
    cases connected with
    | false => exact ⟨fun hgo => Bool.noConfusion hgo.1, fun _ => rfl⟩
    | true =>
      rw [if_pos rfl]
      constructor
      · rintro ⟨_, hfits⟩
        exact ⟨_, Frame.encode_some hfits, by rw [Frame.encode_some hfits]; rfl⟩
      · intro hnot
        rw [Frame.encode, if_neg (fun hfits => hnot ⟨rfl, hfits⟩)]
        rfl

/-- **What either end sends can be read at the other exactly if it is shorter than
    `MAX_FRAME`**, or is not written at all: the client is gone, does not read, is too old for
    it, or the length does not fit 32 bits. -/
theorem sendings_readable_iff (s : Sending) : s.Readable ↔ s.carries < MAX_FRAME ∨ ¬ s.GoesOut := by
  obtain ⟨hyes, hno⟩ := s.writes_eq
  have hpayload := s.frame_payload
  constructor
  · intro h
    by_cases hgo : s.GoesOut
    · refine Or.inl ?_
      obtain ⟨bytes, hencode, hwrites⟩ := hyes hgo
      have hne : bytes ≠ [] := by
        intro hnil
        have := Frame.encode_length hencode
        rw [hnil, length_nil] at this
        omega
      -- all the bytes in one piece, and then nothing
      have hopen : Reader.Open [bytes] := fun hin => hne (mem_singleton.mp hin).symm
      have hflat : List.flatten [bytes] = bytes ++ [] := rfl
      obtain ⟨r', hread, _⟩ := h bytes (hwrites ▸ mem_cons_self) [bytes] [] hopen hflat
      obtain ⟨hsmall, _⟩ | ⟨_, herror⟩ := Frame.readFrom_encode hencode hopen hflat
      · exact hpayload ▸ hsmall
      · rw [hread] at herror
        cases herror
    · exact Or.inr hgo
  · intro h bytes hin r rest hopen hflat
    by_cases hgo : s.GoesOut
    · obtain ⟨bytes', hencode, hwrites⟩ := hyes hgo
      rw [hwrites, mem_singleton] at hin
      subst hin
      obtain ⟨_, hread⟩ | ⟨hbig, _⟩ := Frame.readFrom_encode hencode hopen hflat
      · exact hread
      · obtain h | h := h
        · exact absurd h (Nat.not_lt.mpr (hpayload ▸ hbig))
        · exact absurd hgo h
    · rw [hno hgo] at hin
      cases hin

theorem paste_refused {text : String} (htext : (utf8 text).length = MAX_FRAME) :
    ∃ bytes, clientSend true 1 (.paste "s" text) = some bytes ∧
      (∃ message, Frame.readFrom [bytes] = .error (.other message)) ∧
      ¬ (request true 1 (.paste "s" text)).Readable := by
  have hlong : MAX_FRAME ≤ (requestJson 1 (.paste "s" text)).length :=
    htext ▸ paste_length 1 "s" text
  have hfits : (requestJson 1 (.paste "s" text)).length + 1 < 2^32 := by
    have hjson : (Command.paste "s" text).json = Json.object [("op", Json.string "paste"),
        ("session", Json.string "s"), ("text", Json.string text)] := rfl
    have hop := Json.object_length_le [("op", Json.string "paste"),
      ("session", Json.string "s"), ("text", Json.string text)]
    have hrequest := Json.object_length_le [("id", Json.number 1),
      ("op", (Command.paste "s" text).json)]
    have hstring := Json.string_length_le text
    have hkeys : (Json.string "op").length = 4 ∧ (Json.string "paste").length = 7 ∧
        (Json.string "session").length = 9 ∧ (Json.string "s").length = 3 ∧
        (Json.string "text").length = 6 ∧ (Json.string "id").length = 4 ∧
        (Json.number 1).length = 1 := by decide +kernel
    obtain ⟨h₁, h₂, h₃, h₄, h₅, h₆, h₇⟩ := hkeys
    rw [← hjson] at hop
    simp only [map_cons, map_nil, sum_cons, sum_nil, h₁, h₂, h₃, h₄, h₅, h₆, h₇]
      at hop hrequest
    have hmax : MAX_FRAME = 8388608 := rfl
    rw [requestJson]
    omega
  obtain ⟨bytes, hencode⟩ : ∃ bytes,
      Frame.encode ⟨KIND_REQUEST, requestJson 1 (.paste "s" text)⟩ = some bytes :=
    ⟨_, Frame.encode_some hfits⟩
  have hsend : clientSend true 1 (.paste "s" text) = some bytes := by
    rw [clientSend, if_pos rfl, hencode]
  have hopen : Reader.Open [bytes] := by
    intro hin
    have := Frame.encode_length hencode
    rw [← mem_singleton.mp hin, length_nil] at this
    omega
  have hflat : List.flatten [bytes] = bytes ++ [] := rfl
  obtain ⟨hsmall, _⟩ | ⟨_, herror⟩ := Frame.readFrom_encode hencode hopen hflat
  · exact absurd hsmall (Nat.not_lt.mpr hlong)
  · refine ⟨bytes, hsend, ⟨_, herror⟩, fun hreadable => ?_⟩
    have hin : bytes ∈ (request true 1 (.paste "s" text)).writes := by
      rw [writes, hsend]
      exact mem_cons_self
    obtain ⟨r', hread, _⟩ := hreadable bytes hin [bytes] [] hopen hflat
    rw [hread] at herror
    cases herror

def longText : String := String.ofList (List.replicate MAX_FRAME 'a')

theorem long_paste_is_written_and_refused :
    ∃ bytes, clientSend true 1 (.paste "s" longText) = some bytes ∧
      (∃ message, Frame.readFrom [bytes] = .error (.other message)) ∧
      ¬ (request true 1 (.paste "s" longText)).Readable :=
  paste_refused (utf8_length_replicate rfl MAX_FRAME)

end Sending

end Yardsort.Ipc
