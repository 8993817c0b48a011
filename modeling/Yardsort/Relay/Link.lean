import Yardsort.Lib.Table
import Yardsort.Relay.Messages

/- One host's link at the relay, and the devices on it: `Outbox`, `HostLink`,
   `DeviceLink` and the device's part of `serve_socket` in `server/src/relay.rs`.

   Every function of `HostLink` here is one lock section of a task: a device's task
   goes from section to section by its `place`, the host's reader by `hearing`, and
   `holding` is the one call to `close_channel` that has the channels locked and has
   not queued its frame yet. A section that needs the channels is not enabled while
   another has them.

   `queued`, `byHost`, `dropped`, `ending` and a device's `opened` and `heard` are not
   in the source. They keep what was queued and delivered, which channels the host and
   `close_channel` have closed, and whether the link's devices were all closed. -/
namespace Yardsort.Relay
open Yardsort.Lib Yardsort.Proto

def MAX_DEVICES_PER_HOST : Nat := 16

/-- Bounded by bytes, closed at most once. -/
structure Outbox where
  messages : List Message
  bytes : Nat
  closing : Option CloseReason

namespace Outbox

def new : Outbox := { messages := [], bytes := 0, closing := none }

def refuses (o : Outbox) (message : Message) : Bool :=
  o.closing.isSome || MAX_QUEUED < o.bytes + message.size

def push (o : Outbox) (message : Message) : Bool × Outbox :=
  if o.refuses message then (false, o)
  else (true, { o with messages := o.messages ++ [message], bytes := o.bytes + message.size })

def close (o : Outbox) (reason : CloseReason) : Outbox :=
  match o.closing with
  | none => { messages := [], bytes := 0, closing := some reason }
  | some _ => o

inductive Next where
  | send (message : Message)
  | close (reason : CloseReason)

def next (o : Outbox) : Option (Next × Outbox) :=
  match o.closing, o.messages with
  | some reason, _ => some (.close reason, o)
  | none, message :: rest =>
    some (.send message, { o with messages := rest, bytes := o.bytes - message.size })
  | none, [] => none

theorem push_closing (o : Outbox) (message : Message) : (o.push message).2.closing = o.closing := by
  unfold push
  split <;> rfl

theorem close_closing (o : Outbox) (reason : CloseReason) : (o.close reason).closing ≠ none := by
  unfold close
  cases h : o.closing with
  | none => exact nofun
  | some r =>
    intro hn
    exact absurd (h.symm.trans hn) nofun

theorem next_closing {o o' : Outbox} {n : Next} (h : o.next = some (n, o')) :
    o'.closing = o.closing := by
  unfold next at h
  split at h
  · cases h
    rfl
  · cases h
    rfl
  · exact absurd h nofun

end Outbox

/-- Where a device's task is: it has `found` its host's link, was given its channel's
    number, is on the link, was greeted, is carried (`pumping`), is not any more
    (`left`), and has closed its channel. -/
inductive Place where
  | found
  | numbered
  | registered
  | greeted
  | pumping
  | left
  | gone
  deriving DecidableEq

def Place.joined : Place → Bool
  | .registered | .greeted | .pumping | .left => true
  | _ => false

def Place.past : Place → Bool
  | .found | .numbered => false
  | _ => true

def Place.carried : Place → Bool
  | .pumping | .left | .gone => true
  | _ => false

/-- A device's reader: it stops for a reason of its own, and then closes its socket. -/
inductive Reader where
  | reads
  | stops (reason : CloseReason)
  | stopped
  deriving DecidableEq

/-- A device's connection. Channel 0 stands for none yet. -/
structure DeviceLink where
  device : DeviceId
  grant : GrantId
  place : Place
  channel : Channel
  out : Outbox
  reader : Reader
  opened : Bool
  /-- What was queued for it of what the host sent, with the channel it was sent on. -/
  heard : List (Channel × Message)

def DeviceLink.new (device : DeviceId) (grant : GrantId) : DeviceLink :=
  { device, grant, place := .found, channel := NOTICE_CHANNEL, out := .new, reader := .reads
    opened := false, heard := [] }

def DeviceLink.close (d : DeviceLink) (reason : CloseReason) : DeviceLink :=
  { d with out := d.out.close reason }

inductive Hearing where
  | idle
  | heard (channel : Channel) (device : Nat) (what : ToDevice)
  /-- The host closed a channel: its device was taken off, and is not closed yet. -/
  | removed (device : Nat) (reason : CloseReason)
  /-- A device did not take a message: its channel is to be closed. -/
  | overflowed (channel : Channel)
  deriving DecidableEq

structure HostLink where
  out : Outbox
  channels : List (Channel × Nat)
  nextChannel : Channel
  devices : List DeviceLink
  holding : Option (Channel × CloseReason)
  hearing : Hearing
  queued : List LinkFrame
  byHost : List Channel
  dropped : List Channel
  ending : Bool

def deviceFrame (channel : Channel) : Message → Except CloseReason LinkFrame
  | .text text => .ok (.text channel (utf8 text))
  | .binary _ => .error .invalid

namespace HostLink

def new (hello : Message) : HostLink :=
  { out := (Outbox.new.push hello).2, channels := [], nextChannel := NOTICE_CHANNEL + 1
    devices := [], holding := none, hearing := .idle, queued := [], byHost := [], dropped := []
    ending := false }

def onChannel (s : HostLink) (c : Channel) : Option Nat :=
  (s.channels.find? (·.1 = c)).map (·.2)

def without (s : HostLink) (c : Channel) : List (Channel × Nat) := s.channels.filter (·.1 ≠ c)

def put (s : HostLink) (i : Nat) (d : DeviceLink) : HostLink :=
  { s with devices := s.devices.set i d }

def task (s : HostLink) (i : Nat) (place : Place) (next : DeviceLink → Option HostLink) :
    Option HostLink :=
  match s.devices[i]? with
  | some d => if d.place = place then next d else none
  | none => none

def pushFrame (s : HostLink) (frame : LinkFrame) : Bool × HostLink :=
  match s.out.push (linkMessage frame) with
  | (true, out) => (true, { s with out, queued := s.queued ++ [frame] })
  | (false, out) => (false, { s with out })

def find (s : HostLink) (device : DeviceId) (grant : GrantId) : HostLink :=
  { s with devices := s.devices ++ [.new device grant] }

def number (s : HostLink) (i : Nat) : Option HostLink :=
  s.task i .found fun d =>
    some ({ s with nextChannel := s.nextChannel + 1 }.put i
      { d with place := .numbered, channel := s.nextChannel })

def register (s : HostLink) (i : Nat) : Option HostLink :=
  s.task i .numbered fun d =>
    if s.holding ≠ none then none
    else if MAX_DEVICES_PER_HOST ≤ s.channels.length then some (s.put i { d with place := .gone })
    else
      some ({ s with channels := s.without d.channel ++ [(d.channel, i)] }.put i
        { d with place := .registered })

def greet (s : HostLink) (i : Nat) (hello : Message) : Option HostLink :=
  s.task i .registered fun d =>
    some (s.put i { d with place := .greeted, out := (d.out.push hello).2 })

def openChannel (s : HostLink) (i : Nat) : Option HostLink :=
  s.task i .greeted fun d =>
    match s.pushFrame (.opened d.channel { device := d.device, grant := d.grant }) with
    | (true, s) => some (s.put i { d with place := .pumping, opened := true })
    | (false, s) => some (s.put i { d with place := .pumping, out := d.out.close .overloaded })

def say (s : HostLink) (i : Nat) (message : Message) : Option HostLink :=
  s.task i .pumping fun d =>
    if d.reader ≠ .reads then none
    else match deviceFrame d.channel message with
      | .error reason => some (s.put i { d with reader := .stops reason })
      | .ok frame => match s.pushFrame frame with
        | (true, s) => some s
        | (false, s) => some (s.put i { d with reader := .stops .overloaded })

def stop (s : HostLink) (i : Nat) : Option HostLink :=
  s.task i .pumping fun d =>
    match d.reader with
    | .stops reason => some (s.put i { d.close reason with reader := .stopped })
    | _ => none

def hangUp (s : HostLink) (i : Nat) : Option HostLink :=
  s.task i .pumping fun d =>
    if d.reader ≠ .reads then none
    else some (s.put i { d.close .gone with reader := .stopped })

def leave (s : HostLink) (i : Nat) : Option HostLink :=
  s.task i .pumping fun d => some (s.put i { d with place := .left })

def closeChannel (s : HostLink) (c : Channel) (reason : CloseReason) : HostLink :=
  match s.onChannel c with
  | none => s
  | some i =>
    { s with
      channels := s.without c
      devices := s.devices.modify i (·.close reason)
      holding := some (c, reason) }

def drop (s : HostLink) (c : Channel) (reason : CloseReason) : Option HostLink :=
  if s.holding ≠ none then none else some (s.closeChannel c reason)

def tell (s : HostLink) : Option HostLink :=
  match s.holding with
  | none => none
  | some (c, reason) =>
    let s := (s.pushFrame (.closed c reason)).2
    some { s with holding := none, dropped := s.dropped ++ [c] }

def finish (s : HostLink) (i : Nat) : Option HostLink :=
  s.task i .left fun d =>
    if s.holding ≠ none then none
    else
      let s := s.closeChannel d.channel .gone
      some { s with devices := s.devices.modify i ({ · with place := .gone }) }

def closeAll (s : HostLink) (reason : CloseReason) : Option HostLink :=
  if s.holding ≠ none then none
  else some { s with
    channels := []
    devices := s.devices.mapIdx fun i d =>
      if s.channels.any (·.2 = i) then d.close reason else d
    ending := true }

def hear (s : HostLink) (frame : LinkFrame) : Option HostLink :=
  if s.hearing ≠ .idle ∨ s.holding ≠ none then none
  else match hostFrame (fun c => (s.onChannel c).isSome) frame with
    | .error reason => some { s with out := s.out.close reason }
    | .ok none => some s
    | .ok (some (c, what)) =>
      (s.onChannel c).map fun i => { s with hearing := .heard c i what }

def act (s : HostLink) : Option HostLink :=
  match s.hearing with
  | .idle => none
  | .heard c i (.close reason) =>
    if s.holding ≠ none then none
    else some { s with
      channels := s.without c, byHost := s.byHost ++ [c], hearing := .removed i reason }
  | .heard c i (.push message) =>
    match s.devices[i]? with
    | none => none
    | some d => match d.out.push message with
      | (true, out) =>
        some ({ s with hearing := .idle }.put i { d with out, heard := d.heard ++ [(c, message)] })
      | (false, _) => some { s with hearing := .overflowed c }
  | .removed i reason =>
    some { s with devices := s.devices.modify i (·.close reason), hearing := .idle }
  | .overflowed c =>
    if s.holding ≠ none then none
    else some { s.closeChannel c .overloaded with hearing := .idle }

def shut (s : HostLink) (reason : CloseReason) : HostLink := { s with out := s.out.close reason }

def send (s : HostLink) : Option HostLink := s.out.next.map fun (_, out) => { s with out }

def take (s : HostLink) (i : Nat) : Option HostLink :=
  s.task i .pumping fun d => d.out.next.map fun (_, out) => s.put i { d with out }

def notice (s : HostLink) (bytes : Bytes) : HostLink := (s.pushFrame (.text NOTICE_CHANNEL bytes)).2

end HostLink

inductive LinkAct where
  | find (device : DeviceId) (grant : GrantId)
  | number (i : Nat)
  | register (i : Nat)
  | greet (i : Nat) (hello : Message)
  | openChannel (i : Nat)
  | say (i : Nat) (message : Message)
  | stop (i : Nat)
  | hangUp (i : Nat)
  | leave (i : Nat)
  | finish (i : Nat)
  | drop (c : Channel) (reason : CloseReason)
  | tell
  | closeAll (reason : CloseReason)
  | hear (frame : LinkFrame)
  | act
  | shut (reason : CloseReason)
  | send
  | take (i : Nat)
  | notice (bytes : Bytes)

def HostLink.step (s : HostLink) : LinkAct → Option HostLink
  | .find device grant => some (s.find device grant)
  | .number i => s.number i
  | .register i => s.register i
  | .greet i hello => s.greet i hello
  | .openChannel i => s.openChannel i
  | .say i message => s.say i message
  | .stop i => s.stop i
  | .hangUp i => s.hangUp i
  | .leave i => s.leave i
  | .finish i => s.finish i
  | .drop c reason => s.drop c reason
  | .tell => s.tell
  | .closeAll reason => s.closeAll reason
  | .hear frame => s.hear frame
  | .act => s.act
  | .shut reason => some (s.shut reason)
  | .send => s.send
  | .take i => s.take i
  | .notice bytes => some (s.notice bytes)

end Yardsort.Relay
