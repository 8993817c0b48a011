import Mathlib.Data.List.Nodup
import Yardsort.Pty.Replay

/- What viewers see of a session: the `View` of `pty-host/src/session.rs`, one section
   under its lock at a time.

   Output and size changes are the items of the numbered stream. Each section that adds
   one gives it the next number, keeps it in the replay if there is one, and hands it to
   every numbered viewer; who controls the session, and that it exited, go to them without
   a number. A viewer answers whether it is still there, and is dropped when it is not:
   which ones are gone is in the action.

   The headless terminal is a third party's, so it is whatever type `T` and operations the
   parameter `E` gives. `first`, `stream` and `sent` are not in the source: they keep the
   size the session began at, the items numbered so far, and what viewers were handed, for
   the properties to speak about. -/
namespace Yardsort.Pty
open Yardsort.Lib

def REPLY_WINDOW : Duration := 2000000000

structure Emulator (T : Type) where
  new : TermSize → T
  feed : T → Bytes → T
  setSize : T → TermSize → T
  snapshot : T → Bytes
  /-- Row and column, counted from 0. -/
  cursor : T → Nat × Nat
  bracketed : T → Bool

/-- A viewer's kind: a terminal emulator, which answers queries, or a numbered watcher. -/
inductive Sink where
  | terminal
  | numbered
  deriving DecidableEq

inductive Sent where
  | bytes (bytes : Bytes)
  | item (item : Item)

structure View (T : Type) where
  session : Session
  terminal : T
  sinks : List (Nat × Sink)
  nextAttachment : Nat
  /-- The last item of output (or resize) handed out. -/
  seq : Nat
  queries : Queries
  /-- The last stretch of the numbered stream, from the first numbered viewer on. -/
  replay : Option Replay
  /-- Who numbered viewers were last told controls the session. -/
  announced : Controller
  exit : Option ExitInfo
  first : TermSize
  stream : List Kept
  sent : List (Nat × Sent)

namespace Session

/-- The person here resized their view. While a lease holds, its size stands. -/
def resize (s : Session) (size : TermSize) (now : Instant) (resized : Bool) :
    Except HostError Unit × Session :=
  s.controlling now fun s =>
    let s := { s with localSize := size.sanitized }
    match s.control.leased now with
    | (true, control) => (.ok (), { s with control := control })
    | (false, control) => { s with control := control }.applySize size.sanitized resized

/-- Typing the app does on its own, under the view lock: refused while a lease holds. -/
def unattended (s : Session) (data : Bytes) (paste : Bool) (now : Instant) :
    Except HostError Bytes × Session :=
  s.controlling now fun s =>
    match s.control.leased now with
    | (true, control) =>
      let (by_, control) := control.controller now
      (.error (refused (.held by_)), { s with control := control })
    | (false, control) => (.ok (s.payload data paste), { s with control := control })

end Session

/-- An operation that runs inside `controlling`; `resized` says whether the PTY takes the
    size it may be given. -/
inductive Ask where
  | input (ref : LeaseRef) (seq : Nat) (data : Bytes) (paste : Bool)
  | unattended (data : Bytes) (paste : Bool)
  | takeLocalControl (resized : Bool)
  | resize (size : TermSize) (resized : Bool)
  | resizeLeased (ref : LeaseRef) (size : TermSize) (resized : Bool)
  | acquire (fresh holder : String) (takeOver : Bool)
  | renew (ref : LeaseRef)
  | release (ref : LeaseRef) (resized : Bool)

def Ask.apply (s : Session) (now : Instant) : Ask → Session
  | .input ref seq data paste => (s.inputAccepted ref seq data paste now).2
  | .unattended data paste => (s.unattended data paste now).2
  | .takeLocalControl resized => (s.takeLocalControl now (resized || s.exited)).2
  | .resize size resized => (s.resize size now (resized || s.exited)).2
  | .resizeLeased ref size resized => (s.resizeLeased ref size now (resized || s.exited)).2
  | .acquire fresh holder takeOver => (s.acquire fresh holder takeOver now).2
  | .renew ref => (s.renew ref now).2
  | .release ref resized => (s.release ref now (resized || s.exited)).2

namespace View

variable {T : Type}

def new (E : Emulator T) (holds : Holds) (size : TermSize) : View T :=
  { session := .new holds size, terminal := E.new size.sanitized, sinks := [],
    nextAttachment := 1, seq := 0, queries := .new, replay := none, announced := .nobody,
    exit := none, first := size.sanitized, stream := [], sent := [] }

def told (item : Item) (s : Nat × Sink) : Option (Nat × Sent) :=
  match s.2 with
  | .terminal => none
  | .numbered => some (s.1, .item item)

def tell (v : View T) (item : Item) (gone : List Nat) : View T :=
  { v with
    sinks := v.sinks.filter (fun s => (told item s).isNone ∨ s.1 ∉ gone)
    sent := v.sent ++ v.sinks.filterMap (told item) }

def announce (v : View T) (now : Instant) (gone : List Nat) : View T :=
  let (controller, control) := v.session.control.controller now
  let v := { v with session := { v.session with control := control } }
  if controller = v.announced then v
  else { v with announced := controller }.tell (.control controller) gone

/-- The one viewer shown the program's queries: the terminal attached most recently, unless
    a lease holds. -/
def responder (v : View T) (now : Instant) : Option Nat × View T :=
  let (leased, control) := v.session.control.leased now
  (if leased then none
    else (v.sinks.reverse.find? (fun s => s.2 = .terminal)).map Prod.fst,
    { v with session := { v.session with control := control } })

def attach (E : Emulator T) (v : View T) (open_ : Bool) : View T :=
  { v with
    nextAttachment := v.nextAttachment + 1
    sinks := if open_ then v.sinks ++ [(v.nextAttachment, .terminal)] else v.sinks
    sent := v.sent ++ [(v.nextAttachment, .bytes (E.snapshot v.terminal))] }

/-- What a numbered viewer is handed first: with `after`, the items since that one instead
    of a snapshot, when they are all still kept. -/
def opening (E : Emulator T) (v : View T) (replay : Replay) (after : Option Nat) : List Item :=
  match after.bind (fun after => (replay.since after).map (fun found => (after, found))) with
  | some (seq, size, items) => .resumed seq size :: items
  | none => [.snapshot v.seq v.session.size (E.snapshot v.terminal)]

/-- Hand one viewer items until it answers that it is gone: it takes `accepts` of them. -/
def offer (v : View T) (id : Nat) (items : List Item) (accepts : Nat) : View T :=
  { v with sent := v.sent ++ (items.take (accepts + 1)).map (fun item => (id, .item item)) }

def watch (E : Emulator T) (v : View T) (after : Option Nat) (accepts : Nat) (now : Instant)
    (gone : List Nat) : View T :=
  let id := v.nextAttachment
  let replay := v.replay.getD (.new v.seq v.session.size)
  let first := v.opening E replay after
  let v := { v with nextAttachment := id + 1, replay := some replay }.offer id first accepts
  let v := v.announce now gone
  if accepts < first.length then v
  else
    let rest := .control v.announced :: v.exit.toList.map .exited
    let v := v.offer id rest (accepts - first.length)
    if accepts < first.length + rest.length then v
    else { v with sinks := v.sinks ++ [(id, .numbered)] }

def detach (v : View T) (attachment : Nat) : View T :=
  { v with sinks := v.sinks.filter (fun s => s.1 ≠ attachment) }

def grow (v : View T) (kept : Kept) : View T :=
  { v with seq := v.seq + 1, replay := v.replay.map (·.push kept), stream := v.stream ++ [kept] }

def handed (seq : Nat) (batch quiet : Bytes) (responder : Option Nat) (s : Nat × Sink) :
    Option (Nat × Sent) :=
  let bytes := if some s.1 = responder then batch else quiet
  match s.2 with
  | .terminal => if bytes = [] then none else some (s.1, .bytes bytes)
  | .numbered => some (s.1, .item (.output seq bytes))

/-- Feed a batch to the viewers and the headless terminal. The pump runs it only while the
    session has not exited. Returns the bytes the terminal owes the program in response. -/
def deliver (E : Emulator T) (v : View T) (batch : Bytes) (now shown : Instant)
    (gone gone' : List Nat) : Bytes × View T :=
  let v := v.announce now gone
  let (responder, v) := v.responder now
  let (queries, scan) := v.queries.feed batch
  let quiet := if scan.isEmpty then batch else scan.without batch
  let v := { v with queries := queries }.grow (.output quiet)
  let v := { v with
    sent := v.sent ++ v.sinks.filterMap (handed v.seq batch quiet responder)
    -- a terminal with nothing to show is not asked whether it is gone
    sinks := v.sinks.filter (fun s =>
      (handed v.seq batch quiet responder s).isNone ∨ s.1 ∉ gone') }
  let terminal := E.feed v.terminal batch
  let v := { v with
    terminal := terminal
    session := { v.session with
      bracketed := E.bracketed terminal
      answersUntil := if responder.isSome ∧ ¬ scan.isEmpty then some (shown + REPLY_WINDOW)
        else v.session.answersUntil } }
  let report (at_ : Nat × Nat) : Bytes :=
    [ESC, 0x5b] ++ (toString (at_.1 + 1)).toUTF8.toList ++ [0x3b] ++
      (toString (at_.2 + 1)).toUTF8.toList ++ [0x52]
  (if responder.isNone then (List.replicate scan.cursor (report (E.cursor terminal))).flatten
    else [], v)

/-- `apply_size` beyond the PTY: the terminal takes the size, and numbered viewers are told. -/
def resizedTo (E : Emulator T) (v : View T) (size : TermSize) (gone : List Nat) : View T :=
  let v := { v with terminal := E.setSize v.terminal size }.grow (.resized size)
  v.tell (.resized v.seq size) gone

/-- An operation of the session. It applies one size at most, so what `apply_size` does
    beyond the session follows from whether the size is another one after it. -/
def asked (E : Emulator T) (v : View T) (ask : Ask) (now : Instant) (gone : List Nat) : View T :=
  let session := ask.apply v.session now
  let w := { v with session := session }
  if session.size = v.session.size then w else w.resizedTo E session.size gone

/-- An operation under the view lock, and then whether control changed hands. -/
def controlling (E : Emulator T) (v : View T) (ask : Ask) (now : Instant)
    (gone gone' : List Nat) : View T :=
  (v.asked E ask now gone).announce now gone'

def exited (v : View T) (exit : ExitInfo) (gone : List Nat) : View T :=
  { v with exit := some exit, session := { v.session with exited := true } }.tell (.exited exit) gone

end View

inductive Locked where
  | attach (open_ : Bool)
  | watch (after : Option Nat) (accepts : Nat) (now : Instant)
  | detach (attachment : Nat)
  | deliver (batch : Bytes) (now shown : Instant)
  | ask (ask : Ask) (now : Instant)
  | localTyped (data : Bytes) (now : Instant)
  /-- `controller`, or the pump noticing a lapse. -/
  | controller (now : Instant)
  | exited (exit : ExitInfo)

/-- A section, and the viewers that turn out to be gone when it hands them an item (`gone`)
    or tells them who controls the session (`gone'`). -/
structure Turn where
  locked : Locked
  gone : List Nat
  gone' : List Nat

/-- The pump hands out output, and the exit, only until the exit. -/
def View.step {T : Type} (E : Emulator T) (v : View T) (t : Turn) : Option (View T) :=
  match t.locked with
  | .attach open_ => some (v.attach E open_)
  | .watch after accepts now => some (v.watch E after accepts now t.gone')
  | .detach attachment => some (v.detach attachment)
  | .deliver batch now shown =>
    if v.exit.isSome then none else some (v.deliver E batch now shown t.gone' t.gone).2
  | .ask ask now => some (v.controlling E ask now t.gone t.gone')
  | .localTyped data now => some { v with session := (v.session.localTyped data now).2 }
  | .controller now => some (v.announce now t.gone')
  | .exited exit => if v.exit.isSome then none else some (v.exited exit t.gone)

end Yardsort.Pty
