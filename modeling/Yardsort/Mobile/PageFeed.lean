import Yardsort.Lib.Table
import Yardsort.Mobile.Control

/- What goes to the terminal's page (`PageFeed`, `apps/mobile/src/lib/watch.ts`): a window of
   outputs the page has not drawn, and a queue behind it.

   A call may call back: `behind` from `write` and `caughtUp` from `drawn`, each at its end, with
   calls of their own (`Call`). A message is what it says, not its JSON, and an output's data are
   its bytes, not their base64; posting does not call back. Beside the feed, a tape has everything
   that was called and posted, in its order. -/
namespace Yardsort.Mobile
open Yardsort.Lib
open TerminalControl (TermSize)

def MAX_WITH_PAGE : Nat := 256 * 1024
def MAX_WAITING : Nat := 4 * 1024 * 1024

inductive ToPage where
  | reset (size : TermSize)
  | output (id : Nat) (data : List UInt8)
  | resize (size : TermSize)

def ToPage.bytes : ToPage → Nat
  | output _ data => data.length
  | _ => 0

structure Held where
  message : ToPage
  bytes : Nat

/-- A map is the list of its entries. The counts are signed: they are only added to and taken
    from. -/
structure PageFeed where
  post : Bool
  withPage : List (Nat × Nat)
  bytesWithPage : Int
  waiting : List Held
  bytesWaiting : Int
  next : Nat

namespace PageFeed

/-- What is called (`connected`, `restarted`, `wrote`, `drew`), posted and called back. -/
inductive Event where
  | connected (post : Bool)
  | restarted
  | wrote (message : ToPage)
  | drew (id : Nat)
  | posted (message : ToPage)
  | behind
  | caughtUp (waiting : List Held)

structure Tape where
  feed : PageFeed
  log : List Event

namespace Tape

def start : Tape := ⟨⟨false, [], 0, [], 0, 0⟩, []⟩

def note (t : Tape) (e : Event) : Tape := { t with log := t.log ++ [e] }

def roomFor (t : Tape) (bytes : Nat) : Bool :=
  t.feed.bytesWithPage = 0 || t.feed.bytesWithPage + bytes ≤ MAX_WITH_PAGE

def send (message : ToPage) (t : Tape) : Tape :=
  if t.feed.post then t.note (.posted message) else t

def sendOutput (message : ToPage) (id bytes : Nat) (t : Tape) : Tape :=
  send message { t with feed := { t.feed with
    withPage := t.feed.withPage.filter (·.1 ≠ id) ++ [(id, bytes)]
    bytesWithPage := t.feed.bytesWithPage + bytes } }

def connect (post : Bool) (t : Tape) : Tape :=
  { t with feed := { t.feed with
    post, withPage := [], bytesWithPage := 0, waiting := [], bytesWaiting := 0 } }

def clearWaiting (t : Tape) : Tape :=
  { t with feed := { t.feed with waiting := [], bytesWaiting := 0 } }

def reset (size : TermSize) (t : Tape) : Tape :=
  send (.reset size) t.clearWaiting

def hold (message : ToPage) (bytes : Nat) (t : Tape) : Tape :=
  { t with feed := { t.feed with
    waiting := t.feed.waiting ++ [⟨message, bytes⟩], bytesWaiting := t.feed.bytesWaiting + bytes } }

def write (behind : Tape → Tape) (data : List UInt8) (t : Tape) : Tape :=
  let id := t.feed.next
  let message := ToPage.output id data
  let t := { t with feed := { t.feed with next := id + 1 } }
  if t.feed.waiting ≠ [] ∨ ¬ t.roomFor data.length then
    if (MAX_WAITING : Int) < t.feed.bytesWaiting + data.length then behind (t.clearWaiting.note .behind)
    else t.hold message data.length
  else sendOutput message id data.length t

def resize (size : TermSize) (t : Tape) : Tape :=
  let message := ToPage.resize size
  -- In its place among the output: what came before it was drawn at the old size.
  if t.feed.waiting ≠ [] then t.hold message 0 else send message t

def shift (next : Held) (rest : List Held) (t : Tape) : Tape :=
  let t := { t with feed := { t.feed with
    waiting := rest, bytesWaiting := t.feed.bytesWaiting - next.bytes } }
  match next.message with
  | .output id _ => sendOutput next.message id next.bytes t
  | message => send message t

/-- The loop over what waits: it stops at the first that has no room. -/
def sendWaiting : List Held → Tape → Tape
  | [], t => t
  | next :: rest, t =>
    if 0 < next.bytes ∧ ¬ t.roomFor next.bytes then t
    else sendWaiting rest (t.shift next rest)

def drawn (caughtUp : Tape → Tape) (id : Nat) (t : Tape) : Tape :=
  match t.feed.withPage.lookup id with
  | none => t
  | some bytes =>
    let t := { t with feed := { t.feed with
      withPage := t.feed.withPage.filter (·.1 ≠ id)
      bytesWithPage := t.feed.bytesWithPage - bytes } }
    let t := sendWaiting t.feed.waiting t
    if t.feed.waiting = [] ∧ t.feed.withPage = [] then caughtUp (t.note (.caughtUp t.feed.waiting))
    else t

end Tape

inductive Call where
  | connect (post : Bool)
  | reset (size : TermSize)
  | write (data : List UInt8) (behind : List Call)
  | resize (size : TermSize)
  | drawn (id : Nat) (caughtUp : List Call)

mutual

def Call.perform : Call → Tape → Tape
  | .connect post, t => (t.note (.connected post)).connect post
  | .reset size, t => (t.note .restarted).reset size
  | .write data behind, t =>
    (t.note (.wrote (.output t.feed.next data))).write (performAll behind) data
  | .resize size, t => (t.note (.wrote (.resize size))).resize size
  | .drawn id caughtUp, t => (t.note (.drew id)).drawn (performAll caughtUp) id

def performAll : List Call → Tape → Tape
  | [], t => t
  | call :: calls, t => performAll calls (call.perform t)

end

/-- What was called and posted since the page was connected, and of the messages that are written,
    since it was connected or reset. -/
structure Account where
  written : List ToPage
  posted : List ToPage
  behind : Bool
  undrawn : List (Nat × Nat)

namespace Account

def note (a : Account) : Event → Account
  | .connected _ => ⟨[], [], false, []⟩
  | .restarted => { a with written := [], posted := [], behind := false }
  | .wrote message => { a with written := a.written ++ [message] }
  | .drew id => { a with undrawn := a.undrawn.filter (·.1 ≠ id) }
  | .posted (.reset _) => a
  | .posted (.output id data) =>
    { a with
      posted := a.posted ++ [.output id data], undrawn := a.undrawn ++ [(id, data.length)] }
  | .posted message => { a with posted := a.posted ++ [message] }
  | .behind => { a with behind := true }
  | .caughtUp _ => a

def of (log : List Event) : Account := log.foldl note ⟨[], [], false, []⟩

theorem of_snoc (log : List Event) (e : Event) : of (log ++ [e]) = (of log).note e := by
  rw [of, foldl_append]
  rfl

end Account

def Tape.account (t : Tape) : Account := .of t.log

def Known : List Nat → Tape → Prop
  | [], _ => True
  | id :: ids, t => id ∈ t.feed.withPage.map (·.1) ∧ Known ids ((Call.drawn id []).perform t)

def Tape.answers (ids : List Nat) (t : Tape) : Tape := performAll (ids.map (.drawn · [])) t

/-- What holds of a tape, whatever was called. -/
structure Kept (t : Tape) : Prop where
  /-- The page is sent what was written, in its order, and the rest of it waits. -/
  inOrder : (t.account.posted ++ t.feed.waiting.map (·.message)).Sublist t.account.written
  noneSkipped : t.feed.post = true → t.account.behind = false →
    t.account.posted ++ t.feed.waiting.map (·.message) = t.account.written
  undrawn : t.feed.post = true → t.account.undrawn = t.feed.withPage
  sized : ∀ held ∈ t.feed.waiting, held.bytes = held.message.bytes
  /-- Something the page will answer sends what waits. -/
  moving : t.feed.waiting ≠ [] → ∃ entry ∈ t.feed.withPage, 0 < entry.2
  /-- A page that goes on answering has no more to answer in the end, and then has all of it. -/
  drains : ∀ ids, Known ids t →
    ids.length ≤ 2 * t.feed.waiting.length + t.feed.withPage.length ∧
      ((t.answers ids).feed.withPage = [] → (t.answers ids).feed.waiting = [] ∧
        (t.feed.post = true → t.account.behind = false →
          (t.answers ids).account.posted = t.account.written))
  window : (t.feed.withPage.map (·.2)).sum ≤ MAX_WITH_PAGE ∨
    ∃ entry ∈ t.feed.withPage, (t.feed.withPage.map (·.2)).sum = entry.2
  bounded : (t.feed.waiting.map (·.bytes)).sum ≤ MAX_WAITING
  caughtUp : ∀ before waiting after, t.log = before ++ .caughtUp waiting :: after →
    waiting = [] ∧ (Account.of before).undrawn = []

end PageFeed

end Yardsort.Mobile
