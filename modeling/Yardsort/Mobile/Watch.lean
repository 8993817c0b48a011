import Yardsort.Lib.Run
import Yardsort.Proto.Frame

/- Watching a terminal from the phone (`TerminalWatch`, `apps/mobile/src/lib/watch.ts`, over
   `Attachment`, `packages/remote-client/src/channel.ts`).

   Code between two awaits runs without interruption, so a step is a call, a message of the computer
   reaching an attachment, or what one settled promise sets off. An attachment made by a reply is
   told of its stream from then on; `#attach` finding its run still going on (`returned`) and
   `follow` dealing with the attachment it came back with (`deals`) are steps of their own, each
   after an await, and what came before the last of them is held. The page falls behind as it is
   written to, and then calls `startOver` from within the write.

   The terminal's stream is a `Stream`: the frames of each numbered item. What an attachment accepts
   by its numbers is the next of them; anything else is out of order to it. Beside what the code
   keeps, a state has what was given to be drawn since the last `reset`.

   What only the screen shows (size, controller, exit, problem) is left out. -/
namespace Yardsort.Mobile.Watch
open Yardsort.Lib Proto

def MAX_FRESH_STARTS : Nat := 5
def MAX_SIDE : Nat := 1000

structure TermSize where
  cols : Nat
  rows : Nat
  deriving DecidableEq

def drawable (size : TermSize) : Bool :=
  (0 < size.cols && size.cols ≤ MAX_SIDE) && (0 < size.rows && size.rows ≤ MAX_SIDE)

structure Position where
  epoch : Nat
  seq : Nat
  deriving DecidableEq

inductive Item where
  | write (bytes : Bytes)
  | resize (size : TermSize)
  deriving DecidableEq

def Piece : List Item → Prop
  | [] | [_] => True
  | .write bytes :: frame :: frames => bytes.length = MAX_OUTPUT_CHUNK ∧ Piece (frame :: frames)
  | .resize _ :: _ :: _ => False

/-- The items of a terminal, by epoch and number, each in its frames. -/
structure Stream where
  item : Nat → Nat → List Item
  some_ : ∀ e n, item e n ≠ []
  piece : ∀ e n, Piece (item e n)

def Stream.framesFrom (stream : Stream) (e : Nat) : Nat → Nat → List Item
  | _, 0 => []
  | s, n + 1 => stream.item e (s + 1) ++ stream.framesFrom e (s + 1) n

structure Frame where
  position : Position
  item : Item

inductive AttachmentEnd where
  | closed (overloaded : Bool)
  | gap
  | detached (resnapshotRequired : Bool)
  | detachedHere

inductive Told where
  | output (bytes : Bytes) (position : Position)
  | resized (size : TermSize)
  | ended (why : AttachmentEnd)

structure Attachment where
  /-- The snapshot it started from, or none when it resumed. -/
  snapshot : Option (List Item)
  position : Position
  size : TermSize
  /-- The number after the last one's, `#last + 1`. -/
  next : Nat
  inOutput : Bool
  mayContinue : Bool
  drewAny : Bool
  ended : Bool
  /-- The run its watcher was made in, the channel, and what is held for that run; none once it
      has been dealt with. -/
  run : Nat
  channel : Nat
  held : Option (List Told)
  /-- Of the stream: the item it is at, its frames that are still to come, and all that came. -/
  due : Nat
  ahead : List Item
  had : List Item

namespace Attachment

def new (snapshot : Option (List Item)) (position : Position) (size : TermSize)
    (run channel : Nat) : Attachment where
  snapshot := snapshot
  position := position
  size := size
  next := if snapshot.isSome then position.seq else position.seq + 1
  inOutput := false
  mayContinue := false
  drewAny := snapshot.isNone
  ended := false
  run := run
  channel := channel
  held := some []
  due := position.seq
  ahead := snapshot.getD []
  had := []

def drawn (a : Attachment) : Option Position :=
  if !a.drewAny || a.mayContinue then none else some ⟨a.position.epoch, a.next - 1⟩

def accepts (a : Attachment) (frame : Frame) : Bool :=
  frame.position.epoch = a.position.epoch && match frame.item with
    | .write _ => (a.inOutput && frame.position.seq + 1 = a.next) || frame.position.seq = a.next
    | .resize _ => frame.position.seq = a.next

def expected (stream : Stream) (a : Attachment) : List Item × Nat :=
  match a.ahead with
  | [] => (stream.item a.position.epoch (a.due + 1), a.due + 1)
  | _ :: _ => (a.ahead, a.due)

def takes (stream : Stream) (a : Attachment) (frame : Frame) : Attachment :=
  let came : Attachment :=
    { a with
      due := (a.expected stream).2
      ahead := (a.expected stream).1.tail
      had := a.had ++ [frame.item] }
  match frame.item with
  | .write bytes =>
    { came with
      next := frame.position.seq + 1
      inOutput := true
      mayContinue := bytes.length = MAX_OUTPUT_CHUNK
      drewAny := true }
  | .resize size =>
    { came with
      next := frame.position.seq + 1
      inOutput := false
      mayContinue := false
      size := size }

end Attachment

/-! ## The watch -/

structure Follow where
  run : Nat
  channel : Nat
  resumeAfter : Option Position
  /-- The attachment the reply made, and whether `#attach` has come back with it. -/
  made : Option Nat
  returned : Bool

/-- What was given to be drawn since a `reset`, and the snapshot that one was for. -/
structure Shown where
  position : Position
  snapshot : List Item
  items : List Item
  deriving DecidableEq

structure State where
  run : Nat
  drawn : Option Position
  attachment : Option Nat
  channel : Option Nat
  freshStarts : Nat
  movedOn : Bool
  attachments : List Attachment
  follows : List Follow
  /-- What is on the page, by the commands given. -/
  shown : Option Shown
  /-- Something was given to be drawn that nothing on the page goes before, or on behalf of an
      attachment that had been given up. -/
  strayed : Bool

def State.new : State where
  run := 0
  drawn := none
  attachment := none
  channel := none
  freshStarts := 0
  movedOn := false
  attachments := []
  follows := []
  shown := none
  strayed := false

namespace State

/-- The position an attachment was drawn to; where there is none, the one kept already. -/
def remember (s : State) : Option Position :=
  match s.attachment with
  | none => s.drawn
  | some i => match s.attachments[i]? with
    | none => s.drawn
    | some a => a.drawn

/-- `detach` ends an attachment at once, and its watcher hears of it in a run that is over. -/
def detaches (s : State) (i : Nat) : State :=
  { s with attachments := s.attachments.modify i fun a => { a with ended := true } }

def lets (s : State) : State :=
  match s.attachment with
  | none => s
  | some i => { s.detaches i with attachment := none }

def follow (s : State) (channel : Nat) : State :=
  { s with
    run := s.run + 1
    channel := some channel
    follows := s.follows ++ [⟨s.run + 1, channel, s.drawn, none, false⟩] }

def stop (s : State) : State :=
  { s.lets with run := s.run + 1, channel := none, drawn := s.remember }

def pageStarted (s : State) : State := { s.stop with drawn := none }

def pageCaughtUp (s : State) : State := if s.movedOn then { s with freshStarts := 0 } else s

def startsAgain (s : State) (channel : Nat) : State :=
  let counted : State := { s with freshStarts := s.freshStarts + 1, movedOn := false }
  if counted.freshStarts ≤ MAX_FRESH_STARTS then counted.follow channel else counted

def startOver (s : State) : State :=
  match s.channel with
  | none => s.pageStarted
  | some channel => s.pageStarted.startsAgain channel

def tooLarge (s : State) : State := { s.lets with run := s.run + 1 }

def draws (s : State) (run : Nat) (item : Item) : State :=
  { s with
    shown := s.shown.map fun shown => { shown with items := shown.items ++ [item] }
    strayed := s.strayed || s.shown.isNone || run ≠ s.run }

def resets (s : State) (run : Nat) (position : Position) (snapshot : List Item) : State :=
  { s with shown := some ⟨position, snapshot, []⟩, strayed := s.strayed || run ≠ s.run }

def again (s : State) (channel : Nat) : State := { s with drawn := none }.startsAgain channel

def ended (s : State) (why : AttachmentEnd) (channel : Nat) : State :=
  let s : State := { s with attachment := none, drawn := s.remember }
  match why with
  | .closed overloaded => if overloaded then { s with drawn := none } else s
  | .gap => s.again channel
  | .detached resnapshotRequired => if resnapshotRequired then s.again channel else s
  | .detachedHere => s

def past (s : State) (position : Position) : Bool :=
  match s.attachment with
  | none => false
  | some i => (s.attachments[i]?).any fun a => a.position.seq < position.seq

/-- One thing the watcher of `a` was told; the page may fall behind as it is written to. -/
def hears (s : State) (a : Attachment) (behind : Bool) : Told → State
  | .output bytes position =>
    let s := { s with movedOn := s.movedOn || s.past position }.draws a.run (.write bytes)
    if behind then s.startOver else s
  | .resized size => if drawable size then s.draws a.run (.resize size) else s.tooLarge
  | .ended why => s.ended why a.channel

def inTurn (s : State) (i : Nat) (behind : Bool) (told : Told) : State :=
  match s.attachments[i]? with
  | none => s
  | some a =>
    if a.run ≠ s.run then s
    else match a.held with
      | none => s.hears a behind told
      | some steps =>
        { s with attachments := s.attachments.set i { a with held := some (steps ++ [told]) } }

def hearsAll (s : State) (a : Attachment) : List Told → List Bool → State
  | [], _ => s
  | told :: steps, behind => hearsAll (s.hears a (behind.headD false) told) a steps behind.tail

def begins (s : State) (i : Nat) (a : Attachment) (behind : List Bool) : State :=
  let s : State := { s with attachment := some i }
  if !drawable a.size then s.tooLarge
  else
    let s := match a.snapshot with
      | none => s
      | some snapshot => s.resets a.run a.position snapshot
    let s : State := { s with attachments := s.attachments.set i { a with held := none } }
    s.hearsAll a (a.held.getD []) behind

end State

inductive Act where
  | follow (channel : Nat)
  | stop
  | pageStarted
  | startOver
  | pageCaughtUp
  /-- The computer's reply to the `k`th `follow` that waits. -/
  | attached (k : Nat) (snapshot : Option (List Item)) (position : Position) (size : TermSize)
  | refused (k : Nat)
  | unanswered (k : Nat)
  | returned (k : Nat)
  | deals (k : Nat) (behind : List Bool)
  /-- A frame or a resize reaches an attachment. -/
  | came (i : Nat) (frame : Frame) (behind : Bool)
  /-- An attachment ends: the computer detached it, or its channel closed. -/
  | ends (i : Nat) (why : AttachmentEnd)

instance : (frames : List Item) → Decidable (Piece frames)
  | [] | [_] => isTrue trivial
  | .write bytes :: frame :: frames =>
    have := instDecidablePiece (frame :: frames)
    inferInstanceAs (Decidable (bytes.length = MAX_OUTPUT_CHUNK ∧ Piece (frame :: frames)))
  | .resize _ :: _ :: _ => isFalse id

def Item.isWrite : Item → Bool
  | write _ => true
  | resize _ => false

/-- A reply resumes where it was asked to, or is followed by a snapshot in its frames. -/
def Replies (resumeAfter : Option Position) (position : Position) : Option (List Item) → Prop
  | none => resumeAfter = some position
  | some snapshot => snapshot ≠ [] ∧ Piece snapshot ∧ snapshot.all Item.isWrite = true

instance (resumeAfter : Option Position) (position : Position) :
    (snapshot : Option (List Item)) → Decidable (Replies resumeAfter position snapshot)
  | none => inferInstanceAs (Decidable (resumeAfter = some position))
  | some _ => inferInstanceAs (Decidable (_ ∧ _ ∧ _))

def Numbered (stream : Stream) (a : Attachment) (frame : Frame) : Prop :=
  a.accepts frame = true → (a.expected stream).1.head? = some frame.item ∧
    frame.position.seq = (a.expected stream).2

instance (stream : Stream) (a : Attachment) (frame : Frame) :
    Decidable (Numbered stream a frame) := inferInstanceAs (Decidable (_ → _))

namespace State

def attached (s : State) (k : Nat) (f : Follow) (snapshot : Option (List Item))
    (position : Position) (size : TermSize) : State :=
  { s with
    attachments := s.attachments ++ [Attachment.new snapshot position size f.run f.channel]
    follows := s.follows.set k { f with made := some s.attachments.length } }

def refused (s : State) (k : Nat) (f : Follow) : State :=
  if f.resumeAfter.isSome ∧ f.run = s.run then
    { s with drawn := none, follows := s.follows.set k { f with resumeAfter := none } }
  else { s with follows := s.follows.eraseIdx k }

def returned (s : State) (k : Nat) (f : Follow) (i : Nat) : State :=
  if f.run = s.run then { s with follows := s.follows.set k { f with returned := true } }
  else { s.detaches i with follows := s.follows.eraseIdx k }

/-- A frame is accepted, or ends the attachment as out of order. -/
def came (stream : Stream) (s : State) (i : Nat) (a : Attachment) (frame : Frame)
    (behind : Bool) : State :=
  if a.accepts frame then
    let s : State := { s with attachments := s.attachments.set i (a.takes stream frame) }
    match frame.item with
    | .write bytes => s.inTurn i behind (.output bytes frame.position)
    | .resize size => s.inTurn i behind (.resized size)
  else (s.detaches i).inTurn i false (.ended .gap)

end State

def step (stream : Stream) (s : State) : Act → Option State
  | .follow channel => some (s.follow channel)
  | .stop => some s.stop
  | .pageStarted => some s.pageStarted
  | .startOver => some s.startOver
  | .pageCaughtUp => some s.pageCaughtUp
  | .attached k snapshot position size => do
    let f ← s.follows[k]?
    if f.made = none ∧ Replies f.resumeAfter position snapshot then
      some (s.attached k f snapshot position size)
    else none
  | .refused k => do
    let f ← s.follows[k]?
    if f.made = none then some (s.refused k f) else none
  | .unanswered k => do
    let f ← s.follows[k]?
    if f.made = none then some { s with follows := s.follows.eraseIdx k } else none
  | .returned k => do
    let f ← s.follows[k]?
    let i ← f.made
    if f.returned then none else some (s.returned k f i)
  | .deals k behind => do
    let f ← s.follows[k]?
    let i ← f.made
    let a ← s.attachments[i]?
    if f.returned then some (({ s with follows := s.follows.eraseIdx k } : State).begins i a behind)
    else none
  | .came i frame behind => do
    let a ← s.attachments[i]?
    if a.ended = false ∧ Numbered stream a frame then some (s.came stream i a frame behind)
    else none
  | .ends i why => do
    let a ← s.attachments[i]?
    if a.ended then none else some ((s.detaches i).inTurn i false (.ended why))

/-- The commands given since the last `reset` are that one's snapshot and the stream after it, as
    far as it came, each frame once; and nothing was given for an attachment that had been given
    up, or with no `reset` before it. -/
structure Faithful (stream : Stream) (s : State) : Prop where
  exact : ∀ page ∈ s.shown, ∃ n, page.items <+:
    page.snapshot ++ stream.framesFrom page.position.epoch page.position.seq n
  own : s.strayed = false

def Told.fits : Told → Bool
  | resized size => drawable size
  | output _ _ | ended _ => true

def Settles : List Told → List Bool → Prop
  | [], _ => True
  | told :: steps, behind =>
    told.fits = true ∧ (steps ≠ [] → behind.headD false = false) ∧ Settles steps behind.tail

instance : (steps : List Told) → (behind : List Bool) → Decidable (Settles steps behind)
  | [], _ => isTrue trivial
  | _ :: steps, behind =>
    have := instDecidableSettles steps behind.tail
    inferInstanceAs (Decidable (_ ∧ _ ∧ _))

/-- Where a step goes well:
    - `follow` is called while no attachment is watched;
    - a call of `follow` deals with its attachment in its own run, and nothing that was held gives
      the attachment up before the last of it is drawn;
    - a size too large to draw comes while no position is kept from before the attachment. -/
def Orderly (s : State) : Act → Prop
  | .follow _ => s.attachment = none
  | .deals k behind => ∀ f ∈ s.follows[k]?, ∀ i ∈ f.made, ∀ a ∈ s.attachments[i]?,
    f.run = s.run ∧ (drawable a.size = true → Settles (a.held.getD []) behind)
  | .came i frame _ => ∀ a ∈ s.attachments[i]?, a.run = s.run → a.held = none →
    ∀ size, frame.item = .resize size → drawable size = false → s.drawn = none
  | _ => True

end Yardsort.Mobile.Watch
