import Yardsort.Lib.Run
import Yardsort.Lib.Text

/- Having control of a terminal from the phone (`TerminalControl`, `apps/mobile/src/lib/control.ts`,
   with `Control` of `packages/remote-client/src/channel.ts`).

   Code between two awaits runs without interruption: a step is a call, a timer, an answer, or a
   control being lost. The one worker is a state of its own, `Worker`: it waits before a piece, for
   the answer to one, or to go on with the next unit. A lease is made by a reply (`acquired`) and
   `take` goes on with it later (`taken`); until then the callback for its loss names no control.

   Beside what the code keeps, a state has every unit that was queued, with the control it was
   queued under, what became of it, every piece that was handed to `Control.input`, and every piece
   that was answered Ok, by the number of its unit and its place there. -/
namespace Yardsort.Mobile.TerminalControl
open Yardsort.Lib

/-- Between text and its Enter. -/
def SUBMIT_DELAY_MS : Nat := 150
def MAX_INPUT_BYTES : Nat := 32 * 1024

def NOT_SENT : Text := "What was still waiting was not sent.".toList

structure TermSize where
  cols : Nat
  rows : Nat
  deriving DecidableEq

inductive Controller where
  | nobody
  | local_
  | device (id : Nat) (name : Text)
  deriving DecidableEq

/-- One report of who controls the terminal: another is another, even where it says the same. -/
structure Report where
  number : Nat
  controller : Controller
  deriving DecidableEq

def deviceName (name : Text) : Text := if name = [] then "Another device".toList else name

structure Uncertain where
  said : Text
  text : Option Text
  deriving DecidableEq

structure Hold where
  holding : Bool
  asking : Bool
  notice : Option Text
  uncertain : Option Uncertain

structure Piece where
  data : Text
  paste : Bool
  pause : Option Nat
  deriving DecidableEq

/-- What the person sent in one go, with its number and the control it was queued under. -/
structure InputUnit where
  sent : Uncertain
  pieces : List Piece
  serial : Nat
  control : Nat
  deriving DecidableEq

inductive Fate where
  /-- It waits, or is on its way. -/
  | going
  | done
  /-- A piece failed: the channel closed, the lease was lost, or the computer refused it. -/
  | unknown
  | lost
  | refused (message : Text)
  | unsent
  | dropped

def Fate.failed : Fate → Bool
  | unknown | lost | refused _ => true
  | going | done | unsent | dropped => false

def Fate.omitted : Fate → Bool
  | unsent | dropped => true
  | going | done | unknown | lost | refused _ => false

/-- It is over, and not each of its pieces was answered Ok. -/
def Fate.amiss : Fate → Bool
  | unknown | lost | refused _ | unsent | dropped => true
  | going | done => false

structure Delivery where
  unit : InputUnit
  control : Nat
  at_ : Nat
  deriving DecidableEq

inductive Worker where
  | idle
  | next
  | pausing (d : Delivery)
  | awaiting (d : Delivery)
  deriving DecidableEq

def Worker.unit : Worker → Option InputUnit
  | idle | next => none
  | pausing d | awaiting d => some d.unit

structure Control where
  held : Bool
  taken : Bool

structure Take where
  asked : Nat
  made : Option Nat

structure Handed where
  unit : Nat
  at_ : Nat
  control : Nat

structure State where
  hold : Hold
  control : Option Nat
  asking : Nat
  waiting : List InputUnit
  worker : Worker
  wanted : Option TermSize
  sized : Option TermSize
  settling : Bool
  controller : Option Report
  controls : List Control
  takes : List Take
  queued : List InputUnit
  fates : Nat → Fate
  handed : List Handed
  oks : List (Nat × Nat)

def State.new : State where
  hold := ⟨false, false, none, none⟩
  control := none
  asking := 0
  waiting := []
  worker := .idle
  wanted := none
  sized := none
  settling := false
  controller := none
  controls := []
  takes := []
  queued := []
  fates := fun _ => .going
  handed := []
  oks := []

def Hold.notSent (hold : Hold) : Hold :=
  match hold.notice with
  | none | some [] => { hold with notice := some NOT_SENT }
  | some notice =>
    if NOT_SENT <:+ notice then hold
    else { hold with notice := some (notice ++ ' ' :: NOT_SENT) }

inductive Answer where
  | ok
  | closed
  | leaseLost
  | refused (message : Text)
  deriving DecidableEq

inductive ControlLoss where
  | lost
  | closed

inductive AcquireError where
  | controlConflict
  | forbidden
  | closed
  | other (message : Text)

namespace State

def marks (s : State) (units : List InputUnit) (fate : Fate) : State :=
  { s with fates := fun n => if n ∈ units.map (·.serial) then fate else s.fates n }

def notSent (s : State) : State := { s with hold := s.hold.notSent }

def forget (s : State) (notice : Option Text) : State :=
  let forgot : State := { s.marks s.waiting .dropped with
    control := none
    waiting := []
    sized := none
    settling := false
    hold := { s.hold with holding := false, asking := false, notice := notice } }
  if s.waiting = [] then forgot else forgot.notSent

def dropWaiting (s : State) : State :=
  if s.waiting = [] then s
  else ({ s.marks s.waiting .dropped with waiting := [] } : State).notSent

section
variable (me : Option Nat)

def heldByAnother (s : State) : Bool :=
  match s.controller with
  | some ⟨_, .device device _⟩ => some device ≠ me
  | some ⟨_, .nobody⟩ | some ⟨_, .local_⟩ | none => false

def tookIt (s : State) : Text :=
  match s.controller with
  | some ⟨_, .local_⟩ => "The person at the computer took control.".toList
  | some ⟨_, .device device name⟩ =>
    if some device ≠ me then deviceName name ++ " took control.".toList
    else "This phone no longer has control.".toList
  | some ⟨_, .nobody⟩ | none => "This phone no longer has control.".toList

def refusal (s : State) : AcquireError → Text
  | .controlConflict =>
    if s.controller.map (·.controller) = some .local_ then
      "The person at the computer is typing here. Try again once they stop.".toList
    else "Another device has control of this terminal.".toList
  | .forbidden =>
    ("This computer lets this phone watch, but not type. To change that, pair again and allow " ++
      "control at the computer.").toList
  | .closed => "The connection dropped before the computer answered.".toList
  | .other message => message

end

def hands (s : State) (d : Delivery) : State :=
  if s.control = some d.control then
    { s with worker := .awaiting d, handed := s.handed ++ [⟨d.unit.serial, d.at_, d.control⟩] }
  else { (s.marks [d.unit] .unsent).notSent with worker := .next }

def comesTo (s : State) (d : Delivery) : State :=
  match d.unit.pieces[d.at_]? with
  | none => { s.marks [d.unit] .done with worker := .next }
  | some piece => if piece.pause.isSome then { s with worker := .pausing d } else s.hands d

def works (s : State) : State :=
  match s.waiting, s.control with
  | [], _ => { s with worker := .idle }
  | _ :: rest, none => { s with waiting := rest, worker := .idle }
  | unit :: rest, some control => ({ s with waiting := rest } : State).comesTo ⟨unit, control, 0⟩

def fails (s : State) (d : Delivery) (answer : Answer) : State :=
  match answer with
  | .ok => s
  | .closed =>
    { s.marks [d.unit] .unknown with hold := { s.hold with uncertain := some d.unit.sent } }
  | .leaseLost => (s.marks [d.unit] .lost).notSent
  | .refused message =>
    { s.marks [d.unit] (.refused message) with hold := { s.hold with notice := some message } }

def answered (s : State) (d : Delivery) : Answer → State
  | .ok => ({ s with oks := s.oks ++ [(d.unit.serial, d.at_)] } : State).comesTo
      { d with at_ := d.at_ + 1 }
  | .closed => { (s.fails d .closed).dropWaiting with worker := .next }
  | .leaseLost => { (s.fails d .leaseLost).dropWaiting with worker := .next }
  | .refused message => { (s.fails d (.refused message)).dropWaiting with worker := .next }

def queue (s : State) (sent : Uncertain) (pieces : List Piece) : State :=
  match s.control with
  | none => s
  | some control =>
    let unit : InputUnit := ⟨sent, pieces, s.queued.length, control⟩
    let s : State := { s with waiting := s.waiting ++ [unit], queued := s.queued ++ [unit] }
    if s.worker = .idle then s.works else s

def tooLong (s : State) : State :=
  { s with hold := { s.hold with
      notice := some "That is too long to send at once. 32 KB is the most.".toList } }

def typing (text : Text) : Piece := ⟨text, '\n' ∈ text, none⟩

def body (text : Text) : Text := (text.reverse.dropWhile (· = '\n')).reverse

def enter : Piece := ⟨['\r'], false, none⟩

def send (s : State) (text : Text) : State :=
  if s.control.isNone then s
  else if MAX_INPUT_BYTES < (body text).byteLen then s.tooLong
  else if body text = [] then s.queue ⟨"Enter".toList, none⟩ [enter]
  else s.queue ⟨body text, some (body text)⟩
    [typing (body text), { enter with pause := some SUBMIT_DELAY_MS }]

def type (s : State) (text : Text) : State :=
  if s.control.isNone ∨ text = [] then s
  else if MAX_INPUT_BYTES < text.byteLen then s.tooLong
  else s.queue ⟨text, some text⟩ [typing text]

def paste (s : State) (text said : Text) : State :=
  if s.control.isNone ∨ text = [] then s
  else if MAX_INPUT_BYTES < text.byteLen then s.tooLong
  else s.queue ⟨said, none⟩ [⟨text, true, none⟩]

def press (s : State) (said data : Text) : State := s.queue ⟨said, none⟩ [⟨data, false, none⟩]

def settleUncertain (s : State) : State := { s with hold := { s.hold with uncertain := none } }

def resize (s : State) : State :=
  if s.control.isSome ∧ s.wanted.isSome ∧ s.sized ≠ s.wanted then { s with sized := s.wanted }
  else s

def fit (s : State) (size : TermSize) : State :=
  { s with wanted := some size, settling := s.settling || s.control.isSome }

def settled (s : State) : State := ({ s with settling := false } : State).resize

def take (s : State) : State :=
  if s.hold.holding || s.hold.asking then s
  else { s with
    asking := s.asking + 1
    hold := { s.hold with asking := true, notice := none }
    takes := s.takes ++ [⟨s.asking + 1, none⟩] }

def acquired (s : State) (k : Nat) (t : Take) : State :=
  { s with
    controls := s.controls ++ [⟨true, false⟩]
    takes := s.takes.set k { t with made := some s.controls.length } }

def unacquired (s : State) (k : Nat) (t : Take) (error : AcquireError) : State :=
  let s : State := { s with takes := s.takes.eraseIdx k }
  if t.asked = s.asking then
    { s with hold := { s.hold with asking := false, notice := some (s.refusal error) } }
  else s

def unholds (s : State) (i : Nat) : State :=
  { s with controls := s.controls.modify i fun c => { c with held := false } }

def taken (s : State) (k : Nat) (t : Take) (i : Nat) : State :=
  let s : State := { s with takes := s.takes.eraseIdx k }
  if t.asked = s.asking then
    ({ s with
      control := some i
      controls := s.controls.modify i fun c => { c with taken := true }
      sized := none
      hold := { s.hold with asking := false, holding := true } } : State).resize
  else s.unholds i

def release (s : State) : State :=
  let released := ({ s with asking := s.asking + 1 } : State).forget
    (if s.control.isSome then none else s.hold.notice)
  match s.control with
  | none => released
  | some i => released.unholds i

def seen (me : Option Nat) (s : State) (report : Option Report) (ended : Bool) : State :=
  let told := decide (report ≠ s.controller)
  let s : State := { s with controller := report }
  match s.control with
  | none => s
  | some i =>
    if ended || (told && (report.map (·.controller) = some .local_ || s.heldByAnother me)) then
      (s.forget (if ended then none else some (s.tookIt me))).unholds i
    else s

def isLost (me : Option Nat) (s : State) (named : Option Nat) (why : ControlLoss) : State :=
  if named ≠ s.control then s
  else s.forget (some (match why with
    | .closed =>
      "Control ended when the connection dropped. Take it again when you are ready.".toList
    | .lost => s.tookIt me))

def loses (me : Option Nat) (s : State) (i : Nat) (c : Control) (why : ControlLoss) : State :=
  (s.unholds i).isLost me (if c.taken then some i else none) why

end State

inductive Act where
  | take
  | acquired (k : Nat)
  | unacquired (k : Nat) (error : AcquireError)
  | taken (k : Nat)
  | release
  | seen (report : Option Report) (ended : Bool)
  | send (text : Text)
  | type (text : Text)
  | paste (text said : Text)
  | press (said data : Text)
  | fit (size : TermSize)
  | settleUncertain
  | settled
  | unsized
  | paused
  | answered (answer : Answer)
  | goesOn
  /-- A control that is held is lost, at a renewal, a resize or an input, or with its channel. -/
  | loses (i : Nat) (why : ControlLoss)

/-- An answer says the lease is lost, or that the channel closed, after the control was. -/
def Answer.after (controls : List Control) (d : Delivery) : Answer → Bool
  | ok | refused _ => true
  | closed | leaseLost => (controls[d.control]?).all fun c => !c.held

def step (me : Option Nat) (s : State) : Act → Option State
  | .take => some s.take
  | .acquired k => do
    let t ← s.takes[k]?
    if t.made.isNone then some (s.acquired k t) else none
  | .unacquired k error => do
    let t ← s.takes[k]?
    if t.made.isNone then some (s.unacquired k t error) else none
  | .taken k => do
    let t ← s.takes[k]?
    let i ← t.made
    some (s.taken k t i)
  | .release => some s.release
  | .seen report ended => some (s.seen me report ended)
  | .send text => some (s.send text)
  | .type text => some (s.type text)
  | .paste text said => some (s.paste text said)
  | .press said data => some (s.press said data)
  | .fit size => some (s.fit size)
  | .settleUncertain => some s.settleUncertain
  | .settled => if s.settling then some s.settled else none
  | .unsized => some { s with sized := none }
  | .paused =>
    match s.worker with
    | .pausing d => some (s.hands d)
    | .idle | .next | .awaiting _ => none
  | .answered answer =>
    match s.worker with
    | .awaiting d => if answer.after s.controls d then some (s.answered d answer) else none
    | .idle | .next | .pausing _ => none
  | .goesOn =>
    match s.worker with
    | .next => some s.works
    | .idle | .pausing _ | .awaiting _ => none
  | .loses i why => do
    let c ← s.controls[i]?
    if c.held then some (s.loses me i c why) else none

def Handed.before (a b : Handed) : Prop := a.unit < b.unit ∨ a.unit = b.unit ∧ a.at_ < b.at_

/-- Each piece was handed over at most once and in the order queued, no unit amid another, and under
    the control its unit was queued under. -/
structure InOrder (s : State) : Prop where
  order : s.handed.Pairwise Handed.before
  under : ∀ h ∈ s.handed, ∃ unit, s.queued[h.unit]? = some unit ∧ h.at_ < unit.pieces.length ∧
    h.control = unit.control

/-- Each unit that goes waits or is in the worker's hand, and one that is done was answered Ok piece
    by piece: no other is over without something amiss. -/
structure Accounted (s : State) : Prop where
  going : ∀ (n : Nat) (unit : InputUnit), s.queued[n]? = some unit → s.fates n = .going →
    unit ∈ s.waiting ∨ unit ∈ s.worker.unit
  done : ∀ (n : Nat) (unit : InputUnit), s.queued[n]? = some unit → s.fates n = .done →
    ∀ i < unit.pieces.length, (n, i) ∈ s.oks

/-- What the person is told of a unit: one the computer refused by the reason it gave alone. -/
def Hold.Tells (hold : Hold) (unit : InputUnit) : Fate → Prop
  | .going | .done => True
  | .unknown => hold.uncertain = some unit.sent
  | .refused message => ∃ notice ∈ hold.notice, message <+: notice
  | .lost | .unsent | .dropped => ∃ notice ∈ hold.notice, NOT_SENT <:+ notice

/-- What a step may do: a piece is handed over under the control that is held then; nothing queued
    under the control that is held is dropped, unless an earlier unit of it failed; the person is
    told of each unit that is over with something amiss, and it stays so; and what is uncertain
    stays so until it is settled. -/
structure Fair (s s' : State) (act : Act) : Prop where
  handed : ∀ h ∈ s'.handed, h ∈ s.handed ∨ s'.control = some h.control
  dropped : ∀ (n : Nat) (unit : InputUnit), s'.queued[n]? = some unit →
    (s'.fates n).omitted = true → s'.control = some unit.control → s'.fates n = s.fates n ∨
      ∃ m < n, ∃ earlier, s'.queued[m]? = some earlier ∧ earlier.control = unit.control ∧
        (s'.fates m).failed = true
  told : ∀ (n : Nat) (unit : InputUnit), s'.queued[n]? = some unit →
    (s'.fates n).amiss = true → s'.fates n = s.fates n ∨ s'.hold.Tells unit (s'.fates n)
  atEnd : ∀ n, s.fates n ≠ .going → s'.fates n = s.fates n
  stays : ∀ sent ∈ s.hold.uncertain, act ≠ .settleUncertain → s'.hold.uncertain = some sent

/-- Where an answer goes well: an input fails while its control is held, or while nothing waits; and
    where its channel closed, nothing else is uncertain. -/
def Orderly (s : State) : Act → Prop
  | .answered answer => ∀ d, s.worker = .awaiting d → answer ≠ .ok →
      (s.control = some d.control ∨ s.waiting = []) ∧
        (answer = .closed → s.hold.uncertain = none)
  | _ => True

end Yardsort.Mobile.TerminalControl
