import Yardsort.Pty.Unfinished

/- Who may type into a session, and for how long: the control state of one
   session as `pty-host/src/control.rs` computes it.

   A session has one controller at a time: nobody, the person at this computer,
   or whoever holds a lease. Local control lapses a while after the last thing
   typed, a lease when it is not renewed, and both lapse lazily: `lapse` runs at
   the start of every operation that asks who is in control. Each change of
   hands bumps the generation, which a lease's reference carries.

   Instants and durations are nanoseconds, an instant counted from an arbitrary
   origin; the generation and the input numbers are counters that never get
   near their 64 bits. The identifier `acquire` generates is an argument. -/
namespace Yardsort.Pty
open Yardsort.Lib

abbrev Instant := Nat
abbrev Duration := Nat

def LEASE_TTL : Duration := 30000000000
def LOCAL_HOLD : Duration := 30000000000

/-- How long each kind of hold lasts: the person's here (`local` in the source)
    and a lease's. -/
structure Holds where
  here : Duration
  lease : Duration

def Holds.default : Holds := { here := LOCAL_HOLD, lease := LEASE_TTL }

def MAX_HOLDER : Nat := 128

/-- Who may type into a session right now; `here` is the person at this
    computer (`Controller::Local`). -/
inductive Controller where
  | nobody
  | here
  | leased (holder : String)
  deriving DecidableEq

structure LeaseRef where
  id : String
  generation : Nat
  deriving DecidableEq

structure Lease where
  id : String
  generation : Nat
  ttlMs : Nat
  renewEveryMs : Nat

inductive Refusal where
  | lost
  | outOfOrder (expected got : Nat)
  | held (by_ : Controller)
  | badHolder

/-- What `Control.input` found: the next input, or one already taken (`Repeat`). -/
inductive Delivery where
  | fresh
  | repeated

namespace Control

inductive State where
  | nobody
  | here (last : Instant)
  | leased (holder id : String) (expires : Instant) (input : Nat)

end Control

structure Control where
  generation : Nat
  state : Control.State
  holds : Holds

def millis (d : Duration) : Nat := min (d / 1000000) (2^32 - 1)

namespace Control

def new (holds : Holds) : Control := { generation := 0, state := .nobody, holds := holds }

def lapsed (c : Control) (now : Instant) : Bool :=
  match c.state with
  | .nobody => false
  | .here last => decide (c.holds.here ≤ now - last)
  | .leased _ _ expires _ => decide (expires ≤ now)

def lapse (c : Control) (now : Instant) : Control :=
  if c.lapsed now then { c with generation := c.generation + 1, state := .nobody } else c

def holder (c : Control) : Controller :=
  match c.state with
  | .nobody => .nobody
  | .here _ => .here
  | .leased h _ _ _ => .leased h

def controller (c : Control) (now : Instant) : Controller × Control :=
  ((c.lapse now).holder, c.lapse now)

def isLeased (c : Control) : Bool :=
  match c.state with
  | .leased .. => true
  | _ => false

def leased (c : Control) (now : Instant) : Bool × Control :=
  ((c.lapse now).isLeased, c.lapse now)

/-- Something was typed at this computer. Returns whether that took control
    from a lease. -/
def localInput (c : Control) (now : Instant) : Bool × Control :=
  let c := c.lapse now
  match c.state with
  | .here _ => (false, { c with state := .here now })
  | .nobody => (false, { c with generation := c.generation + 1, state := .here now })
  | .leased .. => (true, { c with generation := c.generation + 1, state := .here now })

def leaseOf (c : Control) (id : String) : Lease :=
  { id := id, generation := c.generation, ttlMs := millis c.holds.lease,
    renewEveryMs := millis (c.holds.lease / 3) }

def isControlChar (ch : Char) : Bool :=
  ch.toNat < 0x20 || (0x7f ≤ ch.toNat && ch.toNat ≤ 0x9f)

def badHolder (name : String) : Bool :=
  name.isEmpty || MAX_HOLDER < name.utf8ByteSize || name.toList.any isControlChar

/-- Hand `name` a lease called `fresh`, if nobody else has control. With
    `takeOver`, take it from another lease holder, never from the person here. -/
def acquire (c : Control) (fresh name : String) (takeOver : Bool) (now : Instant) :
    Except Refusal Lease × Control :=
  if badHolder name then (.error .badHolder, c)
  else
    let (by_, c) := c.controller now
    let give :=
      let c' : Control := { c with
        generation := c.generation + 1
        state := .leased name fresh (now + c.holds.lease) 0 }
      (Except.ok (c'.leaseOf fresh), c')
    match by_ with
    | .here => (.error (.held .here), c)
    | .leased other =>
      if other ≠ name && !takeOver then (.error (.held (.leased other)), c) else give
    | .nobody => give

def inForce (c : Control) (ref : LeaseRef) : Bool :=
  match c.state with
  | .leased _ id _ _ => id == ref.id && c.generation == ref.generation
  | _ => false

def check (c : Control) (ref : LeaseRef) (now : Instant) : Except Refusal Unit × Control :=
  let c := c.lapse now
  if c.inForce ref then (.ok (), c) else (.error .lost, c)

def extend (c : Control) (now : Instant) : Control :=
  match c.state with
  | .leased h id _ n => { c with state := .leased h id (now + c.holds.lease) n }
  | _ => c

def renew (c : Control) (ref : LeaseRef) (now : Instant) : Except Refusal Lease × Control :=
  match c.check ref now with
  | (.error e, c) => (.error e, c)
  | (.ok (), c) => (.ok ((c.extend now).leaseOf ref.id), c.extend now)

def release (c : Control) (ref : LeaseRef) (now : Instant) : Bool × Control :=
  match c.check ref now with
  | (.error _, c) => (false, c)
  | (.ok (), c) => (true, { c with generation := c.generation + 1, state := .nobody })

/-- Whether input number `seq` under `ref` should be written. The number is
    taken here, before anything is written. -/
def input (c : Control) (ref : LeaseRef) (seq : Nat) (now : Instant) :
    Except Refusal Delivery × Control :=
  match c.check ref now with
  | (.error e, c) => (.error e, c)
  | (.ok (), c) =>
    match c.state with
    | .leased h id expires n =>
      if seq ≤ n then (.ok .repeated, c)
      else if seq ≠ n + 1 then (.error (.outOfOrder (n + 1) seq), c)
      else (.ok .fresh, { c with state := .leased h id expires seq })
    | _ => (.error .lost, c)

end Control

/-! What a terminal sends without anyone doing anything. -/

/-- An SGR report's first number says the pointer moved with no button held. -/
def movedWithoutAButton (button : Nat) : Bool :=
  button < 64 && button &&& 32 ≠ 0 && button &&& 3 == 3

def isDigit (b : UInt8) : Bool := 0x30 ≤ b && b ≤ 0x39

/-- `str::parse::<u16>`: digits, after one `+` at most, that fit 16 bits. A
    field that is not UTF-8 holds a byte that is no digit. -/
def parseU16 (field : Bytes) : Option Nat :=
  let digits := if field.head? = some 0x2b then field.tail else field
  if digits.isEmpty || !digits.all isDigit then none
  else
    let n := digits.foldl (fun n b => n * 10 + (b.toNat - 0x30)) 0
    if n < 2^16 then some n else none

/-- `presence`'s loop over what is left of the input, with the focus reports
    found so far; `fuel` is how often it may go round. -/
def presenceLoop : Nat → Bytes → Bytes → Option Bytes
  | _, focus, [] => some focus
  | 0, _, _ :: _ => none
  | fuel + 1, focus, 0x1b :: 0x5b :: 0x49 :: after =>
    presenceLoop fuel (focus ++ [0x1b, 0x5b, 0x49]) after
  | fuel + 1, focus, 0x1b :: 0x5b :: 0x4f :: after =>
    presenceLoop fuel (focus ++ [0x1b, 0x5b, 0x4f]) after
  | fuel + 1, focus, 0x1b :: 0x5b :: 0x3c :: body =>
    match body.span (· ≠ 0x4d) with
    | (_, []) => none
    | (fields, _ :: after) =>
      match (fields.splitOn 0x3b).map parseU16 with
      | [some button, some _, some _] =>
        if movedWithoutAButton button then presenceLoop fuel focus after else none
      | _ => none
  | _ + 1, _, _ :: _ => none

/-- The focus reports in `input`, when all of it only says where the person's
    pointer and focus are; `none` when any of it counts as typing. Each turn of
    the loop takes at least three bytes. -/
def presence (input : Bytes) : Option Bytes :=
  if input.isEmpty then none else presenceLoop input.length [] input

end Yardsort.Pty
