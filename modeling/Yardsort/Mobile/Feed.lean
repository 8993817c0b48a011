import Yardsort.Lib.Run
import Yardsort.Remote.Model

/- A workspace's activity on the phone (`ActivityFeed`, `apps/mobile/src/lib/activity.ts`, with
   `Subscription` of `packages/remote-client/src/channel.ts`).

   Code between two awaits runs without interruption. A step is a call, a batch reaching a
   subscription, or what an awaited answer sets off; an answer to `subscribe` makes the
   subscription at once (`subscribed`), and what waited for it goes on later (`continues`).

   The computer's side is what it recorded in the workspace, in its order. A cursor is a number of
   rows: `newer` names the last of so many, `older` the row after so many. What it answers is read
   off some of the rows recorded so far, so that more may have been recorded since; answers to one
   channel's requests come in the order asked. How many rows a page holds is a parameter, the same
   each time for the same place.

   What only the screen shows (`loaded`, `following`, `problem`) is left out. -/
namespace Yardsort.Mobile.Feed
open Yardsort.Lib Remote

def MAX_KEPT : Nat := 300

def rowIds (rows : List (Option ActivityEvent)) : List EventId :=
  rows.filterMap (·.map (·.id))

/-- What was recorded in the workspace; each event has an id of its own. -/
structure Log where
  rows : List (Option ActivityEvent)
  once : (rowIds rows).Nodup

namespace Log

def new : Log := ⟨[], .nil⟩

def length (log : Log) : Nat := log.rows.length

def shown (log : Log) (lo hi : Nat) : List ActivityEvent :=
  ((log.rows.take hi).drop lo).filterMap id

def record (log : Log) (row : Option ActivityEvent) : Option Log :=
  if h : (rowIds (log.rows ++ [row])).Nodup then some ⟨log.rows ++ [row], h⟩ else none

end Log

structure Paging where
  back : Nat → Nat
  some_ : ∀ n, 0 < n → 0 < back n
  within : ∀ n, back n ≤ n

structure Page where
  events : List ActivityEvent
  older : Option Nat
  newer : Option Nat

def Paging.page (paging : Paging) (log : Log) (n : Nat) : Page where
  events := log.shown (n - paging.back n) n
  older := if n - paging.back n = 0 then none else some (n - paging.back n)
  newer := if n = 0 then none else some n

/-! ## The feed -/

inductive Phase where
  /-- For `#subscribe` from where the feed got to. -/
  | catchingUp (after : Nat)
  | listing
  /-- For `#subscribe` after the first page. -/
  | subscribing (after : Option Nat)
  | subscribed (i : Nat)
  deriving DecidableEq

structure Follow where
  run : Nat
  phase : Phase

/-- A call of `older`, and how often the feed had been cleared then. -/
structure Older where
  run : Nat
  cursor : Nat
  resets : Nat

structure Subscription where
  run : Nat
  newer : Option Nat
  place : Nat
  ended : Bool

structure State where
  log : Log
  events : List ActivityEvent
  hasOlder : Bool
  seen : List EventId
  older : Option Nat
  newer : Option Nat
  subscription : Option Nat
  channel : Option Nat
  run : Nat
  follows : List Follow
  olders : List Older
  subscriptions : List Subscription
  /-- How often the feed was cleared, and whether its oldest events went since. -/
  resets : Nat
  cut : Bool

def State.new : State where
  log := .new
  events := []
  hasOlder := false
  seen := []
  older := none
  newer := none
  subscription := none
  channel := none
  run := 0
  follows := []
  olders := []
  subscriptions := []
  resets := 0
  cut := false

namespace State

def fresh (s : State) (events : List ActivityEvent) : List ActivityEvent :=
  events.filter fun e => e.id ∉ s.seen

/-- What `#add` makes of all there is then, with the ids of it. -/
def keeps (s : State) (all : List ActivityEvent) (seen : List EventId) : State :=
  if MAX_KEPT < all.length then
    let dropped := all.take (all.length - MAX_KEPT)
    { s with
      seen := seen.filter fun id => id ∉ dropped.map (·.id)
      events := all.drop (all.length - MAX_KEPT)
      older := none
      hasOlder := false
      cut := true }
  else { s with seen := seen, events := all, hasOlder := s.older.isSome }

def addBefore (s : State) (events : List ActivityEvent) : State :=
  if s.fresh events = [] then s
  else s.keeps (s.fresh events ++ s.events) (s.seen ++ (s.fresh events).map (·.id))

def addAfter (s : State) (events : List ActivityEvent) : State :=
  if s.fresh events = [] then s
  else s.keeps (s.events ++ s.fresh events) (s.seen ++ (s.fresh events).map (·.id))

def reset (s : State) : State :=
  { s with
    seen := []
    older := none
    newer := none
    events := []
    hasOlder := false
    resets := s.resets + 1
    cut := false }

def follow (s : State) (channel : Nat) : State :=
  { s with
    run := s.run + 1
    channel := some channel
    follows := s.follows ++ [⟨s.run + 1, match s.newer with
      | some after => .catchingUp after
      | none => .listing⟩] }

/-- A subscription is ended here: no batch of it is taken in any more. -/
def ends (s : State) (i : Nat) : State :=
  { s with subscriptions := s.subscriptions.modify i fun sub => { sub with ended := true } }

def stop (s : State) : State :=
  let stopped : State := { s with run := s.run + 1, channel := none, subscription := none }
  match s.subscription with
  | none => stopped
  | some i => stopped.ends i

def asksOlder (s : State) : State :=
  match s.channel, s.older with
  | some _, some cursor =>
    { s with olders := s.olders ++ [⟨s.run, cursor, s.resets⟩] }
  | _, _ => s

def drops (s : State) (k : Nat) : State := { s with follows := s.follows.eraseIdx k }

def refused (s : State) (k : Nat) (f : Follow) : State :=
  match f.phase with
  | .catchingUp _ =>
    if f.run = s.run then { s.reset with follows := s.follows.set k { f with phase := .listing } }
    else s.drops k
  | .listing | .subscribing _ | .subscribed _ => s.drops k

def listed (s : State) (k : Nat) (f : Follow) (page : Page) : State :=
  if f.run = s.run then
    let s : State := { s with older := page.older, newer := page.newer }.addAfter page.events
    { s with
      hasOlder := s.older.isSome
      follows := s.follows.set k { f with phase := .subscribing page.newer } }
  else s.drops k

def subscribed (s : State) (k : Nat) (f : Follow) (newer : Option Nat) (place : Nat) : State :=
  { s with
    subscriptions := s.subscriptions ++ [⟨f.run, newer, place, false⟩]
    follows := s.follows.set k { f with phase := .subscribed s.subscriptions.length } }

/-- What of `#subscribe` is after its await. -/
def continues (s : State) (k : Nat) (f : Follow) (i : Nat) (sub : Subscription) : State :=
  if f.run = s.run then
    { s with
      subscription := some i
      newer := sub.newer.or s.newer
      follows := s.follows.eraseIdx k }
  else (s.ends i).drops k

def turned (s : State) (page : Page) : State :=
  let s : State := { s with older := page.older }.addBefore page.events
  { s with hasOlder := s.older.isSome }

def paged (s : State) (k : Nat) (o : Older) (page : Page) : State :=
  let s : State := { s with olders := s.olders.eraseIdx k }
  if o.run = s.run then s.turned page else s

def batch (s : State) (i : Nat) (sub : Subscription) (place : Nat) : State :=
  let taken : State :=
    { s with
      subscriptions :=
        s.subscriptions.set i { sub with newer := some place, place := place }
      newer := some place }
  taken.addAfter (s.log.shown sub.place place)

def ended (s : State) (i : Nat) (sub : Subscription) : State :=
  if sub.run = s.run then { s.ends i with subscription := none } else s.ends i

end State

inductive Act where
  | recorded (row : Option ActivityEvent)
  | follow (channel : Nat)
  | stop
  | older
  | refused (k : Nat)
  | unanswered (k : Nat)
  /-- Its first page came, read when so many rows had been recorded. -/
  | listed (k : Nat) (place : Nat)
  | subscribed (k : Nat) (place : Nat)
  | continues (k : Nat)
  /-- The page the `k`th call of `older` that waits came, or did not. -/
  | paged (k : Nat)
  | unpaged (k : Nat)
  | batch (i : Nat) (place : Nat)
  | ended (i : Nat)

def Phase.waits : Phase → Bool
  | subscribed _ => false
  | catchingUp _ | listing | subscribing _ => true

/-- Where a subscription starts: after the cursor it was asked from; without one, from now. -/
def starts (log : Log) (place : Nat) : Phase → Option (Option Nat × Nat)
  | .catchingUp after | .subscribing (some after) => some (some after, after)
  | .subscribing none =>
    if place ≤ log.length then some (if place = 0 then none else some place, place) else none
  | .listing | .subscribed _ => none

def step (paging : Paging) (s : State) : Act → Option State
  | .recorded row => do
    let log ← s.log.record row
    some { s with log := log }
  | .follow channel => some (s.follow channel)
  | .stop => some s.stop
  | .older => some s.asksOlder
  | .refused k => do
    let f ← s.follows[k]?
    if f.phase.waits then some (s.refused k f) else none
  | .unanswered k => do
    let f ← s.follows[k]?
    if f.phase.waits then some (s.drops k) else none
  | .listed k place => do
    let f ← s.follows[k]?
    if f.phase = .listing ∧ place ≤ s.log.length then
      some (s.listed k f (paging.page s.log place))
    else none
  | .subscribed k place => do
    let f ← s.follows[k]?
    let start ← starts s.log place f.phase
    some (s.subscribed k f start.1 start.2)
  | .continues k => do
    let f ← s.follows[k]?
    match f.phase with
    | .subscribed i => do
      let sub ← s.subscriptions[i]?
      some (s.continues k f i sub)
    | .catchingUp _ | .listing | .subscribing _ => none
  | .paged k => do
    let o ← s.olders[k]?
    if (s.olders.take k).all fun earlier => earlier.run ≠ o.run then
      some (s.paged k o (paging.page s.log o.cursor))
    else none
  | .unpaged k =>
    if k < s.olders.length then some { s with olders := s.olders.eraseIdx k } else none
  | .batch i place => do
    let sub ← s.subscriptions[i]?
    if sub.ended = false ∧ sub.place < place ∧ place ≤ s.log.length then
      some (s.batch i sub place)
    else none
  | .ended i => do
    let sub ← s.subscriptions[i]?
    if sub.ended then none else some (s.ended i sub)

/-- What is shown are the events of a stretch of what the computer recorded, no more than may be
    kept; and where older pages are offered, the next begins right before it. -/
structure Exact (s : State) : Prop where
  contiguous : ∃ lo hi, lo ≤ hi ∧ hi ≤ s.log.length ∧ s.events = s.log.shown lo hi
  once : (s.events.map (·.id)).Nodup
  bounded : s.events.length ≤ MAX_KEPT
  older : s.hasOlder = true → ∃ lo hi, s.older = some lo ∧ lo ≤ hi ∧ hi ≤ s.log.length ∧
    s.events = s.log.shown lo hi

/-- Where a step goes well:
    - a batch reaches a subscription of the current run;
    - a page that `older` waited for comes to a feed that was not cleared since, and if its oldest
      events went, some event of the page can be shown. -/
def Orderly (paging : Paging) (s : State) : Act → Prop
  | .batch i _ => ∀ sub ∈ s.subscriptions[i]?, sub.run = s.run
  | .paged k => ∀ o ∈ s.olders[k]?, o.run = s.run → o.resets = s.resets ∧
      (s.cut = false ∨ (paging.page s.log o.cursor).events ≠ [])
  | _ => True

end Yardsort.Mobile.Feed
