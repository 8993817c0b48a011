import Mathlib.Logic.Function.Basic
import Yardsort.Lib.Json
import Yardsort.Lib.Run
import Yardsort.Relay.Link

/- What tells a host that a device asks to pair: `tell_pairing` and `tell_pending` of
   `server/src/relay.rs`, in every instance of a server, and what the records say of the
   grants that wait and of where the hosts' links are.

   A link is in its instance's `hosts` while its `stage` is `attached`. Whoever tells,
   tells one grant after another, and each in three lock sections: it finds the link,
   remembers the grant in `told`, and queues the notice. A round has read what to tell
   from the records; a direct notice, or a signal's, has the one grant. Sections of
   different tasks come in any order.

   `noticed`, `links` and `pending` are not in the source. They keep what was queued on a
   link, and the links and waiting grants there were when a round read the records. -/
namespace Yardsort.Relay.Notices
open Yardsort.Lib Yardsort.Proto

abbrev Instance := String

/-- A `HostNotice` as the link carries it. -/
def pairingRequested (grant : GrantId) : Message :=
  linkMessage (.text NOTICE_CHANNEL
    (Json.object [("kind", Json.string "pairingRequested"), ("grant", Json.string grant.text)]))

structure LinkPlace where
  inst : Instance
  link : Nat

structure GrantRecord where
  host : HostId
  id : GrantId
  pending : Bool
  expiresAt : Int

/-! ## Links and what tells them -/

/-- `noted` is past `put_link` and not yet in `hosts`. -/
inductive Stage where
  | noted
  | attached
  | gone
  deriving DecidableEq

structure HostLink where
  inst : Instance
  host : HostId
  out : Outbox
  /-- The pairing requests this link was told of, so each is told once. -/
  told : List GrantId
  stage : Stage
  noticed : List GrantId

def HostLink.opened (l : HostLink) : Bool := l.stage = .attached && l.out.closing.isNone

/-- Where a teller is: `failed` is a round the records did not answer. -/
inductive Turn where
  | reading
  | next
  | found (link : Nat) (grant : GrantId)
  | remembered (link : Nat) (grant : GrantId)
  | ended
  | failed
  deriving DecidableEq

def Turn.queueing : Turn → Option (Nat × GrantId)
  | .remembered link grant => some (link, grant)
  | _ => none

structure Teller where
  inst : Instance
  round : Bool
  turn : Turn
  todo : List (HostId × GrantId)
  links : List Nat
  pending : List (HostId × GrantId)

structure World where
  now : Int
  grants : List GrantRecord
  places : HostId → Option LinkPlace
  links : List HostLink
  tellers : List Teller

inductive Action where
  | later (ms : Nat)
  | ask (host : HostId) (grant : GrantId) (expiresAt : Int)
  | settle (grant : GrantId)
  /-- A host's socket, as far as `put_link`. -/
  | note (inst : Instance) (host : HostId)
  | attach (link : Nat)
  /-- Its socket is closed, by anyone. -/
  | close (link : Nat) (reason : CloseReason)
  | detach (link : Nat)
  | forget (link : Nat)
  /-- Any other message is queued on it. -/
  | carry (link : Nat) (message : Message)
  | send (link : Nat)
  | notice (inst : Instance) (host : HostId) (grant : GrantId)
  | round (inst : Instance)
  | read (teller : Nat) (answered : Bool)
  | go (teller : Nat)

namespace World

def new : World := { now := 0, grants := [], places := fun _ => none, links := [], tellers := [] }

def waiting (w : World) : List (HostId × GrantId) :=
  (w.grants.filter fun g => g.pending && w.now < g.expiresAt).map fun g => (g.host, g.id)

def pendingOnLinks (w : World) (inst : Instance) : List (HostId × GrantId) :=
  w.waiting.filter fun p => (w.places p.1).any (·.inst = inst)

def attachedAt (w : World) (inst : Instance) : List Nat :=
  (List.range w.links.length).filter fun k =>
    w.links[k]?.any fun l => l.inst = inst && l.stage = .attached

def current (w : World) (inst : Instance) (host : HostId) : Option Nat :=
  w.links.findIdx? fun l => l.inst = inst && l.host = host && l.stage = .attached

def putLink (w : World) (k : Nat) (l : HostLink) : World := { w with links := w.links.set k l }

def putTeller (w : World) (i : Nat) (t : Teller) : World :=
  { w with tellers := w.tellers.set i t }

def attach (w : World) (k : Nat) (l : HostLink) : World :=
  let links := w.links.map fun x =>
    if x.inst = l.inst && x.host = l.host && x.stage = .attached then { x with stage := .gone }
    else x
  { w with links := links.set k { l with stage := .attached } }

def forget (w : World) (k : Nat) (l : HostLink) : World :=
  if (w.places l.host).any (·.link = k) then
    { w with places := Function.update w.places l.host none }
  else w

def read (w : World) (t : Teller) : Teller :=
  { t with
    turn := .next
    todo := w.pendingOnLinks t.inst
    links := w.attachedAt t.inst
    pending := w.waiting }

def go (w : World) (i : Nat) (t : Teller) : Option World :=
  match t.turn with
  | .next => match t.todo with
    | [] => some (w.putTeller i { t with turn := .ended })
    | (host, grant) :: rest => match w.current t.inst host with
      | none => some (w.putTeller i { t with todo := rest })
      | some k => some (w.putTeller i { t with todo := rest, turn := .found k grant })
  | .found k grant => match w.links[k]? with
    | none => none
    | some l =>
      if grant ∈ l.told then some (w.putTeller i { t with turn := .next })
      else
        some ((w.putLink k { l with told := grant :: l.told }).putTeller i
          { t with turn := .remembered k grant })
  | .remembered k grant => match w.links[k]? with
    | none => none
    | some l =>
      -- whether it was queued is not looked at
      let (queued, out) := l.out.push (pairingRequested grant)
      some ((w.putLink k { l with
        out := out
        noticed := if queued then grant :: l.noticed else l.noticed }).putTeller i
          { t with turn := .next })
  | .reading | .ended | .failed => none

def step (w : World) : Action → Option World
  | .later ms => some { w with now := w.now + ms }
  | .ask host grant expiresAt =>
    if ∀ g ∈ w.grants, g.id ≠ grant then
      some { w with grants := w.grants ++ [⟨host, grant, true, expiresAt⟩] }
    else none
  | .settle grant =>
    some { w with grants := w.grants.map fun g => if g.id = grant then { g with pending := false } else g }
  | .note inst host =>
    some { w with
      places := Function.update w.places host (some ⟨inst, w.links.length⟩)
      links := w.links ++ [⟨inst, host, .new, [], .noted, []⟩] }
  | .attach k => match w.links[k]? with
    | some l => if l.stage = .noted then some (w.attach k l) else none
    | none => none
  | .close k reason => match w.links[k]? with
    | some l => some (w.putLink k { l with out := l.out.close reason })
    | none => none
  | .detach k => match w.links[k]? with
    | some l => if l.stage = .attached then some (w.putLink k { l with stage := .gone }) else none
    | none => none
  | .forget k => match w.links[k]? with
    | some l => if l.stage = .gone then some (w.forget k l) else none
    | none => none
  | .carry k message => match w.links[k]? with
    | some l => some (w.putLink k { l with out := (l.out.push message).2 })
    | none => none
  | .send k => match w.links[k]? with
    | some l => l.out.next.map fun next => w.putLink k { l with out := next.2 }
    | none => none
  | .notice inst host grant =>
    if ∃ g ∈ w.grants, g.host = host ∧ g.id = grant then
      some { w with tellers := w.tellers ++ [⟨inst, false, .next, [(host, grant)], [], []⟩] }
    else none
  | .round inst => some { w with tellers := w.tellers ++ [⟨inst, true, .reading, [], [], []⟩] }
  | .read i answered => match w.tellers[i]? with
    | some t =>
      if t.turn = .reading then
        some (w.putTeller i (if answered then w.read t else { t with turn := .failed }))
      else none
    | none => none
  | .go i => match w.tellers[i]? with
    | some t => w.go i t
    | none => none

/-- Each open link was told of each grant at most once, and only of grants of its host. -/
def ToldOnce (w : World) : Prop :=
  ∀ (k : Nat) (l : HostLink), w.links[k]? = some l →
    l.noticed.Nodup ∧ ∀ grant ∈ l.noticed, ∃ g ∈ w.grants, g.host = l.host ∧ g.id = grant

/-- Once a round that the records answered has ended: a link that was in `hosts` when it read
    them, and is open, was told of every grant of its host that waited then. -/
def ToldAll (w : World) : Prop :=
  ∀ t ∈ w.tellers, t.turn = .ended → ∀ k ∈ t.links, ∀ l, w.links[k]? = some l →
    l.opened = true → ∀ grant, (l.host, grant) ∈ t.pending → grant ∈ l.noticed

end World

/-- What a teller is about to queue on an open link is not refused. -/
def Queues (w : World) (t : Teller) : Prop :=
  ∀ p ∈ t.turn.queueing, ∀ l ∈ w.links[p.1]?, l.opened = true →
    l.out.refuses (pairingRequested p.2) = false

/-- A grant that a round found waiting, and an open link it is for. -/
def Concerns (w : World) (t : Teller) (p : Nat × GrantId) : Bool :=
  p.1 ∈ t.links && w.links[p.1]?.any fun l => l.opened && (l.host, p.2) ∈ t.pending

/-- No one is between remembering a grant of this round's and queueing it. -/
def Alone (w : World) (t : Teller) : Prop :=
  ∀ u ∈ w.tellers, ∀ p ∈ u.turn.queueing, Concerns w t p = false

/-- The records name an instance as the place of each open link of its own that a grant waits
    for untold. -/
def Placed (w : World) (inst : Instance) : Prop :=
  ∀ k ∈ w.attachedAt inst, ∀ l ∈ w.links[k]?, l.opened = true →
    ∀ p ∈ w.waiting, p.1 = l.host → p.2 ∉ l.told → (w.places l.host).any (·.inst = inst) = true

/-- Where telling goes as it should. -/
def Careful (w : World) : Action → Prop
  | .go i => ∀ t ∈ w.tellers[i]?, Queues w t ∧ (t.turn = .next → t.todo = [] → Alone w t)
  | .read i true => ∀ t ∈ w.tellers[i]?, Placed w t.inst
  | _ => True

instance (w : World) (t : Teller) : Decidable (Queues w t) :=
  inferInstanceAs (Decidable (∀ p ∈ t.turn.queueing, ∀ l ∈ w.links[p.1]?, l.opened = true →
    l.out.refuses (pairingRequested p.2) = false))

instance (w : World) (t : Teller) : Decidable (Alone w t) :=
  inferInstanceAs (Decidable (∀ u ∈ w.tellers, ∀ p ∈ u.turn.queueing, Concerns w t p = false))

instance (w : World) (inst : Instance) : Decidable (Placed w inst) :=
  inferInstanceAs (Decidable (∀ k ∈ w.attachedAt inst, ∀ l ∈ w.links[k]?, l.opened = true →
    ∀ p ∈ w.waiting, p.1 = l.host → p.2 ∉ l.told → (w.places l.host).any (·.inst = inst) = true))

instance (w : World) : (a : Action) → Decidable (Careful w a)
  | .go i => inferInstanceAs (Decidable (∀ t ∈ w.tellers[i]?,
      Queues w t ∧ (t.turn = .next → t.todo = [] → Alone w t)))
  | .read i true => inferInstanceAs (Decidable (∀ t ∈ w.tellers[i]?, Placed w t.inst))
  | .read _ false | .later _ | .ask .. | .settle _ | .note .. | .attach _ | .close .. | .detach _
  | .forget _ | .carry .. | .send _ | .notice .. | .round _ => isTrue trivial

end Yardsort.Relay.Notices
