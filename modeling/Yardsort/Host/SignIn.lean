import Yardsort.Server.Credentials

/- A host signed in at a server: `ensure`, `access` and `keep_refresh` of
   `remote-host/src/account.rs` over `Session` of `remote-client/src/lib.rs`, against
   `rotate` of the server's records.

   The refresh credential is in three places: the server's records, the process's session
   (`slot`) and the computer's credential store (`kept`). A call has the session's lock
   from `ask` on, so there is one at a time (`call`): its request is served or not, and
   its answer arrives or not. A request that was dropped is not served later. Taking new
   credentials into the session and keeping them happen without a pause, but the process
   can end in between; keeping does not fail. A secret is named by its hash. -/
namespace Yardsort.Host.SignIn
open Yardsort.Lib Yardsort.Server.Credentials

def ACCESS_TTL_MS : Nat := 15 * 60000

def REFRESH_TTL_MS : Nat := 90 * 24 * 60 * 60000

def REFRESH_MARGIN_MS : Nat := 60000

def issue (access refresh : TokenHash) (now : Int) : Issued :=
  { access := access
    accessExpiresAt := now + ACCESS_TTL_MS
    refresh := refresh
    refreshExpiresAt := now + REFRESH_TTL_MS }

/-- A signed-in device's credentials, refreshed when its access is about to lapse. -/
structure Session where
  access : TokenHash
  /-- On this process's clock. -/
  refreshAt : Nat
  refresh : TokenHash

def Session.new (issued : Issued) (clock : Nat) : Session :=
  { access := issued.access
    refreshAt := clock + (ACCESS_TTL_MS - REFRESH_MARGIN_MS)
    refresh := issued.refresh }

def accepted : Rotation → Bool
  | .rotated _ | .retried _ => true
  | .reused _ | .expired | .revoked | .unknown => false

inductive Call where
  | asked (refresh : TokenHash)
  | answered (issued : Issued) (outcome : Rotation)
  /-- The session has the new credentials, and they are not kept yet. -/
  | taken (issued : Issued)

structure World where
  server : State
  now : Int
  kept : TokenHash
  slot : Option Session
  clock : Nat
  call : Option Call
  /-- Access the process made requests with. -/
  handed : List TokenHash
  /-- Every secret drawn so far. -/
  drawn : List TokenHash

inductive Action where
  /-- A call takes the lock: access to hand out, or a refresh to send. -/
  | ask
  | serve (access refresh : TokenHash)
  | receive
  | keep
  | drop
  | crash
  /-- A request with access handed out earlier reaches the server. -/
  | use (access : TokenHash)
  | later (server process : Nat)
  deriving DecidableEq

namespace World

/-- `ensure`, then `Session::access`: resumed from the store, refreshed when it is due, or as
    it is. -/
def ask (s : World) : World :=
  match s.slot with
  | none => { s with call := some (.asked s.kept) }
  | some session =>
    if session.refreshAt ≤ s.clock then { s with call := some (.asked session.refresh) }
    else { s with handed := session.access :: s.handed }

def serve (s : World) (refresh : TokenHash) (issued : Issued) : World :=
  let (outcome, server) := s.server.rotate refresh issued s.now
  { s with
    server := server
    call := some (.answered issued outcome)
    drawn := issued.access :: issued.refresh :: s.drawn }

def receive (s : World) (issued : Issued) (outcome : Rotation) : World :=
  if accepted outcome then
    { s with slot := some (.new issued s.clock), call := some (.taken issued) }
  else { s with call := none }

/-- The new refresh credential is kept, and the access handed out. -/
def keep (s : World) (issued : Issued) : World :=
  { s with kept := issued.refresh, call := none, handed := issued.access :: s.handed }

def step (s : World) : Action → Option World
  | .ask => if s.call = none then some s.ask else none
  | .serve access refresh => match s.call with
    | some (.asked presented) =>
      if access ∉ s.drawn ∧ refresh ∉ s.drawn then
        some (s.serve presented (issue access refresh s.now))
      else none
    | _ => none
  | .receive => match s.call with
    | some (.answered issued outcome) => some (s.receive issued outcome)
    | _ => none
  | .keep => match s.call with
    | some (.taken issued) => some (s.keep issued)
    | _ => none
  | .drop => match s.call with
    | some (.asked _) | some (.answered _ _) => some { s with call := none }
    | _ => none
  | .crash => some { s with slot := none, call := none }
  | .use access =>
    if access ∈ s.handed then some { s with server := (s.server.present access).2 } else none
  | .later server process => some { s with now := s.now + server, clock := s.clock + process }

end World

def signedIn (device : Device) (access refresh : TokenHash) (now : Int) (clock : Nat) : World :=
  let issued := issue access refresh now
  { server := State.issue ⟨{ device with revoked := none }, fun _ => none, fun _ => none⟩ issued
    now := now
    kept := refresh
    slot := some (.new issued clock)
    clock := clock
    call := none
    handed := []
    drawn := [access, refresh] }

/-- The call has credentials the server issued and the store does not have. -/
def World.pending (s : World) : Bool :=
  match s.call with
  | some (.answered _ outcome) => accepted outcome
  | some (.taken _) => true
  | some (.asked _) | none => false

/-- An answer is lost: cancelled, never arrived, or its process ended before it was kept. -/
def Loses (s : World) (a : Action) : Prop := s.pending = true ∧ (a = .drop ∨ a = .crash)

/-- Each lost answer of the run is followed by a refresh whose answer arrives and is kept. -/
def Followed : World → List Action → Prop
  | _, [] => True
  | s, a :: as =>
    (Loses s a → Action.keep ∈ as) ∧ ∀ s', s.step a = some s' → Followed s' as

/-- `rotate` would accept this credential, unless it lapsed before it was spent. -/
def Accepted (s : World) (refresh : TokenHash) : Prop :=
  (∃ row, s.server.refresh refresh = some row ∧ row.spentAt = none ∧ row.expiresAt ≤ s.now) ∨
    ∀ issued, accepted (s.server.rotate refresh issued s.now).1 = true

end Yardsort.Host.SignIn
