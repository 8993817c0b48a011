import Mathlib.Data.String.Basic
import Yardsort.Lib.Matching
import Yardsort.Lib.Table

/- Which transcript on disk is a conversation's (`locate` of `core/src/activity/digest.rs`).

   The ids a conversation's agents reported are the store's (`reported_ids`); what is on disk is a
   `Disk`: a transcript by its id, and the transcripts begun in the folder in a window of time. The
   conversations are those of one harness, each with its own record id. A read of the store that
   fails ends the whole of it, and is left out. -/
namespace Yardsort.Activity.Locate
open Yardsort.Lib

structure Session where
  id : String
  beganAt : Int
  endedAt : Option Int
  deriving DecidableEq

/-- A workspace's conversations with one harness, each record once. -/
structure Conversations where
  rows : List Session
  ids : (rows.map (·.id)).Nodup

/-- The transcripts of one harness. Each has one id, by which it is found and listed. -/
structure Disk (τ : Type) where
  idOf : τ → String
  byId : String → Option τ
  /-- Those begun in the folder between two moments, with when they were. -/
  begun : Int → Int → List (Int × τ)
  byId_id : ∀ id t, byId id = some t → idOf t = id

structure Asked where
  /-- The ids each conversation reported, by its record id. -/
  reported : String → List String
  /-- How long before a conversation began its transcript may start. -/
  slack : Int
  now : Int

section
variable {τ : Type} (disk : Disk τ) (asked : Asked)

def own (session : Session) : List τ := (asked.reported session.id).filterMap disk.byId

/-- A transcript that may be a conversation's, and how far apart the two began. -/
structure Pair (τ : Type) where
  apart : Int
  session : String
  id : String
  at_ : τ

def Pair.le (a b : Pair τ) : Bool :=
  a.apart < b.apart || (a.apart = b.apart && (a.session < b.session ||
    (a.session = b.session && a.id ≤ b.id)))

structure Found (τ : Type) where
  found : List (String × List τ)
  claimed : List String

def Found.claim : List (Pair τ) → Found τ → Found τ
  | [], f => f
  | pair :: pairs, f =>
    if f.found.any (·.1 = pair.session) || pair.id ∈ f.claimed then claim pairs f
    else claim pairs ⟨f.found ++ [(pair.session, [pair.at_])], pair.id :: f.claimed⟩

def reportedFound (sessions : List Session) : Found τ where
  found := (sessions.filter fun s => !(own disk asked s).isEmpty).map fun s =>
    (s.id, own disk asked s)
  claimed := sessions.flatMap fun s => asked.reported s.id

def unreported (sessions : List Session) : List Session :=
  sessions.filter fun s => (own disk asked s).isEmpty

/-- From when a conversation first began: a resume appends to the same transcript. -/
def window (s : Session) : List (Int × τ) :=
  disk.begun (s.beganAt - asked.slack) (s.endedAt.getD asked.now)

def pairs (sessions : List Session) : List (Pair τ) :=
  (unreported disk asked sessions).flatMap fun s =>
    (window disk asked s).filterMap fun (startedAt, at_) =>
      if disk.idOf at_ ∈ sessions.flatMap (fun s => asked.reported s.id) then none
      else some ⟨(startedAt - s.beganAt).natAbs, s.id, disk.idOf at_, at_⟩

def locate (sessions : Conversations) : List (String × List τ) :=
  (Found.claim ((pairs disk asked sessions.rows).mergeSort Pair.le)
    (reportedFound disk asked sessions.rows)).found

def given (sessions : Conversations) (session : Session) : List τ :=
  ((locate disk asked sessions).lookup session.id).getD []

end

end Yardsort.Activity.Locate
