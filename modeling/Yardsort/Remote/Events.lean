import Mathlib.Data.List.Pairwise
import Yardsort.Remote.Proto

/- The recorded events of the store (`agent_events` in `core/src/store.rs`): adding one, linking
   those of a run to its conversation, and reading a window of them.

   A row's number is its place in the table: it is given when the row is added, and none is
   given twice (`Events.ordered`). -/
namespace Yardsort.Remote
open Yardsort.Lib

structure EventRow where
  seq : Nat
  id : String
  workspaceId : String
  sessionId : Option String
  runId : Option String
  occurredAt : Int64
  kind : String
  producer : String
  method : String
  fidelity : String
  /-- What makes a second delivery of the same fact a no-op. -/
  sourceKey : Option String
  privacyClass : String
  /-- JSON, whose shape depends on the kind. -/
  payload : String
  deriving DecidableEq

structure EventFilter where
  workspaceIds : List String
  privacyClass : String
  /-- Only this session's, when given. -/
  sessionId : Option String

/-- Where a window starts: at the newest, at the newest of those with a smaller number, or at the
    oldest of those with a larger one. -/
inductive EventBound where
  | newest
  | before (seq : Nat)
  | after (seq : Nat)

def EventFilter.admits (filter : EventFilter) (row : EventRow) : Bool :=
  row.workspaceId ∈ filter.workspaceIds && row.privacyClass = filter.privacyClass &&
    (filter.sessionId.isNone || row.sessionId = filter.sessionId)

def I64_MAX : Nat := 2 ^ 63 - 1

/-- The events kept, in the order of their numbers. -/
structure Events where
  rows : List EventRow
  ordered : rows.Pairwise (·.seq < ·.seq)
  numbered : ∀ row ∈ rows, 0 < row.seq ∧ row.seq < I64_MAX

instance : DecidableEq Events := fun a b =>
  decidable_of_iff (a.rows = b.rows) ⟨fun h => by cases a; cases b; cases h; rfl, congrArg _⟩

namespace Events

def empty : Events := ⟨[], .nil, fun _ h => (not_mem_nil h).elim⟩

def known (events : Events) (row : EventRow) : Bool :=
  events.rows.any fun old => old.id = row.id ||
    (row.sourceKey.isSome && old.producer = row.producer && old.sourceKey = row.sourceKey)

def Next (events : Events) (seq : Nat) : Prop :=
  (∀ row ∈ events.rows, row.seq < seq) ∧ 0 < seq ∧ seq < I64_MAX

instance (events : Events) (seq : Nat) : Decidable (events.Next seq) :=
  inferInstanceAs (Decidable (_ ∧ _ ∧ _))

def add (events : Events) (row : EventRow) : Option Events :=
  if h : events.Next row.seq then
    some (if events.known row then events
      else
        { rows := events.rows ++ [row]
          ordered := pairwise_append.mpr
            ⟨events.ordered, pairwise_singleton .., fun old hold new hnew =>
              mem_singleton.mp hnew ▸ h.1 old hold⟩
          numbered := fun old hold => by
            obtain hold | hold := mem_snoc.mp hold
            · exact events.numbered old hold
            · exact hold ▸ h.2 })
  else none

def linked (runId sessionId : String) (row : EventRow) : EventRow :=
  if row.runId = some runId ∧ row.sessionId = none then
    { row with sessionId := some sessionId }
  else row

theorem linked_seq (runId sessionId : String) (row : EventRow) :
    (linked runId sessionId row).seq = row.seq := by
  unfold linked
  split <;> rfl

/-- `link_run_session`: the events already written for the run are its conversation's. -/
def link (events : Events) (runId sessionId : String) : Events where
  rows := events.rows.map (linked runId sessionId)
  ordered := pairwise_map.mpr (events.ordered.imp fun h => by
    rw [linked_seq, linked_seq]
    exact h)
  numbered := fun row hrow => by
    obtain ⟨old, hold, rfl⟩ := mem_map.mp hrow
    rw [linked_seq]
    exact events.numbered old hold

def matching (events : Events) (filter : EventFilter) : List EventRow :=
  events.rows.filter filter.admits

/-- `events_window`: up to `limit` events on one side of a number, oldest first whichever side. -/
def window (events : Events) (filter : EventFilter) (bound : EventBound) (limit : Nat) :
    List EventRow :=
  match bound with
  | .newest => (((events.matching filter).filter (·.seq < I64_MAX)).reverse.take limit).reverse
  | .before seq => (((events.matching filter).filter (·.seq < seq)).reverse.take limit).reverse
  | .after seq => ((events.matching filter).filter (seq < ·.seq)).take limit

def newestSeq (events : Events) : Option Nat := events.rows.getLast?.map (·.seq)

/-- Whether the event at `seq` is still kept and a filter admits it. -/
def eventMatches (events : Events) (filter : EventFilter) (seq : Nat) : Bool :=
  events.rows.any fun row => row.seq = seq && filter.admits row

end Events

end Yardsort.Remote
