import Yardsort.Server.Credentials

/- `PgRecords::access` and `PgRecords::rotate` of `server/src/postgres.rs`, statement by
   statement, over the tables of `server/migrations/`: any number of calls for the
   credentials of one device, each on a connection of its own.

   The isolation is READ COMMITTED. A statement sees the rows committed when it starts.
   One that locks or changes a row waits until no other transaction has it locked, and
   then takes the row as it is committed by then; of every other row it joined it keeps
   what it saw at the start, such as the successor's in the first statement of
   `rotate`. Locks are held to the end of the transaction, and what it wrote is seen
   from its commit on. A call can be given up at any point: the connection breaks, or
   the database ends one of two that wait for each other. -/
namespace Yardsort.Server.Credentials
open Yardsort.Lib

def RevokeReason.spelled : RevokeReason → String
  | .byOwner => "byOwner"
  | .refreshReused => "refreshReused"
  | .byOperator => "byOperator"

def RevokeReason.ofSpelled : Option String → RevokeReason
  | some "refreshReused" => .refreshReused
  | some "byOperator" => .byOperator
  | _ => .byOwner

structure DeviceRow where
  id : String
  account : AccountId
  name : String
  kind : DeviceKind
  platform : Platform
  createdAt : Int
  lastSeenAt : Option Int
  revokedAt : Option Int
  revokedReason : Option String

def DeviceRow.device (row : DeviceRow) : Device :=
  { id := row.id
    account := row.account
    name := row.name
    kind := row.kind
    platform := row.platform
    createdAt := row.createdAt
    lastSeenAt := row.lastSeenAt
    revoked := row.revokedAt.map fun time => ⟨time, .ofSpelled row.revokedReason⟩ }

structure RefreshRow where
  expiresAt : Int
  spentAt : Option Int
  successorRefresh : Option TokenHash
  successorAccess : Option TokenHash
  retried : Bool
  deriving DecidableEq

/-- The device's row and those of its credentials. A row of `access_credentials` is what
    `MemoryRecords` keeps of one. -/
structure Tables where
  device : DeviceRow
  access : TokenHash → Option Access
  refresh : TokenHash → Option RefreshRow

def Tables.issue (t : Tables) (issued : Issued) : Option Tables :=
  if (t.access issued.access).isSome ∨ (t.refresh issued.refresh).isSome then none
  else some
    { t with
      access := Function.update t.access issued.access (some ⟨issued.accessExpiresAt, false⟩)
      refresh := Function.update t.refresh issued.refresh
        (some ⟨issued.refreshExpiresAt, none, none, none, false⟩) }

/-- The row the join adds for the successor, as the statement sees it. -/
def Tables.successor (t : Tables) (r : RefreshRow) : Option (TokenHash × RefreshRow) :=
  r.successorRefresh.bind fun hash => (t.refresh hash).map (hash, ·)

structure Found where
  device : Device
  expiresAt : Int
  spentAt : Option Int
  retried : Bool
  successorAccess : Option TokenHash
  successorUnspent : Bool
  deriving DecidableEq

/-- The two rows it locked, as they are now, beside the joined one, as it was. -/
def Tables.found (t : Tables) (r : RefreshRow) (joined : Option (TokenHash × RefreshRow)) : Found :=
  { device := t.device.device
    expiresAt := r.expiresAt
    spentAt := r.spentAt
    retried := r.retried
    successorAccess := r.successorAccess
    successorUnspent := joined.any fun (hash, s) =>
      r.successorRefresh = some hash && s.spentAt.isNone }

def Found.mayRetry (f : Found) (now : Int) : Bool :=
  f.device.revoked.isNone && f.successorUnspent &&
    f.spentAt.any fun time => !f.retried && now - time < REFRESH_RETRY_MS

def Tables.deleteRefresh (t : Tables) (hash : Option TokenHash) : Tables :=
  match hash with
  | none => t
  | some hash => { t with refresh := Function.update t.refresh hash none }

def Tables.deleteAccess (t : Tables) (hash : Option TokenHash) : Tables :=
  match hash with
  | none => t
  | some hash => { t with access := Function.update t.access hash none }

def Tables.retry (t : Tables) (refresh : TokenHash) (issued : Issued) : Option Tables :=
  let t := t.deleteRefresh ((t.refresh refresh).bind (·.successorRefresh))
  let t := t.deleteAccess ((t.refresh refresh).bind (·.successorAccess))
  (t.issue issued).map fun t =>
    { t with
      refresh := modify t.refresh refresh fun row =>
        { row with retried := true
                   successorRefresh := some issued.refresh
                   successorAccess := some issued.access } }

def Tables.revoke (t : Tables) (now : Int) : Tables :=
  { t with
    device := { t.device with revokedAt := some now
                              revokedReason := some RevokeReason.refreshReused.spelled } }

/-- What can no longer matter: lapsed access, and spent refresh credentials that lapsed. -/
def Tables.clean (t : Tables) (now : Int) : Tables :=
  { t with
    access := fun hash => (t.access hash).filter fun row => !decide (row.expiresAt ≤ now)
    refresh := fun hash => (t.refresh hash).filter fun row =>
      !(row.spentAt.isSome && decide (row.expiresAt ≤ now)) }

def Tables.spend (t : Tables) (refresh : TokenHash) (issued : Issued) (now : Int) : Option Tables :=
  let t :=
    { t with
      refresh := modify t.refresh refresh fun row =>
        { row with spentAt := some now
                   successorRefresh := some issued.refresh
                   successorAccess := some issued.access } }
  (t.issue issued).map (·.clean now)

def Tables.commit (t : Tables) (refresh : TokenHash) (issued : Issued) (now : Int) (f : Found)
    (retry : Bool) : Option (Rotation × Tables) :=
  if f.device.revoked.isSome then some (.revoked, t)
  else if retry then (t.retry refresh issued).map (.retried f.device, ·)
  else if f.spentAt.isSome then some (.reused f.device.account, t.revoke now)
  else if f.expiresAt ≤ now then some (.expired, t)
  else (t.spend refresh issued now).map (.rotated f.device, ·)

inductive RowKey where
  | device
  | access (hash : TokenHash)
  | refresh (hash : TokenHash)
  deriving DecidableEq

inductive Phase where
  | asked
  /-- `access`: read, and not used yet. -/
  | unclaimed
  /-- Its update has begun, and joined the device's row as it was then. -/
  | claiming (device : Device)
  /-- `rotate`: its first statement waits for the credential's row, then for the device's. -/
  | wantsRefresh (joined : Option (TokenHash × RefreshRow))
  | wantsDevice (joined : Option (TokenHash × RefreshRow))
  | selected (found : Found)
  /-- A possible retry: the successor's access credential is being locked. -/
  | wantsAccess (found : Found) (access : TokenHash)
  /-- A retry: its successor's row is being deleted. -/
  | dropping (found : Found) (access : TokenHash)
  | decided (found : Found) (retry : Bool) (locked : List RowKey)
  | atEnd
  deriving DecidableEq

structure Task where
  call : Call
  phase : Phase

def Task.locks : Task → List RowKey
  | ⟨.rotate refresh _ _, .wantsDevice _⟩ => [.refresh refresh]
  | ⟨.rotate refresh _ _, .selected _⟩ => [.refresh refresh, .device]
  | ⟨.rotate refresh _ _, .wantsAccess _ _⟩ => [.refresh refresh, .device]
  | ⟨.rotate refresh _ _, .dropping _ access⟩ => [.refresh refresh, .device, .access access]
  | ⟨.rotate refresh _ _, .decided _ _ locked⟩ => .refresh refresh :: .device :: locked
  | _ => []

/-- What a call's next statement, or the end of its wait, comes to. -/
inductive Move where
  | goes (phase : Phase)
  | answers (answer : Answer) (tables : Tables)
  | fails

/-- `PgRecords::access`, whose statements are each a transaction. -/
def accessMove (t : Tables) (free : RowKey → Bool) (access : TokenHash) : Phase → Option Move
  | .asked =>
    match t.access access with
    | none => some (.answers (.access none) t)
    | some row =>
      if row.used then some (.answers (.access (some (t.device.device, row.expiresAt))) t)
      else some (.goes .unclaimed)
  | .unclaimed =>
    match t.access access with
    | none => some (.answers (.access none) t)
    | some _ => some (.goes (.claiming t.device.device))
  | .claiming device =>
    if free (.access access) then
      match t.access access with
      | none => some (.answers (.access none) t)
      | some row =>
        some (.answers (.access (some (device, row.expiresAt)))
          { t with access := modify t.access access fun row => { row with used := true } })
    else none
  | _ => none

def rotateMove (t : Tables) (free : RowKey → Bool) (refresh : TokenHash) (issued : Issued)
    (now : Int) : Phase → Option Move
  | .asked =>
    match t.refresh refresh with
    | none => some (.answers (.rotation .unknown) t)
    | some r => some (.goes (.wantsRefresh (t.successor r)))
  | .wantsRefresh joined =>
    if free (.refresh refresh) then
      match t.refresh refresh with
      | none => some (.answers (.rotation .unknown) t)
      | some _ => some (.goes (.wantsDevice joined))
    else none
  | .wantsDevice joined =>
    if free .device then
      match t.refresh refresh with
      | none => some (.answers (.rotation .unknown) t)
      | some r => some (.goes (.selected (t.found r joined)))
    else none
  | .selected f =>
    match f.successorAccess.filter fun _ => f.mayRetry now with
    | none => some (.goes (.decided f false []))
    | some access =>
      if (t.access access).isSome then some (.goes (.wantsAccess f access))
      else some (.goes (.decided f false []))
  | .wantsAccess f access =>
    if free (.access access) then
      match t.access access with
      | none => some (.goes (.decided f false []))
      | some row =>
        if row.used then some (.goes (.decided f false [.access access]))
        else some (.goes (.dropping f access))
    else none
  | .dropping f access =>
    match (t.refresh refresh).bind t.successor with
    | none => some (.goes (.decided f true [.access access]))
    | some (successor, _) =>
      if free (.refresh successor) then
        some (.goes (.decided f true [.access access, .refresh successor]))
      else none
  | .decided f retry _ =>
    match t.commit refresh issued now f retry with
    | none => some .fails
    | some (outcome, t') => some (.answers (.rotation outcome) t')
  | _ => none

def Task.move (t : Tables) (free : RowKey → Bool) (task : Task) : Option Move :=
  match task.call with
  | .access access => accessMove t free access task.phase
  | .rotate refresh issued now => rotateMove t free refresh issued now task.phase

/-- What is committed, the calls under way by when they were made, and what was answered. -/
structure Database where
  tables : Tables
  tasks : List Task
  answered : List (Call × Answer)

namespace Database

def start (tables : Tables) : Database := ⟨tables, [], []⟩

def free (s : Database) (i : Nat) (row : RowKey) : Bool :=
  s.tasks.zipIdx.all fun (task, j) => j = i || row ∉ task.locks

def apply (s : Database) (i : Nat) (task : Task) : Move → Database
  | .goes phase => { s with tasks := s.tasks.set i { task with phase } }
  | .answers answer tables =>
    { tables
      tasks := s.tasks.set i { task with phase := .atEnd }
      answered := s.answered ++ [(task.call, answer)] }
  | .fails => { s with tasks := s.tasks.set i { task with phase := .atEnd } }

inductive Act where
  | call (call : Call)
  | go (task : Nat)
  | giveUp (task : Nat)

def step (s : Database) : Act → Option Database
  | .call call => some { s with tasks := s.tasks ++ [⟨call, .asked⟩] }
  | .go i => s.tasks[i]?.bind fun task =>
      (task.move s.tables (s.free i)).map (s.apply i task)
  | .giveUp i => s.tasks[i]?.bind fun task =>
      if task.phase = .atEnd then none else some (s.apply i task .fails)

end Database

end Yardsort.Server.Credentials
