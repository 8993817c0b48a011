import Yardsort.Remote.Requests
import Yardsort.Remote.Store
import Yardsort.Remote.Window

/- The host's side of the remote protocol (`HostFacade` of `core/src/remote.rs`): an allowlisted
   facade, here over the store, which always answers. -/
namespace Yardsort.Remote
open Yardsort.Lib Yardsort.Proto Yardsort.Remote.Activity

structure HostFacade where
  store : Store

namespace HostFacade
variable (f : HostFacade) (grant : Grant)

def reachableProject (id : ProjectId) : Answer ProjectRow :=
  if !grant.reaches id then .error .notFound
  else match f.store.listProjects.find? (·.id = id.text) with
    | some project => .ok project
    | none => .error .notFound

def reachableWorkspace (id : WorkspaceId) : Answer (WorkspaceRow × ProjectRow) :=
  match (f.store.workspace id.text).filter (!·.forgotten) with
  | none => .error .notFound
  | some row => do
    let projectId ← localId row.projectId
    let project ← f.reachableProject grant projectId
    .ok (row, project)

def ownSession (workspace : WorkspaceRow) : Option SessionRecordId → Answer Unit
  | none => .ok ()
  | some session =>
    if (f.store.session session.text).any (·.workspaceId = workspace.id) then .ok ()
    else .error .notFound

def eventFilter (workspaceIds : List String) (session : Option SessionRecordId) : EventFilter :=
  ⟨workspaceIds, SHOWN_CLASS, session.map (·.text)⟩

section
variable (read : String → Payload)

def activity (params : ActivityListParams) : Answer ActivityPage := do
  let (workspace, _) ← f.reachableWorkspace grant params.workspace
  f.ownSession workspace params.session
  activityPage read f.store.events (eventFilter [workspace.id] params.session) params.cursor
    params.limit

end

/-- The workspaces a subscription follows: the one it names, when the grant reaches it and the
    conversation is its own, or else every one on show that the grant reaches. -/
def followed (workspace : Option WorkspaceId) (session : Option SessionRecordId) :
    Answer (List String) :=
  match workspace with
  | none =>
    .ok ((f.store.listWorkspaces.filter fun w =>
      match Proto.Id.new w.projectId with
      | .ok id => grant.reaches id
      | .error _ => false).map (·.id))
  | some workspace => do
    let (workspace, _) ← f.reachableWorkspace grant workspace
    f.ownSession workspace session
    .ok [workspace.id]

/-- Where a subscription starts: the number it follows on from, and the cursor naming it, when it
    names an event of the subscription's scope. -/
def subscriptionStart (params : ActivitySubscribeParams) : Answer (Nat × Option Cursor) := do
  let workspaces ← f.followed grant params.workspace params.session
  let filter := eventFilter workspaces params.session
  match params.after with
  | some cursor =>
    let (bound, seq) ← activityBound cursor
    match bound with
    | .after _ =>
      if f.store.events.eventMatches filter seq then .ok (seq, some cursor)
      else .error .cursorExpired
    -- An `older` cursor walks back; there is nothing to follow from it.
    | _ => .error (.new .invalidRequest "Follow on from a `newer` cursor.")
  | none =>
    match f.store.events.newestSeq with
    | none => .ok (0, none)
    | some now =>
      -- The scope's newest up to that one, not any recorded since: those follow.
      match (f.store.events.window filter (.before (now + 1)) 1).head? with
      | none => .ok (now, none)
      | some row => do
        let newer ← activityCursor 'n' row.seq
        .ok (now, some newer)

section
variable (read : String → Payload)

/-- What a subscription's scope recorded after `after`, oldest first, as many as fit in a frame,
    and how far that got. -/
def recordedAfter (workspace : Option WorkspaceId) (session : Option SessionRecordId)
    (after : Nat) : Answer (List ActivityEvent × Nat) := do
  let workspaces ← f.followed grant workspace session
  let window ← activityWindow read f.store.events (eventFilter workspaces session) (.after after)
    MAX_PAGE
  .ok (window.events, window.last.getD after)

end

end HostFacade

end Yardsort.Remote
