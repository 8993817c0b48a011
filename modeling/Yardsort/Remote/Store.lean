import Yardsort.Remote.Events
import Yardsort.Remote.Model

/- What a host's facade reads: the store's tables (`core/src/store.rs`).

   A table is the list of its rows in the order its queries give them, and its key is a key:
   no two rows have one id. -/
namespace Yardsort.Remote
open Yardsort.Lib

structure ProjectRow where
  id : String
  name : String
  rootPath : String
  removed : Bool

structure WorkspaceRow where
  id : String
  projectId : String
  kind : String
  name : String
  path : String
  archived : Bool
  forgotten : Bool

structure SessionRow where
  id : String
  workspaceId : String
  harnessId : String
  model : Option String
  effort : Option String
  title : String
  forkedFrom : Option String
  running : Bool
  exitCode : Option Int64
  ptySessionId : Option String
  startedAt : Int64
  endedAt : Option Int64

structure Store where
  /-- By their place in the list. -/
  projects : List ProjectRow
  /-- By project, and by their place in it. -/
  workspaces : List WorkspaceRow
  /-- Most recently started first. -/
  sessions : List SessionRow
  events : Events
  projectKey : (projects.map (·.id)).Nodup
  workspaceKey : (workspaces.map (·.id)).Nodup
  sessionKey : (sessions.map (·.id)).Nodup

namespace Store
variable (store : Store)

def listProjects : List ProjectRow := store.projects.filter fun p => !p.removed

/-- `workspaces`: those on show, of projects on show. -/
def listWorkspaces : List WorkspaceRow :=
  store.workspaces.filter fun w =>
    !w.forgotten && store.listProjects.any fun p => p.id = w.projectId

def workspace (id : String) : Option WorkspaceRow := store.workspaces.find? (·.id = id)

def session (id : String) : Option SessionRow := store.sessions.find? (·.id = id)

end Store

end Yardsort.Remote
