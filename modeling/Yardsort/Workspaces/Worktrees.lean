import Mathlib
import Yardsort.Lib.Run
import Yardsort.Lib.Table

/- Workspaces and their worktrees (`core/src/workspaces/mod.rs`, and `add_worktree` and
   `add_worktree_if_new` of `core/src/store.rs`): `create_named`, `open_branch`, `discard` and
   `adopt_unknown` as calls of any number of clients, over one set of repositories and one store.

   A git operation is one step and a store statement is one, and either may fail; which one fails
   is in the action. A repository is named by the id of its project. Worktrees are the linked ones
   that are still on disk, and rows are those of worktrees. Who made a worktree or a branch is kept
   beside it and read by no call. -/
namespace Yardsort.Workspaces
open Yardsort.Lib

abbrev Path := List String

inductive Maker where
  /-- Made with git, by hand or by another tool. -/
  | elsewhere
  | before
  | call (k : Nat)
  deriving DecidableEq

structure Worktree where
  repo : String
  path : Path
  branch : Option String
  maker : Maker
  deriving DecidableEq

structure Branch where
  repo : String
  name : String
  maker : Maker

structure WorkspaceRow where
  id : Nat
  projectId : String
  name : String
  path : Path
  branch : Option String
  /-- Set only when the branch was made for the workspace. -/
  baseBranch : Option String
  deriving DecidableEq

structure World where
  trees : List Worktree
  folders : (trees.map (·.path)).Nodup
  branches : List Branch
  rows : List WorkspaceRow
  onePerPath : (rows.map (·.path)).Nodup
  nextId : Nat
  ids : ∀ row ∈ rows, row.id < nextId
  idKey : (rows.map (·.id)).Nodup

structure Config where
  worktreeRoot : Path
  branchPrefix : String

def Config.branchFor (config : Config) (name : String) : String :=
  if config.branchPrefix = "" then name else config.branchPrefix ++ "/" ++ name

def candidate (wanted : String) : Nat → String
  | 0 => wanted
  | n + 1 => wanted ++ "-" ++ toString (n + 2)

namespace World

def branchExists (w : World) (repo branch : String) : Bool :=
  w.branches.any fun b => b.repo = repo && b.name = branch

def folderExists (w : World) (path : Path) : Bool := w.trees.any (·.path = path)

def checkedOut (w : World) (repo branch : String) : Bool :=
  w.trees.any fun t => t.repo = repo && t.branch = some branch

def worktreeAdd (w : World) (k : Nat) (repo : String) (path : Path) (branch : String) :
    Option World :=
  if h : path ∈ w.trees.map (·.path) then none
  else if w.branchExists repo branch then none
  else some { w with
    trees := w.trees ++ [⟨repo, path, some branch, .call k⟩]
    folders := nodup_snoc w.folders h
    branches := w.branches ++ [⟨repo, branch, .call k⟩] }

def worktreeAddExisting (w : World) (k : Nat) (repo : String) (path : Path) (branch : String) :
    Option World :=
  if h : path ∈ w.trees.map (·.path) then none
  else if !w.branchExists repo branch || w.checkedOut repo branch then none
  else some { w with
    trees := w.trees ++ [⟨repo, path, some branch, .call k⟩]
    folders := nodup_snoc w.folders h }

def worktreeRemove (w : World) (repo : String) (path : Path) : World :=
  { w with
    trees := w.trees.filter fun t => !(t.repo = repo && t.path = path)
    folders := (filter_sublist.map _).nodup w.folders }

def branchDelete (w : World) (repo branch : String) : World :=
  if w.checkedOut repo branch then w
  else { w with branches := w.branches.filter fun b => !(b.repo = repo && b.name = branch) }

def known (w : World) (path : Path) : Prop := path ∈ w.rows.map (·.path)

instance (w : World) (path : Path) : Decidable (w.known path) :=
  inferInstanceAs (Decidable (path ∈ w.rows.map (·.path)))

def addWorktree (w : World) (projectId name : String) (path : Path)
    (branch baseBranch : Option String) : Option (WorkspaceRow × World) :=
  if h : path ∈ w.rows.map (·.path) then none
  else
    let row : WorkspaceRow := ⟨w.nextId, projectId, name, path, branch, baseBranch⟩
    some (row, { w with
      rows := w.rows ++ [row]
      onePerPath := nodup_snoc w.onePerPath h
      nextId := w.nextId + 1
      ids := by
        intro r hr
        obtain hold | rfl := mem_snoc.mp hr
        · exact Nat.lt_succ_of_lt (w.ids r hold)
        · exact Nat.lt_succ_self _
      idKey := nodup_snoc w.idKey fun hmem => by
        obtain ⟨r, hr, heq⟩ := mem_map.mp hmem
        exact Nat.lt_irrefl _ (heq ▸ w.ids r hr) })

def removeWorktree (w : World) (id : Nat) : World :=
  { w with
    rows := w.rows.filter (·.id ≠ id)
    onePerPath := (filter_sublist.map _).nodup w.onePerPath
    ids := fun row h => w.ids row (mem_of_mem_filter h)
    idKey := (filter_sublist.map _).nodup w.idKey }

end World

/-- A worktree that is about to be made, or was made. `base` is set when its branch is new. -/
structure Creation where
  repo : String
  name : String
  path : Path
  branch : String
  base : Option String

inductive Wanted where
  | new (base : String)
  | existing (branch : String)

/-- The workspace to make in `dir`, `project_dir`, under `name` or a name that starts with it. -/
structure Plan where
  repo : String
  dir : Path
  name : String
  wanted : Wanted

def Plan.branch (plan : Plan) (config : Config) (n : Nat) : String :=
  match plan.wanted with
  | .new _ => config.branchFor (candidate plan.name n)
  | .existing branch => branch

def Plan.creation (plan : Plan) (config : Config) (n : Nat) : Creation where
  repo := plan.repo
  name := candidate plan.name n
  path := plan.dir ++ [candidate plan.name n]
  branch := plan.branch config n
  base := match plan.wanted with
    | .new base => some base
    | .existing _ => none

inductive Cause where
  /-- The row could not be added. -/
  | unrecorded (c : Creation)
  | discard (row : WorkspaceRow)

/-- What `undo` takes back, and the branch with it if the call made it. No folder has vanished, so
    that there is nothing to prune. -/
structure Undoing where
  repo : String
  path : Path
  branch : Option String
  cause : Cause

def Creation.undoing (c : Creation) : Undoing :=
  ⟨c.repo, c.path, c.base.map fun _ => c.branch, .unrecorded c⟩

def WorkspaceRow.undoing (row : WorkspaceRow) : Undoing :=
  ⟨row.projectId, row.path, row.baseBranch.bind fun _ => row.branch, .discard row⟩

structure WorktreeEntry where
  path : Path
  branch : Option String

def folderName (path : Path) : String := path.getLastD ""

/-- Where a call stands: what it does next, or what it returned. -/
inductive Pc where
  /-- `open_branch` asks whether there is such a branch. -/
  | checkBranch (plan : Plan)
  | probeBranch (plan : Plan) (n : Nat)
  | probeFolder (plan : Plan) (n : Nat)
  | add (c : Creation)
  /-- `record` adds the row. -/
  | insert (c : Creation)
  | mark (c : Creation) (row : WorkspaceRow)
  | prepare (c : Creation) (row : WorkspaceRow)
  | removeTree (u : Undoing)
  | deleteBranch (u : Undoing) (branch : String)
  /-- `discard` removes the row. -/
  | removeRow (row : WorkspaceRow)
  /-- `adopt_unknown` reads `workspace_paths`, and then what git lists. -/
  | paths (repo : String)
  | list (repo : String) (known : List Path)
  /-- `add_worktree_if_new` looks, and then adds. -/
  | look (repo : String) (entries : List WorktreeEntry)
  | adopt (repo : String) (entry : WorktreeEntry) (entries : List WorktreeEntry)
  | created (c : Creation) (row : WorkspaceRow)
  /-- The workspace was kept though it could not be prepared. -/
  | unprepared (c : Creation) (row : WorkspaceRow)
  /-- `record` failed, before or after the row was added. -/
  | unrecorded (c : Creation)
  | unmarked (c : Creation) (row : WorkspaceRow)
  | discarded (row : WorkspaceRow)
  | adopted
  /-- It returned an error, and had made and removed nothing. -/
  | refused
  /-- `adopt_unknown` returned an error. -/
  | gaveUp

def Pc.returned : Pc → Bool
  | created _ _ | unprepared _ _ | unrecorded _ | unmarked _ _ | discarded _ | adopted | refused
  | gaveUp => true
  | _ => false

def Undoing.undone (u : Undoing) : Pc :=
  match u.cause with
  | .unrecorded c => .unrecorded c
  | .discard row => .discarded row

def Plan.next (plan : Plan) (n : Nat) : Pc :=
  match plan.wanted with
  | .new _ => .probeBranch plan n
  | .existing _ => .probeFolder plan n

def World.unknown (w : World) (config : Config) (repo : String) (known : List Path) :
    List WorktreeEntry :=
  (w.trees.filter fun t => t.repo = repo && !(t.path ∈ known) &&
    config.worktreeRoot.isPrefixOf t.path).map fun t => ⟨t.path, t.branch⟩

/-- One step of the call of thread `k`: the world after it, and where the call stands then. -/
def perform (config : Config) (w : World) (k : Nat) (ok : Bool) : Pc → World × Pc
  | .checkBranch plan =>
    (w, if ok && w.branchExists plan.repo (plan.branch config 0) then .probeFolder plan 0
      else .refused)
  | .probeBranch plan n =>
    (w, if !ok then .refused
      else if w.branchExists plan.repo (plan.branch config n) then .probeBranch plan (n + 1)
      else .probeFolder plan n)
  | .probeFolder plan n =>
    -- What is in the way may be no worktree.
    (w, if ok && !w.folderExists (plan.creation config n).path then .add (plan.creation config n)
      else plan.next (n + 1))
  | .add c =>
    match if !ok then none
      else if c.base.isSome then w.worktreeAdd k c.repo c.path c.branch
      else w.worktreeAddExisting k c.repo c.path c.branch with
    | none => (w, .refused)
    | some w' => (w', .insert c)
  | .insert c =>
    match if ok then w.addWorktree c.repo c.name c.path (some c.branch) c.base else none with
    | none => (w, .removeTree c.undoing)
    | some (row, w') => (w', .mark c row)
  | .mark c row => (w, if ok then .prepare c row else .unmarked c row)
  | .prepare c row => (w, if ok then .created c row else .unprepared c row)
  | .removeTree u =>
    (if ok then w.worktreeRemove u.repo u.path else w,
      match u.branch with
      | none => u.undone
      | some branch => .deleteBranch u branch)
  | .deleteBranch u branch => (if ok then w.branchDelete u.repo branch else w, u.undone)
  | .removeRow row =>
    if ok then (w.removeWorktree row.id, .removeTree row.undoing) else (w, .refused)
  | .paths repo => (w, if ok then .list repo (w.rows.map (·.path)) else .gaveUp)
  | .list repo known => (w, if ok then .look repo (w.unknown config repo known) else .gaveUp)
  | .look _ [] => (w, .adopted)
  | .look repo (entry :: entries) =>
    (w, if !ok then .gaveUp
      else if w.known entry.path then .look repo entries else .adopt repo entry entries)
  | .adopt repo entry entries =>
    if !ok then (w, .gaveUp)
    else match w.addWorktree repo (folderName entry.path) entry.path entry.branch none with
      -- Someone else recorded it in between.
      | none => (w, .look repo entries)
      | some (_, w') => (w', .look repo entries)
  | pc => (w, pc)

inductive Call where
  | createNamed (repo : String) (dir : Path) (base wanted : String)
  | openBranch (repo : String) (dir : Path) (branch wanted : String)
  | discard (row : WorkspaceRow)
  | adoptUnknown (repo : String)

def Call.pc : Call → Pc
  | createNamed repo dir base wanted => .probeBranch ⟨repo, dir, wanted, .new base⟩ 0
  | openBranch repo dir branch wanted => .checkBranch ⟨repo, dir, wanted, .existing branch⟩
  | discard row => .removeRow row
  | adoptUnknown repo => .paths repo

structure System where
  world : World
  threads : List Pc
  /-- The rows that `discard` was called for. -/
  dropped : List Nat

inductive Act where
  | calls (call : Call)
  /-- A call makes its next step, which succeeds or fails. -/
  | does (k : Nat) (ok : Bool)

def Call.drops : Call → List Nat
  | discard row => [row.id]
  | _ => []

def step (config : Config) (s : System) : Act → Option System
  | .calls call =>
    some { s with threads := s.threads ++ [call.pc], dropped := call.drops ++ s.dropped }
  | .does k ok =>
    match s.threads[k]? with
    | none => none
    | some pc =>
      if pc.returned then none
      else
        let (w, pc') := perform config s.world k ok pc
        some { s with world := w, threads := s.threads.set k pc' }

end Yardsort.Workspaces
