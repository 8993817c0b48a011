import Yardsort.Lib.Run

/- The desktop window's publish store (`src/stores/publish.ts`): one workspace is followed at a
   time, and one `busy` flag stands for the commit, push or opening of a pull request that is under
   way. Calls of the core are answered in any order, or fail; an answer carries the workspace it is
   of.

   `publish_iff` says exactly which runs go well: those in which no workspace is followed while an
   action of it is under way, and no action ends while another is under way for the workspace
   shown. -/
namespace Yardsort.Desktop.Publish
open Yardsort.Lib

inductive Busy where
  | commit
  | push
  | pullRequest
  deriving DecidableEq

structure Of (α : Type) where
  workspace : String
  value : α

structure Action where
  workspace : String
  busy : Busy
  /-- The pull request is open, and the core is asked where the workspace stands now. -/
  opened : Bool

structure Load where
  project : String
  request : Nat

/-- The store, with the calls it waits for; `α` is where a workspace stands, `β` a project's pull
    requests. -/
structure State (α β : Type) where
  workspaceId : Option String
  state : Option (Of α)
  error : Option (Of String)
  busy : Option Busy
  byProject : String → Option (Except String β)
  projectRequests : String → Nat
  actions : List Action
  reads : List String
  loads : List Load

variable {α β : Type}

def State.initial : State α β :=
  ⟨none, none, none, none, fun _ => none, fun _ => 0, [], [], []⟩

namespace State
variable (s : State α β)

def act (busy : Busy) : State α β :=
  match s.workspaceId, s.busy with
  | some workspace, none =>
    { s with busy := some busy, error := none, actions := s.actions ++ [⟨workspace, busy, false⟩] }
  | _, _ => s

def refresh : State α β :=
  match s.workspaceId with
  | none => s
  | some workspace => { s with reads := s.reads ++ [workspace] }

def follow (workspaceId : Option String) : State α β :=
  if s.workspaceId = workspaceId then s
  else refresh { s with workspaceId, state := none, error := none, busy := none }

/-- What an action's end shows, if its workspace is still followed. -/
def shows (workspace : String) (result : Except String α) : State α β :=
  if s.workspaceId = some workspace then
    match result with
    | .ok state => { s with state := some ⟨workspace, state⟩ }
    | .error message => { s with error := some ⟨workspace, message⟩ }
  else s

def ends (k : Nat) (action : Action) (result : Except String α) : State α β :=
  { s.shows action.workspace result with busy := none, actions := s.actions.eraseIdx k }

def loadProject (project : String) : State α β :=
  let request := s.projectRequests project + 1
  { s with
    projectRequests := Function.update s.projectRequests project request
    loads := s.loads ++ [⟨project, request⟩] }

/-- The answer to a `loadProject`; `owner` is the project of the workspace that is followed. -/
def loaded (load : Load) (result : Except String β) (owner : Option String) : State α β :=
  if s.projectRequests load.project ≠ load.request then s
  else
    let s := { s with byProject := Function.update s.byProject load.project (some result) }
    if result.isOk ∧ owner = some load.project then s.refresh else s

end State

inductive Act (α β : Type) where
  | follow (workspaceId : Option String)
  | refresh
  | act (busy : Busy)
  /-- The pull request of an action is open. -/
  | opened (k : Nat)
  | ends (k : Nat) (result : Except String α)
  | answered (k : Nat) (result : Except String α)
  | loadProject (project : String)
  | loaded (k : Nat) (result : Except String β) (owner : Option String)

def step (s : State α β) : Act α β → Option (State α β)
  | .follow workspaceId => some (s.follow workspaceId)
  | .refresh => some s.refresh
  | .act busy => some (s.act busy)
  | .opened k =>
    s.actions[k]?.bind fun action =>
      if action.busy = .pullRequest ∧ !action.opened then
        some { s with actions := s.actions.set k { action with opened := true } }
      else none
  | .ends k result =>
    s.actions[k]?.bind fun action =>
      -- a pull request that could not be opened has nothing more to ask
      if action.busy = .pullRequest ∧ !action.opened ∧ result.isOk then none
      else some (s.ends k action result)
  | .answered k result =>
    s.reads[k]?.map fun workspace =>
      let s := { s with reads := s.reads.eraseIdx k }
      match result with
      | .ok _ => s.shows workspace result
      | .error _ =>
        if s.workspaceId = some workspace then
          { s.shows workspace result with state := none }
        else s
  | .loadProject project => some (s.loadProject project)
  | .loaded k result owner =>
    s.loads[k]?.map fun load => { s with loads := s.loads.eraseIdx k }.loaded load result owner

/-- What the panel should always be. -/
structure Ok (s : State α β) : Prop where
  alone : (s.actions.map (·.workspace)).Nodup
  /-- One for the workspace shown is named, and no other is begun. -/
  named : ∀ action ∈ s.actions, s.workspaceId = some action.workspace →
    s.busy = some action.busy ∧ ∀ other, s.act other = s
  state : ∀ shown ∈ s.state, s.workspaceId = some shown.workspace
  error : ∀ shown ∈ s.error, s.workspaceId = some shown.workspace

/-- No workspace is followed while an action of it is under way, and no action ends while another is
    under way for the workspace shown. -/
def Undisturbed (s : State α β) : Act α β → Prop
  | .follow workspaceId => s.workspaceId = workspaceId ∨
      ∀ action ∈ s.actions, workspaceId ≠ some action.workspace
  | .ends k _ => ∀ action ∈ s.actions.eraseIdx k, s.workspaceId ≠ some action.workspace
  | _ => True

theorem act_busy {s : State α β} {busy : Busy} (h : s.busy = some busy) (other : Busy) :
    s.act other = s := by
  unfold State.act
  rw [h]
  split <;> simp_all

theorem Ok.of_busy {s : State α β} (alone : (s.actions.map (·.workspace)).Nodup)
    (busy : ∀ action ∈ s.actions, s.workspaceId = some action.workspace → s.busy = some action.busy)
    (state : ∀ shown ∈ s.state, s.workspaceId = some shown.workspace)
    (error : ∀ shown ∈ s.error, s.workspaceId = some shown.workspace) : Ok s :=
  ⟨alone, fun action ha hshown => ⟨busy action ha hshown, act_busy (busy action ha hshown)⟩,
    state, error⟩

theorem Ok.frame {s s' : State α β} (h : Ok s) (hworkspace : s'.workspaceId = s.workspaceId)
    (hbusy : s'.busy = s.busy) (hactions : s'.actions = s.actions) (hstate : s'.state = s.state)
    (herror : s'.error = s.error) : Ok s' := by
  refine .of_busy (hactions ▸ h.alone) ?_ (hstate ▸ hworkspace ▸ h.state)
    (herror ▸ hworkspace ▸ h.error)
  rw [hactions, hworkspace, hbusy]
  exact fun action ha hshown => (h.named action ha hshown).1

theorem Ok.refresh {s : State α β} (h : Ok s) : Ok s.refresh := by
  unfold State.refresh
  split
  · exact h
  · exact h.frame rfl rfl rfl rfl rfl

section
variable {s : State α β} {workspace : String} {result : Except String α}

theorem shows_same (s : State α β) (workspace : String) (result : Except String α) :
    (s.shows workspace result).workspaceId = s.workspaceId ∧
    (s.shows workspace result).busy = s.busy ∧
    (s.shows workspace result).actions = s.actions := by
  unfold State.shows
  cases result <;> dsimp only <;> split <;> exact ⟨rfl, rfl, rfl⟩

theorem shows_shown (workspace : String) (result : Except String α) (h : Ok s) :
    (∀ shown ∈ (s.shows workspace result).state, s.workspaceId = some shown.workspace) ∧
      ∀ shown ∈ (s.shows workspace result).error, s.workspaceId = some shown.workspace := by
  unfold State.shows
  split
  · rename_i hshown
    cases result with
    | ok state => exact ⟨fun _ heq => Option.some.inj heq ▸ hshown, h.error⟩
    | error message => exact ⟨h.state, fun _ heq => Option.some.inj heq ▸ hshown⟩
  · exact ⟨h.state, h.error⟩

theorem Ok.shows (h : Ok s) : Ok (s.shows workspace result) := by
  obtain ⟨hstate, herror⟩ := shows_shown workspace result h
  obtain ⟨hworkspace, hbusy, hactions⟩ := shows_same s workspace result
  rw [← hworkspace] at hstate herror
  refine .of_busy (hactions ▸ h.alone) ?_ hstate herror
  rw [hactions, hworkspace, hbusy]
  exact fun action ha hshown => (h.named action ha hshown).1

end

theorem follow_iff {s : State α β} (h : Ok s) (workspaceId : Option String) :
    Undisturbed s (.follow workspaceId) ↔ Ok (s.follow workspaceId) := by
  unfold State.follow
  by_cases hsame : s.workspaceId = workspaceId
  · rw [if_pos hsame]
    exact ⟨fun _ => h, fun _ => .inl hsame⟩
  · rw [if_neg hsame]
    constructor
    · rintro (heq | hnone)
      · exact absurd heq hsame
      · have hfollows : @Ok α β { s with workspaceId, state := none, error := none, busy := none } :=
          .of_busy h.alone (fun action ha hshown => absurd hshown (hnone action ha))
            (fun _ hx => nomatch hx) (fun _ hx => nomatch hx)
        exact hfollows.refresh
    · intro hok
      refine .inr fun action ha hshown => ?_
      -- it would be under way for the workspace shown, and `busy` names nothing
      have hnamed := (hok.named action (by unfold State.refresh; split <;> exact ha)
        (by unfold State.refresh; split <;> exact hshown)).1
      unfold State.refresh at hnamed
      split at hnamed <;> cases hnamed

theorem ends_iff {s : State α β} (h : Ok s) {k : Nat} {action : Action}
    {result : Except String α} :
    Undisturbed s (.ends k result) ↔ Ok (s.ends k action result) := by
  constructor
  · intro hnone
    obtain ⟨hstate, herror⟩ := shows_shown action.workspace result h
    refine .of_busy (h.alone.sublist ((eraseIdx_sublist ..).map _)) ?_
      (fun shown hx => (shows_same ..).1.trans (hstate shown hx))
      (fun shown hx => (shows_same ..).1.trans (herror shown hx))
    exact fun other hother hshown =>
      absurd ((shows_same ..).1.symm.trans hshown) (hnone other hother)
  · intro hok other hother hshown
    have hnamed := (hok.named other hother ((shows_same ..).1.trans hshown)).1
    cases hnamed

theorem Ok.act {s : State α β} (h : Ok s) (busy : Busy) : Ok (s.act busy) := by
  unfold State.act
  split
  · rename_i workspace hshown hfree
    -- `busy` names nothing, so no action of the workspace shown is under way
    have hnone : ∀ action ∈ s.actions, action.workspace ≠ workspace := by
      rintro action ha rfl
      have hbusy := (h.named action ha hshown).1
      rw [hfree] at hbusy
      cases hbusy
    refine .of_busy ?_ ?_ h.state nofun
    · rw [map_append, nodup_append]
      refine ⟨h.alone, pairwise_singleton .., ?_⟩
      intro other hother this hthis
      obtain ⟨action, ha, rfl⟩ := mem_map.mp hother
      exact mem_singleton.mp hthis ▸ hnone action ha
    · intro action ha hof
      obtain hold | rfl := mem_snoc.mp ha
      · exact absurd (Option.some.inj (hof.symm.trans hshown)) (hnone action hold)
      · rfl
  · exact h

theorem Ok.opened {s : State α β} (h : Ok s) {k : Nat} {action : Action}
    (hk : s.actions[k]? = some action) :
    Ok { s with actions := s.actions.set k { action with opened := true } } := by
  have hmap : (s.actions.set k { action with opened := true }).map (·.workspace) =
      s.actions.map (·.workspace) := by
    rw [List.map_set]
    obtain ⟨hlt, rfl⟩ := List.getElem?_eq_some_iff.mp hk
    have hlt' : k < (s.actions.map (·.workspace)).length := by rwa [length_map]
    have hget : (s.actions.map (·.workspace))[k] = s.actions[k].workspace := List.getElem_map ..
    exact hget ▸ set_getElem_self hlt'
  refine .of_busy (hmap ▸ h.alone) ?_ h.state h.error
  intro other hother hshown
  obtain hold | rfl := mem_or_eq_of_mem_set hother
  · exact (h.named other hold hshown).1
  · exact (h.named action (mem_of_getElem? hk) hshown).1

/-- **A step keeps the panel right exactly if it disturbs nothing.** -/
theorem step_iff (s : State α β) (a : Act α β) (s' : State α β) (h : Ok s)
    (hs : step s a = some s') : Undisturbed s a ↔ Ok s' := by
  cases a with
  | follow workspaceId =>
    cases hs
    exact follow_iff h workspaceId
  | refresh =>
    cases hs
    exact ⟨fun _ => h.refresh, fun _ => trivial⟩
  | act busy =>
    cases hs
    exact ⟨fun _ => h.act busy, fun _ => trivial⟩
  | opened k =>
    obtain ⟨action, hk, hs⟩ := bind_eq_some_iff.mp hs
    obtain ⟨-, hs⟩ := ite_none_right_eq_some.mp hs
    cases hs
    exact ⟨fun _ => h.opened hk, fun _ => trivial⟩
  | ends k result =>
    obtain ⟨action, hk, hs⟩ := bind_eq_some_iff.mp hs
    obtain ⟨-, hs⟩ := Option.ite_none_left_eq_some.mp hs
    cases hs
    exact ends_iff h
  | answered k result =>
    refine ⟨fun _ => ?_, fun _ => trivial⟩
    obtain ⟨workspace, hk, rfl⟩ := map_eq_some_iff.mp hs
    have hread : Ok { s with reads := s.reads.eraseIdx k } := h.frame rfl rfl rfl rfl rfl
    cases result with
    | ok state => exact hread.shows
    | error message =>
      dsimp only
      split
      · refine .of_busy hread.shows.alone (fun action ha hshown => ?_) (fun _ hshown => nomatch hshown)
          hread.shows.error
        exact (hread.shows.named action ha hshown).1
      · exact hread
  | loadProject project =>
    cases hs
    exact ⟨fun _ => h.frame rfl rfl rfl rfl rfl, fun _ => trivial⟩
  | loaded k result owner =>
    refine ⟨fun _ => ?_, fun _ => trivial⟩
    obtain ⟨load, hk, rfl⟩ := map_eq_some_iff.mp hs
    unfold State.loaded
    dsimp only
    split
    · exact h.frame rfl rfl rfl rfl rfl
    split
    · exact (h.frame rfl rfl rfl rfl rfl : Ok { s with
        loads := s.loads.eraseIdx k
        byProject := Function.update s.byProject load.project (some result) }).refresh
    · exact h.frame rfl rfl rfl rfl rfl

/-- **A run of the store goes well exactly if it disturbs nothing.** -/
theorem publish_iff {acts : List (Act α β)} {s : State α β}
    (h : run step .initial acts = some s) :
    Meets step Undisturbed .initial acts ↔
      ∀ first rest u, acts = first ++ rest → run step .initial first = some u → Ok u :=
  meets_iff_every step_iff h (.of_busy .nil (fun _ ha => nomatch ha) (fun _ hx => nomatch hx)
    (fun _ hx => nomatch hx))

def twoCommits : List (Act Nat Nat) :=
  [.follow (some "a"), .act .commit, .ends 0 (.ok 1), .follow (some "b"), .act .commit]

theorem publish_iff_two : (∃ s, run step .initial twoCommits = some s) ∧
    (Meets step Undisturbed .initial twoCommits ↔ ∀ first rest u, twoCommits = first ++ rest →
      run step .initial first = some u → Ok u) :=
  ⟨⟨_, rfl⟩, publish_iff rfl⟩

/-- A commit is made in one workspace and a push in the next, and the commit ends: nothing is busy
    while the push is under way, and another one is begun. -/
theorem commit_clears_push : ∃ (acts : List (Act Nat Nat)) (s : State Nat Nat),
    run step .initial acts = some s ∧ s.workspaceId = some "b" ∧ s.busy = some .push ∧
      s.actions = [⟨"b", .push, false⟩, ⟨"b", .push, false⟩] ∧ ¬ Ok s := by
  refine ⟨[.follow (some "a"), .act .commit, .follow (some "b"), .act .push, .ends 0 (.ok 1),
    .act .push], _, rfl, rfl, rfl, rfl, fun hok => ?_⟩
  exact absurd hok.alone (by decide)

end Yardsort.Desktop.Publish
