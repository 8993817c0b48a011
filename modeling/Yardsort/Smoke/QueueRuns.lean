import Mathlib.Data.List.Nodup
import Yardsort.Lib.Run
import Yardsort.Smoke.Queue

/- What a run in the queue was approved by.

   Every run that came into the queue was approved by a person: it was named itself, or its file
   was, at that very text, for its project. Two things that could be expected beside this are
   not so. A run whose project was removed while it waited is approved with nothing recorded, as
   there is nothing to record it for. And a door reads whether the project asks every time
   before it inserts: one that is switched to asking in between gets a run in its queue that
   nobody was asked about (`queued_while_asking`). What holds is about a project that asks all the
   time from the call of the door to its insert (`queue_gated`). -/
namespace Yardsort.Smoke
open Yardsort.Lib

def RunStatus.afterQueue : RunStatus → Bool
  | .queued | .running | .passed | .failed | .errored => true
  | .awaitingApproval | .refused | .cancelled => false

structure SameRun (new old : TestRun) : Prop where
  id : new.row.id = old.row.id
  testId : new.row.testId = old.row.testId
  definition : new.row.definition = old.row.definition
  contentHash : new.row.contentHash = old.row.contentHash
  afterQueue : new.row.status.afterQueue = true → old.row.status.afterQueue = true

namespace TestRun

theorem sameRun_of_row {new old : TestRun} (h : new.row = old.row) : SameRun new old := by
  refine ⟨?_, ?_, ?_, ?_, ?_⟩ <;> rw [h]
  exact fun h => h

theorem start_same (run : TestRun) (port : Nat) (outputDir : String) (now : Int) :
    SameRun (run.start port outputDir now).2 run := by
  unfold start
  split
  · rename_i hqueued
    exact ⟨rfl, rfl, rfl, rfl, fun _ => by rw [hqueued]; rfl⟩
  · exact sameRun_of_row rfl

theorem moveStep_same (run : TestRun) (stepId : String) (from_ : List StepStatus)
    (change : StepChange) (now : Int) : SameRun (run.moveStep stepId from_ change now).2 run := by
  unfold moveStep
  split <;> exact sameRun_of_row rfl

theorem finish_same (run : TestRun) (status : RunStatus) (error : Option String) (now : Int) :
    SameRun (run.finish status error now).2 run := by
  unfold finish
  split
  · rename_i hrunning
    exact ⟨rfl, rfl, rfl, rfl, fun _ => by rw [hrunning]; rfl⟩
  · exact sameRun_of_row rfl

theorem cancel_same (run : TestRun) (reason : String) (now : Int) :
    SameRun (run.cancel reason now).2 run := by
  unfold cancel
  split
  · exact ⟨rfl, rfl, rfl, rfl, nofun⟩
  · split
    · exact ⟨rfl, rfl, rfl, rfl, fun h => h⟩
    · exact sameRun_of_row rfl

theorem refuse_same (run : TestRun) (now : Int) : SameRun (run.refuse now).2 run := by
  unfold refuse
  split
  · exact ⟨rfl, rfl, rfl, rfl, nofun⟩
  · exact sameRun_of_row rfl

theorem endInterrupted_same (run : TestRun) (error : String) (now : Int) :
    SameRun (run.endInterrupted error now) run := by
  unfold endInterrupted
  split
  · rename_i hrunning
    exact ⟨rfl, rfl, rfl, rfl, fun _ => by rw [hrunning]; rfl⟩
  · exact sameRun_of_row rfl

end TestRun

variable {id : String}

variable {asked : Asked}

section
variable (hash : String → String)

/-- How a run came into the queue: through its own approval, or with its file approved for its
    project; by a person, at the text it runs. -/
def Entered.Sound (s : Doors) (e : Entered) : Prop :=
  (e.byApproval = true ∧ (e.recorded = true ∨ e.projectId = none) ∧
    ∃ shown, (e.id, shown) ∈ s.approvedRuns ∧ hash shown = hash e.definition) ∨
  (e.byApproval = false ∧ e.recorded = true ∧
    ∃ projectId shown, e.projectId = some projectId ∧
      (projectId, e.testId, shown) ∈ s.named ∧ hash shown = hash e.definition)

def Job.Sound (s : Doors) : Job → Prop
  | .finding _ _ workspace => workspace.projectId ∈ s.made
  | .browser asked | .env asked _ | .settings asked _ | .approved asked _ _ =>
    asked.workspace.projectId ∈ s.made
  | .inserting asked _ clear => asked.workspace.projectId ∈ s.made ∧
      (clear = true → asked.workspace.projectId ∈ s.store.projects →
        ⟨asked.workspace.projectId, asked.entry.id, hash asked.entry.text⟩ ∈ s.store.approvals)
  | .seen id _ => id ∈ s.made
  | .approving id shown => id ∈ s.made ∧
      ∀ run ∈ s.store.runs, run.row.id = id → run.row.contentHash = hash shown
  | _ => True

/-- Runs, approvals and what came into the queue, as they agree. -/
structure Doors.Kept (s : Doors) : Prop where
  ids : (s.store.runs.map (·.row.id)).Nodup
  known : ∀ run ∈ s.store.runs, run.row.id ∈ s.made
  hashed : ∀ run ∈ s.store.runs, run.row.contentHash = hash run.row.definition
  projects : ∀ id ∈ s.store.projects, id ∈ s.made
  workspaces : ∀ row ∈ s.store.workspaces, row.projectId ∈ s.made
  approvals : ∀ approval ∈ s.store.approvals, ∃ shown, hash shown = approval.contentHash ∧
    (approval.projectId, approval.testId, shown) ∈ s.named
  queued : ∀ run ∈ s.store.runs, run.row.status.afterQueue = true →
    ∃ e ∈ s.entered, e.id = run.row.id
  same : ∀ e ∈ s.entered, ∀ run ∈ s.store.runs, run.row.id = e.id →
    run.row.definition = e.definition ∧ run.row.testId = e.testId
  enteredKnown : ∀ e ∈ s.entered, e.id ∈ s.made
  entered : ∀ e ∈ s.entered, e.Sound hash s
  jobs : ∀ job ∈ s.callers, job.Sound hash s

structure Doors.Grows (s s' : Doors) : Prop where
  made : ∀ id ∈ s.made, id ∈ s'.made
  named : ∀ entry ∈ s.named, entry ∈ s'.named
  approvedRuns : ∀ entry ∈ s.approvedRuns, entry ∈ s'.approvedRuns
  /-- A project that is gone does not come back, and the approvals of one that stays do. -/
  approvals : ∀ approval ∈ s.store.approvals, approval.projectId ∈ s'.store.projects →
    approval ∈ s'.store.approvals
  projects : ∀ id ∈ s'.store.projects, id ∈ s.made → id ∈ s.store.projects
  /-- A run is the one it was, or new. -/
  runs : ∀ run ∈ s'.store.runs, run.row.id ∈ s.made → ∃ old ∈ s.store.runs,
    old.row.id = run.row.id ∧ run.row.contentHash = old.row.contentHash

variable {hash} {s s' : Doors}

theorem Entered.Sound.later {e : Entered} (h : e.Sound hash s) (hg : s.Grows s') :
    e.Sound hash s' := by
  obtain ⟨hby, hrec, shown, hmem, heq⟩ | ⟨hby, hrec, projectId, shown, hp, hmem, heq⟩ := h
  · exact .inl ⟨hby, hrec, shown, hg.approvedRuns _ hmem, heq⟩
  · exact .inr ⟨hby, hrec, projectId, shown, hp, hg.named _ hmem, heq⟩

theorem Job.Sound.later {job : Job} (h : job.Sound hash s) (hg : s.Grows s') :
    job.Sound hash s' := by
  cases job with
  | finding request shown workspace | browser asked | env asked inputs | settings asked inputs
  | approved asked inputs settings | seen id shown => exact hg.made _ h
  | inserting asked inputs clear =>
    refine ⟨hg.made _ h.1, fun happroved hproject => ?_⟩
    exact hg.approvals _ (h.2 happroved (hg.projects _ hproject h.1)) hproject
  | approving id shown =>
    refine ⟨hg.made _ h.1, fun run hrun hid => ?_⟩
    obtain ⟨old, hold, heq, hhash⟩ := hg.runs run hrun (hid ▸ h.1)
    rw [hhash]
    exact h.2 old hold (heq.trans hid)
  | _ => trivial

/-- A store with the runs, the approvals and the projects of another, or fewer of them. -/
structure Leaves (old new : Store) : Prop where
  ids : (new.runs.map (·.row.id)).Sublist (old.runs.map (·.row.id))
  runs : ∀ run ∈ new.runs, ∃ before ∈ old.runs, SameRun run before
  projects : ∀ id ∈ new.projects, id ∈ old.projects
  workspaces : ∀ row ∈ new.workspaces, ∃ before ∈ old.workspaces, row.projectId = before.projectId
  approvals : ∀ approval ∈ new.approvals, approval ∈ old.approvals
  stays : ∀ approval ∈ old.approvals, approval.projectId ∈ new.projects →
    approval ∈ new.approvals

theorem ids_map {f : TestRun → TestRun} (h : ∀ run, (f run).row.id = run.row.id)
    (runs : List TestRun) : (runs.map f).map (·.row.id) = runs.map (·.row.id) := by
  rw [map_map]
  exact map_congr_left fun run _ => h run

theorem leaves_of_runs {old : Store} {f : TestRun → TestRun} (h : ∀ run, SameRun (f run) run) :
    Leaves old { old with runs := old.runs.map f } := by
  refine ⟨?_, ?_, fun _ h => h, fun row h => ⟨row, h, rfl⟩, fun _ h => h, fun _ h _ => h⟩
  · rw [ids_map fun run => (h run).id]
  · intro run hrun
    obtain ⟨before, hmem, rfl⟩ := mem_map.mp hrun
    exact ⟨before, hmem, h before⟩

theorem onRun_leaves {old : Store} {f : TestRun → Bool × TestRun}
    (h : ∀ run, SameRun (f run).2 run) : Leaves old (old.onRun id f).2 := by
  apply leaves_of_runs
  intro run
  split
  · exact h run
  · exact TestRun.sameRun_of_row rfl

theorem leaves_rest (old : Store) {new : Store} (hruns : new.runs = old.runs)
    (hprojects : new.projects = old.projects) (hworkspaces : new.workspaces = old.workspaces)
    (happrovals : new.approvals = old.approvals) : Leaves old new where
  ids := by rw [hruns]
  runs run hrun := ⟨run, hruns ▸ hrun, TestRun.sameRun_of_row rfl⟩
  projects _ h := hprojects ▸ h
  workspaces row h := ⟨row, hworkspaces ▸ h, rfl⟩
  approvals _ h := happrovals ▸ h
  stays _ h _ := happrovals ▸ h

theorem pruneTestRuns_leaves (old : Store) (projectId : Option String) (before : Int) :
    Leaves old (old.pruneTestRuns projectId before) where
  ids := (filter_sublist ..).map _
  runs run hrun := ⟨run, mem_of_mem_filter hrun, TestRun.sameRun_of_row rfl⟩
  projects _ h := h
  workspaces row h := ⟨row, h, rfl⟩
  approvals _ h := h
  stays _ h _ := h

theorem removeProject_leaves (old : Store) (id : String) : Leaves old (old.removeProject id) where
  ids := by
    simp only [Store.removeProject, ids_map, implies_true, List.Sublist.refl]
  runs run hrun := by
    obtain ⟨before, hmem, rfl⟩ := mem_map.mp hrun
    exact ⟨before, hmem, rfl, rfl, rfl, rfl, fun h => h⟩
  projects _ h := mem_of_mem_filter h
  workspaces row h := ⟨row, mem_of_mem_filter h, rfl⟩
  approvals _ h := mem_of_mem_filter h
  stays approval h hproject := mem_filter.mpr ⟨h, (mem_filter.mp hproject).2⟩

theorem removeWorktree_leaves (old : Store) (id : String) :
    Leaves old (old.removeWorktree id) where
  ids := by
    simp only [Store.removeWorktree, ids_map, implies_true, List.Sublist.refl]
  runs run hrun := by
    obtain ⟨before, hmem, rfl⟩ := mem_map.mp hrun
    exact ⟨before, hmem, rfl, rfl, rfl, rfl, fun h => h⟩
  projects _ h := h
  workspaces row h := ⟨row, mem_of_mem_filter h, rfl⟩
  approvals _ h := h
  stays _ h _ := h

theorem Leaves.grows {store : Store} (h : Leaves s.store store) :
    s.Grows { s with store := store } where
  made _ h := h
  named _ h := h
  approvedRuns _ h := h
  approvals := h.stays
  projects id hid _ := h.projects id hid
  runs run hrun _ := by
    obtain ⟨before, hmem, hsame⟩ := h.runs run hrun
    exact ⟨before, hmem, hsame.id.symm, hsame.contentHash⟩

theorem Leaves.kept {store : Store} (hl : Leaves s.store store) (h : s.Kept hash) :
    Doors.Kept hash { s with store := store } where
  ids := h.ids.sublist hl.ids
  known run hrun := by
    obtain ⟨before, hmem, hsame⟩ := hl.runs run hrun
    exact hsame.id ▸ h.known before hmem
  hashed run hrun := by
    obtain ⟨before, hmem, hsame⟩ := hl.runs run hrun
    rw [hsame.contentHash, hsame.definition]
    exact h.hashed before hmem
  projects id hid := h.projects id (hl.projects id hid)
  workspaces row hrow := by
    obtain ⟨before, hmem, heq⟩ := hl.workspaces row hrow
    exact heq ▸ h.workspaces before hmem
  approvals approval ha := h.approvals approval (hl.approvals approval ha)
  queued run hrun hafter := by
    obtain ⟨before, hmem, hsame⟩ := hl.runs run hrun
    rw [hsame.id]
    exact h.queued before hmem (hsame.afterQueue hafter)
  same e he run hrun hid := by
    obtain ⟨before, hmem, hsame⟩ := hl.runs run hrun
    rw [hsame.definition, hsame.testId]
    exact h.same e he before hmem (hsame.id ▸ hid)
  enteredKnown := h.enteredKnown
  entered e he := (h.entered e he).later hl.grows
  jobs job hj := (h.jobs job hj).later hl.grows

namespace Store

theorem testRun_some {old : Store} {run : TestRun} (h : old.testRun id = some run) :
    run ∈ old.runs ∧ run.row.id = id := by
  rw [testRun] at h
  exact ⟨mem_of_find?_eq_some h, by simpa using List.find?_some h⟩

theorem mem_onRun {old : Store} {f : TestRun → Bool × TestRun} {run : TestRun}
    (h : run ∈ (old.onRun id f).2.runs) :
    (run ∈ old.runs ∧ run.row.id ≠ id) ∨
      ∃ before ∈ old.runs, before.row.id = id ∧ run = (f before).2 := by
  obtain ⟨before, hmem, rfl⟩ := mem_map.mp h
  split
  · rename_i hid
    exact .inr ⟨before, hmem, hid, rfl⟩
  · rename_i hid
    exact .inl ⟨hmem, hid⟩

theorem queueTestRun_queued {old store : Store} {new : TestRun}
    (h : old.queueTestRun new = some (.queued, store)) :
    store = { old with runs := old.runs ++ [new] } ∧
      ∀ projectId ∈ new.row.projectId, projectId ∈ old.projects := by
  unfold queueTestRun at h
  split at h
  · obtain ⟨⟩ := Option.some.inj h
  · split at h
    · rename_i hthere
      cases h
      refine ⟨rfl, fun projectId hp => ?_⟩
      have hall := hthere.1
      rw [Option.mem_def.mp hp] at hall
      exact of_decide_eq_true hall
    · cases h

theorem approveTestRun_true {old : Store} (h : (old.approveTestRun id).1 = true) :
    ∃ run, old.testRun id = some run ∧ run.row.status = .awaitingApproval ∧
      (old.approveTestRun id).2 = { (old.onRun id TestRun.approve).2 with
        approvals := (approvalOf run).elim old.approvals (old.approvals.insert ·) } := by
  unfold approveTestRun at h ⊢
  split at h
  · cases h
  · rename_i run hrun
    obtain ⟨hsome, hstatus⟩ := filter_eq_some_iff.mp hrun
    exact ⟨run, hsome, of_decide_eq_true hstatus, rfl⟩

end Store

theorem Doors.Kept.approved {approvals : List Approval} (h : s.Kept hash)
    {named : List (String × String × String)}
    (hnamed : ∀ entry ∈ s.named, entry ∈ named)
    (hnew : ∀ approval ∈ approvals, approval ∈ s.store.approvals ∨
      ∃ shown, hash shown = approval.contentHash ∧
        (approval.projectId, approval.testId, shown) ∈ named) :
    ∀ approval ∈ approvals, ∃ shown, hash shown = approval.contentHash ∧
      (approval.projectId, approval.testId, shown) ∈ named := by
  intro approval ha
  obtain hold | hnew := hnew approval ha
  · obtain ⟨shown, heq, hmem⟩ := h.approvals approval hold
    exact ⟨shown, heq, hnamed _ hmem⟩
  · exact hnew

theorem setJob_grows (s : Doors) (i : Nat) (job : Job) : s.Grows (s.setJob i job) :=
  ⟨fun _ h => h, fun _ h => h, fun _ h => h, fun _ h _ => h, fun _ h _ => h,
    fun run h _ => ⟨run, h, rfl, rfl⟩⟩

theorem Doors.Kept.setJob (h : s.Kept hash) (i : Nat) {job : Job} (hj : job.Sound hash s) :
    (s.setJob i job).Kept hash := by
  refine { h with entered := fun e he => ?_, jobs := fun other ho => ?_ }
  · exact (h.entered e he).later (setJob_grows s i job)
  · obtain hmem | rfl := mem_or_eq_of_mem_set ho
    · exact (h.jobs other hmem).later (setJob_grows s i job)
    · exact hj.later (setJob_grows s i other)

theorem afterWorkspace_sound (h : s.Kept hash) (request : Request) (shown : Option String)
    (id : String) : (afterWorkspace request shown (s.store.workspace id)).Sound hash s := by
  rw [afterWorkspace]
  split
  · trivial
  rename_i workspace hrow
  split
  · trivial
  · exact h.workspaces _ (mem_of_find?_eq_some (filter_eq_some_iff.mp hrow).1)

theorem afterInputs_sound (hp : asked.workspace.projectId ∈ s.made) :
    (afterInputs asked).Sound hash s := by
  rw [afterInputs]
  split
  · trivial
  · exact hp

theorem afterFind_sound {workspace : WorkspaceRow} (hp : workspace.projectId ∈ s.made)
    (request : Request) (shown : Option String) (look : Look) :
    (afterFind request shown workspace look).Sound hash s := by
  rw [afterFind]
  split
  · trivial
  split
  · trivial
  · dsimp only
    split
    · exact hp
    · exact afterInputs_sound hp

theorem afterBrowser_sound (hp : asked.workspace.projectId ∈ s.made) (look : Look) :
    (afterBrowser asked look).Sound hash s := by
  rw [afterBrowser]
  split
  · split
    · exact afterInputs_sound hp
    · trivial
  · exact afterInputs_sound hp

theorem afterEnv_sound (hp : asked.workspace.projectId ∈ s.made) (inputs env : Pairs) :
    (afterEnv asked inputs env).Sound hash s := by
  rw [afterEnv]
  split
  · exact hp
  · trivial

theorem afterApproved_sound (hp : asked.workspace.projectId ∈ s.made) (inputs : Pairs)
    (settings : TestSettings) :
    (afterApproved asked inputs settings (s.store.testApproved asked.workspace.projectId
      asked.entry.id (hash asked.entry.text))).Sound hash s := by
  rw [afterApproved]
  split
  · trivial
  · refine ⟨hp, fun hclear => ?_⟩
    exact fun _ => of_decide_eq_true (Bool.and_eq_true_iff.mp hclear).1

theorem afterInsert_sound (hid : id ∈ s.made) (asked : Asked) (approved : Bool) :
    (afterInsert asked approved id).Sound hash s := by
  rw [afterInsert]
  split
  · split
    · trivial
    · exact hid
  · trivial

/-! ## What every action keeps -/

theorem enter_sound (h : s.Kept hash) {inputs : Pairs}
    (hj : (Job.inserting asked inputs true).Sound hash s) {store : Store} {now : Int}
    (hstore : store.approvals = s.store.approvals)
    (hproject : asked.workspace.projectId ∈ s.store.projects) :
    (s.enter (newRun hash asked inputs true id now) false store).Sound hash s := by
  have happroval := hj.2 rfl hproject
  obtain ⟨shown, heq, hnamed⟩ := h.approvals _ happroval
  refine .inr ⟨rfl, ?_, asked.workspace.projectId, shown, rfl, hnamed, heq⟩
  show store.testApproved asked.workspace.projectId asked.entry.id (hash asked.entry.text) = true
  rw [Store.testApproved, hstore]
  exact decide_eq_true happroval

theorem Doors.Kept.inserted (h : s.Kept hash) {inputs : Pairs} {clear : Bool}
    (hj : (Job.inserting asked inputs clear).Sound hash s) {now : Int} (hid : id ∉ s.made)
    {store : Store} (hstore : store = { s.store with
        runs := s.store.runs ++ [newRun hash asked inputs clear id now] })
    (hproject : asked.workspace.projectId ∈ s.store.projects) :
    Doors.Kept hash { s with
      store := store
      made := id :: s.made
      entered := if clear then s.enter (newRun hash asked inputs clear id now) false store ::
        s.entered else s.entered } := by
  set s₁ : Doors := { s with
    store := store
    made := id :: s.made
    entered := if clear then s.enter (newRun hash asked inputs clear id now) false store ::
      s.entered else s.entered } with hs₁
  have hrunsEq : s₁.store.runs = s.store.runs ++ [newRun hash asked inputs clear id now] := by
    rw [hs₁, hstore]
  have hruns : ∀ run ∈ s₁.store.runs,
      run ∈ s.store.runs ∨ run = newRun hash asked inputs clear id now := by
    intro run hrun
    rw [hrunsEq] at hrun
    simpa using hrun
  have hentered : ∀ e ∈ s₁.entered, e ∈ s.entered ∨
      (clear = true ∧ e = s.enter (newRun hash asked inputs clear id now) false store) := by
    intro e he
    simp only [hs₁] at he
    split at he
    · rename_i hclear
      obtain rfl | he := mem_cons.mp he
      · exact .inr ⟨hclear, rfl⟩
      · exact .inl he
    · exact .inl he
  have hmade : ∀ other ∈ s.made, other ∈ s₁.made := fun _ => mem_cons_of_mem id
  have hg : s.Grows s₁ := by
    refine ⟨hmade, fun _ h => h, fun _ h => h, ?_, ?_, ?_⟩
    · intro approval ha _
      rw [hs₁, hstore]
      exact ha
    · intro other ho _
      rw [hs₁, hstore] at ho
      exact ho
    · intro run hrun hknown
      obtain hold | rfl := hruns run hrun
      · exact ⟨run, hold, rfl, rfl⟩
      · exact absurd hknown hid
  exact
    { ids := by
        rw [hrunsEq, map_append, nodup_append]
        refine ⟨h.ids, by simp, ?_⟩
        intro a ha b hb
        obtain ⟨run, hrun, rfl⟩ := mem_map.mp ha
        obtain rfl : b = id := by simpa [newRun] using hb
        exact fun heq => hid (heq ▸ h.known run hrun)
      known := by
        intro run hrun
        obtain hold | rfl := hruns run hrun
        · exact hmade _ (h.known run hold)
        · exact mem_cons_self ..
      hashed := by
        intro run hrun
        obtain hold | rfl := hruns run hrun
        · exact h.hashed run hold
        · rfl
      projects := by
        intro other ho
        rw [hs₁, hstore] at ho
        exact hmade _ (h.projects other ho)
      workspaces := by
        intro row hrow
        rw [hs₁, hstore] at hrow
        exact hmade _ (h.workspaces row hrow)
      approvals := by
        intro approval ha
        rw [hs₁, hstore] at ha
        exact h.approvals approval ha
      queued := by
        intro run hrun hafter
        obtain hold | rfl := hruns run hrun
        · obtain ⟨e, he, heq⟩ := h.queued run hold hafter
          refine ⟨e, ?_, heq⟩
          simp only [hs₁]
          split
          · exact mem_cons_of_mem _ he
          · exact he
        · obtain hclear | hclear := Bool.eq_false_or_eq_true clear
          · refine ⟨s.enter (newRun hash asked inputs clear id now) false store, ?_, rfl⟩
            simp only [hs₁, hclear, if_true]
            exact mem_cons_self ..
          · rw [hclear] at hafter
            cases hafter
      same := by
        intro e he run hrun heq
        obtain hold | ⟨-, rfl⟩ := hentered e he
        · obtain hrun | rfl := hruns run hrun
          · exact h.same e hold run hrun heq
          · have heq : id = e.id := heq
            exact absurd (heq ▸ h.enteredKnown e hold) hid
        · obtain hrun | rfl := hruns run hrun
          · have heq : run.row.id = id := heq
            exact absurd (heq ▸ h.known run hrun) hid
          · exact ⟨rfl, rfl⟩
      enteredKnown := by
        intro e he
        obtain hold | ⟨-, rfl⟩ := hentered e he
        · exact hmade _ (h.enteredKnown e hold)
        · exact mem_cons_self ..
      entered := by
        intro e he
        obtain hold | ⟨hclear, rfl⟩ := hentered e he
        · exact (h.entered e hold).later hg
        · obtain rfl := hclear
          exact (enter_sound h hj (by rw [hstore]) hproject).later hg
      jobs := by
        intro job hjob
        exact (h.jobs job hjob).later hg }

theorem approve_cases (s : Doors) (id shown : String) :
    s.approve id shown = s ∨
      ∃ run store, s.store.testRun id = some run ∧ run.row.status = .awaitingApproval ∧
        store = { (s.store.onRun id TestRun.approve).2 with
          approvals := (Store.approvalOf run).elim s.store.approvals
            (s.store.approvals.insert ·) } ∧
        s.approve id shown = { s with
          store
          approvedRuns := (id, shown) :: s.approvedRuns
          named := (run.row.projectId.map fun projectId =>
            (projectId, run.row.testId, shown)).toList ++ s.named
          entered := s.enter run true store :: s.entered } := by
  obtain hok | hok := Bool.eq_false_or_eq_true (s.store.approveTestRun id).1
  · obtain ⟨run, hrun, hstatus, hstore⟩ := Store.approveTestRun_true hok
    refine .inr ⟨run, _, hrun, hstatus, rfl, ?_⟩
    rw [← hstore]
    simp only [Doors.approve, hrun, hok, if_true]
  · left
    simp only [Doors.approve, hok]
    split <;> rfl

theorem Doors.Kept.approve (h : s.Kept hash) {shown : String}
    (hshown : ∀ run ∈ s.store.runs, run.row.id = id → run.row.contentHash = hash shown) :
    s.Grows (s.approve id shown) ∧ (s.approve id shown).Kept hash := by
  obtain heq | ⟨approved, store, hrun, hstatus, hstore, heq⟩ := approve_cases s id shown
  · rw [heq]
    exact ⟨⟨fun _ h => h, fun _ h => h, fun _ h => h, fun _ h _ => h, fun _ h _ => h,
      fun run h _ => ⟨run, h, rfl, rfl⟩⟩, h⟩
  obtain ⟨hmem, hid⟩ := Store.testRun_some hrun
  rw [heq]
  set s₁ : Doors := { s with
    store
    approvedRuns := (id, shown) :: s.approvedRuns
    named := (approved.row.projectId.map fun projectId =>
      (projectId, approved.row.testId, shown)).toList ++ s.named
    entered := s.enter approved true store :: s.entered } with hs₁
  -- every run is the one it was, and only the approved one is further than before
  have hruns : ∀ run ∈ s₁.store.runs, ∃ before ∈ s.store.runs,
      run.row.id = before.row.id ∧ run.row.testId = before.row.testId ∧
      run.row.definition = before.row.definition ∧
      run.row.contentHash = before.row.contentHash ∧
      (run.row.id = id ∨ run.row.status = before.row.status) := by
    intro run hin
    rw [hs₁, hstore] at hin
    obtain ⟨hold, -⟩ | ⟨before, hold, hbefore, rfl⟩ := Store.mem_onRun hin
    · exact ⟨run, hold, rfl, rfl, rfl, rfl, .inr rfl⟩
    · refine ⟨before, hold, ?_⟩
      rw [TestRun.approve]
      split
      · exact ⟨rfl, rfl, rfl, rfl, .inl hbefore⟩
      · exact ⟨rfl, rfl, rfl, rfl, .inr rfl⟩
  have hids : s₁.store.runs.map (·.row.id) = s.store.runs.map (·.row.id) := by
    rw [hs₁, hstore]
    refine ids_map (fun run => ?_) s.store.runs
    split
    · rw [TestRun.approve]
      split <;> rfl
    · rfl
  have hprojects : s₁.store.projects = s.store.projects := by rw [hs₁, hstore]; rfl
  have hworkspaces : s₁.store.workspaces = s.store.workspaces := by rw [hs₁, hstore]; rfl
  have happrovals : s₁.store.approvals = (Store.approvalOf approved).elim s.store.approvals
      (s.store.approvals.insert ·) := by rw [hs₁, hstore]
  have hnamed : ∀ entry ∈ s.named, entry ∈ s₁.named := fun _ => mem_append_right _
  have hg : s.Grows s₁ := by
    refine ⟨fun _ h => h, hnamed, fun _ => mem_cons_of_mem _, ?_, ?_, ?_⟩
    · intro approval ha _
      rw [happrovals]
      cases Store.approvalOf approved with
      | none => exact ha
      | some new => exact List.mem_insert_of_mem ha
    · intro other ho _
      exact hprojects ▸ ho
    · intro run hrun _
      obtain ⟨before, hmem, hid, -, -, hhash, -⟩ := hruns run hrun
      exact ⟨before, hmem, hid.symm, hhash⟩
  have hnew : (s.enter approved true store).Sound hash s₁ := by
    refine .inl ⟨rfl, ?_, shown, ?_, ?_⟩
    · cases hp : approved.row.projectId with
      | none => exact .inr hp
      | some projectId =>
        left
        simp only [Doors.enter, hp, any_some, Store.testApproved, hstore, Store.approvalOf,
          map_some, Option.elim_some, decide_eq_true_eq]
        exact List.mem_insert_self
    · show (approved.row.id, shown) ∈ (id, shown) :: s.approvedRuns
      exact hid ▸ mem_cons_self ..
    · exact (hshown approved hmem hid).symm.trans (h.hashed approved hmem)
  refine ⟨hg, ?_⟩
  exact
    { ids := hids ▸ h.ids
      known := by
        intro run hrun
        obtain ⟨before, hmem, hid, -⟩ := hruns run hrun
        exact hid ▸ h.known before hmem
      hashed := by
        intro run hrun
        obtain ⟨before, hmem, -, -, hdef, hhash, -⟩ := hruns run hrun
        rw [hdef, hhash]
        exact h.hashed before hmem
      projects := by rw [hprojects]; exact h.projects
      workspaces := by rw [hworkspaces]; exact h.workspaces
      approvals := by
        refine h.approved hnamed fun approval ha => ?_
        rw [happrovals, Store.approvalOf] at ha
        cases hp : approved.row.projectId with
        | none =>
          rw [hp] at ha
          exact .inl ha
        | some projectId =>
          rw [hp] at ha
          obtain rfl | hold := List.mem_insert_iff.mp ha
          · refine .inr ⟨shown, (hshown approved hmem hid).symm, ?_⟩
            rw [hs₁, hp]
            exact mem_cons_self ..
          · exact .inl hold
      queued := by
        intro run hrun hafter
        obtain ⟨before, hmem, hid', -, -, -, heq | hsame⟩ := hruns run hrun
        · exact ⟨_, mem_cons_self .., hid.trans heq.symm⟩
        · obtain ⟨e, he, heq⟩ := h.queued before hmem (hsame ▸ hafter)
          exact ⟨e, mem_cons_of_mem _ he, heq.trans hid'.symm⟩
      same := by
        intro e he run hrun heq
        obtain ⟨before, hbefore, hid', htest, hdef, -⟩ := hruns run hrun
        rw [htest, hdef]
        obtain rfl | hold := mem_cons.mp he
        · have hone : before.row.id = approved.row.id := hid'.symm.trans heq
          obtain rfl := List.inj_on_of_nodup_map h.ids hbefore hmem hone
          exact ⟨rfl, rfl⟩
        · exact h.same e hold before hbefore (hid'.symm.trans heq)
      enteredKnown := by
        intro e he
        obtain rfl | hold := mem_cons.mp he
        · exact h.known approved hmem
        · exact h.enteredKnown e hold
      entered := by
        intro e he
        obtain rfl | hold := mem_cons.mp he
        · exact hnew
        · exact (h.entered e hold).later hg
      jobs := fun job hjob => (h.jobs job hjob).later hg }

theorem Doors.Kept.only (h : s.Kept hash) {run : TestRun} (hrun : s.store.testRun id = some run) :
    ∀ other ∈ s.store.runs, other.row.id = id →
      other = run := by
  obtain ⟨hmem, hid⟩ := Store.testRun_some hrun
  exact fun other ho heq => List.inj_on_of_nodup_map h.ids ho hmem (heq.trans hid.symm)

theorem Doors.Kept.approvedTest (h : s.Kept hash) {projectId testId shown : String} {store : Store}
    (hs : s.store.approveTest projectId testId (hash shown) = some store) :
    Doors.Kept hash { s with store, named := (projectId, testId, shown) :: s.named } := by
  unfold Store.approveTest at hs
  split at hs
  · cases hs
    have hg : s.Grows { s with
        store := { s.store with
          approvals := s.store.approvals.insert ⟨projectId, testId, hash shown⟩ }
        named := (projectId, testId, shown) :: s.named } :=
      ⟨fun _ h => h, fun _ => mem_cons_of_mem _, fun _ h => h,
        fun _ ha _ => List.mem_insert_of_mem ha, fun _ h _ => h, fun run h _ => ⟨run, h, rfl, rfl⟩⟩
    refine { h with
      approvals := ?_
      entered := fun e he => (h.entered e he).later hg
      jobs := fun job hjob => (h.jobs job hjob).later hg }
    refine h.approved (fun _ => mem_cons_of_mem _) fun approval ha => ?_
    obtain rfl | hold := List.mem_insert_iff.mp ha
    · exact .inr ⟨shown, rfl, mem_cons_self ..⟩
    · exact .inl hold
  · cases hs

theorem insert_kept (h : s.Kept hash) {i : Nat} {inputs : Pairs} {clear : Bool} {look : Look}
    (hj : (Job.inserting asked inputs clear).Sound hash s)
    (hs : s.insert hash i asked inputs clear look = some s') : s'.Kept hash := by
  simp only [Doors.insert] at hs
  split at hs
  · cases hs
  rename_i hid
  split at hs
  · cases hs
    exact h.setJob i trivial
  · cases hs
    exact h.setJob i trivial
  · rename_i store hqueue
    obtain ⟨hstore, hproject⟩ := Store.queueTestRun_queued hqueue
    cases hs
    exact (h.inserted hj hid hstore (hproject _ rfl)).setJob i
      (afterInsert_sound (mem_cons_self ..) asked clear)

theorem goJob_kept (h : s.Kept hash) {i : Nat} {look : Look} {job : Job} (hj : job.Sound hash s)
    (hs : s.goJob hash i look job = some s') : s'.Kept hash := by
  cases job with
  | queue request shown =>
    cases hs
    exact h.setJob i (afterWorkspace_sound h ..)
  | finding request shown workspace =>
    cases hs
    exact h.setJob i (afterFind_sound hj ..)
  | browser asked =>
    cases hs
    exact h.setJob i (afterBrowser_sound hj ..)
  | env asked inputs =>
    cases hs
    exact h.setJob i (afterEnv_sound hj ..)
  | settings asked inputs =>
    cases hs
    exact h.setJob i hj
  | approved asked inputs settings =>
    cases hs
    exact h.setJob i (afterApproved_sound hj ..)
  | inserting asked inputs clear => exact insert_kept h hj hs
  | seen id shown =>
    simp only [Doors.goJob] at hs
    split at hs
    · rename_i hsame
      cases hs
      refine h.setJob i ⟨hj, fun run hrun hid => ?_⟩
      cases hread : s.store.testRun id with
      | none =>
        rw [hread] at hsame
        cases hsame
      | some found =>
        rw [hread] at hsame
        rw [h.only hread run hrun hid]
        exact of_decide_eq_true hsame
    · cases hs
      exact h.setJob i trivial
  | approving id shown =>
    cases hs
    exact (h.approve hj.2).2.setJob i trivial
  | approveSeen workspaceId testId shown | approveFinding workspace testId shown =>
    simp only [Doors.goJob] at hs
    split at hs <;> obtain rfl := Option.some.inj hs <;> exact h.setJob i trivial
  | approveTest projectId testId shown =>
    simp only [Doors.goJob] at hs
    split at hs
    · cases hs
      exact h.setJob i trivial
    · rename_i store happrove
      cases hs
      exact (h.approvedTest happrove).setJob i trivial
  | atEnd result => cases hs
  | overSeen approved => cases hs

theorem begin_kept (h : s.Kept hash) {job : Job} (hj : job.Sound hash s) :
    (s.begin_ job).Kept hash := by
  have hg : s.Grows (s.begin_ job) :=
    ⟨fun _ h => h, fun _ h => h, fun _ h => h, fun _ h _ => h, fun _ h _ => h,
      fun run h _ => ⟨run, h, rfl, rfl⟩⟩
  refine { h with entered := fun e he => (h.entered e he).later hg, jobs := fun other ho => ?_ }
  obtain hmem | rfl := mem_snoc.mp ho
  · exact (h.jobs other hmem).later hg
  · exact hj.later hg

theorem Doors.Kept.added (h : s.Kept hash) {projects : List String} {workspaces : List WorkspaceRow}
    (hid : id ∉ s.made) (hprojects : ∀ other ∈ projects, other ∈ s.store.projects ∨ other = id)
    (hworkspaces : ∀ row ∈ workspaces, row ∈ s.store.workspaces ∨
        row.projectId ∈ s.store.projects) :
    Doors.Kept hash { s with
      store := { s.store with projects, workspaces }, made := id :: s.made } := by
  have hmade : ∀ other ∈ s.made, other ∈ id :: s.made := fun _ => mem_cons_of_mem id
  have hg : s.Grows { s with
      store := { s.store with projects, workspaces }, made := id :: s.made } := by
    refine ⟨hmade, fun _ h => h, fun _ h => h, fun _ h _ => h, ?_,
      fun run h _ => ⟨run, h, rfl, rfl⟩⟩
    intro other ho hknown
    obtain hold | rfl := hprojects other ho
    · exact hold
    · exact absurd hknown hid
  exact { h with
    known := fun run hrun => hmade _ (h.known run hrun)
    projects := by
      intro other ho
      obtain hold | rfl := hprojects other ho
      · exact hmade _ (h.projects other hold)
      · exact mem_cons_self ..
    workspaces := by
      intro row hrow
      obtain hold | hproject := hworkspaces row hrow
      · exact hmade _ (h.workspaces row hold)
      · exact hmade _ (h.projects _ hproject)
    enteredKnown := fun e he => hmade _ (h.enteredKnown e he)
    entered := fun e he => (h.entered e he).later hg
    jobs := fun job hjob => (h.jobs job hjob).later hg }

theorem step_kept (h : s.Kept hash) {a : Act} (hs : s.step hash a = some s') : s'.Kept hash := by
  cases a with
  | queue request | queueSeen request shown | approveSeen workspaceId testId shown =>
    cases hs
    exact begin_kept h trivial
  | go i look =>
    obtain ⟨job, hjob, hgo⟩ := bind_eq_some_iff.mp hs
    exact goJob_kept h (h.jobs job (mem_of_getElem? hjob)) hgo
  | approveRun id =>
    obtain ⟨run, hrun, rfl⟩ := map_eq_some_iff.mp hs
    refine (h.approve fun other ho heq => ?_).2
    rw [h.only hrun other ho heq]
    exact h.hashed run (Store.testRun_some hrun).1
  | refuseRun id now =>
    cases hs
    exact (onRun_leaves fun run => run.refuse_same now).kept h
  | cancelRun id reason now =>
    cases hs
    exact (onRun_leaves fun run => run.cancel_same reason now).kept h
  | startRun id port outputDir now =>
    cases hs
    exact (onRun_leaves fun run => run.start_same port outputDir now).kept h
  | moveStep id stepId from_ change now =>
    cases hs
    exact (onRun_leaves fun run => run.moveStep_same stepId from_ change now).kept h
  | finishRun id status error now =>
    simp only [Doors.step] at hs
    split at hs
    · cases hs
      exact (onRun_leaves fun run => run.finish_same status error now).kept h
    · cases hs
  | endInterrupted error now =>
    cases hs
    exact (leaves_of_runs fun run => run.endInterrupted_same error now).kept h
  | prune projectId before =>
    cases hs
    exact (pruneTestRuns_leaves s.store projectId before).kept h
  | addProject id =>
    simp only [Doors.step] at hs
    split at hs
    · cases hs
    rename_i hid
    cases hs
    refine h.added hid (fun other ho => ?_) fun row hrow => .inl hrow
    exact (mem_append.mp ho).imp_right mem_singleton.mp
  | removeProject id =>
    cases hs
    exact (removeProject_leaves s.store id).kept h
  | addWorkspace row =>
    simp only [Doors.step] at hs
    split at hs
    · cases hs
    rename_i hnew
    obtain ⟨hid, hproject⟩ := not_or.mp hnew
    cases hs
    refine h.added hid (fun _ => .inl) fun other ho => ?_
    obtain hold | rfl := (mem_append.mp ho).imp_right mem_singleton.mp
    · exact .inl hold
    · exact .inr (not_not.mp hproject)
  | updateWorkspace id archived forgotten =>
    cases hs
    refine Leaves.kept ⟨.refl _, fun run hrun => ⟨run, hrun, TestRun.sameRun_of_row rfl⟩,
      fun _ h => h, fun row hrow => ?_, fun _ h => h, fun _ h _ => h⟩ h
    obtain ⟨before, hmem, rfl⟩ := mem_map.mp hrow
    exact ⟨before, hmem, by split <;> rfl⟩
  | removeWorktree id =>
    cases hs
    exact (removeWorktree_leaves s.store id).kept h
  | setSettings projectId settings =>
    obtain ⟨store, hset, rfl⟩ := map_eq_some_iff.mp hs
    unfold Store.setProjectTestSettings at hset
    split at hset
    · cases hset
      refine Leaves.kept (leaves_rest _ ?_ ?_ ?_ ?_) h <;> rfl
    · cases hset
  | setEnv projectId entries =>
    simp only [Doors.step] at hs
    split at hs
    · cases hs
      refine Leaves.kept (leaves_rest _ ?_ ?_ ?_ ?_) h <;> rfl
    · cases hs

theorem start_kept : Doors.start.Kept hash where
  ids := nodup_nil
  known _ h := (not_mem_nil h).elim
  hashed _ h := (not_mem_nil h).elim
  projects _ h := (not_mem_nil h).elim
  workspaces _ h := (not_mem_nil h).elim
  approvals _ h := (not_mem_nil h).elim
  queued _ h := (not_mem_nil h).elim
  same _ h := (not_mem_nil h).elim
  enteredKnown _ h := (not_mem_nil h).elim
  entered _ h := (not_mem_nil h).elim
  jobs _ h := (not_mem_nil h).elim

theorem run_kept {as : List Act} (hr : run (Doors.step hash) Doors.start as = some s) :
    s.Kept hash :=
  run_invariant (fun _ _ _ h hs => step_kept h hs) hr start_kept

/-- Whoever asks for a run comes through one of the two. -/
def Act.isDoor : Act → Bool
  | .queue _ | .queueSeen _ _ => true
  | _ => false

section
variable (hash : String → String)

/-- The actions have come through `u` since caller `i` called its door. -/
def Since (as : List Act) (i : Nat) (u : Doors) : Prop :=
  ∃ (before : List Act) (door : Act) (mid rest : List Act) (s₀ : Doors),
    as = before ++ door :: mid ++ rest ∧ door.isDoor = true ∧
    run (Doors.step hash) Doors.start before = some s₀ ∧ i = s₀.callers.length ∧
    run (Doors.step hash) Doors.start (before ++ door :: mid) = some u

/-- The actions came through `u` between a caller's call of a door and its insert of what came
    in. -/
def Between (as : List Act) (e : Entered) (u : Doors) : Prop :=
  ∃ before i look rest s₁ s₂, as = before ++ Act.go i look :: rest ∧ Since hash before i u ∧
    run (Doors.step hash) Doors.start before = some s₁ ∧ s₁.step hash (.go i look) = some s₂ ∧
    s₂.entered = e :: s₁.entered

def Doors.Lets (u : Doors) (projectId : String) : Prop :=
  (u.store.projectTestSettings projectId).askEveryTime = false

/-- What is known of a caller's past: that it called a door, and, once it goes by settings that do
    not ask, that its project did not since then. -/
def Job.Traced (as : List Act) (i : Nat) (s : Doors) : Job → Prop
  | .queue _ _ | .finding _ _ _ | .browser _ | .env _ _ | .settings _ _ => Since hash as i s
  | .approved asked _ asks => asks.askEveryTime = false →
      ∃ u, Since hash as i u ∧ u.Lets asked.workspace.projectId
  | .inserting asked _ clear => clear = true →
      ∃ u, Since hash as i u ∧ u.Lets asked.workspace.projectId
  | _ => True

structure Doors.Traced (as : List Act) (s : Doors) : Prop where
  jobs : ∀ (i : Nat) (job : Job), s.callers[i]? = some job → job.Traced hash as i s
  entered : ∀ e ∈ s.entered, e.byApproval = true ∨ ∃ projectId u, e.projectId = some projectId ∧
    Between hash as e u ∧ u.Lets projectId

/-- What a step of caller `i` leaves: another stage of its own, and perhaps a run in the queue. -/
structure Goes (s : Doors) (as : List Act) (i : Nat) (look : Look) (s' : Doors) : Prop where
  callers : ∃ job : Job, s'.callers = s.callers.set i job ∧
    job.Traced hash (as ++ [.go i look]) i s'
  entered : ∀ e ∈ s'.entered, e ∈ s.entered ∨ e.byApproval = true ∨
    ∃ projectId u, e.projectId = some projectId ∧ s'.entered = e :: s.entered ∧
      Since hash as i u ∧ u.Lets projectId

end

section
variable {as : List Act} {a : Act} {i : Nat} {look : Look}

theorem Since.later {u : Doors} (h : Since hash as i u) : Since hash (as ++ [a]) i u := by
  obtain ⟨before, door, mid, rest, s₀, rfl, hdoor, hbefore, hi, hu⟩ := h
  exact ⟨before, door, mid, rest ++ [a], s₀, append_assoc .., hdoor, hbefore, hi, hu⟩

theorem Since.now (h : Since hash as i s)
    (hr : run (Doors.step hash) Doors.start (as ++ [a]) = some s') :
    Since hash (as ++ [a]) i s' := by
  obtain ⟨before, door, mid, rest, s₀, rfl, hdoor, hbefore, hi, -⟩ := h
  have hall : before ++ door :: mid ++ rest ++ [a] = before ++ door :: (mid ++ rest ++ [a]) := by
    simp
  exact ⟨before, door, mid ++ rest ++ [a], [], s₀, by rw [hall, append_nil], hdoor, hbefore, hi,
    hall ▸ hr⟩

theorem Between.later {e : Entered} {u : Doors} (h : Between hash as e u) :
    Between hash (as ++ [a]) e u := by
  obtain ⟨before, i, look, rest, s₁, s₂, rfl, hsince, hbefore, hs, he⟩ := h
  exact ⟨before, i, look, rest ++ [a], s₁, s₂, by simp, hsince, hbefore, hs, he⟩

theorem Job.Traced.later {job : Job} (h : job.Traced hash as i s)
    (hr : run (Doors.step hash) Doors.start (as ++ [a]) = some s') :
    job.Traced hash (as ++ [a]) i s' := by
  cases job with
  | queue request shown | finding request shown workspace | browser asked | env asked inputs
  | settings asked inputs => exact Since.now h hr
  | approved asked inputs settings =>
    intro hasks
    obtain ⟨u, hsince, hlets⟩ := h hasks
    exact ⟨u, hsince.later, hlets⟩
  | inserting asked inputs clear =>
    intro hclear
    obtain ⟨u, hsince, hlets⟩ := h hclear
    exact ⟨u, hsince.later, hlets⟩
  | _ => trivial

theorem afterWorkspace_traced (h : Since hash as i s) (request : Request) (shown : Option String)
    (row : Option WorkspaceRow) : (afterWorkspace request shown row).Traced hash as i s := by
  rw [afterWorkspace]
  split
  · trivial
  · split
    · trivial
    · exact h

theorem afterInputs_traced (h : Since hash as i s) (asked : Asked) :
    (afterInputs asked).Traced hash as i s := by
  rw [afterInputs]
  split
  · trivial
  · exact h

theorem afterFind_traced (h : Since hash as i s) (request : Request) (shown : Option String)
    (workspace : WorkspaceRow) (look : Look) :
    (afterFind request shown workspace look).Traced hash as i s := by
  rw [afterFind]
  split
  · trivial
  · split
    · trivial
    · dsimp only
      split
      · exact h
      · exact afterInputs_traced h _

theorem afterBrowser_traced (h : Since hash as i s) (asked : Asked) (look : Look) :
    (afterBrowser asked look).Traced hash as i s := by
  rw [afterBrowser]
  split
  · split
    · exact afterInputs_traced h asked
    · trivial
  · exact afterInputs_traced h asked

theorem afterEnv_traced (h : Since hash as i s) (asked : Asked) (inputs env : Pairs) :
    (afterEnv asked inputs env).Traced hash as i s := by
  rw [afterEnv]
  split
  · exact h
  · trivial

theorem afterApproved_traced {inputs : Pairs} {settings : TestSettings}
    (h : (Job.approved asked inputs settings).Traced hash as i s) (row : Bool) :
    (afterApproved asked inputs settings row).Traced hash as i s := by
  rw [afterApproved]
  split
  · trivial
  · intro hclear
    exact h (by simpa using (Bool.and_eq_true_iff.mp hclear).2)

theorem afterInsert_traced (asked : Asked) (approved : Bool) :
    (afterInsert asked approved id).Traced hash as i s := by
  rw [afterInsert]
  split
  · split <;> trivial
  · trivial

/-! ### What an action leaves -/

theorem approve_callers (s : Doors) (id shown : String) :
    (s.approve id shown).callers = s.callers := by
  obtain heq | ⟨run, store, -, -, -, heq⟩ := approve_cases s id shown <;> rw [heq]

theorem approve_entered {shown : String} {e : Entered} (he : e ∈ (s.approve id shown).entered) :
    e ∈ s.entered ∨ e.byApproval = true := by
  obtain heq | ⟨run, store, -, -, -, heq⟩ := approve_cases s id shown
  · exact .inl (heq ▸ he)
  · rw [heq] at he
    obtain rfl | hold := mem_cons.mp he
    · exact .inr rfl
    · exact .inl hold

theorem insert_goes {inputs : Pairs} {clear : Bool}
    (h : (Job.inserting asked inputs clear).Traced hash as i s)
    (hs : s.insert hash i asked inputs clear look = some s') : Goes hash s as i look s' := by
  simp only [Doors.insert] at hs
  split at hs
  · cases hs
  split at hs
  · cases hs
    exact ⟨⟨_, rfl, trivial⟩, fun e he => .inl he⟩
  · cases hs
    exact ⟨⟨_, rfl, trivial⟩, fun e he => .inl he⟩
  · cases hs
    refine ⟨⟨_, rfl, afterInsert_traced ..⟩, fun e he => ?_⟩
    dsimp only at he ⊢
    split at he
    · rename_i hclear
      obtain rfl | hold := mem_cons.mp he
      -- cleared by settings that it read since its call
      · obtain ⟨u, hsince, hlets⟩ := h hclear
        exact .inr (.inr ⟨asked.workspace.projectId, u, rfl, if_pos hclear, hsince, hlets⟩)
      · exact .inl hold
    · exact .inl he

theorem goJob_goes {job : Job} (h : job.Traced hash as i s)
    (hr : run (Doors.step hash) Doors.start (as ++ [Act.go i look]) = some s')
    (hs : s.goJob hash i look job = some s') : Goes hash s as i look s' := by
  cases job with
  | queue request shown =>
    cases hs
    exact ⟨⟨_, rfl, afterWorkspace_traced (Since.now h hr) ..⟩, fun e he => .inl he⟩
  | finding request shown workspace =>
    cases hs
    exact ⟨⟨_, rfl, afterFind_traced (Since.now h hr) ..⟩, fun e he => .inl he⟩
  | browser asked =>
    cases hs
    exact ⟨⟨_, rfl, afterBrowser_traced (Since.now h hr) ..⟩, fun e he => .inl he⟩
  | env asked inputs =>
    cases hs
    exact ⟨⟨_, rfl, afterEnv_traced (Since.now h hr) ..⟩, fun e he => .inl he⟩
  | settings asked inputs =>
    -- what it reads is what its project says here
    cases hs
    exact ⟨⟨_, rfl, fun hasks => ⟨s, Since.later h, hasks⟩⟩, fun e he => .inl he⟩
  | approved asked inputs settings =>
    cases hs
    exact ⟨⟨_, rfl, afterApproved_traced (h.later hr) _⟩, fun e he => .inl he⟩
  | inserting asked inputs clear => exact insert_goes h hs
  | seen id shown | approveSeen workspaceId testId shown | approveFinding workspace testId shown
  | approveTest projectId testId shown =>
    simp only [Doors.goJob] at hs
    split at hs <;> cases hs <;> exact ⟨⟨_, rfl, trivial⟩, fun e he => .inl he⟩
  | approving id shown =>
    cases hs
    refine ⟨⟨.atEnd (.ok ⟨id, false⟩), ?_, trivial⟩, fun e he => ?_⟩
    · rw [Doors.setJob, approve_callers]
    · exact (approve_entered he).imp_right .inl
  | atEnd result => cases hs
  | overSeen approved => cases hs

theorem step_callers (hs : s.step hash a = some s')
    (hgo : ∀ i look, a ≠ .go i look) :
    (s'.callers = s.callers ∨ ∃ job : Job, s'.callers = s.callers ++ [job] ∧
      ((a.isDoor = true ∧ ∀ as i t, Since hash as i t → job.Traced hash as i t) ∨
        ∀ as i t, job.Traced hash as i t)) ∧
    ∀ e ∈ s'.entered, e ∈ s.entered ∨ e.byApproval = true := by
  cases a with
  | queue request | queueSeen request shown =>
    cases hs
    exact ⟨.inr ⟨_, rfl, .inl ⟨rfl, fun _ _ _ h => h⟩⟩, fun e he => .inl he⟩
  | approveSeen workspaceId testId shown =>
    cases hs
    exact ⟨.inr ⟨_, rfl, .inr fun _ _ _ => trivial⟩, fun e he => .inl he⟩
  | go i look => exact absurd rfl (hgo i look)
  | approveRun id =>
    obtain ⟨run, -, rfl⟩ := map_eq_some_iff.mp hs
    exact ⟨.inl (approve_callers ..), fun e he => approve_entered he⟩
  | setSettings projectId settings =>
    obtain ⟨store, -, rfl⟩ := map_eq_some_iff.mp hs
    exact ⟨.inl rfl, fun e he => .inl he⟩
  | finishRun _ _ _ _ | setEnv _ _ =>
    simp only [Doors.step] at hs
    split at hs
    · cases hs
      exact ⟨.inl rfl, fun e he => .inl he⟩
    · cases hs
  | addProject _ | addWorkspace _ =>
    simp only [Doors.step] at hs
    split at hs
    · cases hs
    · cases hs
      exact ⟨.inl rfl, fun e he => .inl he⟩
  | _ =>
    cases hs
    exact ⟨.inl rfl, fun e he => .inl he⟩

theorem traced_step (hr : run (Doors.step hash) Doors.start as = some s) (h : s.Traced hash as)
    (hs : s.step hash a = some s') : s'.Traced hash (as ++ [a]) := by
  have hr' : run (Doors.step hash) Doors.start (as ++ [a]) = some s' :=
    run_append.mpr ⟨s, hr, run_cons.mpr ⟨s', hs, rfl⟩⟩
  have hentered : ∀ e ∈ s.entered, e.byApproval = true ∨ ∃ projectId u,
      e.projectId = some projectId ∧ Between hash (as ++ [a]) e u ∧ u.Lets projectId := by
    intro e he
    obtain happroved | ⟨projectId, u, hproject, hbetween, hlets⟩ := h.entered e he
    · exact .inl happroved
    · exact .inr ⟨projectId, u, hproject, hbetween.later, hlets⟩
  by_cases hgo : ∃ i look, a = .go i look
  · obtain ⟨i, look, rfl⟩ := hgo
    -- the caller's own stage is the new one; every other is as it was
    obtain ⟨job, hjob, hjobGoes⟩ := bind_eq_some_iff.mp hs
    obtain ⟨⟨next, hcallers, hnext⟩, hcame⟩ := goJob_goes (h.jobs i job hjob) hr' hjobGoes
    refine ⟨fun other otherJob hother => ?_, fun e he => ?_⟩
    · rw [hcallers] at hother
      by_cases hi : i = other
      · subst hi
        have hlt : i < s.callers.length := (List.getElem?_eq_some_iff.mp hjob).1
        rw [List.getElem?_set_self hlt] at hother
        exact Option.some.inj hother ▸ hnext
      · rw [List.getElem?_set_ne hi] at hother
        exact (h.jobs other otherJob hother).later hr'
    · obtain hold | happroved | ⟨projectId, u, hproject, hone, hsince, hlets⟩ := hcame e he
      · exact hentered e hold
      · exact .inl happroved
      · exact .inr ⟨projectId, u, hproject,
          ⟨as, i, look, [], s, s', rfl, hsince, hr, hs, hone⟩, hlets⟩
  -- No caller goes on: one may have called.
  · have hgo' : ∀ i look, a ≠ .go i look := fun i look heq => hgo ⟨i, look, heq⟩
    obtain ⟨hcallers, hcame⟩ := step_callers hs hgo'
    refine ⟨fun i job hjob => ?_, fun e he => ?_⟩
    · obtain hsame | ⟨called, hsnoc, hcalled⟩ := hcallers
      · exact (h.jobs i job (hsame ▸ hjob)).later hr'
      · rw [hsnoc] at hjob
        obtain hlt | hge := Nat.lt_or_ge i s.callers.length
        · rw [List.getElem?_append_left hlt] at hjob
          exact (h.jobs i job hjob).later hr'
        -- the caller has just called
        · rw [List.getElem?_append_right hge, List.getElem?_singleton] at hjob
          split at hjob
          · cases hjob
            obtain ⟨hdoor, htraced⟩ | hany := hcalled
            · have hi : i = s.callers.length := by omega
              exact htraced _ i s' ⟨as, a, [], [], s, (append_nil _).symm, hdoor, hr, hi, hr'⟩
            · exact hany _ _ _
          · cases hjob
    · exact (hcame e he).elim (hentered e) .inl

theorem run_traced (hr : run (Doors.step hash) Doors.start as = some s) : s.Traced hash as := by
  refine run_history (P := fun as s => s.Traced hash as)
    (fun as s a s' h ht hs => traced_step h ht hs) hr ⟨fun i job hjob => ?_, fun e he => ?_⟩
  · cases hjob
  · cases he

/-- **What comes into the queue.** A run in the queue, or past it, came in as what it runs. What
    came in was approved itself, by a person shown that very text, which was recorded unless its
    project was gone; or a person had approved that very text for its project, which was
    recorded. And it was approved itself, unless its project did not ask, in some state between its
    caller's call of the door and its coming in. -/
theorem queue_gated (hhash : Function.Injective hash)
    (hr : run (Doors.step hash) Doors.start as = some s) :
    (∀ run ∈ s.store.runs, run.row.status.afterQueue = true → ∃ e ∈ s.entered,
      e.id = run.row.id ∧ e.definition = run.row.definition ∧ e.testId = run.row.testId) ∧
    ∀ e ∈ s.entered,
      ((e.byApproval = true ∧ (e.recorded = true ∨ e.projectId = none) ∧
          (e.id, e.definition) ∈ s.approvedRuns) ∨
        (e.byApproval = false ∧ e.recorded = true ∧ ∃ projectId, e.projectId = some projectId ∧
          (projectId, e.testId, e.definition) ∈ s.named)) ∧
      (e.byApproval = true ∨ ∃ projectId u, e.projectId = some projectId ∧
        Between hash as e u ∧ (u.store.projectTestSettings projectId).askEveryTime = false) := by
  have h := run_kept hr
  constructor
  · intro run hrun hafter
    obtain ⟨e, he, hid⟩ := h.queued run hrun hafter
    obtain ⟨hdef, htest⟩ := h.same e he run hrun hid.symm
    exact ⟨e, he, hid, hdef.symm, htest.symm⟩
  · intro e he
    refine ⟨?_, (run_traced hr).entered e he⟩
    obtain ⟨hby, hrec, shown, hmem, heq⟩ | ⟨hby, hrec, projectId, shown, hp, hmem, heq⟩ :=
      h.entered e he
    · obtain rfl := hhash heq
      exact .inl ⟨hby, hrec, hmem⟩
    · obtain rfl := hhash heq
      exact .inr ⟨hby, hrec, projectId, hp, hmem⟩

end

end

def addsFile : String :=
  "id: adds\nname: Adds\nversion: 1\nsteps:\n  - id: add\n    action: run\n" ++
    "    program: cargo\n    args: [test]\n"

def editedFile : String :=
  "id: adds\nname: Adds\nversion: 1\nsteps:\n  - id: add\n    action: run\n" ++
    "    program: cargo\n    args: [bench]\n"

def addsHash : String := "7fdafcdae228ff9da43e18084c71fa1f4161cfd9b593a12252f3a51a9068d265"

def editedHash : String := "e1be6e7b0c918133edccbd068dd5aa565281b12c4f884d4bcddde6934c46f589"

def digest (text : String) : String :=
  if text = addsFile then addsHash
  else if text = editedFile then editedHash
  else "of " ++ text

theorem digest_injective : Function.Injective digest := by
  have hfirst : ∀ text, ("of " ++ text).toList.head? = some 'o' := fun text => by simp
  have hadds : ∀ text, "of " ++ text ≠ addsHash := by
    intro text heq
    have hhead := hfirst text
    rw [heq] at hhead
    exact absurd hhead (by decide)
  have hedited : ∀ text, "of " ++ text ≠ editedHash := by
    intro text heq
    have hhead := hfirst text
    rw [heq] at hhead
    exact absurd hhead (by decide)
  have htwo : addsHash ≠ editedHash := by decide
  have hof : ∀ a b, "of " ++ a = "of " ++ b → a = b := by
    intro a b heq
    simpa using heq
  intro a b h
  unfold digest at h
  grind

def addStep (args : List String) : Step where
  id := "add"
  action := .run "cargo" args none [] none ⟨.code 0, none, none, false, none⟩ none

def addsEntry (text : String) (args : List String) : Entry where
  id := "adds"
  problems := []
  test := some ⟨"adds", "Adds", [], 1800, [], [addStep args], []⟩
  text

def addsRequest (requestedBy : String) : Request := ⟨"adds", "w", [], requestedBy, none, false⟩

def lookAt (entry : Entry) (id : String) : Look := ⟨some entry, ["adds"], true, "", id, 5⟩

def addsLook (id : String) : Look := lookAt (addsEntry addsFile ["test"]) id

def editedLook (id : String) : Look := lookAt (addsEntry editedFile ["bench"]) id

def addsProject : List Act :=
  [.addProject "p", .addWorkspace ⟨"w", "p", "task", "/w", false, false⟩]

def goOn (caller : Nat) (look : Look) (times : Nat) : List Act :=
  List.replicate times (.go caller look)

/-- Run from the dialog, asked for again by an agent once edited, and by another as it was. -/
def shownRun : List Act :=
  addsProject ++ Act.queueSeen (addsRequest "user") addsFile :: goOn 0 (addsLook "r1") 8 ++
    [Act.startRun "r1" 4100 "/out" 6, .finishRun "r1" .passed none 7] ++
    Act.queue (addsRequest "agent") :: goOn 1 (editedLook "r2") 6 ++ [Act.refuseRun "r2" 8] ++
    Act.queue (addsRequest "agent") :: goOn 2 (addsLook "r3") 6

theorem shown_run_gated : ∃ s, run (Doors.step digest) Doors.start shownRun = some s ∧
    s.entered.map (fun e => (e.id, e.byApproval)) = [("r3", false), ("r1", true)] ∧
    ∀ e ∈ s.entered, e.definition = addsFile := by
  have h : (run (Doors.step digest) Doors.start shownRun).map (fun s =>
      (s.entered.map (fun e => (e.id, e.byApproval)), s.named, s.approvedRuns)) =
      some ([("r3", false), ("r1", true)], [("p", "adds", addsFile)], [("r1", addsFile)]) := by
    decide +kernel
  obtain ⟨s, hs, hledgers⟩ := map_eq_some_iff.mp h
  obtain ⟨hentered, hrest⟩ := Prod.mk.inj hledgers
  obtain ⟨hnamed, happroved⟩ := Prod.mk.inj hrest
  refine ⟨s, hs, hentered, fun e he => ?_⟩
  obtain ⟨⟨-, -, hmem⟩ | ⟨-, -, projectId, -, hmem⟩, -⟩ :=
    (queue_gated digest_injective hs).2 e he
  · rw [happroved, mem_singleton] at hmem
    exact (Prod.mk.inj hmem).2
  · rw [hnamed, mem_singleton] at hmem
    exact (Prod.mk.inj (Prod.mk.inj hmem).2).2

/-- The project is switched to asking every time after a door read that it does not. -/
def switchedRun : List Act :=
  addsProject ++ Act.approveSeen "w" "adds" addsFile :: goOn 0 (addsLook "") 3 ++
    Act.queue (addsRequest "agent") :: goOn 1 (addsLook "r1") 5 ++
    Act.setSettings "p" ⟨true, 30, ""⟩ :: goOn 1 (addsLook "r1") 1

def orphanedRun : List Act :=
  addsProject ++ Act.queue (addsRequest "agent") :: goOn 0 (addsLook "r1") 6 ++
    [Act.removeProject "p", .approveRun "r1"]

/-- A run comes in unapproved while its project asks every time, and one with no approval of its
    file recorded. -/
theorem queued_while_asking :
    (∃ s, run (Doors.step digest) Doors.start switchedRun = some s ∧
      ∃ e ∈ s.entered, e.asking = true ∧ e.byApproval = false) ∧
    ∃ s, run (Doors.step digest) Doors.start orphanedRun = some s ∧
      ∃ e ∈ s.entered, e.recorded = false := by
  have hswitched : (run (Doors.step digest) Doors.start switchedRun).map (fun s =>
      s.entered.any fun e => e.asking && !e.byApproval) = some true := by decide +kernel
  have horphaned : (run (Doors.step digest) Doors.start orphanedRun).map (fun s =>
      s.entered.any fun e => !e.recorded) = some true := by decide +kernel
  constructor
  · obtain ⟨s, hs, hany⟩ := map_eq_some_iff.mp hswitched
    obtain ⟨e, he, hboth⟩ := List.any_eq_true.mp hany
    exact ⟨s, hs, e, he, by simpa using hboth⟩
  · obtain ⟨s, hs, hany⟩ := map_eq_some_iff.mp horphaned
    obtain ⟨e, he, hnot⟩ := List.any_eq_true.mp hany
    exact ⟨s, hs, e, he, by simpa using hnot⟩

end Yardsort.Smoke
