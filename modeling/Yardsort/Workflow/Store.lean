import Mathlib.Data.List.Sort
import Yardsort.Workflow.Place

/- Workflow runs as the store keeps them (`core/src/store.rs`): one row a run, and one row a step
   of it. Each operation is one SQL statement or one transaction, so it happens at once, and the
   ones that change a run say in which state it has to be.

   A run's file is kept as the workflow it describes, and the JSON of its inputs, its context and
   its steps' outputs as what it says. `run` looks a run up by its id; the lemmas say what each
   operation leaves of a run, its own and any other. -/
namespace Yardsort.Workflow

inductive StepStatus where
  | pending
  | running
  | waiting
  | succeeded
  | failed
  | skipped
  | cancelled
  deriving DecidableEq

def StepStatus.isFinal : StepStatus → Bool
  | .succeeded | .failed | .skipped | .cancelled => true
  | .pending | .running | .waiting => false

inductive RunStatus where
  | queued
  | running
  | succeeded
  | failed
  | cancelled
  deriving DecidableEq

def RunStatus.active : RunStatus → Bool
  | .queued | .running => true
  | .succeeded | .failed | .cancelled => false

/-- The inputs a run was given, by input id, and what a step left for later ones, by field. -/
abbrev Inputs := List (String × String)
abbrev Outputs := List (String × String)

structure WorkflowStepRow where
  stepId : String
  status : StepStatus
  startedAt : Option Int
  endedAt : Option Int
  outputs : Outputs
  note : Option String

structure WorkflowRunRow where
  id : String
  definition : Workflow
  workspaceId : Option String
  inputs : Inputs
  status : RunStatus
  error : Option String
  createdAt : Int
  startedAt : Option Int
  endedAt : Option Int
  context : Facts

def WorkflowRunRow.active (row : WorkflowRunRow) : Bool := row.status.active

structure WorkflowRun where
  row : WorkflowRunRow
  steps : List WorkflowStepRow

def queuedSteps (w : Workflow) : List WorkflowStepRow :=
  w.steps.map fun step => ⟨step.id, .pending, none, none, [], none⟩

def WorkflowStepRow.moved (row : WorkflowStepRow) (to_ : StepStatus) (outputs : Option Outputs)
    (note : Option String) (now : Int) : WorkflowStepRow where
  stepId := row.stepId
  status := to_
  startedAt := if to_.isFinal then row.startedAt else some (row.startedAt.getD now)
  endedAt := if to_.isFinal then some now else row.endedAt
  outputs := outputs.getD row.outputs
  note := note.or row.note

structure Move where
  step : String
  from_ : List StepStatus
  to_ : StepStatus
  outputs : Option Outputs
  note : Option String

def moveSteps (change : Move) (now : Int) (rows : List WorkflowStepRow) : List WorkflowStepRow :=
  rows.map fun row =>
    if row.stepId = change.step ∧ row.status ∈ change.from_ then
      row.moved change.to_ change.outputs change.note now
    else row

def cancelSteps (now : Int) (rows : List WorkflowStepRow) : List WorkflowStepRow :=
  rows.map fun row =>
    if row.status.isFinal then row else { row with status := .cancelled, endedAt := some now }

abbrev Store := List WorkflowRun

variable {f : WorkflowRun → WorkflowRun}

namespace Store

def run (store : Store) (id : String) : Option WorkflowRun :=
  store.find? (fun r => r.row.id = id)

/-- `UPDATE … WHERE id = ? AND …`: whether a row was changed comes along. -/
def updateWhere (store : Store) (id : String) (ok : WorkflowRun → Bool)
    (f : WorkflowRun → WorkflowRun) : Store × Bool :=
  (store.map (fun r => if r.row.id = id ∧ ok r = true then f r else r), (store.run id).any ok)

def queueWorkflowRun (store : Store) (new : WorkflowRun) : Store × Bool :=
  if store.any (fun r => r.row.active && r.row.definition.id = new.row.definition.id &&
      r.row.workspaceId = new.row.workspaceId) then (store, false)
  else (store ++ [new], true)

def activeWorkflowRuns (store : Store) : List WorkflowRunRow :=
  ((store.filter (·.row.active)).map (·.row)).insertionSort (fun a b => a.createdAt ≤ b.createdAt)

def workflowSteps (store : Store) (id : String) : List WorkflowStepRow :=
  ((store.run id).map (·.steps)).getD []

def startWorkflowRun (store : Store) (id : String) (context : Facts) (now : Int) : Store × Bool :=
  store.updateWhere id (fun r => r.row.status = .queued) fun r =>
    { r with row := { r.row with status := .running, startedAt := some now, context := context } }

/-- Move a step on, only if its run is still running and the step is in one of the statuses the
    change is for. -/
def moveWorkflowStep (store : Store) (id : String) (change : Move) (now : Int) : Store × Bool :=
  store.updateWhere id
    (fun r => r.row.status = .running &&
      r.steps.any (fun s => s.stepId = change.step && change.from_.contains s.status))
    fun r => { r with steps := moveSteps change now r.steps }

def finishWorkflowRun (store : Store) (id : String) (status : RunStatus) (error : Option String)
    (now : Int) : Store × Bool :=
  store.updateWhere id (·.row.active) fun r =>
    { r with row := { r.row with status := status, error := error, endedAt := some now } }

def cancelWorkflowRun (store : Store) (id : String) (reason : String) (now : Int) : Store × Bool :=
  store.updateWhere id (·.row.active) fun r =>
    { row := { r.row with status := .cancelled, error := some reason, endedAt := some now }
      steps := cancelSteps now r.steps }

variable {store : Store} {id other : String}

theorem run_id {r : WorkflowRun} (h : store.run id = some r) : r.row.id = id := by
  rw [run] at h
  simpa using List.find?_some h

theorem run_map (hf : ∀ r, (f r).row.id = r.row.id) :
    Store.run (store.map f) id = (store.run id).map f := by
  have hsame : (fun r : WorkflowRun => decide (r.row.id = id)) ∘ f =
      fun r => decide (r.row.id = id) := by
    funext r
    show decide ((f r).row.id = id) = decide (r.row.id = id)
    rw [hf]
  rw [run, List.find?_map, hsame, run]

theorem run_updateWhere {ok : WorkflowRun → Bool} (hf : ∀ r, (f r).row.id = r.row.id) :
    (store.updateWhere id ok f).1.run other =
      if other = id then (store.run id).map (fun r => if ok r then f r else r)
      else store.run other := by
  have hkeep : ∀ r : WorkflowRun,
      (if r.row.id = id ∧ ok r = true then f r else r).row.id = r.row.id := by
    intro r
    split
    · exact hf r
    · rfl
  rw [updateWhere, run_map hkeep]
  split
  · rename_i he
    subst he
    cases h : store.run other with
    | none => rfl
    | some r => simp [run_id h]
  · rename_i hne
    cases h : store.run other with
    | none => rfl
    | some r => simp [run_id h, hne]

theorem run_updated {ok : WorkflowRun → Bool} (hf : ∀ r, (f r).row.id = r.row.id) {r : WorkflowRun}
    (h : store.run id = some r) :
    (store.updateWhere id ok f).1.run id = some (if ok r then f r else r) := by
  rw [run_updateWhere hf, if_pos rfl, h]
  rfl

theorem run_other {ok : WorkflowRun → Bool} (hf : ∀ r, (f r).row.id = r.row.id) (hne : other ≠ id) :
    (store.updateWhere id ok f).1.run other = store.run other := by
  rw [run_updateWhere hf, if_neg hne]

theorem run_missed {ok : WorkflowRun → Bool} (hf : ∀ r, (f r).row.id = r.row.id)
    (h : (store.updateWhere id ok f).2 = false) :
    (store.updateWhere id ok f).1.run other = store.run other := by
  rw [run_updateWhere hf]
  split
  · rename_i he
    subst he
    cases hr : store.run other with
    | none => rfl
    | some r =>
      have hno : ok r = false := by
        rw [updateWhere, hr] at h
        exact h
      rw [Option.map_some, hno]
      rfl
  · rfl

theorem start_other {context : Facts} {now : Int} (hne : other ≠ id) :
    (store.startWorkflowRun id context now).1.run other = store.run other :=
  run_other (fun _ => rfl) hne

theorem start_missed {context : Facts} {now : Int}
    (h : (store.startWorkflowRun id context now).2 = false) :
    (store.startWorkflowRun id context now).1.run other = store.run other :=
  run_missed (fun _ => rfl) h

theorem move_other {change : Move} {now : Int} (hne : other ≠ id) :
    (store.moveWorkflowStep id change now).1.run other = store.run other :=
  run_other (fun _ => rfl) hne

theorem finish_other {status : RunStatus} {error : Option String} {now : Int} (hne : other ≠ id) :
    (store.finishWorkflowRun id status error now).1.run other = store.run other :=
  run_other (fun _ => rfl) hne

end Store

end Yardsort.Workflow
