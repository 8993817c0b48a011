import Yardsort.Workflow.Advance
import Yardsort.Workflow.Driver

/- What a turn does, and what holds after any turns.

   `Took` says what each turn does, one case a turn. `step_evolves` says what an act leaves of the
   runs in the store: each is changed by at most one operation, moved only by the change the driver
   applies, and finished only where the driver ends it. From the two follows `Coherent`,
   which every run keeps: the store has one run for an id, with one row for each of its steps, and
   what the driver has in hand is a run of the store, one that has started. -/
namespace Yardsort.Workflow
open Yardsort.Lib

/-- What one store operation does to a run: it may move a step by one of `moves`, and finish the
    run only if `ends`. -/
inductive Change (moves : Move → Prop) (ends : Prop) (r : WorkflowRun) : WorkflowRun → Prop
  | kept : Change moves ends r r
  | started (context : Facts) (now : Int) (h : r.row.status = .queued) :
    Change moves ends r
      { r with row := { r.row with status := .running, startedAt := some now, context := context } }
  | moved (change : Move) (now : Int) (hmoves : moves change) (h : r.row.status = .running) :
    Change moves ends r { r with steps := moveSteps change now r.steps }
  | finished (status : RunStatus) (error : Option String) (now : Int) (hends : ends)
    (h : r.row.active = true) (hstatus : status.active = false) :
    Change moves ends r
      { r with row := { r.row with status := status, error := error, endedAt := some now } }
  | cancelled (reason : String) (now : Int) (h : r.row.active = true) :
    Change moves ends r
      { row := { r.row with status := .cancelled, error := some reason, endedAt := some now }
        steps := cancelSteps now r.steps }

structure Queued (r : WorkflowRun) : Prop where
  status : r.row.status = .queued
  steps : r.steps = queuedSteps r.row.definition
  unique : (r.row.definition.steps.map (·.id)).Nodup

/-- A run as the store may have it: one row for each step, and none begun before the run is. -/
structure Kept (r : WorkflowRun) : Prop where
  ids : r.steps.map (·.stepId) = r.row.definition.steps.map (·.id)
  unique : (r.row.definition.steps.map (·.id)).Nodup
  waits : r.row.status = .queued → ∀ row ∈ r.steps, row.status = .pending

theorem Queued.kept {r : WorkflowRun} (h : Queued r) : Kept r := by
  refine ⟨?_, h.unique, fun _ row hrow => ?_⟩
  · rw [h.steps, queuedSteps, map_map]
    rfl
  · rw [h.steps, queuedSteps] at hrow
    obtain ⟨step, -, rfl⟩ := mem_map.mp hrow
    rfl

namespace Change

variable {moves : Move → Prop} {ends : Prop} {r r' : WorkflowRun}

theorem definition (h : Change moves ends r r') : r'.row.definition = r.row.definition := by
  cases h <;> rfl

theorem not_queued (h : Change moves ends r r') (hr : r.row.status ≠ .queued) :
    r'.row.status ≠ .queued := by
  cases h with
  | kept => exact hr
  | started => nofun
  | moved => exact hr
  | finished status error now hends h hstatus =>
    rintro rfl
    cases hstatus
  | cancelled => nofun

theorem ended (h : Change moves ends r r') (hr : r.row.active = false) : r' = r := by
  cases h with
  | kept => rfl
  | started context now h
  | moved change now hmoves h => rw [WorkflowRunRow.active, h] at hr; cases hr
  | finished status error now hends h | cancelled reason now h => rw [hr] at h; cases h

theorem kept_run (h : Change moves ends r r') (hr : Kept r) : Kept r' := by
  cases h with
  | kept => exact hr
  | started => exact ⟨hr.ids, hr.unique, nofun⟩
  | moved change now hmoves h =>
    refine ⟨(moveSteps_ids change now r.steps).trans hr.ids, hr.unique, fun hq => ?_⟩
    rw [h] at hq
    cases hq
  | finished status error now hends h hstatus =>
    refine ⟨hr.ids, hr.unique, ?_⟩
    rintro rfl
    cases hstatus
  | cancelled reason now h =>
    exact ⟨(cancelSteps_ids now r.steps).trans hr.ids, hr.unique, nofun⟩

end Change

/-- Every run of the store is still there, changed by at most one operation, and one that was not
    there has just been queued. -/
structure Evolves (moves : String → Move → Prop) (ends : String → Prop) (store store' : Store) :
    Prop where
  old : ∀ id r, store.run id = some r →
    ∃ r', store'.run id = some r' ∧ Change (moves id) (ends id) r r'
  new : ∀ id r', store'.run id = some r' → store.run id = none → Queued r'
  unique : (store.map (·.row.id)).Nodup → (store'.map (·.row.id)).Nodup

variable {id : String}

section
variable {moves : String → Move → Prop} {ends : String → Prop} {store store' : Store}

theorem Evolves.refl : Evolves moves ends store store where
  old _ r h := ⟨r, h, .kept⟩
  new _ _ h h' := absurd (h.symm.trans h') nofun
  unique h := h

theorem Evolves.updateWhere {ok : WorkflowRun → Bool} {f : WorkflowRun → WorkflowRun}
    (hid : ∀ r, (f r).row.id = r.row.id)
    (hf : ∀ r, ok r = true → Change (moves id) (ends id) r (f r)) :
    Evolves moves ends store (store.updateWhere id ok f).1 where
  old other r h := by
    rw [Store.run_updateWhere hid]
    by_cases he : other = id
    · subst he
      rw [if_pos rfl, h]
      refine ⟨_, rfl, ?_⟩
      show Change (moves other) (ends other) r (if ok r = true then f r else r)
      split
      · rename_i hok
        exact hf r hok
      · exact .kept
    · rw [if_neg he]
      exact ⟨r, h, .kept⟩
  new other r' h h' := by
    rw [Store.run_updateWhere hid] at h
    split at h
    · rename_i he
      subst he
      rw [h'] at h
      cases h
    · rw [h'] at h
      cases h
  unique h := by
    have hsame : (store.updateWhere id ok f).1.map (·.row.id) = store.map (·.row.id) := by
      rw [Store.updateWhere, map_map]
      apply map_congr_left
      intro r _
      show (if r.row.id = id ∧ ok r = true then f r else r).row.id = r.row.id
      split
      · exact hid r
      · rfl
    rw [hsame]
    exact h

theorem Store.run_none : store.run id = none ↔ id ∉ store.map (·.row.id) := by
  rw [Store.run, List.find?_eq_none]
  simp

theorem Store.run_mem (hunique : (store.map (·.row.id)).Nodup) {r : WorkflowRun} (h : r ∈ store) :
    store.run r.row.id = some r := by
  cases hrun : store.run r.row.id with
  | none => exact absurd (mem_map_of_mem h) (Store.run_none.mp hrun)
  | some other =>
    have hin : other ∈ store := mem_of_find?_eq_some hrun
    rw [List.inj_on_of_nodup_map hunique hin h (Store.run_id hrun)]

theorem Evolves.queue {new : WorkflowRun} (hfresh : store.run new.row.id = none)
    (hnew : Queued new) : Evolves moves ends store (store.queueWorkflowRun new).1 := by
  rw [Store.queueWorkflowRun]
  split
  · exact .refl
  refine ⟨fun id r h => ⟨r, ?_, .kept⟩, fun id r' h h' => ?_, fun h => ?_⟩
  · show (store ++ [new]).run id = some r
    rw [Store.run, List.find?_append]
    rw [Store.run] at h
    rw [h]
    rfl
  · have h : (store ++ [new]).run id = some r' := h
    rw [Store.run, List.find?_append] at h
    rw [Store.run] at h'
    rw [h', none_or] at h
    rw [← mem_singleton.mp (mem_of_find?_eq_some h)] at hnew
    exact hnew
  · show ((store ++ [new]).map (·.row.id)).Nodup
    rw [map_append, map_singleton, nodup_append]
    refine ⟨h, List.nodup_singleton _, ?_⟩
    intro a ha b hb hab
    rw [hab, mem_singleton.mp hb] at ha
    exact Store.run_none.mp hfresh ha

theorem Evolves.start {context : Facts} {now : Int} :
    Evolves moves ends store (store.startWorkflowRun id context now).1 :=
  .updateWhere (fun _ => rfl) fun _ hok => .started context now (of_decide_eq_true hok)

theorem Evolves.move {change : Move} {now : Int} (h : moves id change) :
    Evolves moves ends store (store.moveWorkflowStep id change now).1 :=
  .updateWhere (fun _ => rfl) fun r hok => by
    have hok : decide (r.row.status = .running) = true := (Bool.and_eq_true_iff.mp hok).1
    exact .moved change now h (of_decide_eq_true hok)

theorem Evolves.finish {status : RunStatus} {error : Option String} {now : Int} (h : ends id)
    (hstatus : status.active = false) :
    Evolves moves ends store (store.finishWorkflowRun id status error now).1 :=
  .updateWhere (fun _ => rfl) fun _ hok => .finished status error now h hok hstatus

theorem Evolves.cancel {reason : String} {now : Int} :
    Evolves moves ends store (store.cancelWorkflowRun id reason now).1 :=
  .updateWhere (fun _ => rfl) fun _ hok => .cancelled reason now hok

end

/-! ## What a turn does -/

def Phase.change : Phase → Option (String × Move)
  | .recovering m change _ | .moving m change _ _ | .claiming m change _ _ |
    .reporting m change _ => some (m.run.id, change)
  | _ => none

def Phase.calls : Phase → Bool
  | .idle | .between | .carrying .. => false
  | _ => true

inductive Took (s : System) : Turn → System → Prop
  | tick (h : s.driver.phase = .idle) :
    Took s .tick { s with
      driver := { s.driver with todo := s.store.activeWorkflowRuns, phase := .between }
      ticks := s.ticks + 1 }
  | close (h : s.driver.phase = .between) (hnone : s.driver.todo = []) :
    Took s .close (s.goes .idle)
  | refused {run : WorkflowRunRow} {todo : List WorkflowRunRow} (why : Gone) (now : Int)
    (h : s.driver.phase = .between) (htodo : s.driver.todo = run :: todo) :
    Took s (.refuse why now)
      ((s.stores (s.store.finishWorkflowRun run.id .failed (some why.text) now).1).leaves todo)
  | started {run : WorkflowRunRow} {todo : List WorkflowRunRow} (origin : Option String) (now : Int)
    (facts : Facts) (h : s.driver.phase = .between) (htodo : s.driver.todo = run :: todo)
    (hqueued : run.status = .queued) (hok : (s.store.startWorkflowRun run.id facts now).2 = true) :
    Took s (.moveOn origin now)
      ((s.stores (s.store.startWorkflowRun run.id facts now).1).takesUp
        ⟨run, facts, [], run.definition.steps.length * 3 + 1⟩ todo)
  | lost {run : WorkflowRunRow} {todo : List WorkflowRunRow} (origin : Option String) (now : Int)
    (facts : Facts) (h : s.driver.phase = .between) (htodo : s.driver.todo = run :: todo)
    (hqueued : run.status = .queued) (hno : (s.store.startWorkflowRun run.id facts now).2 = false) :
    Took s (.moveOn origin now)
      ((s.stores (s.store.startWorkflowRun run.id facts now).1).leaves todo)
  | resumed {run : WorkflowRunRow} {todo : List WorkflowRunRow} (origin : Option String) (now : Int)
    (h : s.driver.phase = .between) (htodo : s.driver.todo = run :: todo)
    (hstarted : run.status ≠ .queued) :
    Took s (.moveOn origin now)
      (s.takesUp ⟨run, run.context, [], run.definition.steps.length * 3 + 1⟩ todo)
  | read {m : MoveOn} (h : s.driver.phase = .reading m) :
    Took s .recover (s.goes (recoverFrom m (recover (s.store.workflowSteps m.run.id))))
  | recovered {m : MoveOn} {change : Move} {changes : List Move} (now : Int)
    (h : s.driver.phase = .recovering m change changes) :
    Took s (.apply now) ((s.apply m change now).goes (recoverFrom m changes))
  | planned {m : MoveOn} (world : World) (plan : Plan) (h : s.driver.phase = .planning m)
    (hplan : advance m.run.definition m.run.inputs (s.store.workflowSteps m.run.id)
      { world with origin := m.facts.origin } = some plan) :
    Took s (.plan world) (s.goes (carryFrom m plan))
  | moved {m : MoveOn} {change : Move} {changes : List Move} {rest : Rest} (now : Int)
    (h : s.driver.phase = .moving m change changes rest) :
    Took s (.apply now) ((s.apply m change now).goes (moveFrom m rest changes))
  | claimed {m : MoveOn} {claim : Move} {effect : Effect} {rest : Rest} (now : Int)
    (h : s.driver.phase = .claiming m claim effect rest)
    (hok : (s.store.moveWorkflowStep m.run.id claim now).2 = true) :
    Took s (.apply now) { (s.apply m claim now).goes (.carrying m effect rest) with
      claims := s.claims ++ [(m.run.id, effect.step)] }
  | missed {m : MoveOn} {claim : Move} {effect : Effect} {rest : Rest} (now : Int)
    (h : s.driver.phase = .claiming m claim effect rest)
    (hno : (s.store.moveWorkflowStep m.run.id claim now).2 = false) :
    Took s (.apply now) ((s.apply m claim now).goes (.checking m rest))
  | checked {m : MoveOn} {rest : Rest} (h : s.driver.phase = .checking m rest) :
    Took s .check (s.goes (if s.stillRunning m.run.id then rest.next m else .between))
  | carried {m : MoveOn} {effect : Effect} {rest : Rest} (answers : Answers)
    (h : s.driver.phase = .carrying m effect rest) :
    Took s (.carry answers) ((s.carry m effect answers).goes
      (.reporting { m with typedTo := (carryOut answers m.typedTo effect).2 }
        ((carryOut answers m.typedTo effect).1.change effect.step) rest))
  | reported {m : MoveOn} {change : Move} {rest : Rest} (now : Int)
    (h : s.driver.phase = .reporting m change rest) :
    Took s (.apply now) ((s.apply m change now).goes ((rest.reported change).next m))
  | finished {m : MoveOn} {finish : Finish} (status : RunStatus) (error : Option String) (now : Int)
    (h : s.driver.phase = .finishing m finish) (hstatus : status.active = false) :
    Took s (.finish now)
      ((s.stores (s.store.finishWorkflowRun m.run.id status error now).1).goes .between)
  | failed (h : s.driver.phase.calls = true) : Took s .fail (s.goes .between)
  | dropped {run : WorkflowRunRow} {todo : List WorkflowRunRow} (h : s.driver.phase = .between)
    (htodo : s.driver.todo = run :: todo) : Took s .fail (s.leaves todo)

variable {s s' : System}

theorem turn_took {t : Turn} (h : s.turn t = some s') : Took s t s' := by
  unfold System.turn at h
  split at h
  · rename_i hphase
    cases h
    exact .tick hphase
  · rename_i hphase
    split at h
    · rename_i hnone
      cases h
      exact .close hphase hnone
    · cases h
  · rename_i why now hphase
    split at h
    · cases h
    · rename_i run todo htodo
      cases h
      exact .refused why now hphase htodo
  · rename_i origin now hphase
    split at h
    · cases h
    rename_i run todo htodo
    split at h
    · cases h
      unfold System.moveOn
      dsimp only
      split
      · rename_i hqueued
        split
        · rename_i hok
          exact .started origin now (factsOf run origin) hphase htodo hqueued hok
        · rename_i hno
          exact .lost origin now (factsOf run origin) hphase htodo hqueued (Bool.eq_false_iff.mpr hno)
      · rename_i hstarted
        exact .resumed origin now hphase htodo hstarted
    · cases h
  · rename_i hphase
    split at h
    · cases h
    · rename_i run todo htodo
      cases h
      exact .dropped hphase htodo
  · rename_i m hphase
    cases h
    exact .read hphase
  · rename_i m change changes now hphase
    cases h
    exact .recovered now hphase
  · rename_i m world hphase
    obtain ⟨plan, hplan, rfl⟩ := map_eq_some_iff.mp h
    exact .planned world plan hphase hplan
  · rename_i m change changes rest now hphase
    cases h
    exact .moved now hphase
  · rename_i m claim effect rest now hphase
    split at h
    · rename_i hok
      cases h
      exact .claimed now hphase hok
    · rename_i hno
      cases h
      exact .missed now hphase (Bool.eq_false_iff.mpr hno)
  · rename_i m rest hphase
    cases h
    exact .checked hphase
  · rename_i m effect rest answers hphase
    cases h
    exact .carried answers hphase
  · rename_i m change rest now hphase
    cases h
    exact .reported now hphase
  · rename_i m finish now hphase
    cases h
    cases finish with
    | succeeded | failed why => exact .finished _ _ now hphase rfl
  all_goals first
    | (rename_i hphase; obtain rfl := Option.some.inj h; exact .failed (by rw [hphase]; rfl))
    | cases h

def System.moves (s : System) (a : Act) (id : String) (change : Move) : Prop :=
  (∃ now, a = .driver (.apply now)) ∧ s.driver.phase.change = some (id, change)

/-- The act finishes this run: at its end, or before it is moved on. -/
def System.ends (s : System) (a : Act) (id : String) : Prop :=
  match a with
  | .driver (.finish _) => ∃ m finish, s.driver.phase = .finishing m finish ∧ m.run.id = id
  | .driver (.refuse _ _) =>
    ∃ run todo, s.driver.phase = .between ∧ s.driver.todo = run :: todo ∧ run.id = id
  | _ => False

theorem takesUp_store (s : System) (m : MoveOn) (todo : List WorkflowRunRow) :
    (s.takesUp m todo).store = s.store := by
  rw [System.takesUp]
  split <;> rfl

theorem carry_store (s : System) (m : MoveOn) (effect : Effect) (answers : Answers) :
    (s.carry m effect answers).store = s.store := by
  rw [System.carry]
  split <;> rfl

theorem turn_evolves {t : Turn} (h : Took s t s') :
    Evolves (s.moves (.driver t)) (s.ends (.driver t)) s.store s'.store := by
  have hchange : ∀ {m : MoveOn} {change : Move}, s.driver.phase.change = some (m.run.id, change) →
      ∀ now, t = .apply now →
        Evolves (s.moves (.driver t)) (s.ends (.driver t)) s.store (s.apply m change now).store :=
    fun hphase now ht => .move ⟨⟨now, congrArg Act.driver ht⟩, hphase⟩
  cases h with
  | tick => exact .refl
  | close => exact .refl
  | refused why now hphase htodo => exact .finish ⟨_, _, hphase, htodo, rfl⟩ rfl
  | started origin now facts hphase htodo hqueued hok =>
    rw [takesUp_store]
    exact .start
  | lost => exact .start
  | resumed =>
    rw [takesUp_store]
    exact .refl
  | read => exact .refl
  | recovered now hphase | moved now hphase | claimed now hphase | missed now hphase
  | reported now hphase => exact hchange (by rw [hphase]; rfl) now rfl
  | planned => exact .refl
  | checked => exact .refl
  | carried =>
    show Evolves _ _ s.store (s.carry _ _ _).store
    rw [carry_store]
    exact .refl
  | finished status error now hphase hstatus => exact .finish ⟨_, _, hphase, rfl⟩ hstatus
  | failed => exact .refl
  | dropped => exact .refl

theorem queue_evolves {reader : Reader} {text : String} {w : Workflow} {workspace : String}
    {inputs : Inputs} {context : Facts} {now : Int} {moves : String → Move → Prop}
    {ends : String → Prop} (hw : parse reader text = .ok w)
    (h : s.queue w id workspace inputs context now = some s') :
    Evolves moves ends s.store s'.store := by
  obtain ⟨check, raw, edges, hb⟩ := parse_built hw
  unfold System.queue at h
  split at h
  · rename_i hfresh
    cases h
    exact .queue (isNone_iff_eq_none.mp hfresh) ⟨rfl, rfl, hb.ids_unique⟩
  · cases h

/-- **What an act leaves of the runs**: one operation on each at most, a move only where the driver
    applies it, an end only where the driver ends it. -/
theorem step_evolves {a : Act} (h : s.step a = some s') :
    Evolves (s.moves a) (s.ends a) s.store s'.store := by
  cases a with
  | queue reader text id workspace inputs context now =>
    rw [System.step] at h
    split at h
    · rename_i w hw
      exact queue_evolves hw h
    · cases h
  | cancel id reason now =>
    cases h
    exact .cancel
  | stop =>
    cases h
    exact .refl
  | driver t => exact turn_evolves (turn_took h)

theorem planFrom_on {m m' : MoveOn} (h : (planFrom m).on = some m') :
    ∃ left, m' = { m with left := left } := by
  unfold planFrom at h
  split at h
  · cases h
  · exact ⟨_, (Option.some.inj h).symm⟩

theorem recoverFrom_on {m m' : MoveOn} {changes : List Move}
    (h : (recoverFrom m changes).on = some m') : ∃ left, m' = { m with left := left } := by
  cases changes with
  | nil => exact planFrom_on h
  | cons change changes => exact ⟨_, (Option.some.inj h).symm⟩

theorem actFrom_on {m m' : MoveOn} {claims : List Move} {finish : Option Finish} {delivered : Bool}
    {effects : List Effect} (h : (actFrom m claims finish delivered effects).on = some m') :
    ∃ left, m' = { m with left := left } := by
  induction effects with
  | nil =>
    unfold actFrom at h
    split at h
    · exact ⟨_, (Option.some.inj h).symm⟩
    · split at h
      · exact planFrom_on h
      · cases h
  | cons effect effects ih =>
    unfold actFrom at h
    split at h
    · exact ⟨_, (Option.some.inj h).symm⟩
    · exact ih h

theorem moveFrom_on {m m' : MoveOn} {rest : Rest} {changes : List Move}
    (h : (moveFrom m rest changes).on = some m') : ∃ left, m' = { m with left := left } := by
  cases changes with
  | nil => exact actFrom_on h
  | cons change changes => exact ⟨_, (Option.some.inj h).symm⟩

theorem takesUp_on {m m' : MoveOn} {todo : List WorkflowRunRow}
    (h : (s.takesUp m todo).driver.phase.on = some m') : ∃ left, m' = { m with left := left } := by
  unfold System.takesUp at h
  split at h
  · exact planFrom_on h
  · exact ⟨_, (Option.some.inj h).symm⟩

theorem takesUp_todo (s : System) (m : MoveOn) (todo : List WorkflowRunRow) :
    (s.takesUp m todo).driver.todo = todo := by
  rw [System.takesUp]
  split <;> rfl

/-- An effect is being carried out, or its outcome is to be written down. -/
def Phase.acting : Phase → Bool
  | .carrying .. | .reporting .. => true
  | _ => false

theorem planFrom_acting (m : MoveOn) : (planFrom m).acting = false := by
  unfold planFrom
  split <;> rfl

theorem recoverFrom_acting (m : MoveOn) (changes : List Move) :
    (recoverFrom m changes).acting = false := by
  cases changes with
  | nil => exact planFrom_acting m
  | cons change changes => rfl

theorem actFrom_acting (m : MoveOn) (claims : List Move) (finish : Option Finish)
    (delivered : Bool) (effects : List Effect) :
    (actFrom m claims finish delivered effects).acting = false := by
  induction effects with
  | nil =>
    unfold actFrom
    split
    · rfl
    · split
      · exact planFrom_acting m
      · rfl
  | cons effect effects ih =>
    unfold actFrom
    split
    · rfl
    · exact ih

theorem moveFrom_acting (m : MoveOn) (rest : Rest) (changes : List Move) :
    (moveFrom m rest changes).acting = false := by
  cases changes with
  | nil => exact actFrom_acting ..
  | cons change changes => rfl

theorem takesUp_acting (s : System) (m : MoveOn) (todo : List WorkflowRunRow) :
    (s.takesUp m todo).driver.phase.acting = false := by
  rw [System.takesUp]
  split
  · exact planFrom_acting m
  · rfl

theorem takesUp_ledgers (s : System) (m : MoveOn) (todo : List WorkflowRunRow) :
    (s.takesUp m todo).claims = s.claims ∧ (s.takesUp m todo).deeds = s.deeds := by
  rw [System.takesUp]
  split <;> exact ⟨rfl, rfl⟩

theorem carry_deeds (s : System) (m : MoveOn) (effect : Effect) (answers : Answers) :
    (s.carry m effect answers).deeds =
      s.deeds ++ if asksFor answers m.typedTo effect then [⟨s.ticks, m.run.id, effect⟩] else [] := by
  rw [System.carry]
  split
  · rfl
  · exact (append_nil _).symm

structure Claimed (s s' : System) (m : MoveOn) (claim : Move) (effect : Effect) (rest : Rest)
    (now : Int) : Prop where
  phase : s.driver.phase = .claiming m claim effect rest
  ok : (s.store.moveWorkflowStep m.run.id claim now).2 = true
  state : s' = { (s.apply m claim now).goes (.carrying m effect rest) with
    claims := s.claims ++ [(m.run.id, effect.step)] }

structure Carried (s s' : System) (m : MoveOn) (effect : Effect) (rest : Rest)
    (answers : Answers) : Prop where
  phase : s.driver.phase = .carrying m effect rest
  state : s' = (s.carry m effect answers).goes
    (.reporting { m with typedTo := (carryOut answers m.typedTo effect).2 }
      ((carryOut answers m.typedTo effect).1.change effect.step) rest)

theorem carry_step {m : MoveOn} {effect : Effect} {rest : Rest}
    (h : s.driver.phase = .carrying m effect rest) (answers : Answers) :
    ∃ s', s.step (.driver (.carry answers)) = some s' ∧ Carried s s' m effect rest answers := by
  refine ⟨_, ?_, h, rfl⟩
  unfold System.step System.turn
  rw [h]

theorem turn_acting {t : Turn} (h : Took s t s') :
    (s'.driver.phase.acting = false ∧ s'.claims = s.claims ∧ s'.deeds = s.deeds) ∨
    (∃ m claim effect rest now, Claimed s s' m claim effect rest now) ∨
    (∃ m effect rest answers, t = .carry answers ∧ Carried s s' m effect rest answers) := by
  cases h with
  | tick | close | refused | lost | missed | finished | failed | dropped =>
    exact .inl ⟨rfl, rfl, rfl⟩
  | started | resumed => exact .inl ⟨takesUp_acting .., takesUp_ledgers ..⟩
  | read | recovered => exact .inl ⟨recoverFrom_acting .., rfl, rfl⟩
  | planned | moved => exact .inl ⟨moveFrom_acting .., rfl, rfl⟩
  | claimed now hphase hok => exact .inr (.inl ⟨_, _, _, _, now, hphase, hok, rfl⟩)
  | checked hphase =>
    refine .inl ⟨?_, rfl, rfl⟩
    show (if _ then _ else Phase.between).acting = false
    split
    · exact actFrom_acting ..
    · rfl
  | carried answers hphase => exact .inr (.inr ⟨_, _, _, answers, rfl, hphase, rfl⟩)
  | reported => exact .inl ⟨actFrom_acting .., rfl, rfl⟩

theorem step_beside {a : Act} (h : s.step a = some s') (hne : ∀ t, a ≠ .driver t) :
    (s'.driver = s.driver ∨ (a = .stop ∧ s'.driver = .new)) ∧ s'.claims = s.claims ∧
      s'.deeds = s.deeds ∧ s'.ticks = s.ticks := by
  cases a with
  | queue reader text id workspace inputs context now =>
    rw [System.step] at h
    split at h
    · unfold System.queue at h
      split at h
      · cases h
        exact ⟨.inl rfl, rfl, rfl, rfl⟩
      · cases h
    · cases h
  | cancel id reason now =>
    cases h
    exact ⟨.inl rfl, rfl, rfl, rfl⟩
  | stop =>
    cases h
    exact ⟨.inr ⟨rfl, rfl⟩, rfl, rfl, rfl⟩
  | driver t => exact absurd rfl (hne t)

/-- The store has the run as it was read, under its id, and if `begun`, then it has started. -/
def Known (store : Store) (run : WorkflowRunRow) (begun : Prop) : Prop :=
  ∃ r, store.run run.id = some r ∧ r.row.definition = run.definition ∧
    (begun → r.row.status ≠ .queued)

theorem Known.evolves {moves : String → Move → Prop} {ends : String → Prop} {store store' : Store}
    {run : WorkflowRunRow} {begun : Prop} (h : Known store run begun)
    (hev : Evolves moves ends store store') : Known store' run begun := by
  obtain ⟨r, hr, hdef, hbegun⟩ := h
  obtain ⟨r', hr', hc⟩ := hev.old _ _ hr
  exact ⟨r', hr', hc.definition.trans hdef, fun hb => hc.not_queued (hbegun hb)⟩

theorem mem_activeWorkflowRuns {store : Store} {run : WorkflowRunRow} :
    run ∈ store.activeWorkflowRuns ↔ ∃ r ∈ store, r.row.active = true ∧ r.row = run := by
  rw [Store.activeWorkflowRuns, List.mem_insertionSort]
  simp only [mem_map, mem_filter]
  constructor
  · rintro ⟨r, ⟨hr, hactive⟩, rfl⟩
    exact ⟨r, hr, hactive, rfl⟩
  · rintro ⟨r, hr, hactive, rfl⟩
    exact ⟨r, ⟨hr, hactive⟩, rfl⟩

theorem startWorkflowRun_run {store : Store} {context : Facts} {now : Int}
    (h : (store.startWorkflowRun id context now).2 = true) :
    ∃ r r', store.run id = some r ∧ r.row.status = .queued ∧
      (store.startWorkflowRun id context now).1.run id = some r' ∧ r'.row.status = .running := by
  obtain ⟨r, hr, hok⟩ := (any_eq_true _ _).mp h
  refine ⟨r, ⟨{ r.row with status := .running, startedAt := some now, context := context },
    r.steps⟩, hr, of_decide_eq_true hok, ?_, rfl⟩
  rw [Store.startWorkflowRun, Store.run_updated ?_ hr, if_pos hok]
  exact fun _ => rfl

theorem moveWorkflowStep_run {store : Store} {change : Move} {now : Int} {r : WorkflowRun}
    (hr : store.run id = some r) (hrunning : r.row.status = .running) :
    (store.moveWorkflowStep id change now).1.run id =
      some { r with steps := moveSteps change now r.steps } := by
  rw [Store.moveWorkflowStep, Store.run_updated ?_ hr]
  · split
    · rfl
    · rename_i hno
      have hsame : moveSteps change now r.steps = r.steps := by
        refine (map_congr_left fun row hrow => ?_).trans (map_id _)
        refine if_neg fun hin => hno ?_
        rw [hrunning, decide_eq_true rfl, Bool.true_and, List.any_eq_true]
        exact ⟨row, hrow, by simpa using hin⟩
      rw [hsame]
  · exact fun _ => rfl

theorem takesUp_recovered (s : System) (m : MoveOn) (todo : List WorkflowRunRow) :
    m.run.id ∈ (s.takesUp m todo).driver.recovered := by
  rw [System.takesUp]
  split
  · rename_i hin
    exact List.contains_iff_mem.mp hin
  · exact mem_cons_self ..

theorem turn_recovered {t : Turn} (h : Took s t s') (hid : id ∈ s.driver.recovered) :
    id ∈ s'.driver.recovered := by
  cases h with
  | started | resumed =>
    rw [System.takesUp]
    split
    · exact hid
    · exact mem_cons_of_mem _ hid
  | carried =>
    show id ∈ (s.carry _ _ _).driver.recovered
    rw [System.carry]
    split <;> exact hid
  | _ => exact hid

theorem turn_todo {t : Turn} (h : Took s t s') :
    (s'.driver.todo = s.store.activeWorkflowRuns ∧ s.driver.phase = .idle ∧
      s'.driver.phase = .between ∧ s'.ticks = s.ticks + 1) ∨
    ((s'.driver.todo = s.driver.todo ∨ ∃ run, s.driver.todo = run :: s'.driver.todo) ∧
      s'.ticks = s.ticks) := by
  cases h with
  | tick hphase => exact .inl ⟨rfl, hphase, rfl, rfl⟩
  | refused why now hphase htodo | lost origin now facts hphase htodo | dropped hphase htodo =>
    exact .inr ⟨.inr ⟨_, htodo⟩, rfl⟩
  | started origin now facts hphase htodo | resumed origin now hphase htodo =>
    rw [takesUp_todo]
    exact .inr ⟨.inr ⟨_, htodo⟩, by rw [System.takesUp]; split <;> rfl⟩
  | carried answers hphase =>
    refine .inr ⟨.inl ?_, ?_⟩
    · show (s.carry _ _ _).driver.todo = s.driver.todo
      rw [System.carry]
      split <;> rfl
    · show (s.carry _ _ _).ticks = s.ticks
      rw [System.carry]
      split <;> rfl
  | _ => exact .inr ⟨.inl rfl, rfl⟩

theorem turn_on {t : Turn} (h : Took s t s') {m' : MoveOn} (hm' : s'.driver.phase.on = some m') :
    (∃ m, s.driver.phase.on = some m ∧ m'.run = m.run ∧ s'.driver.todo = s.driver.todo ∧
      (m'.typedTo = m.typedTo ∨ ∃ effect rest answers, Carried s s' m effect rest answers ∧
        m'.typedTo = (carryOut answers m.typedTo effect).2)) ∨
    (s.driver.phase = .between ∧ s.driver.todo = m'.run :: s'.driver.todo ∧ m'.typedTo = [] ∧
      m'.run.id ∈ s'.driver.recovered ∧ (m'.run.status ≠ .queued ∨
        ∃ r, s'.store.run m'.run.id = some r ∧ r.row.status = .running)) := by
  cases h with
  | tick | close | refused | lost | finished | failed | dropped => cases hm'
  | started origin now facts hphase htodo hqueued hok =>
    obtain ⟨left, rfl⟩ := takesUp_on hm'
    obtain ⟨r, r', -, -, hr', hrunning⟩ := startWorkflowRun_run hok
    rw [takesUp_todo, takesUp_store]
    exact .inr ⟨hphase, htodo, rfl, takesUp_recovered .., .inr ⟨r', hr', hrunning⟩⟩
  | resumed origin now hphase htodo hstarted =>
    obtain ⟨left, rfl⟩ := takesUp_on hm'
    rw [takesUp_todo]
    exact .inr ⟨hphase, htodo, rfl, takesUp_recovered .., .inl hstarted⟩
  | read hphase | recovered now hphase =>
    obtain ⟨left, rfl⟩ := recoverFrom_on hm'
    exact .inl ⟨_, congrArg Phase.on hphase, rfl, rfl, .inl rfl⟩
  | planned world plan hphase | moved now hphase =>
    obtain ⟨left, rfl⟩ := moveFrom_on hm'
    exact .inl ⟨_, congrArg Phase.on hphase, rfl, rfl, .inl rfl⟩
  | claimed now hphase | missed now hphase =>
    cases hm'
    exact .inl ⟨_, congrArg Phase.on hphase, rfl, rfl, .inl rfl⟩
  | @checked m rest hphase =>
    have hm' : (if s.stillRunning m.run.id then rest.next m else .between).on = some m' := hm'
    split at hm'
    · obtain ⟨left, rfl⟩ := actFrom_on hm'
      exact .inl ⟨_, congrArg Phase.on hphase, rfl, rfl, .inl rfl⟩
    · cases hm'
  | carried answers hphase =>
    cases hm'
    refine .inl ⟨_, congrArg Phase.on hphase, rfl, ?_, .inr ⟨_, _, answers, ⟨hphase, rfl⟩, rfl⟩⟩
    show (s.carry _ _ _).driver.todo = s.driver.todo
    rw [System.carry]
    split <;> rfl
  | reported now hphase =>
    obtain ⟨left, rfl⟩ := actFrom_on hm'
    exact .inl ⟨_, congrArg Phase.on hphase, rfl, rfl, .inl rfl⟩

structure Coherent (s : System) : Prop where
  unique : (s.store.map (·.row.id)).Nodup
  kept : ∀ id r, s.store.run id = some r → Kept r
  todo : ∀ run ∈ s.driver.todo, Known s.store run (run.status ≠ .queued)
  on : ∀ m, s.driver.phase.on = some m → Known s.store m.run True

theorem Coherent.definition (hs : Coherent s) {m : MoveOn} {r : WorkflowRun}
    (hm : s.driver.phase.on = some m) (hr : s.store.run m.run.id = some r) :
    r.row.definition = m.run.definition := by
  obtain ⟨r', hr', hdef, -⟩ := hs.on m hm
  cases hr.symm.trans hr'
  exact hdef

theorem Coherent.unique_ids (hs : Coherent s) {m : MoveOn} (hm : s.driver.phase.on = some m) :
    (m.run.definition.steps.map (·.id)).Nodup := by
  obtain ⟨r, hr, hdef, -⟩ := hs.on m hm
  rw [← hdef]
  exact (hs.kept _ r hr).unique

theorem Coherent.running (hs : Coherent s) {m : MoveOn} {r : WorkflowRun}
    (hm : s.driver.phase.on = some m) (hr : s.store.run m.run.id = some r)
    (hactive : r.row.active = true) : r.row.status = .running := by
  obtain ⟨r', hr', -, hbegun⟩ := hs.on m hm
  cases hr.symm.trans hr'
  have hne := hbegun trivial
  rw [WorkflowRunRow.active] at hactive
  cases hstatus : r.row.status with
  | running => rfl
  | queued => exact absurd hstatus hne
  | _ => rw [hstatus] at hactive; cases hactive

theorem coherent_start : Coherent .start where
  unique := nodup_nil
  kept _ _ h := nomatch h
  todo := forall_mem_nil _
  on _ h := nomatch h

theorem Coherent.todo_turn {t : Turn} (hs : Coherent s) (h : Took s t s') :
    ∀ run ∈ s'.driver.todo, Known s'.store run (run.status ≠ .queued) := by
  have hev := turn_evolves h
  intro run hrun
  obtain ⟨htick, -⟩ | ⟨htodo | ⟨next, htodo⟩, -⟩ := turn_todo h
  · rw [htick] at hrun
    obtain ⟨r, hr, -, rfl⟩ := mem_activeWorkflowRuns.mp hrun
    exact Known.evolves ⟨r, Store.run_mem hs.unique hr, rfl, fun hbegun => hbegun⟩ hev
  · exact (hs.todo run (htodo ▸ hrun)).evolves hev
  · exact (hs.todo run (htodo ▸ mem_cons_of_mem _ hrun)).evolves hev

theorem Coherent.on_turn {t : Turn} (hs : Coherent s) (h : Took s t s') :
    ∀ m, s'.driver.phase.on = some m → Known s'.store m.run True := by
  have hev := turn_evolves h
  intro m' hm'
  obtain ⟨m, hm, hrun, -⟩ | ⟨hphase, htodo, htyped, -, hbegun⟩ := turn_on h hm'
  · rw [hrun]
    exact (hs.on m hm).evolves hev
  · obtain ⟨r, hr, hdef, hstatus⟩ :=
      (hs.todo m'.run (htodo ▸ mem_cons_self ..)).evolves hev
    refine ⟨r, hr, hdef, fun _ => ?_⟩
    obtain hbegun | ⟨r', hr', hrunning⟩ := hbegun
    · exact hstatus hbegun
    · cases hr.symm.trans hr'
      rw [hrunning]
      nofun

theorem Coherent.step {s s' : System} {a : Act} (hs : Coherent s) (h : s.step a = some s') :
    Coherent s' := by
  have hev := step_evolves h
  have hkept : ∀ id r, s'.store.run id = some r → Kept r := by
    intro id r' hr'
    cases hr : s.store.run id with
    | none => exact (hev.new id r' hr' hr).kept
    | some r =>
      obtain ⟨r'', hr'', hc⟩ := hev.old id r hr
      cases hr''.symm.trans hr'
      exact hc.kept_run (hs.kept id r hr)
  have hsame : s'.driver = s.driver → Coherent s' := by
    intro hd
    refine ⟨hev.unique hs.unique, hkept, ?_, ?_⟩
    · rw [hd]
      exact fun run hrun => (hs.todo run hrun).evolves hev
    · rw [hd]
      exact fun m hm => (hs.on m hm).evolves hev
  by_cases hturn : ∃ t, a = .driver t
  · obtain ⟨t, rfl⟩ := hturn
    exact ⟨hev.unique hs.unique, hkept, hs.todo_turn (turn_took h), hs.on_turn (turn_took h)⟩
  · obtain ⟨hd | ⟨-, hd⟩, -⟩ := step_beside h fun t ht => hturn ⟨t, ht⟩
    · exact hsame hd
    · refine ⟨hev.unique hs.unique, hkept, ?_, ?_⟩ <;> rw [hd]
      · exact forall_mem_nil _
      · exact fun m hm => nomatch hm

def allWell : Answers where
  start := .ok ("pty-1", none)
  notify := .ok ()
  runTest := .ok "test-1"
  info := some ⟨true, false⟩
  text := .ok ()
  submit := .ok ()

def queueReview : Act :=
  .queue reviewReader "" "run-1" "yard" [("who", "claude")] ⟨none, none, false⟩ 1

end Yardsort.Workflow
