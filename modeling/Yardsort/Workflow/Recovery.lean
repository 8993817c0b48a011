import Yardsort.Workflow.AtMostOnce
import Yardsort.Workflow.Endings

/- No step is left running.

   A running step is one the driver is in the middle of. If it was cut off, then by its stopping,
   and a new driver fails the step; or by a store call that failed, and then this driver never
   comes back to it, since it deals with a run's interrupted steps once, when it first takes the run
   up. So what is needed is that no store call fails while the run it is for has a running step, and
   no run ends early with one (`keepsTrack`): then a running step is one of a run this driver has not
   taken up yet, or the one it is in the middle of (`Watched`), and in a tick without a failure the
   former are all failed (`Resolving`). -/
namespace Yardsort.Workflow
open Yardsort.Lib

def System.runsStep (s : System) (id : String) : Bool :=
  (s.store.run id).any (fun r => r.row.active && r.steps.any (fun row => row.status = .running))

/-- No store call fails for a run with a running step once the driver has taken it up, and no early
    ending ends one. -/
def System.keepsTrack (s : System) : Act → Bool
  | .driver .fail => s.driver.phase.on.all (fun m => !s.runsStep m.run.id)
  | .driver (.refuse _ _) => s.driver.todo.head?.all (fun run => !s.runsStep run.id)
  | _ => true

variable {s : System} {id : String}

theorem runsStep_false (h : (!s.runsStep id) = true) {r : WorkflowRun}
    (hr : s.store.run id = some r) (hactive : r.row.active = true) :
    ∀ row ∈ r.steps, row.status ≠ .running := by
  intro row hrow hrunning
  have : s.runsStep id = true := by
    rw [System.runsStep, hr, any_some, hactive, Bool.true_and, List.any_eq_true]
    exact ⟨row, hrow, decide_eq_true hrunning⟩
  rw [this] at h
  cases h

/-! ## Where running steps are -/

/-- The driver is about to fail the run's step, which was interrupted. -/
def Phase.recovers (id step : String) : Phase → Prop
  | .reading m => m.run.id = id
  | .recovering m change changes => m.run.id = id ∧
    (∃ c ∈ change :: changes, c.step = step) ∧
    ∀ c ∈ change :: changes, c.from_ = [.running] ∧ c.to_ = .failed
  | _ => False

/-- The driver is in the middle of the effect of the run's step. -/
def Phase.acts (id step : String) : Phase → Prop
  | .carrying m effect _ => m.run.id = id ∧ effect.step = step
  | .reporting m change _ => m.run.id = id ∧ change.step = step
  | _ => False

/-- The driver is in the middle of a step, or about to fail interrupted ones. -/
def Phase.minds : Phase → Bool
  | .reading _ | .recovering .. | .carrying .. | .reporting .. => true
  | _ => false

theorem minds_false {phase : Phase} (h : phase.minds = false) (id step : String) :
    ¬ phase.recovers id step ∧ ¬ phase.acts id step := by
  cases phase with
  | reading | recovering | carrying | reporting => cases h
  | _ => exact ⟨fun h => h, fun h => h⟩

/-- A running step of an active run is one of a run this driver has not taken up, or the one it is
    in the middle of; a run that has ended has none. -/
structure Watched (s : System) : Prop where
  once : Once s
  settling : Settling s
  inHand : ∀ m, s.driver.phase.on = some m → m.run.id ∈ s.driver.recovered
  watched : ∀ id r, s.store.run id = some r → r.row.active = true →
    ∀ row ∈ r.steps, row.status = .running → id ∉ s.driver.recovered ∨
      s.driver.phase.recovers id row.stepId ∨ s.driver.phase.acts id row.stepId
  atEnd : ∀ id r, s.store.run id = some r → r.row.active = false →
    ∀ row ∈ r.steps, row.status ≠ .running

theorem watched_start : Watched .start where
  once := once_start
  settling := settling_start
  inHand _ h := nomatch h
  watched _ _ h := nomatch h
  atEnd _ _ h := nomatch h

theorem Watched.unmoved {s' : System} {a : Act} (hs : Watched s) (h : s.step a = some s')
    (hnone : ∀ change, ¬ s.moves a id change) {r' : WorkflowRun} (hr' : s'.store.run id = some r')
    (hactive : r'.row.active = true) {row : WorkflowStepRow} (hrow : row ∈ r'.steps)
    (hrunning : row.status = .running) :
    ∃ r, s.store.run id = some r ∧ r.row.active = true ∧ row ∈ r.steps := by
  have hev := step_evolves h
  cases hr : s.store.run id with
  | none =>
    have hq := hev.new id r' hr' hr
    rw [hq.kept.waits hq.status row hrow] at hrunning
    cases hrunning
  | some r =>
    obtain ⟨r'', hr'', hc⟩ := hev.old id r hr
    cases hr''.symm.trans hr'
    cases hc with
    | kept => exact ⟨_, rfl, hactive, hrow⟩
    | started context now hqueued =>
      rw [(hs.once.coherent.kept id r hr).waits hqueued row hrow] at hrunning
      cases hrunning
    | moved change now hmoves => exact absurd hmoves (hnone change)
    | finished status error now hends hactive' hstatus =>
      rw [WorkflowRunRow.active, hstatus] at hactive
      cases hactive
    | cancelled => cases hactive

theorem Watched.moved {s : System} (hs : Watched s) {m : MoveOn} {change : Move} {now : Int}
    (hm : s.driver.phase.on = some m) {id : String} {r' : WorkflowRun}
    (hr' : (s.apply m change now).store.run id = some r') (hactive : r'.row.active = true)
    {row : WorkflowStepRow} (hrow : row ∈ r'.steps) (hrunning : row.status = .running) :
    (∃ r, s.store.run id = some r ∧ r.row.active = true ∧ row ∈ r.steps ∧
        (id = m.run.id → row.stepId = change.step → .running ∉ change.from_)) ∨
      (change.to_ = .running ∧ id = m.run.id ∧ row.stepId = change.step ∧
        (s.store.moveWorkflowStep m.run.id change now).2 = true) := by
  by_cases hid : id = m.run.id
  · subst hid
    obtain ⟨r, hr, -⟩ := hs.once.coherent.on m hm
    have hopen : r.row.active = true := by
      have hev : Evolves (fun _ _ => True) (fun _ => False) s.store (s.apply m change now).store :=
        .move trivial
      obtain ⟨r'', hr'', hc⟩ := hev.old _ r hr
      cases hr''.symm.trans hr'
      by_contra hend
      rw [hc.ended (Bool.eq_false_iff.mpr hend)] at hactive
      exact hend hactive
    have hrun := hs.once.coherent.running hm hr hopen
    have hmoved : (s.apply m change now).store.run m.run.id = _ := moveWorkflowStep_run hr hrun
    cases hmoved.symm.trans hr'
    obtain ⟨old, hold, rfl⟩ := mem_map.mp hrow
    by_cases hin : old.stepId = change.step ∧ old.status ∈ change.from_
    · right
      rw [if_pos hin] at hrunning ⊢
      refine ⟨hrunning, rfl, hin.1, (any_eq_true _ _).mpr ⟨r, hr, ?_⟩⟩
      show (decide (r.row.status = .running) && r.steps.any _) = true
      rw [hrun, decide_eq_true rfl, Bool.true_and, List.any_eq_true]
      exact ⟨old, hold, by simpa using hin⟩
    · left
      rw [if_neg hin] at hrunning ⊢
      exact ⟨r, hr, hopen, hold, fun _ hstep hfrom => hin ⟨hstep, hrunning ▸ hfrom⟩⟩
  · left
    have hsame : (s.apply m change now).store.run id = s.store.run id := Store.move_other hid
    exact ⟨r', hsame ▸ hr', hactive, hrow, fun h => absurd h hid⟩

theorem takesUp_watched {m : MoveOn} {todo : List WorkflowRunRow} {step : String}
    (h : id ∉ s.driver.recovered) :
    id ∉ (s.takesUp m todo).driver.recovered ∨
      (s.takesUp m todo).driver.phase.recovers id step := by
  rw [System.takesUp]
  split
  · exact .inl h
  · by_cases hid : m.run.id = id
    · exact .inr hid
    · exact .inl fun hin => (mem_cons.mp hin).elim (fun heq => hid heq.symm) h

theorem recoverFrom_recovers {m : MoveOn} {r : WorkflowRun} (hr : s.store.run m.run.id = some r)
    {row : WorkflowStepRow} (hrow : row ∈ r.steps) (hrunning : row.status = .running) :
    (recoverFrom m (recover (s.store.workflowSteps m.run.id))).recovers m.run.id row.stepId := by
  have hin : (⟨row.stepId, [.running], .failed, none,
      some "Yardsort stopped while this step was running."⟩ : Move) ∈ recover r.steps :=
    mem_map_of_mem (mem_filter.mpr ⟨hrow, decide_eq_true hrunning⟩)
  have hall : ∀ c ∈ recover r.steps, c.from_ = [.running] ∧ c.to_ = .failed := by
    intro c hc
    obtain ⟨old, -, rfl⟩ := mem_map.mp hc
    exact ⟨rfl, rfl⟩
  rw [workflowSteps_run hr]
  cases hlist : recover r.steps with
  | nil =>
    rw [hlist] at hin
    cases hin
  | cons change changes =>
    rw [hlist] at hin hall
    exact ⟨rfl, ⟨_, hin, rfl⟩, hall⟩

theorem recoverFrom_rest {m : MoveOn} {change : Move} {changes : List Move} {step : String}
    (h : (Phase.recovering m change changes).recovers id step) (hne : change.step ≠ step) :
    (recoverFrom m changes).recovers id step := by
  obtain ⟨hid, ⟨c, hc, hstep⟩, hall⟩ := h
  obtain rfl | hc := mem_cons.mp hc
  · exact absurd hstep hne
  · cases changes with
    | nil => cases hc
    | cons change' changes =>
      exact ⟨hid, ⟨c, hc, hstep⟩, fun c' hc' => hall c' (mem_cons_of_mem _ hc')⟩

theorem Watched.watched_turn {s' : System} {t : Turn} (hs : Watched s)
    (hkeeps : s.keepsTrack (.driver t) = true) (h : s.step (.driver t) = some s') :
    ∀ id r, s'.store.run id = some r → r.row.active = true →
      ∀ row ∈ r.steps, row.status = .running → id ∉ s'.driver.recovered ∨
        s'.driver.phase.recovers id row.stepId ∨ s'.driver.phase.acts id row.stepId := by
  intro id r' hr' hactive row hrow hrunning
  have hfresh := hs.once.fresh
  have hbefore : (∀ now, t ≠ .apply now) → ∃ r, s.store.run id = some r ∧ r.row.active = true ∧
      row ∈ r.steps := by
    intro hne
    refine hs.unmoved h (fun change hmoves => ?_) hr' hactive hrow hrunning
    obtain ⟨⟨now, hnow⟩, -⟩ := hmoves
    exact hne now (Act.driver.inj hnow)
  -- where the driver minds no step, the run is one it has not taken up
  have hfree : s.driver.phase.minds = false → (∃ r, s.store.run id = some r ∧
      r.row.active = true ∧ row ∈ r.steps) → id ∉ s.driver.recovered := by
    rintro hminds ⟨r, hr, hopen, hin⟩
    obtain ⟨hrec, hact⟩ := minds_false hminds id row.stepId
    obtain hnot | hrec' | hact' := hs.watched id r hr hopen row hin hrunning
    · exact hnot
    · exact absurd hrec' hrec
    · exact absurd hact' hact
  cases turn_took h with
  | tick hphase | close hphase | refused why now hphase | lost origin now facts hphase
  | dropped hphase => exact .inl (hfree (by rw [hphase]; rfl) (hbefore nofun))
  | started origin now facts hphase htodo =>
    refine Or.imp_right .inl (takesUp_watched ?_)
    exact hfree (by rw [hphase]; rfl) (hbefore nofun)
  | resumed origin now hphase htodo =>
    exact (takesUp_watched (hfree (by rw [hphase]; rfl) (hbefore nofun))).imp_right .inl
  | planned world plan hphase | checked hphase | finished status error now hphase =>
    exact .inl (hfree (by rw [hphase]; rfl) (hbefore nofun))
  | @read m hphase =>
    obtain ⟨r, hr, hopen, hin⟩ := hbefore nofun
    by_cases hid : m.run.id = id
    · subst hid
      exact .inr (.inl (recoverFrom_recovers hr hin hrunning))
    · have hold := hs.watched id r hr hopen row hin hrunning
      rw [hphase] at hold
      obtain hnot | hrec | hact := hold
      · exact .inl hnot
      · exact absurd hrec hid
      · exact hact.elim
  | @recovered m change changes now hphase =>
    rw [hphase] at hfresh
    obtain ⟨r, hr, hopen, hin, hnot⟩ | ⟨hto, -⟩ :=
      hs.moved (congrArg Phase.on hphase) hr' hactive hrow hrunning
    · have hold := hs.watched id r hr hopen row hin hrunning
      rw [hphase] at hold
      obtain hnot' | hrec | hact := hold
      · exact .inl hnot'
      · refine .inr (.inl (recoverFrom_rest hrec fun hstep => ?_))
        obtain ⟨hid, -, hall⟩ := hrec
        refine hnot hid.symm hstep.symm ?_
        rw [(hall change (mem_cons_self ..)).1]
        exact mem_singleton_self _
      · exact hact.elim
    · exact absurd hto (hfresh change (mem_cons_self ..)).idle
  | @moved m change changes rest now hphase =>
    rw [hphase] at hfresh
    obtain ⟨r, hr, hopen, hin, -⟩ | ⟨hto, -⟩ :=
      hs.moved (congrArg Phase.on hphase) hr' hactive hrow hrunning
    · exact .inl (hfree (by rw [hphase]; rfl) ⟨r, hr, hopen, hin⟩)
    · exact absurd hto (hfresh.1 change (mem_cons_self ..)).idle
  | @claimed m claim effect rest now hphase hok =>
    rw [hphase] at hfresh
    obtain ⟨r, hr, hopen, hin, -⟩ | ⟨-, rfl, hstep, -⟩ :=
      hs.moved (congrArg Phase.on hphase) hr' hactive hrow hrunning
    · exact .inl (hfree (by rw [hphase]; rfl) ⟨r, hr, hopen, hin⟩)
    · exact .inr (.inr ⟨rfl, (hstep.trans hfresh.2.1).symm⟩)
  | missed now hphase hno =>
    obtain ⟨r, hr, hopen, hin, -⟩ | ⟨-, -, -, hok⟩ :=
      hs.moved (congrArg Phase.on hphase) hr' hactive hrow hrunning
    · exact .inl (hfree (by rw [hphase]; rfl) ⟨r, hr, hopen, hin⟩)
    · rw [hno] at hok
      cases hok
  | @carried m effect rest answers hphase =>
    obtain ⟨r, hr, hopen, hin⟩ := hbefore nofun
    have hrecovered : (s.carry m effect answers).driver.recovered = s.driver.recovered := by
      rw [System.carry]
      split <;> rfl
    have hold := hs.watched id r hr hopen row hin hrunning
    rw [hphase] at hold
    obtain hnot | hrec | hact := hold
    · left
      show id ∉ (s.carry m effect answers).driver.recovered
      rw [hrecovered]
      exact hnot
    · exact hrec.elim
    · exact .inr (.inr ⟨hact.1, (change_step ..).trans hact.2⟩)
  | @reported m change rest now hphase =>
    rw [hphase] at hfresh
    obtain ⟨r, hr, hopen, hin, hnot⟩ | ⟨hto, -⟩ :=
      hs.moved (congrArg Phase.on hphase) hr' hactive hrow hrunning
    · have hold := hs.watched id r hr hopen row hin hrunning
      rw [hphase] at hold
      obtain hnot' | hrec | hact := hold
      · exact .inl hnot'
      · exact hrec.elim
      · refine absurd ?_ (hnot hact.1.symm hact.2.symm)
        rw [hfresh.1.1]
        exact mem_singleton_self _
    · exact absurd hto hfresh.1.2
  | failed hcalls =>
    obtain ⟨r, hr, hopen, hin⟩ := hbefore nofun
    have hnone : ∀ m, s.driver.phase.on = some m → m.run.id ≠ id := by
      rintro m hm rfl
      rw [System.keepsTrack, hm, all_some] at hkeeps
      exact runsStep_false hkeeps hr hopen row hin hrunning
    obtain hnot | hrec | hact := hs.watched id r hr hopen row hin hrunning
    · exact .inl hnot
    · cases hphase : s.driver.phase with
      | reading m =>
        rw [hphase] at hrec
        exact absurd hrec (hnone m (congrArg Phase.on hphase))
      | recovering m change changes =>
        rw [hphase] at hrec
        exact absurd hrec.1 (hnone m (congrArg Phase.on hphase))
      | _ =>
        rw [hphase] at hrec
        exact hrec.elim
    · cases hphase : s.driver.phase with
      | carrying m effect rest | reporting m change rest =>
        rw [hphase] at hact
        exact absurd hact.1 (hnone m (congrArg Phase.on hphase))
      | _ =>
        rw [hphase] at hact
        exact hact.elim

theorem Watched.over_step {s' : System} {a : Act} (hs : Watched s) (hkeeps : s.keepsTrack a = true)
    (h : s.step a = some s') :
    ∀ id r, s'.store.run id = some r → r.row.active = false →
      ∀ row ∈ r.steps, row.status ≠ .running := by
  intro id r' hr' hend row hrow
  have hev := step_evolves h
  cases hr : s.store.run id with
  | none =>
    rw [WorkflowRunRow.active, (hev.new id r' hr' hr).status] at hend
    cases hend
  | some r =>
    cases hactive : r.row.active with
    | false =>
      obtain ⟨r'', hr'', hc⟩ := hev.old id r hr
      cases hr''.symm.trans hr'
      rw [hc.ended hactive] at hrow
      exact hs.atEnd id r hr hactive row hrow
    | true =>
      obtain hfinal | ⟨hsteps, why, now, run, todo, rfl, htodo, rfl⟩ :=
        hs.settling.ended_step h hr hactive hr' hend
      · intro hrunning
        have := hfinal row hrow
        rw [hrunning] at this
        cases this
      · rw [System.keepsTrack, htodo, List.head?_cons, all_some] at hkeeps
        rw [hsteps] at hrow
        exact runsStep_false hkeeps hr hactive row hrow

theorem Watched.step {s s' : System} {a : Act} (hs : Watched s) (hkeeps : s.keepsTrack a = true)
    (h : s.step a = some s') : Watched s' := by
  by_cases hturn : ∃ t, a = .driver t
  · obtain ⟨t, rfl⟩ := hturn
    refine ⟨hs.once.step h, hs.settling.step h, fun m' hm' => ?_, hs.watched_turn hkeeps h,
      hs.over_step hkeeps h⟩
    obtain ⟨m, hm, hrun, -⟩ | ⟨-, -, -, hin, -⟩ := turn_on (turn_took h) hm'
    · rw [hrun]
      exact turn_recovered (turn_took h) (hs.inHand m hm)
    · exact hin
  · have hne : ∀ t, a ≠ .driver t := fun t ht => hturn ⟨t, ht⟩
    obtain ⟨hd | ⟨-, hd⟩, -⟩ := step_beside h hne
    · refine ⟨hs.once.step h, hs.settling.step h, hd ▸ hs.inHand, ?_, hs.over_step hkeeps h⟩
      intro id r' hr' hactive row hrow hrunning
      obtain ⟨r, hr, hopen, hin⟩ := hs.unmoved h
        (fun change hmoves => hmoves.1.elim fun now hnow => hne _ hnow) hr' hactive hrow hrunning
      rw [hd]
      exact hs.watched id r hr hopen row hin hrunning
    · refine ⟨hs.once.step h, hs.settling.step h, ?_, ?_, hs.over_step hkeeps h⟩ <;> rw [hd]
      · exact fun m hm => nomatch hm
      · exact fun id r hr hactive row hrow hrunning => .inl (not_mem_nil)

/-! ## A tick without a failure -/

/-- The driver is still to fail the run's step in this tick. -/
def System.awaits (s : System) (id step : String) : Prop :=
  s.driver.phase.recovers id step ∨
    (id ∉ s.driver.recovered ∧ ∃ run ∈ s.driver.todo, run.id = id ∧ run.status ≠ .queued)

/-- The step has ended, or it is running and the driver is still to fail it. -/
def Resolving (s : System) (id step : String) : Prop :=
  ∃ r status, s.store.run id = some r ∧ statusOf r.steps step = some status ∧
    (status.isFinal = true ∨ (status = .running ∧ r.row.active = true ∧ s.awaits id step))

def Act.smooth : Act → Bool
  | .stop | .driver .fail => false
  | _ => true

theorem Once.opened (hs : Once s) {change : Move} (h : s.driver.phase.change = some (id, change)) :
    ∀ status ∈ change.from_,
      status.isFinal = false := by
  have hfresh := hs.fresh
  unfold Phase.change at h
  split at h
  · rename_i m c changes hphase
    obtain ⟨rfl, rfl⟩ := Prod.mk.inj (Option.some.inj h)
    rw [hphase] at hfresh
    exact (hfresh c (mem_cons_self ..)).opened
  · rename_i m c changes rest hphase
    obtain ⟨rfl, rfl⟩ := Prod.mk.inj (Option.some.inj h)
    rw [hphase] at hfresh
    exact (hfresh.1 c (mem_cons_self ..)).opened
  · rename_i m claim effect rest hphase
    cases h
    rw [hphase] at hfresh
    intro status hin
    by_contra hfinal
    exact hfresh.1.1 status hin (spent_final (Bool.not_eq_false _ ▸ hfinal))
  · rename_i m c rest hphase
    cases h
    rw [hphase] at hfresh
    rw [hfresh.1.1]
    exact forall_mem_singleton.mpr rfl
  · cases h

theorem Once.final_stays {s' : System} {a : Act} (hs : Once s) (h : s.step a = some s')
    {step : String} {r : WorkflowRun} {status : StepStatus} (hr : s.store.run id = some r)
    (hstatus : statusOf r.steps step = some status) (hfinal : status.isFinal = true) :
    ∃ r', s'.store.run id = some r' ∧ statusOf r'.steps step = some status := by
  obtain ⟨r', hr', hc⟩ := (step_evolves h).old id r hr
  cases hc with
  | kept => exact ⟨r, hr', hstatus⟩
  | started | finished => exact ⟨_, hr', hstatus⟩
  | moved change now hmoves hrunning =>
    refine ⟨_, hr', ?_⟩
    show statusOf (moveSteps change now r.steps) step = some status
    rw [statusOf_moveSteps]
    obtain hsame | ⟨-, hin, -⟩ := apply_cases change hstatus
    · exact hsame
    · rw [hs.opened hmoves.2 status hin] at hfinal
      cases hfinal
  | cancelled reason now hactive =>
    refine ⟨_, hr', ?_⟩
    show statusOf (cancelSteps now r.steps) step = some status
    rw [statusOf_cancelSteps, hstatus, map_some, if_pos hfinal]

theorem statusOf_row {rows : List WorkflowStepRow} {status : StepStatus}
    (h : statusOf rows id = some status) : ∃ row ∈ rows, row.stepId = id ∧ row.status = status := by
  obtain ⟨row, hrow, hstatus⟩ := map_eq_some_iff.mp h
  exact ⟨row, mem_of_find?_eq_some hrow, by simpa using List.find?_some hrow, hstatus⟩

theorem takesUp_other {m : MoveOn} {todo : List WorkflowRunRow} (hne : m.run.id ≠ id)
    (h : id ∉ s.driver.recovered) :
    id ∉ (s.takesUp m todo).driver.recovered := by
  rw [System.takesUp]
  split
  · exact h
  · exact fun hin => (mem_cons.mp hin).elim (fun heq => hne heq.symm) h

theorem Resolving.turn {s' : System} {t : Turn} {step : String} {r : WorkflowRun} (hs : Watched s)
    (hkeeps : s.keepsTrack (.driver t) = true) (hsmooth : (Act.driver t).smooth = true)
    (h : Took s t s') (hr : s.store.run id = some r)
    (hrunning : statusOf r.steps step = some .running) (hactive : r.row.active = true)
    (hawaits : s.awaits id step) : Resolving s' id step := by
  obtain ⟨row, hrow, hid, hstatus⟩ := statusOf_row hrunning
  have hstays : s'.store.run id = some r → s'.awaits id step → Resolving s' id step :=
    fun hr' hawaits' => ⟨r, _, hr', hrunning, .inr ⟨rfl, hactive, hawaits'⟩⟩
  have hnot : r.row.status ≠ .queued := by
    intro hqueued
    rw [(hs.once.coherent.kept id r hr).waits hqueued row hrow] at hstatus
    cases hstatus
  -- of what the driver has in hand, only the steps to fail are awaited
  have hother : s.driver.phase.minds = false ∨ s.driver.phase.acting = true →
      (∀ m, s.driver.phase.on = some m → id ≠ m.run.id) ∧ id ∉ s.driver.recovered ∧
        ∃ run ∈ s.driver.todo, run.id = id ∧ run.status ≠ .queued := by
    intro hminds
    have hrec : ¬ s.driver.phase.recovers id step := by
      obtain hminds | hacting := hminds
      · exact (minds_false hminds id step).1
      · cases hphase : s.driver.phase with
        | carrying | reporting => exact fun h => h
        | _ =>
          rw [hphase] at hacting
          cases hacting
    obtain ⟨hnew, htodo⟩ := hawaits.resolve_left hrec
    exact ⟨fun m hm heq => hnew (heq ▸ hs.inHand m hm), hnew, htodo⟩
  cases h with
  | tick hphase =>
    obtain ⟨-, hnew, -⟩ := hother (.inl (by rw [hphase]; rfl))
    refine hstays hr (.inr ⟨hnew, r.row, ?_, Store.run_id hr, hnot⟩)
    exact mem_activeWorkflowRuns.mpr ⟨r, mem_of_find?_eq_some hr, hactive, rfl⟩
  | close hphase hnone =>
    obtain ⟨-, -, run, hin, -⟩ := hother (.inl (by rw [hphase]; rfl))
    rw [hnone] at hin
    cases hin
  | @refused run todo why now hphase htodo =>
    obtain ⟨-, hnew, next, hin, hnext, hbegun⟩ := hother (.inl (by rw [hphase]; rfl))
    have hne : id ≠ run.id := by
      rintro rfl
      rw [System.keepsTrack, htodo, List.head?_cons, all_some] at hkeeps
      exact runsStep_false hkeeps hr hactive row hrow hstatus
    rw [htodo] at hin
    obtain rfl | hin := mem_cons.mp hin
    · exact absurd hnext.symm hne
    · exact hstays ((Store.finish_other hne).trans hr) (.inr ⟨hnew, next, hin, hnext, hbegun⟩)
  | @started run todo origin now facts hphase htodo hqueued hok =>
    obtain ⟨-, hnew, next, hin, hnext, hbegun⟩ := hother (.inl (by rw [hphase]; rfl))
    have hne : id ≠ run.id := by
      rintro rfl
      obtain ⟨r₁, -, hr₁, hqueued₁, -⟩ := startWorkflowRun_run hok
      cases hr.symm.trans hr₁
      exact hnot hqueued₁
    rw [htodo] at hin
    obtain rfl | hin := mem_cons.mp hin
    · exact absurd hnext.symm hne
    · refine hstays ?_ (.inr ⟨takesUp_other hne.symm hnew, next, ?_, hnext, hbegun⟩)
      · rw [takesUp_store]
        exact (Store.start_other hne).trans hr
      · rw [takesUp_todo]
        exact hin
  | @lost run todo origin now facts hphase htodo hqueued hno =>
    obtain ⟨-, hnew, next, hin, hnext, hbegun⟩ := hother (.inl (by rw [hphase]; rfl))
    rw [htodo] at hin
    obtain rfl | hin := mem_cons.mp hin
    · exact absurd hqueued hbegun
    · exact hstays ((Store.start_missed hno).trans hr) (.inr ⟨hnew, next, hin, hnext, hbegun⟩)
  | @resumed run todo origin now hphase htodo hstarted =>
    obtain ⟨-, hnew, next, hin, hnext, hbegun⟩ := hother (.inl (by rw [hphase]; rfl))
    have hr' : ∀ m, (s.takesUp m todo).store.run id = some r := by
      intro m
      rw [takesUp_store]
      exact hr
    by_cases hne : run.id = id
    · refine hstays (hr' _) (.inl ?_)
      rw [System.takesUp, if_neg (by simpa [hne] using hnew)]
      exact hne
    · rw [htodo] at hin
      obtain rfl | hin := mem_cons.mp hin
      · exact absurd hnext hne
      · refine hstays (hr' _) (.inr ⟨takesUp_other hne hnew, next, ?_, hnext, hbegun⟩)
        rw [takesUp_todo]
        exact hin
  | @read m hphase =>
    rw [System.awaits, hphase] at hawaits
    obtain hrec | hnew := hawaits
    · have hrec : m.run.id = id := hrec
      subst hrec
      exact hstays hr (.inl (hid ▸ recoverFrom_recovers hr hrow hstatus))
    · exact hstays hr (.inr hnew)
  | @recovered m change changes now hphase =>
    rw [System.awaits, hphase] at hawaits
    obtain hrec | ⟨hnew, htodo⟩ := hawaits
    · have hrecovers := hrec
      obtain ⟨rfl, -, hall⟩ := hrec
      have hm := congrArg Phase.on hphase
      have hmoved : (s.apply m change now).store.run m.run.id = _ :=
        moveWorkflowStep_run hr (hs.once.coherent.running hm hr hactive)
      obtain ⟨hfrom, hto⟩ := hall change (mem_cons_self ..)
      have happly : statusOf (moveSteps change now r.steps) step =
          change.apply (statusOf r.steps) step := by rw [statusOf_moveSteps]
      by_cases hstep : change.step = step
      · refine ⟨_, .failed, hmoved, happly.trans ?_, .inl rfl⟩
        rw [Move.apply, hstep, hrunning, hfrom, if_pos (by decide), update_self, hto]
      · refine ⟨_, .running, hmoved, happly.trans ?_, .inr ⟨rfl, hactive, .inl ?_⟩⟩
        · obtain hsame | ⟨heq, -⟩ := apply_cases change hrunning
          · exact hsame
          · exact absurd heq hstep
        · exact recoverFrom_rest hrecovers hstep
    · have hne : id ≠ m.run.id :=
        fun heq => hnew (heq ▸ hs.inHand m (congrArg Phase.on hphase))
      exact hstays ((Store.move_other hne).trans hr) (.inr ⟨hnew, htodo⟩)
  | planned world plan hphase | checked hphase =>
    obtain ⟨-, hawaits'⟩ := hother (.inl (by rw [hphase]; rfl))
    exact hstays hr (.inr hawaits')
  | moved now hphase | claimed now hphase | missed now hphase =>
    obtain ⟨hne, hawaits'⟩ := hother (.inl (by rw [hphase]; rfl))
    exact hstays ((Store.move_other (hne _ (congrArg Phase.on hphase))).trans hr) (.inr hawaits')
  | carried answers hphase =>
    obtain ⟨-, hawaits'⟩ := hother (.inr (by rw [hphase]; rfl))
    refine hstays ?_ (.inr ?_)
    · show (s.carry _ _ _).store.run id = some r
      rw [carry_store]
      exact hr
    · show id ∉ (s.carry _ _ _).driver.recovered ∧ ∃ run ∈ (s.carry _ _ _).driver.todo, _
      rw [System.carry]
      split <;> exact hawaits'
  | reported now hphase =>
    obtain ⟨hne, hawaits'⟩ := hother (.inr (by rw [hphase]; rfl))
    exact hstays ((Store.move_other (hne _ (congrArg Phase.on hphase))).trans hr) (.inr hawaits')
  | finished status error now hphase =>
    obtain ⟨hne, hawaits'⟩ := hother (.inl (by rw [hphase]; rfl))
    exact hstays ((Store.finish_other (hne _ (congrArg Phase.on hphase))).trans hr) (.inr hawaits')
  | failed | dropped => cases hsmooth

theorem Resolving.step {s s' : System} {a : Act} {id step : String} (hres : Resolving s id step)
    (hs : Watched s) (hkeeps : s.keepsTrack a = true) (hsmooth : a.smooth = true)
    (h : s.step a = some s') : Resolving s' id step := by
  obtain ⟨r, status, hr, hstatus, hfinal | ⟨rfl, hactive, hawaits⟩⟩ := hres
  · obtain ⟨r', hr', hstatus'⟩ := hs.once.final_stays h hr hstatus hfinal
    exact ⟨r', status, hr', hstatus', .inl hfinal⟩
  · by_cases hturn : ∃ t, a = .driver t
    · obtain ⟨t, rfl⟩ := hturn
      exact Resolving.turn hs hkeeps hsmooth (turn_took h) hr hstatus hactive hawaits
    · have hne : ∀ t, a ≠ .driver t := fun t ht => hturn ⟨t, ht⟩
      obtain ⟨hd | ⟨rfl, -⟩, -⟩ := step_beside h hne
      · have hawaits' : s'.awaits id step := by
          rw [System.awaits, hd]
          exact hawaits
        obtain ⟨row, hrow, -, hrunning⟩ := statusOf_row hstatus
        obtain ⟨r', hr', hc⟩ := (step_evolves h).old id r hr
        cases hc with
        | kept => exact ⟨r, _, hr', hstatus, .inr ⟨rfl, hactive, hawaits'⟩⟩
        | started context now hqueued =>
          rw [(hs.once.coherent.kept id r hr).waits hqueued row hrow] at hrunning
          cases hrunning
        | moved change now hmoves => exact (hmoves.1.elim fun now hnow => hne _ hnow).elim
        | finished status error now hends =>
          cases a with
          | driver t => exact absurd rfl (hne t)
          | _ => exact hends.elim
        | cancelled reason now =>
          refine ⟨_, .cancelled, hr', ?_, .inl rfl⟩
          show statusOf (cancelSteps now r.steps) step = some .cancelled
          rw [statusOf_cancelSteps, hstatus]
          rfl
      · cases hsmooth

/-- What holds of running steps: a run that has ended has none; and a tick in which no store call
    fails, whatever else happens before it is over, leaves each step that was running when it began
    ended. -/
structure NoneLeftRunning (s : System) : Prop where
  atEnd : ∀ r ∈ s.store, r.row.active = false → ∀ row ∈ r.steps, row.status ≠ .running
  ticked : ∀ acts s', (∀ a ∈ acts, a.smooth = true) →
    Meets System.step (fun s a => s.keepsTrack a = true) s
      (Act.driver .tick :: acts ++ [Act.driver .close]) →
    run System.step s (Act.driver .tick :: acts ++ [Act.driver .close]) = some s' →
    ∀ r ∈ s.store, ∀ row ∈ r.steps, row.status = .running →
      ∃ r' status, s'.store.run r.row.id = some r' ∧
        statusOf r'.steps row.stepId = some status ∧ status.isFinal = true

theorem close_awaits {s' : System} (h : s.step (.driver .close) = some s') (id step : String) :
    ¬ s.awaits id step := by
  cases turn_took h with
  | close hphase hnone =>
    rintro (hrec | ⟨-, run, hin, -⟩)
    · rw [hphase] at hrec
      exact hrec
    · rw [hnone] at hin
      cases hin

theorem tick_resolving {s' : System} (hs : Watched s) (h : s.step (.driver .tick) = some s')
    {r : WorkflowRun} (hr : s.store.run id = some r) {row : WorkflowStepRow} (hrow : row ∈ r.steps)
    (hactive : r.row.active = true) (hrunning : row.status = .running)
    (hstatus : statusOf r.steps row.stepId = some .running) : Resolving s' id row.stepId := by
  cases turn_took h with
  | tick hphase =>
    have hminds : s.driver.phase.minds = false := by
      rw [hphase]
      rfl
    obtain ⟨hrec, hact⟩ := minds_false hminds id row.stepId
    have hnew := (hs.watched id r hr hactive row hrow hrunning).resolve_right fun h =>
      h.elim hrec hact
    have hbegun : r.row.status ≠ .queued := by
      intro hqueued
      rw [(hs.once.coherent.kept id r hr).waits hqueued row hrow] at hrunning
      cases hrunning
    have hin : r.row ∈ s.store.activeWorkflowRuns :=
      mem_activeWorkflowRuns.mpr ⟨r, mem_of_find?_eq_some hr, hactive, rfl⟩
    exact ⟨r, _, hr, hstatus,
      .inr ⟨rfl, hactive, .inr ⟨hnew, r.row, hin, Store.run_id hr, hbegun⟩⟩⟩

/-- **No step is left running**, in every run of the system where no store call fails for a run with
    a running step once the driver has taken it up, and no run ends early with one. -/
theorem none_left_running (acts : List Act) (s : System)
    (h : run System.step .start acts = some s)
    (hkeeps : Meets System.step (fun s a => s.keepsTrack a = true) .start acts) :
    NoneLeftRunning s := by
  have hs : Watched s :=
    hkeeps.invariant (fun _ _ _ hs hk hstep => hs.step hk hstep) h watched_start
  have hunique := hs.once.coherent.unique
  refine ⟨fun r hr => hs.atEnd _ r (Store.run_mem hunique hr), ?_⟩
  intro acts' s' hsmooth hkeeps' hrun r hr row hrow hrunning
  have hr := Store.run_mem hunique hr
  have hkept := hs.once.coherent.kept _ r hr
  have hstatus : statusOf r.steps row.stepId = some .running := by
    rw [statusOf_mem (hkept.ids ▸ hkept.unique) hrow, hrunning]
  have hactive : r.row.active = true := by
    by_contra hend
    exact hs.atEnd _ r hr (Bool.eq_false_iff.mpr hend) row hrow hrunning
  obtain ⟨s₂, hrun₂, hclose⟩ := run_append.mp hrun
  obtain ⟨hkeeps₂, -⟩ := hkeeps'.append hrun₂
  obtain ⟨s₁, htick, hrun₁⟩ := run_cons.mp hrun₂
  have hs₁ : Watched s₁ := hs.step hkeeps₂.1 htick
  have hstep : ∀ s a s', (Watched s ∧ Resolving s r.row.id row.stepId) →
      (s.keepsTrack a = true ∧ a.smooth = true) → s.step a = some s' →
      Watched s' ∧ Resolving s' r.row.id row.stepId :=
    fun _ _ _ hs hc h => ⟨hs.1.step hc.1 h, hs.2.step hs.1 hc.1 hc.2 h⟩
  have hres := (((hkeeps₂.2 s₁ htick).and_forall hsmooth).invariant hstep hrun₁
    ⟨hs₁, tick_resolving hs htick hr hrow hactive hrunning hstatus⟩).2
  obtain ⟨s₃, hclosed, hnil⟩ := run_cons.mp hclose
  obtain rfl := Option.some.inj hnil
  obtain ⟨r', status, hr', hstatus', hfinal | ⟨-, -, hawaits⟩⟩ := hres
  · have hstore : s₃.store = s₂.store := by
      cases turn_took hclosed with
      | close => rfl
    exact ⟨r', status, hstore ▸ hr', hstatus', hfinal⟩
  · exact absurd hawaits (close_awaits hclosed _ _)

def System.statuses (s : System) : List (List StepStatus) :=
  s.store.map (fun r => r.steps.map (·.status))

def interruptedReview : List Act :=
  [queueReview, .driver .tick, .driver (.moveOn none 2), .driver .recover,
    .driver (.plan idleWorld), .driver (.apply 3), .stop]

def recoveringTick : List Act :=
  [.driver (.moveOn none 4), .driver .recover, .driver (.apply 5), .driver (.plan idleWorld),
    .driver (.apply 6), .driver (.apply 7), .driver (.finish 8)]

theorem interrupted_review_is_failed :
    ∃ s s', run System.step .start interruptedReview = some s ∧ NoneLeftRunning s ∧
      run System.step s (Act.driver .tick :: recoveringTick ++ [Act.driver .close]) = some s' ∧
      s.statuses = [[.pending, .pending, .running]] ∧
      s'.statuses = [[.skipped, .skipped, .failed]] := by
  have hfirst : (run System.step .start interruptedReview).map System.statuses =
      some [[.pending, .pending, .running]] := by decide +kernel
  have hboth : (run System.step .start (interruptedReview ++
      (Act.driver .tick :: recoveringTick ++ [Act.driver .close]))).map System.statuses =
      some [[.skipped, .skipped, .failed]] := by decide +kernel
  have hkeeps : meets System.step System.keepsTrack .start interruptedReview = true := by
    decide +kernel
  obtain ⟨s', hs', hafter⟩ := map_eq_some_iff.mp hboth
  obtain ⟨s, hs, htick⟩ := run_append.mp hs'
  rw [hs, map_some] at hfirst
  exact ⟨s, s', hs, none_left_running interruptedReview s hs (meets_iff.mp hkeeps), htick,
    Option.some.inj hfirst, hafter⟩

def unreportedReview : List Act :=
  [queueReview, .driver .tick, .driver (.moveOn none 2), .driver .recover,
    .driver (.plan idleWorld), .driver (.apply 3), .driver (.carry allWell), .driver .fail,
    .driver .close]

/-- In the next tick no store call fails, and the step stays running, as in every one after it. -/
theorem unreported_review_stays_running :
    ∃ s s', run System.step .start unreportedReview = some s ∧
      run System.step s (Act.driver .tick :: [Act.driver (.moveOn none 5), .driver (.plan idleWorld)] ++
        [Act.driver .close]) = some s' ∧
      s.statuses = [[.pending, .pending, .running]] ∧
      s'.statuses = [[.pending, .pending, .running]] := by
  have hfirst : (run System.step .start unreportedReview).map System.statuses =
      some [[.pending, .pending, .running]] := by decide +kernel
  have hboth : (run System.step .start (unreportedReview ++
      (Act.driver .tick :: [Act.driver (.moveOn none 5), .driver (.plan idleWorld)] ++
        [Act.driver .close]))).map System.statuses = some [[.pending, .pending, .running]] := by
    decide +kernel
  obtain ⟨s', hs', hafter⟩ := map_eq_some_iff.mp hboth
  obtain ⟨s, hs, htick⟩ := run_append.mp hs'
  rw [hs, map_some] at hfirst
  exact ⟨s, s', hs, htick, Option.some.inj hfirst, hafter⟩

end Yardsort.Workflow
