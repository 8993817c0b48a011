import Yardsort.Workflow.DriverRuns

/- A run that has ended has no step left to end.

   A cancel ends the steps with the run. A finish does not: it relies on the plan, which ends a run
   only when its moves leave every step ended, and then has no effects, so that nothing is left of
   it but those moves (`Settles`: what is still to be applied leaves every step ended, or the run
   has ended meanwhile). An early ending relies on nothing: `EndsClean` is what it needs. -/
namespace Yardsort.Workflow
open Yardsort.Lib

/-- The changes leave every step of the run ended, if the run goes on until they are applied. -/
def Settles (store : Store) (id : String) (changes : List Move) : Prop :=
  ∀ r, store.run id = some r → r.row.active = true →
    ∀ row ∈ r.steps, (after (statusOf r.steps) changes row.stepId).any StepStatus.isFinal = true

/-- Where a plan ends the run, what is left of it leaves every step ended. -/
def Phase.Ending (store : Store) : Phase → Prop
  | .idle | .between | .reading _ | .recovering .. | .planning _ => True
  | .moving m change changes rest =>
    rest.finish = none ∨ rest.effects = [] ∧ Settles store m.run.id (change :: changes)
  | .claiming _ _ _ rest | .checking _ rest | .carrying _ _ rest | .reporting _ _ rest =>
    rest.finish = none
  | .finishing m _ => Settles store m.run.id []

theorem planFrom_ending (store : Store) (m : MoveOn) : (planFrom m).Ending store := by
  unfold planFrom
  split <;> trivial

theorem recoverFrom_ending (store : Store) (m : MoveOn) (changes : List Move) :
    (recoverFrom m changes).Ending store := by
  cases changes with
  | nil => exact planFrom_ending store m
  | cons change changes => trivial

theorem actFrom_ending {store : Store} {m : MoveOn} {claims : List Move} {finish : Option Finish}
    {delivered : Bool} {effects : List Effect}
    (h : finish = none ∨ effects = [] ∧ Settles store m.run.id []) :
    (actFrom m claims finish delivered effects).Ending store := by
  induction effects with
  | nil =>
    unfold actFrom
    split
    · exact (h.resolve_left nofun).2
    · split
      · exact planFrom_ending store m
      · trivial
  | cons effect effects ih =>
    have hnone : finish = none := h.resolve_right fun h => nomatch h.1
    unfold actFrom
    split
    · exact hnone
    · exact ih (.inl hnone)

theorem moveFrom_ending {store : Store} {m : MoveOn} {rest : Rest} {changes : List Move}
    (h : rest.finish = none ∨ rest.effects = [] ∧ Settles store m.run.id changes) :
    (moveFrom m rest changes).Ending store := by
  cases changes with
  | nil => exact actFrom_ending h
  | cons change changes => exact h

theorem takesUp_ending (s : System) (m : MoveOn) (todo : List WorkflowRunRow) :
    (s.takesUp m todo).driver.phase.Ending (s.takesUp m todo).store := by
  rw [System.takesUp]
  split
  · exact planFrom_ending _ m
  · trivial

theorem AllLegal.running_stays {w : Workflow} {status : String → Option StepStatus}
    {moves : List Move} (h : AllLegal w status moves) {m : Move} (hm : m ∈ moves)
    (hrun : m.to_ = .running) : after status moves m.step = some .running := by
  -- no move takes a step from running
  have hkeeps : ∀ {moves : List Move} {status : String → Option StepStatus} {id : String},
      AllLegal w status moves → status id = some .running →
      after status moves id = some .running := by
    intro moves
    induction moves with
    | nil => exact fun _ hs => hs
    | cons m' moves ih =>
      intro status id hl hs
      refine ih hl.2 ?_
      obtain ⟨s, hstatus, -, hallowed, -⟩ := hl.1
      rw [hl.1.apply]
      by_cases hid : id = m'.step
      · subst hid
        cases hstatus.symm.trans hs
        cases hallowed
      · rw [update_of_ne hid]
        exact hs
  induction moves generalizing status with
  | nil => cases hm
  | cons m' moves ih =>
    obtain rfl | hm := mem_cons.mp hm
    · show after (m.apply status) moves m.step = some .running
      refine hkeeps h.2 ?_
      rw [h.1.apply, update_self, hrun]
    · exact ih h.2 hm

/-- **A plan that ends a run has no effects**, and its moves leave every step ended. -/
theorem carryFrom_ending {store : Store} {m : MoveOn} {r : WorkflowRun} {world : World}
    {plan : Plan} (hr : store.run m.run.id = some r) (hkept : Kept r)
    (hdef : r.row.definition = m.run.definition)
    (h : advance m.run.definition m.run.inputs r.steps world = some plan) :
    (carryFrom m plan).Ending store := by
  have hunique := hdef ▸ hkept.unique
  obtain ⟨p, rfl, hp⟩ := advance_made (P := Planned m.run.definition (statusOf r.steps))
    (fun p step x hp hstep hd => hp.add hunique hstep hd) h (planned_ofRows _ r.steps)
  refine moveFrom_ending ?_
  cases hfinish : (planOf m.run.definition r.steps p).finish with
  | none => exact .inl rfl
  | some finish =>
    right
    have hall : ∀ row ∈ r.steps, (p.status row.stepId).any StepStatus.isFinal = true := by
      rw [planOf] at hfinish
      dsimp only at hfinish
      split at hfinish
      · rename_i hall
        exact all_eq_true.mp hall
      · cases hfinish
    have hnot : ∀ change ∈ p.moves, change.to_ ≠ .running := by
      intro change hin hrun
      have hids : change.step ∈ r.steps.map (·.stepId) := by
        rw [hkept.ids, hdef]
        exact hp.within change hin
      obtain ⟨row, hrow, hid⟩ := mem_map.mp hids
      have hfinal := hall row hrow
      rw [hid, hp.status, hp.legal.running_stays hin hrun] at hfinal
      cases hfinal
    have heffects : p.effects = [] := by
      have h := hp.effects
      rw [filter_eq_nil_iff.mpr (by simpa using hnot)] at h
      exact map_eq_nil_iff.mp h
    refine ⟨heffects, fun r' hr' _ row hrow => ?_⟩
    cases hr.symm.trans hr'
    have hmoves : p.moves.filter (fun change => !isClaim p.effects change) = p.moves := by
      refine filter_eq_self.mpr fun change hin => ?_
      rw [isClaim, decide_eq_false (hnot change hin)]
      rfl
    show (after (statusOf r.steps) (p.moves.filter (fun change => !isClaim p.effects change))
      row.stepId).any StepStatus.isFinal = true
    rw [hmoves, ← hp.status]
    exact hall row hrow

/-! ## Runs -/

def System.endsClean (s : System) : Act → Bool
  | .driver (.refuse _ _) =>
    s.driver.todo.head?.all fun run =>
      (s.store.run run.id).all (fun r => !r.row.active || r.steps.all (·.status.isFinal))
  | _ => true

/-- What every run keeps: where a plan ends a run, what is left of it ends its steps. -/
structure Settling (s : System) : Prop where
  coherent : Coherent s
  ending : s.driver.phase.Ending s.store

/-- What a run keeps whose early endings are clean. -/
structure Ends (s : System) : Prop where
  settling : Settling s
  tidy : ∀ id r, s.store.run id = some r → r.row.active = false →
    ∀ row ∈ r.steps, row.status.isFinal = true

theorem Settles.evolves {moves : String → Move → Prop} {ends : String → Prop}
    {store store' : Store} {id : String} {changes : List Move} (h : Settles store id changes)
    (hev : Evolves moves ends store store') (hnone : ∀ change, ¬ moves id change)
    (hin : store.run id ≠ none) : Settles store' id changes := by
  intro r' hr' hactive
  obtain ⟨r, hr⟩ := Option.ne_none_iff_exists'.mp hin
  obtain ⟨r'', hr'', hc⟩ := hev.old id r hr
  obtain rfl := Option.some.inj (hr''.symm.trans hr')
  cases hc with
  | kept => exact h r hr hactive
  | started context now hqueued => exact h r hr (by rw [WorkflowRunRow.active, hqueued]; rfl)
  | moved change now hmoves => exact absurd hmoves (hnone change)
  | finished status error now hends hactive' hstatus =>
    rw [WorkflowRunRow.active, hstatus] at hactive
    cases hactive
  | cancelled => cases hactive

theorem Settles.apply {s : System} (hs : Coherent s) {m : MoveOn} {change : Move}
    {changes : List Move} {now : Int} (hm : s.driver.phase.on = some m)
    (h : Settles s.store m.run.id (change :: changes)) :
    Settles (s.apply m change now).store m.run.id changes := by
  intro r' hr' hactive
  obtain ⟨r, hr, -⟩ := hs.on m hm
  have hev : Evolves (fun _ _ => True) (fun _ => False) s.store (s.apply m change now).store :=
    .move trivial
  cases hopen : r.row.active with
  | false =>
    obtain ⟨r'', hr'', hc⟩ := hev.old _ r hr
    cases hr''.symm.trans hr'
    rw [hc.ended hopen, hopen] at hactive
    cases hactive
  | true =>
    have hmoved : (s.apply m change now).store.run m.run.id = _ :=
      moveWorkflowStep_run hr (hs.running hm hr hopen)
    cases hmoved.symm.trans hr'
    intro row hrow
    have hids : row.stepId ∈ r.steps.map (·.stepId) := by
      rw [← moveSteps_ids change now]
      exact mem_map_of_mem hrow
    obtain ⟨old, hold, hid⟩ := mem_map.mp hids
    show (after (statusOf (moveSteps change now r.steps)) changes row.stepId).any _ = true
    rw [statusOf_moveSteps, ← hid]
    exact h r hr hopen old hold

theorem Settles.final {s : System} (hs : Coherent s) {id : String} (h : Settles s.store id [])
    {r : WorkflowRun} (hr : s.store.run id = some r) (hactive : r.row.active = true) :
    ∀ row ∈ r.steps, row.status.isFinal = true := by
  intro row hrow
  have hkept := hs.kept id r hr
  have hfinal : (statusOf r.steps row.stepId).any StepStatus.isFinal = true := h r hr hactive row hrow
  rwa [statusOf_mem (hkept.ids ▸ hkept.unique) hrow] at hfinal

theorem workflowSteps_run {store : Store} {id : String} {r : WorkflowRun}
    (h : store.run id = some r) : store.workflowSteps id = r.steps := by
  rw [Store.workflowSteps, h]
  rfl

theorem settling_start : Settling .start := ⟨coherent_start, trivial⟩

theorem Settling.ending_turn {s s' : System} {t : Turn} (hs : Settling s) (h : Took s t s') :
    s'.driver.phase.Ending s'.store := by
  have hending := hs.ending
  cases h with
  | tick | close | refused | lost | finished | failed | dropped => trivial
  | started | resumed => exact takesUp_ending ..
  | read | recovered => exact recoverFrom_ending ..
  | planned world plan hphase hplan =>
    have hm := congrArg Phase.on hphase
    obtain ⟨r, hr, hdef, -⟩ := hs.coherent.on _ hm
    rw [workflowSteps_run hr] at hplan
    exact carryFrom_ending hr (hs.coherent.kept _ r hr) hdef hplan
  | moved now hphase =>
    rw [hphase] at hending
    exact moveFrom_ending (hending.imp_right fun h =>
      ⟨h.1, h.2.apply hs.coherent (congrArg Phase.on hphase)⟩)
  | claimed now hphase | missed now hphase | carried answers hphase =>
    rw [hphase] at hending
    exact hending
  | checked hphase =>
    rw [hphase] at hending
    show (if _ then _ else Phase.between).Ending s.store
    split
    · exact actFrom_ending (.inl hending)
    · trivial
  | reported now hphase =>
    rw [hphase] at hending
    exact actFrom_ending (.inl hending)

theorem Settling.ending_beside {s s' : System} {a : Act} (hs : Settling s) (h : s.step a = some s')
    (hne : ∀ t, a ≠ .driver t) (hdriver : s'.driver = s.driver) :
    s'.driver.phase.Ending s'.store := by
  have hnone : ∀ id change, ¬ s.moves a id change := fun id change hmoves =>
    hmoves.1.elim fun now ha => hne _ ha
  have hsettles : ∀ {m changes}, s.driver.phase.on = some m → Settles s.store m.run.id changes →
      Settles s'.store m.run.id changes := by
    intro m changes hm hset
    obtain ⟨r, hr, -⟩ := hs.coherent.on m hm
    exact hset.evolves (step_evolves h) (hnone _) (by rw [hr]; nofun)
  have hending := hs.ending
  rw [hdriver]
  cases hphase : s.driver.phase with
  | moving m change changes rest =>
    rw [hphase] at hending
    exact hending.imp_right fun h => ⟨h.1, hsettles (congrArg Phase.on hphase) h.2⟩
  | finishing m finish =>
    rw [hphase] at hending
    exact hsettles (congrArg Phase.on hphase) hending
  | _ =>
    rw [hphase] at hending
    exact hending

theorem Settling.step {s s' : System} {a : Act} (hs : Settling s) (h : s.step a = some s') :
    Settling s' := by
  refine ⟨hs.coherent.step h, ?_⟩
  by_cases hturn : ∃ t, a = .driver t
  · obtain ⟨t, rfl⟩ := hturn
    exact hs.ending_turn (turn_took h)
  · have hne : ∀ t, a ≠ .driver t := fun t ht => hturn ⟨t, ht⟩
    obtain ⟨hd | ⟨-, hd⟩, -⟩ := step_beside h hne
    · exact hs.ending_beside h hne hd
    · rw [hd]
      trivial

theorem Settling.ended_step {s s' : System} {a : Act} (hs : Settling s) (h : s.step a = some s')
    {id : String} {r r' : WorkflowRun} (hr : s.store.run id = some r) (hactive : r.row.active = true)
    (hr' : s'.store.run id = some r') (hend : r'.row.active = false) :
    (∀ row ∈ r'.steps, row.status.isFinal = true) ∨
      (r'.steps = r.steps ∧ ∃ why now run todo, a = .driver (.refuse why now) ∧
        s.driver.todo = run :: todo ∧ run.id = id) := by
  obtain ⟨r'', hr'', hc⟩ := (step_evolves h).old id r hr
  cases hr''.symm.trans hr'
  cases hc with
  | kept =>
    rw [hactive] at hend
    cases hend
  | started => cases hend
  | moved change now hmoves hrunning =>
    have hend : r.row.active = false := hend
    rw [hactive] at hend
    cases hend
  | finished status error now hends hactive' hstatus =>
    unfold System.ends at hends
    split at hends
    · obtain ⟨m, finish, hphase, rfl⟩ := hends
      have hending := hs.ending
      rw [hphase] at hending
      have hfinal := Settles.final hs.coherent hending hr hactive
      exact .inl hfinal
    · obtain ⟨run, todo, hphase, htodo, rfl⟩ := hends
      exact .inr ⟨rfl, _, _, run, todo, rfl, htodo, rfl⟩
    · exact hends.elim
  | cancelled reason now hactive' =>
    left
    intro row hrow
    obtain ⟨old, -, rfl⟩ := mem_map.mp hrow
    show (if old.status.isFinal then old else _ : WorkflowStepRow).status.isFinal = true
    split
    · assumption
    · rfl

theorem Ends.step {s s' : System} {a : Act} (hs : Ends s) (hclean : s.endsClean a = true)
    (h : s.step a = some s') : Ends s' := by
  refine ⟨hs.settling.step h, fun id r' hr' hend => ?_⟩
  have hev := step_evolves h
  cases hr : s.store.run id with
  | none =>
    have hq := (hev.new id r' hr' hr).status
    rw [WorkflowRunRow.active, hq] at hend
    cases hend
  | some r =>
    cases hactive : r.row.active with
    | false =>
      obtain ⟨r'', hr'', hc⟩ := hev.old id r hr
      cases hr''.symm.trans hr'
      rw [hc.ended hactive]
      exact hs.tidy id r hr hactive
    | true =>
      obtain hfinal | ⟨hsteps, why, now, run, todo, rfl, htodo, rfl⟩ :=
        hs.settling.ended_step h hr hactive hr' hend
      · exact hfinal
      · have hfinal : (!r.row.active || r.steps.all (·.status.isFinal)) = true := by
          rw [System.endsClean, htodo, List.head?_cons, all_some, hr,
            all_some] at hclean
          exact hclean
        rw [hactive] at hfinal
        rw [hsteps]
        exact all_eq_true.mp hfinal

/-- **An ended run has no step left to end**, in every run of the system whose early endings leave
    none. -/
theorem ended_runs_end_steps (acts : List Act) (s : System)
    (h : run System.step .start acts = some s)
    (hclean : Meets System.step (fun s a => s.endsClean a = true) .start acts) :
    ∀ r ∈ s.store, r.row.active = false → ∀ row ∈ r.steps, row.status.isFinal = true := by
  have hends : Ends s := hclean.invariant (fun _ _ _ hs hc hstep => hs.step hc hstep) h
    ⟨settling_start, fun _ _ hr => nomatch hr⟩
  intro r hr
  exact hends.tidy r.row.id r (Store.run_mem hends.settling.coherent.unique hr)

def finishedReview : List Act :=
  [queueReview, .driver .tick, .driver (.moveOn none 2), .driver .recover,
    .driver (.plan idleWorld), .driver (.apply 3), .driver (.carry allWell), .driver (.apply 4),
    .driver (.plan idleWorld), .driver (.apply 5), .driver (.apply 6), .driver (.apply 7),
    .driver (.carry allWell), .driver (.apply 8), .driver (.plan idleWorld), .driver (.finish 9),
    .driver .close]

/-- A review whose agent was started, and whose file the next version of the app does not read. -/
def refusedReview : List Act :=
  [queueReview, .driver .tick, .driver (.moveOn none 2), .driver .recover,
    .driver (.plan idleWorld), .driver (.apply 3), .driver (.carry allWell), .driver (.apply 4),
    .stop, .driver .tick, .driver (.refuse .file 5)]

theorem finished_review_ends_steps :
    ∃ s, run System.step .start finishedReview = some s ∧
      (s.store.map (·.row.status)) = [.succeeded] ∧
      ∀ r ∈ s.store, r.row.active = false → ∀ row ∈ r.steps, row.status.isFinal = true := by
  have hrun : (run System.step .start finishedReview).map (fun s => s.store.map (·.row.status)) =
      some [.succeeded] := by decide +kernel
  have hclean : meets System.step System.endsClean .start finishedReview = true := by
    decide +kernel
  obtain ⟨s, hs, hstatus⟩ := map_eq_some_iff.mp hrun
  exact ⟨s, hs, hstatus, ended_runs_end_steps finishedReview s hs (meets_iff.mp hclean)⟩

theorem refused_review_leaves_steps :
    ∃ s, run System.step .start refusedReview = some s ∧
      ∃ r ∈ s.store, r.row.status = .failed ∧
        r.steps.map (·.status) = [.pending, .pending, .succeeded] := by
  have hrun : (run System.step .start refusedReview).map (fun s =>
      s.store.map (fun r => (r.row.status, r.steps.map (·.status)))) =
      some [(.failed, [.pending, .pending, .succeeded])] := by decide +kernel
  obtain ⟨s, hs, hstore⟩ := map_eq_some_iff.mp hrun
  obtain ⟨r, rest, hstore', hr⟩ := map_eq_cons_iff.mp hstore
  refine ⟨s, hs, r, by rw [hstore']; exact mem_cons_self .., ?_⟩
  exact ⟨congrArg Prod.fst hr.1, congrArg Prod.snd hr.1⟩

end Yardsort.Workflow
