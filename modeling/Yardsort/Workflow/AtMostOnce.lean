import Yardsort.Workflow.DriverRuns

/- No effect of a run is asked for twice, over any run of ticks, cancels, restarts and failing store
   calls.

   A status is `Spent` once the step's effect may have been asked for: any but pending, and waiting
   only where the step waits for the test run it queued. A claim takes a step that is not spent,
   and every other change leaves a spent step spent, but for a step that is put back to wait, and
   then nothing was asked for. So a deed's step is spent from then on and is never claimed again
   (`Once`). What a run may still do once it has ended follows from the store alone: nothing is
   claimed, and at most the effect that was already claimed is asked for. -/
namespace Yardsort.Workflow
open Yardsort.Lib

def Action.queuesTest : Action → Bool
  | .runTest .. => true
  | _ => false

def Effect.queuesTest : Effect → Bool
  | .runTest .. => true
  | _ => false

def TestStep (w : Workflow) (id : String) : Prop :=
  ∃ step ∈ w.steps, step.id = id ∧ step.action.queuesTest = true

/-- A status in which the step's effect may have been asked for. -/
def Spent (w : Workflow) (id : String) (status : StepStatus) : Prop :=
  status ≠ .pending ∧ (status = .waiting → TestStep w id)

def Safe (w : Workflow) (change : Move) : Prop :=
  ∀ status ∈ change.from_, Spent w change.step status → Spent w change.step change.to_

def Claims (w : Workflow) (change : Move) : Prop :=
  ∀ status ∈ change.from_, ¬ Spent w change.step status

theorem Claims.safe {w : Workflow} {change : Move} (h : Claims w change) : Safe w change :=
  fun status hin hspent => absurd hspent (h status hin)

theorem spent_final {w : Workflow} {id : String} {status : StepStatus} (h : status.isFinal = true) :
    Spent w id status := by
  refine ⟨?_, ?_⟩ <;> rintro rfl <;> cases h

theorem safe_final {w : Workflow} {change : Move} (h : change.to_.isFinal = true) : Safe w change :=
  fun _ _ _ => spent_final h

def SpentIn (store : Store) (id step : String) : Prop :=
  ∃ r status, store.run id = some r ∧ statusOf r.steps step = some status ∧
    Spent r.row.definition step status

theorem statusOf_cancelSteps (now : Int) (rows : List WorkflowStepRow) (id : String) :
    statusOf (cancelSteps now rows) id =
      (statusOf rows id).map (fun status => if status.isFinal then status else .cancelled) := by
  have hsame : (fun row : WorkflowStepRow => decide (row.stepId = id)) ∘ (fun row =>
      if row.status.isFinal then row else
        { row with status := .cancelled, endedAt := some now }) =
      fun row => decide (row.stepId = id) := by
    funext row
    show decide ((if _ then row else _ : WorkflowStepRow).stepId = id) = _
    split <;> rfl
  rw [statusOf, cancelSteps, List.find?_map, hsame, Option.map_map, statusOf, Option.map_map]
  congr 1
  funext row
  show (if _ then row else _ : WorkflowStepRow).status = if row.status.isFinal then row.status else _
  split <;> rfl

theorem apply_cases (change : Move) {status : String → Option StepStatus} {id : String}
    {s : StepStatus} (h : status id = some s) :
    change.apply status id = some s ∨
      (change.step = id ∧ s ∈ change.from_ ∧ change.apply status id = some change.to_) := by
  rw [Move.apply]
  split
  · rename_i hin
    by_cases hid : id = change.step
    · subst hid
      rw [h] at hin
      exact .inr ⟨rfl, of_decide_eq_true hin, update_self ..⟩
    · exact .inl ((update_of_ne hid ..).trans h)
  · exact .inl h

theorem SpentIn.evolves {moves : String → Move → Prop} {ends : String → Prop}
    {store store' : Store} {id step : String} (h : SpentIn store id step)
    (hev : Evolves moves ends store store')
    (hsafe : ∀ r change, store.run id = some r → moves id change → change.step = step →
      Safe r.row.definition change) : SpentIn store' id step := by
  obtain ⟨r, status, hr, hstatus, hspent⟩ := h
  obtain ⟨r', hr', hc⟩ := hev.old _ _ hr
  cases hc with
  | kept => exact ⟨r, status, hr', hstatus, hspent⟩
  | started | finished => exact ⟨_, status, hr', hstatus, hspent⟩
  | moved change now hmoves hrunning =>
    have happly := statusOf_moveSteps change now r.steps
    obtain hsame | ⟨hid, hin, hto⟩ := apply_cases change hstatus
    · exact ⟨_, status, hr', by rw [← hsame, ← happly], hspent⟩
    · have hchange := hsafe r change hr hmoves hid
      rw [← happly] at hto
      rw [← hid] at hspent hto ⊢
      exact ⟨_, _, hr', hto, hchange status hin hspent⟩
  | cancelled reason now hactive =>
    have hcancel := statusOf_cancelSteps now r.steps step
    rw [hstatus, map_some] at hcancel
    refine ⟨_, _, hr', hcancel, ?_⟩
    split
    · exact hspent
    · exact spent_final rfl

theorem begin_queuesTest (look : Look) (step : Step) :
    ∀ e ∈ (beginStep look step).2, e.queuesTest = step.action.queuesTest := by
  unfold beginStep
  dsimp only
  split
  · rename_i h
    rw [h]
    exact forall_mem_singleton.mpr rfl
  · rename_i h
    rw [h]
    exact forall_mem_singleton.mpr rfl
  · split <;> exact forall_mem_nil _
  · rename_i h
    split
    · split <;> exact forall_mem_nil _
    · split
      · exact forall_mem_nil _
      · split
        · exact forall_mem_nil _
        · rw [h]
          exact forall_mem_singleton.mpr rfl
  · exact forall_mem_nil _
  · rename_i h
    rw [h]
    exact forall_mem_singleton.mpr rfl

theorem wait_running {look : Look} {step : Step} {since : Int} {x : Move × List Effect}
    (h : wait look step since = some x) (hrun : x.1.to_ = .running) :
    step.action.queuesTest = false ∧ ∀ e ∈ x.2, e.queuesTest = false := by
  unfold wait at h
  dsimp only at h
  split at h
  · split at h
    · cases h
      cases hrun
    · split at h
      · cases h
        cases hrun
      · cases h
  · split at h
    · split at h
      · cases h
        cases hrun
      · split at h
        · cases h
          cases hrun
        · cases h
    · split at h
      · cases h
        cases hrun
      · cases h
  · split at h
    · cases h
    · split at h
      · cases h
        cases hrun
      · split at h
        · split at h
          · cases h
            cases hrun
          · cases h
        · split at h <;> obtain rfl := Option.some.inj h <;> cases hrun
  · rename_i haction
    split at h
    · cases h
    split at h
    · cases h
      cases hrun
    · split at h
      · cases h
        rw [haction]
        exact ⟨rfl, forall_mem_singleton.mpr rfl⟩
      · split at h
        · cases h
          cases hrun
        · cases h
  · cases h

/-- What a plan in the making claims: after waiting, no step that queues a test, and for those its
    effects are theirs. -/
structure Made (w : Workflow) (p : Planning) : Prop where
  claims : ∀ m ∈ p.moves, m.from_ = [.waiting] → m.to_ = .running → ¬ TestStep w m.step
  effects : ∀ e ∈ p.effects, e.queuesTest = true → TestStep w e.step

theorem Made.add {w : Workflow} (hunique : (w.steps.map (·.id)).Nodup) {inputs : Inputs}
    {world : World} {started : String → Option Int} {p : Planning} {step : Step}
    {x : Move × List Effect} (hp : Made w p) (hstep : step ∈ w.steps)
    (h : decideStep inputs world started p step = some x) : Made w (p.add x.1 x.2) := by
  obtain ⟨s, hs, hm, -⟩ := decideStep_spec h
  -- the step is the only one of its id
  have honly : TestStep w step.id → step.action.queuesTest = true := by
    rintro ⟨other, hother, hid, htest⟩
    rw [← List.inj_on_of_nodup_map hunique hother hstep hid]
    exact htest
  have hnone : x.1.to_ ≠ .running → x.2 = [] := by
    intro hne
    have heffects := hm.effects
    rw [if_neg hne] at heffects
    exact map_eq_nil_iff.mp heffects
  have hof : ∀ e ∈ x.2, e.step = step.id := by
    intro e he
    have hin : e.step ∈ x.2.map Effect.step := mem_map_of_mem he
    rw [hm.effects] at hin
    split at hin
    · exact mem_singleton.mp hin
    · cases hin
  have hnew : (x.1.from_ = [.waiting] → x.1.to_ = .running → step.action.queuesTest = false) ∧
      ∀ e ∈ x.2, e.queuesTest = true → step.action.queuesTest = true := by
    unfold decideStep at h
    dsimp only at h
    split at h
    · rename_i hpending
      cases hs.symm.trans hpending
      refine ⟨fun hfrom => absurd (hm.from_.symm.trans hfrom) (by decide), ?_⟩
      split at h
      · cases h
        exact forall_mem_nil _
      · split at h
        · cases h
          exact fun e he htest => (begin_queuesTest _ _ e he) ▸ htest
        · cases h
    · refine ⟨fun _ hrun => (wait_running h hrun).1, fun e he htest => ?_⟩
      by_cases hrun : x.1.to_ = .running
      · rw [(wait_running h hrun).2 e he] at htest
        cases htest
      · rw [hnone hrun] at he
        cases he
    · cases h
  refine ⟨?_, ?_⟩
  · intro m hin hfrom hrun htest
    obtain hin | rfl := mem_snoc.mp hin
    · exact hp.claims m hin hfrom hrun htest
    · rw [hm.step] at htest
      have := honly htest
      rw [hnew.1 hfrom hrun] at this
      cases this
  · intro e he htest
    obtain he | he := mem_append.mp he
    · exact hp.effects e he htest
    · exact ⟨step, hstep, (hof e he).symm, hnew.2 e he htest⟩

/-- A change that is no claim: of a step that has not ended, not to running, and one that leaves a
    spent step spent. -/
structure Ordinary (w : Workflow) (change : Move) : Prop where
  safe : Safe w change
  opened : ∀ status ∈ change.from_, status.isFinal = false
  idle : change.to_ ≠ .running

/-- What is left of a plan: its claims take only steps that are not spent, and its tests are those
    of the steps that queue one. -/
structure Rest.Fresh (w : Workflow) (rest : Rest) : Prop where
  claims : ∀ claim ∈ rest.claims, Claims w claim ∧ claim.to_ = .running
  effects : ∀ effect ∈ rest.effects, effect.queuesTest = true → TestStep w effect.step

/-- What is to be applied claims only steps that are not spent, or is no claim; and how an effect
    went ends the step's run or puts it back to wait. -/
def Phase.Fresh : Phase → Prop
  | .idle | .between | .reading _ | .planning _ | .finishing .. => True
  | .recovering m change changes => ∀ c ∈ change :: changes, Ordinary m.run.definition c
  | .moving m change changes rest =>
    (∀ c ∈ change :: changes, Ordinary m.run.definition c) ∧ rest.Fresh m.run.definition
  | .claiming m claim effect rest =>
    (Claims m.run.definition claim ∧ claim.to_ = .running) ∧ claim.step = effect.step ∧
      (effect.queuesTest = true → TestStep m.run.definition effect.step) ∧
      rest.Fresh m.run.definition
  | .checking m rest => rest.Fresh m.run.definition
  | .carrying m effect rest =>
    (effect.queuesTest = true → TestStep m.run.definition effect.step) ∧
      rest.Fresh m.run.definition
  | .reporting m change rest =>
    (change.from_ = [.running] ∧ change.to_ ≠ .running) ∧ rest.Fresh m.run.definition

theorem planFrom_fresh (m : MoveOn) : (planFrom m).Fresh := by
  unfold planFrom
  split <;> trivial

theorem recoverFrom_fresh {m : MoveOn} {changes : List Move}
    (h : ∀ c ∈ changes, Ordinary m.run.definition c) : (recoverFrom m changes).Fresh := by
  cases changes with
  | nil => exact planFrom_fresh m
  | cons change changes => exact h

theorem actFrom_fresh {m : MoveOn} {claims : List Move} {finish : Option Finish}
    {delivered : Bool} {effects : List Effect}
    (h : Rest.Fresh m.run.definition ⟨claims, effects, finish, delivered⟩) :
    (actFrom m claims finish delivered effects).Fresh := by
  induction effects with
  | nil =>
    unfold actFrom
    split
    · trivial
    · split
      · exact planFrom_fresh m
      · trivial
  | cons effect effects ih =>
    have hrest : ∀ e ∈ effects, e.queuesTest = true → TestStep m.run.definition e.step :=
      fun e he => h.effects e (mem_cons_of_mem _ he)
    unfold actFrom
    split
    · rename_i claim hclaim
      have hstep : claim.step = effect.step := by simpa using List.find?_some hclaim
      refine ⟨h.claims claim (mem_of_find?_eq_some hclaim), hstep,
        h.effects effect (mem_cons_self ..), ?_, hrest⟩
      exact fun c hc => h.claims c (mem_filter.mp hc).1
    · exact ih ⟨h.claims, hrest⟩

theorem Rest.Fresh.next {m : MoveOn} {rest : Rest} (h : rest.Fresh m.run.definition) :
    (rest.next m).Fresh := actFrom_fresh h

theorem moveFrom_fresh {m : MoveOn} {rest : Rest} {changes : List Move}
    (h : ∀ c ∈ changes, Ordinary m.run.definition c) (hrest : rest.Fresh m.run.definition) :
    (moveFrom m rest changes).Fresh := by
  cases changes with
  | nil => exact hrest.next
  | cons change changes => exact ⟨h, hrest⟩

theorem Allowed.ordinary {w : Workflow} {change : Move} {s : StepStatus}
    (hfrom : change.from_ = [s]) (hallowed : Allowed s change.to_) (hne : change.to_ ≠ .running) :
    Ordinary w change := by
  refine ⟨fun status hin hspent => ?_, fun status hin => ?_, hne⟩ <;> rw [hfrom] at hin <;>
    obtain rfl := mem_singleton.mp hin
  · cases status with
    | pending => exact absurd rfl hspent.1
    | waiting =>
      simp only [Allowed, ways, mem_cons, not_mem_nil, or_false] at hallowed
      obtain h | h | h | h := hallowed
      · exact absurd h hne
      all_goals exact spent_final (by rw [h]; rfl)
    | _ => cases hallowed
  · cases status with
    | pending | running | waiting => rfl
    | _ => cases hallowed

theorem Planned.isClaim {w : Workflow} {status : String → Option StepStatus} {p : Planning}
    (hp : Planned w status p) {change : Move} (h : change ∈ p.moves) :
    isClaim p.effects change = true ↔ change.to_ = .running := by
  rw [Workflow.isClaim, Bool.and_eq_true, decide_eq_true_eq]
  refine ⟨And.left, fun hrun => ⟨hrun, ?_⟩⟩
  have hin : change.step ∈ p.effects.map Effect.step := by
    rw [hp.effects]
    exact mem_map_of_mem (mem_filter.mpr ⟨h, decide_eq_true hrun⟩)
  obtain ⟨effect, heffect, hstep⟩ := mem_map.mp hin
  exact List.any_eq_true.mpr ⟨effect, heffect, decide_eq_true hstep⟩

/-- **What a plan claims was not spent**, and its other moves leave a spent step spent. -/
theorem carryFrom_fresh {m : MoveOn} {rows : List WorkflowStepRow} {world : World} {plan : Plan}
    (hunique : (m.run.definition.steps.map (·.id)).Nodup)
    (h : advance m.run.definition m.run.inputs rows world = some plan) :
    (carryFrom m plan).Fresh := by
  have hstart : Planned m.run.definition (statusOf rows) (.ofRows rows) ∧
      Made m.run.definition (.ofRows rows) :=
    ⟨planned_ofRows _ rows, ⟨forall_mem_nil _, forall_mem_nil _⟩⟩
  obtain ⟨p, rfl, hplanned, hmade⟩ := advance_made
    (P := fun p => Planned m.run.definition (statusOf rows) p ∧ Made m.run.definition p)
    (fun p step x hp hstep hd => ⟨hp.1.add hunique hstep hd, hp.2.add hunique hstep hd⟩) h hstart
  refine moveFrom_fresh ?_ ⟨?_, hmade.effects⟩
  · intro change hin
    obtain ⟨hin, hnot⟩ := mem_filter.mp hin
    obtain ⟨s, hfrom, hallowed⟩ := hplanned.legal.mem hin
    refine hallowed.ordinary hfrom fun hrun => ?_
    have hclaim : isClaim p.effects change = true := (hplanned.isClaim hin).mpr hrun
    have hnot : (!isClaim p.effects change) = true := hnot
    rw [hclaim] at hnot
    cases hnot
  · intro change hin
    obtain ⟨hin, hclaim⟩ := mem_filter.mp (mem_reverse.mp hin)
    have hrun := (hplanned.isClaim hin).mp hclaim
    obtain ⟨s, hfrom, hallowed⟩ := hplanned.legal.mem hin
    refine ⟨fun status hstatus hspent => ?_, hrun⟩
    rw [hfrom] at hstatus
    obtain rfl := mem_singleton.mp hstatus
    cases status with
    | pending => exact hspent.1 rfl
    | waiting => exact hmade.claims change hin hfrom hrun (hspent.2 rfl)
    | _ => cases hallowed

/-! ## No deed twice -/

def Deed.claim (d : Deed) : String × String := (d.run, d.effect.step)

def System.Asked (s : System) (id step : String) : Prop := (id, step) ∈ s.deeds.map Deed.claim

/-- Every step whose effect was asked for is spent, and was asked for once; a step that is claimed
    has not been asked for yet, and neither has one that is put back. -/
structure Once (s : System) : Prop where
  coherent : Coherent s
  fresh : s.driver.phase.Fresh
  spent : ∀ id step, s.Asked id step → SpentIn s.store id step
  once : (s.deeds.map Deed.claim).Nodup
  carrying : ∀ m effect rest, s.driver.phase = .carrying m effect rest →
    SpentIn s.store m.run.id effect.step ∧ ¬ s.Asked m.run.id effect.step
  reporting : ∀ m change rest, s.driver.phase = .reporting m change rest →
    Safe m.run.definition change ∨ ¬ s.Asked m.run.id change.step

theorem once_start : Once .start where
  coherent := coherent_start
  fresh := trivial
  spent _ _ h := nomatch h
  once := nodup_nil
  carrying _ _ _ h := nomatch h
  reporting _ _ _ h := nomatch h

theorem Once.safe {s : System} (hs : Once s) {id : String} {change : Move} {r : WorkflowRun}
    (hmoves : s.driver.phase.change = some (id, change)) (hasked : s.Asked id change.step)
    (hr : s.store.run id = some r) : Safe r.row.definition change := by
  have hfresh := hs.fresh
  unfold Phase.change at hmoves
  split at hmoves
  · rename_i m c changes hphase
    obtain ⟨rfl, rfl⟩ := Prod.mk.inj (Option.some.inj hmoves)
    rw [hs.coherent.definition (congrArg Phase.on hphase) hr]
    rw [hphase] at hfresh
    exact (hfresh c (mem_cons_self ..)).safe
  · rename_i m c changes rest hphase
    obtain ⟨rfl, rfl⟩ := Prod.mk.inj (Option.some.inj hmoves)
    rw [hs.coherent.definition (congrArg Phase.on hphase) hr]
    rw [hphase] at hfresh
    exact (hfresh.1 c (mem_cons_self ..)).safe
  · rename_i m claim effect rest hphase
    cases hmoves
    rw [hs.coherent.definition (congrArg Phase.on hphase) hr]
    rw [hphase] at hfresh
    exact hfresh.1.1.safe
  · rename_i m c rest hphase
    obtain ⟨rfl, rfl⟩ := Prod.mk.inj (Option.some.inj hmoves)
    rw [hs.coherent.definition (congrArg Phase.on hphase) hr]
    exact (hs.reporting m c rest hphase).resolve_right fun hnot => hnot hasked
  · cases hmoves

theorem Once.spent_step {s s' : System} {a : Act} (hs : Once s) (h : s.step a = some s')
    {id step : String} (hasked : s.Asked id step) : SpentIn s'.store id step :=
  (hs.spent id step hasked).evolves (step_evolves h) fun _ _ hr hmoves hstep =>
    hs.safe hmoves.2 (hstep ▸ hasked) hr

theorem moveWorkflowStep_claim {store : Store} {id : String} {claim : Move} {now : Int}
    {r : WorkflowRun} (hr : store.run id = some r) (hkept : Kept r)
    (hclaim : Claims r.row.definition claim) (hrun : claim.to_ = .running)
    (h : (store.moveWorkflowStep id claim now).2 = true) :
    ¬ SpentIn store id claim.step ∧
      SpentIn (store.moveWorkflowStep id claim now).1 id claim.step := by
  obtain ⟨r', hr', hok⟩ := (any_eq_true _ _).mp h
  cases hr.symm.trans hr'
  have hok' : (decide (r.row.status = .running) && r.steps.any (fun s =>
    decide (s.stepId = claim.step) && claim.from_.contains s.status)) = true := hok
  obtain ⟨hrunning, hany⟩ := Bool.and_eq_true_iff.mp hok'
  obtain ⟨row, hrow, hmatch⟩ := List.any_eq_true.mp hany
  obtain ⟨hid, hfrom⟩ := Bool.and_eq_true_iff.mp hmatch
  have hid := of_decide_eq_true hid
  have hfrom : row.status ∈ claim.from_ := by simpa using hfrom
  have hstatus : statusOf r.steps claim.step = some row.status := by
    rw [← hid]
    exact statusOf_mem (hkept.ids ▸ hkept.unique) hrow
  constructor
  · rintro ⟨r', status, hr', hstatus', hspent⟩
    cases hr.symm.trans hr'
    cases hstatus.symm.trans hstatus'
    exact hclaim _ hfrom hspent
  · refine ⟨{ r with steps := moveSteps claim now r.steps }, .running, ?_, ?_, by nofun, nofun⟩
    · rw [Store.moveWorkflowStep, Store.run_updated ?_ hr, if_pos hok]
      exact fun _ => rfl
    · rw [statusOf_moveSteps, Move.apply, hstatus, if_pos (by simpa using hfrom),
        update_self, hrun]

theorem carryOut_cases (answers : Answers) (typedTo : List String) (effect : Effect) :
    ((carryOut answers typedTo effect).1 = .notYet ∧ asksFor answers typedTo effect = false) ∨
    (effect.queuesTest = true ∧ ∃ outputs, (carryOut answers typedTo effect).1 = .queued outputs) ∨
    ((carryOut answers typedTo effect).1.change effect.step).to_.isFinal = true := by
  cases effect with
  | start step harness prompt model effort skipMemory | notify step title body =>
    rw [carryOut]
    split <;> exact .inr (.inr rfl)
  | runTest step test inputs =>
    rw [carryOut]
    split
    · exact .inr (.inl ⟨rfl, _, rfl⟩)
    · exact .inr (.inr rfl)
  | paste step ptyId text =>
    rw [carryOut, asksFor, Answers.quiet]
    split
    · exact .inr (.inr rfl)
    rename_i info hinfo
    rw [hinfo, any_some]
    split
    · exact .inr (.inr rfl)
    split
    · rename_i hbusy
      obtain hbusy | hin := Bool.or_eq_true_iff.mp hbusy
      · exact .inl ⟨rfl, by rw [hbusy]; simp⟩
      · exact .inl ⟨rfl, by rw [hin]; simp⟩
    · rw [typeInto, Answers.held]
      split
      · rename_i hheld
        exact .inl ⟨rfl, by rw [hheld]; simp⟩
      · exact .inr (.inr rfl)
      · split <;> exact .inr (.inr rfl)

theorem change_step (o : Outcome) (step : String) : (o.change step).step = step := by
  cases o <;> rfl

theorem change_running (o : Outcome) (step : String) :
    (o.change step).from_ = [.running] ∧ (o.change step).to_ ≠ .running := by
  cases o <;> exact ⟨rfl, nofun⟩

theorem takesUp_fresh (s : System) (m : MoveOn) (todo : List WorkflowRunRow) :
    (s.takesUp m todo).driver.phase.Fresh := by
  rw [System.takesUp]
  split
  · exact planFrom_fresh m
  · trivial

theorem Once.rests {s s' : System} {a : Act} (hs : Once s) (h : s.step a = some s')
    (hdeeds : s'.deeds = s.deeds) (hfresh : s'.driver.phase.Fresh)
    (hacting : s'.driver.phase.acting = false) : Once s' where
  coherent := hs.coherent.step h
  fresh := hfresh
  spent id step hasked := hs.spent_step h (by rwa [System.Asked, hdeeds] at hasked)
  once := hdeeds ▸ hs.once
  carrying m effect rest hcarrying := by
    rw [hcarrying] at hacting
    cases hacting
  reporting m change rest hreporting := by
    rw [hreporting] at hacting
    cases hacting

theorem Once.beside {s s' : System} {a : Act} (hs : Once s) (h : s.step a = some s')
    (hdeeds : s'.deeds = s.deeds) (hdriver : s'.driver = s.driver) : Once s' where
  coherent := hs.coherent.step h
  fresh := hdriver ▸ hs.fresh
  spent id step hasked := hs.spent_step h (by rwa [System.Asked, hdeeds] at hasked)
  once := hdeeds ▸ hs.once
  carrying m effect rest hphase := by
    rw [hdriver] at hphase
    obtain ⟨hspent, hnot⟩ := hs.carrying m effect rest hphase
    refine ⟨hspent.evolves (step_evolves h) fun r change _ hmoves => ?_, ?_⟩
    · rw [System.moves, hphase] at hmoves
      cases hmoves.2
    · rwa [System.Asked, hdeeds]
  reporting m change rest hphase := by
    rw [hdriver] at hphase
    rw [System.Asked, hdeeds]
    exact hs.reporting m change rest hphase

theorem Once.claim {s s' : System} {m : MoveOn} {claim : Move} {effect : Effect} {rest : Rest}
    {a : Act} {now : Int} (hs : Once s) (h : s.step a = some s')
    (hc : Claimed s s' m claim effect rest now) : Once s' := by
  obtain ⟨hphase, hok, hs'⟩ := hc
  have hfresh := hs.fresh
  rw [hphase] at hfresh
  obtain ⟨⟨hclaim, hrun⟩, hstep, htest, hrest⟩ := hfresh
  obtain ⟨r, hr, hdef, -⟩ := hs.coherent.on m (congrArg Phase.on hphase)
  obtain ⟨hnot, hspent⟩ := moveWorkflowStep_claim hr (hs.coherent.kept _ r hr)
    (hdef.symm ▸ hclaim) hrun hok
  have hdeeds : s'.deeds = s.deeds := by
    rw [hs']
    rfl
  refine ⟨hs.coherent.step h, ?_, ?_, hdeeds ▸ hs.once, ?_, ?_⟩
  · rw [hs']
    exact ⟨htest, hrest⟩
  · intro id step hasked
    rw [System.Asked, hdeeds] at hasked
    exact hs.spent_step h hasked
  · intro m' effect' rest' hphase'
    rw [hs'] at hphase'
    cases hphase'
    rw [System.Asked, hdeeds, ← hstep]
    refine ⟨?_, fun hasked => hnot (hs.spent _ _ hasked)⟩
    rw [hs']
    exact hspent
  · intro m' change' rest' hphase'
    rw [hs'] at hphase'
    cases hphase'

theorem Once.carry {s s' : System} {m : MoveOn} {effect : Effect} {rest : Rest} {answers : Answers}
    {a : Act} (hs : Once s) (h : s.step a = some s') (hc : Carried s s' m effect rest answers) :
    Once s' := by
  obtain ⟨hphase, hs'⟩ := hc
  have hfresh := hs.fresh
  rw [hphase] at hfresh
  obtain ⟨htest, hrest⟩ := hfresh
  obtain ⟨hspent, hnot⟩ := hs.carrying m effect rest hphase
  have hstore : s'.store = s.store := by
    rw [hs']
    exact carry_store s m effect answers
  have hdeeds : s'.deeds =
      s.deeds ++ if asksFor answers m.typedTo effect then [⟨s.ticks, m.run.id, effect⟩] else [] := by
    rw [hs']
    exact carry_deeds s m effect answers
  have hphase' : s'.driver.phase =
      .reporting { m with typedTo := (carryOut answers m.typedTo effect).2 }
        ((carryOut answers m.typedTo effect).1.change effect.step) rest := by
    rw [hs']
    rfl
  have hasked : ∀ id step, s'.Asked id step →
      s.Asked id step ∨ (asksFor answers m.typedTo effect = true ∧ id = m.run.id ∧
        step = effect.step) := by
    intro id step hin
    rw [System.Asked, hdeeds, map_append, mem_append] at hin
    refine hin.imp_right fun hin => ?_
    split at hin
    · rename_i hasks
      exact ⟨hasks, Prod.mk.inj (mem_singleton.mp hin)⟩
    · cases hin
  refine ⟨hs.coherent.step h, ?_, ?_, ?_, ?_, ?_⟩
  · rw [hphase']
    exact ⟨change_running _ _, hrest⟩
  · intro id step hin
    obtain hin | ⟨-, rfl, rfl⟩ := hasked id step hin
    · exact hs.spent_step h hin
    · exact hstore ▸ hspent
  · rw [hdeeds, map_append, nodup_append]
    refine ⟨hs.once, ?_, ?_⟩
    · split <;> simp
    · intro x hx y hy hxy
      split at hy
      · rw [map_singleton, mem_singleton] at hy
        rw [hxy, hy] at hx
        exact hnot hx
      · cases hy
  · intro m' effect' rest' hcarrying
    rw [hphase'] at hcarrying
    cases hcarrying
  · intro m' change' rest' hreporting
    rw [hphase'] at hreporting
    cases hreporting
    rw [change_step]
    obtain ⟨-, hasks⟩ | ⟨hqueues, outputs, hout⟩ | hfinal :=
      carryOut_cases answers m.typedTo effect
    · refine .inr fun hin => ?_
      obtain hin | ⟨hasks', -⟩ := hasked _ _ hin
      · exact hnot hin
      · rw [hasks] at hasks'
        cases hasks'
    · rw [hout]
      exact .inl fun _ _ _ => ⟨by nofun, fun _ => htest hqueues⟩
    · exact .inl (safe_final hfinal)

theorem Once.fresh_turn {s s' : System} {t : Turn} (hs : Once s) (h : Took s t s') :
    s'.driver.phase.Fresh := by
  have hfresh := hs.fresh
  cases h with
  | tick | close | refused | lost | finished | failed | dropped => exact trivial
  | started | resumed => exact takesUp_fresh ..
  | read hphase =>
    refine recoverFrom_fresh fun change hin => ?_
    obtain ⟨row, -, rfl⟩ := mem_map.mp hin
    exact ⟨safe_final rfl, forall_mem_singleton.mpr rfl, nofun⟩
  | recovered now hphase =>
    rw [hphase] at hfresh
    exact recoverFrom_fresh fun c hc => hfresh c (mem_cons_of_mem _ hc)
  | planned world plan hphase hplan =>
    exact carryFrom_fresh (hs.coherent.unique_ids (congrArg Phase.on hphase)) hplan
  | moved now hphase =>
    rw [hphase] at hfresh
    exact moveFrom_fresh (fun c hc => hfresh.1 c (mem_cons_of_mem _ hc)) hfresh.2
  | claimed now hphase hok =>
    rw [hphase] at hfresh
    exact hfresh.2.2
  | missed now hphase hno =>
    rw [hphase] at hfresh
    exact hfresh.2.2.2
  | checked hphase =>
    rw [hphase] at hfresh
    show (if _ then _ else Phase.between).Fresh
    split
    · exact Rest.Fresh.next hfresh
    · trivial
  | carried answers hphase =>
    rw [hphase] at hfresh
    exact ⟨change_running _ _, hfresh.2⟩
  | reported now hphase =>
    rw [hphase] at hfresh
    exact Rest.Fresh.next ⟨hfresh.2.claims, hfresh.2.effects⟩

theorem Once.step {s s' : System} {a : Act} (hs : Once s) (h : s.step a = some s') : Once s' := by
  by_cases hturn : ∃ t, a = .driver t
  · obtain ⟨t, rfl⟩ := hturn
    obtain ⟨hacting, -, hdeeds⟩ | ⟨m, claim, effect, rest, now, hc⟩ |
      ⟨m, effect, rest, answers, -, hc⟩ := turn_acting (turn_took h)
    · exact hs.rests h hdeeds (hs.fresh_turn (turn_took h)) hacting
    · exact hs.claim h hc
    · exact hs.carry h hc
  · obtain ⟨hd | ⟨-, hd⟩, -, hdeeds, -⟩ := step_beside h fun t ht => hturn ⟨t, ht⟩
    · exact hs.beside h hdeeds hd
    · refine hs.rests h hdeeds ?_ ?_ <;> rw [hd]
      · trivial
      · rfl

def Phase.carries (id : String) : Phase → Bool
  | .carrying m .. => m.run.id = id
  | _ => false

def System.claimsOf (s : System) (id : String) : List (String × String) :=
  s.claims.filter (·.1 = id)

def System.deedsOf (s : System) (id : String) : List Deed := s.deeds.filter (·.run = id)

/-- How much of a run has been asked for, with the effect that is already claimed. -/
def System.done (s : System) (id : String) : Nat :=
  (s.deedsOf id).length + (s.driver.phase.carries id).toNat

theorem carries_acting {phase : Phase} (h : phase.acting = false) (id : String) :
    phase.carries id = false := by
  unfold Phase.carries
  split
  · cases h
  · rfl

/-- What has become of a run that had ended at `s`: nothing more of it was claimed, and at most the
    effect that was already claimed has been asked for. -/
structure Over (s : System) (id : String) (r : WorkflowRun) (s' : System) : Prop where
  run : s'.store.run id = some r
  claims : s'.claimsOf id = s.claimsOf id
  done : s'.done id ≤ s.done id

theorem Over.step {s₀ s s' : System} {id : String} {r : WorkflowRun} {a : Act}
    (hend : r.row.active = false) (hs : Over s₀ id r s) (h : s.step a = some s') :
    Over s₀ id r s' := by
  obtain ⟨r', hr', hc⟩ := (step_evolves h).old id r hs.run
  obtain rfl := hc.ended hend
  have hrests : s'.claims = s.claims → s'.deeds = s.deeds →
      s'.driver.phase.carries id = false ∨ s'.driver = s.driver → Over s₀ id r' s' := by
    intro hclaims hdeeds hcarries
    refine ⟨hr', ?_, le_trans ?_ hs.done⟩
    · rw [System.claimsOf, hclaims]
      exact hs.claims
    · rw [System.done, System.deedsOf, hdeeds]
      obtain hcarries | hdriver := hcarries
      · rw [hcarries]
        exact Nat.le_add_right _ _
      · rw [hdriver]
        exact Nat.le_refl _
  by_cases hturn : ∃ t, a = .driver t
  · obtain ⟨t, rfl⟩ := hturn
    obtain ⟨hacting, hclaims, hdeeds⟩ | ⟨m, claim, effect, rest, now, hphase, hok, hs'⟩ |
      ⟨m, effect, rest, answers, -, hphase, hs'⟩ := turn_acting (turn_took h)
    · exact hrests hclaims hdeeds (.inl (carries_acting hacting id))
    -- a claim that is applied is one of a run that runs
    · have hne : m.run.id ≠ id := by
        rintro rfl
        obtain ⟨r₁, hr₁, hok⟩ := (any_eq_true _ _).mp hok
        cases hs.run.symm.trans hr₁
        have hrunning := of_decide_eq_true (Bool.and_eq_true_iff.mp hok).1
        rw [WorkflowRunRow.active, hrunning] at hend
        cases hend
      refine ⟨hr', ?_, le_trans ?_ hs.done⟩
      · rw [← hs.claims, hs', System.claimsOf, System.claimsOf]
        show (s.claims ++ [(m.run.id, effect.step)]).filter _ = _
        rw [filter_append, filter_cons_of_neg (by simpa using hne), filter_nil,
          append_nil]
      · rw [hs']
        show (s.deedsOf id).length + (decide (m.run.id = id)).toNat ≤ _
        rw [decide_eq_false hne]
        exact Nat.le_add_right _ _
    · refine ⟨hr', ?_, le_trans ?_ hs.done⟩
      · rw [← hs.claims, hs']
        show ((s.carry m effect answers).claims).filter _ = _
        rw [System.carry]
        split <;> rfl
      · have hdeeds : s'.deedsOf id = s.deedsOf id ++ (if asksFor answers m.typedTo effect then
            [⟨s.ticks, m.run.id, effect⟩] else [] : List Deed).filter (·.run = id) := by
          rw [hs', System.deedsOf]
          show ((s.carry m effect answers).deeds).filter _ = _
          rw [carry_deeds, filter_append]
          rfl
        have hone : ((if asksFor answers m.typedTo effect then
            [⟨s.ticks, m.run.id, effect⟩] else [] : List Deed).filter (·.run = id)).length ≤
            (decide (m.run.id = id)).toNat := by
          split
          · rw [List.filter_singleton]
            show (bif decide (m.run.id = id) then _ else [] : List Deed).length ≤ _
            cases decide (m.run.id = id) <;> exact Nat.le_refl _
          · exact Nat.zero_le _
        have hnone : s'.driver.phase.carries id = false := by
          rw [hs']
          rfl
        have hphase' : s.driver.phase.carries id = decide (m.run.id = id) := by
          rw [hphase]
          rfl
        rw [System.done, System.done, hdeeds, hnone, hphase', length_append]
        show _ + 0 ≤ _
        omega
  · obtain ⟨hd | ⟨-, hd⟩, hclaims, hdeeds, -⟩ := step_beside h fun t ht => hturn ⟨t, ht⟩
    · exact hrests hclaims hdeeds (.inr hd)
    · exact hrests hclaims hdeeds (.inl (by rw [hd]; rfl))

/-- What holds of the effects of every run: each was asked for once at most, but a step that is put
    back asked for nothing; a cancel that returns true ends the run; and once a run has ended,
    whatever happens then, it stays as it is, no step of it is claimed, and no more is asked for
    than the one effect that was already claimed. -/
structure AtMostOnce (s : System) : Prop where
  once : (s.deeds.map Deed.claim).Nodup
  putBack : ∀ m effect rest answers s', s.driver.phase = .carrying m effect rest →
    s.step (.driver (.carry answers)) = some s' →
    (carryOut answers m.typedTo effect).1 = .notYet → s'.deeds = s.deeds
  cancelled : ∀ id reason now s', (s.store.cancelWorkflowRun id reason now).2 = true →
    s.step (.cancel id reason now) = some s' →
    ∃ r, s'.store.run id = some r ∧ r.row.active = false
  ended : ∀ id r, s.store.run id = some r → r.row.active = false →
    ∀ acts s', run System.step s acts = some s' →
      s'.store.run id = some r ∧ s'.claimsOf id = s.claimsOf id ∧
        (s'.deedsOf id).length ≤ (s.deedsOf id).length + (s.driver.phase.carries id).toNat

theorem cancelWorkflowRun_ends {store : Store} {id reason : String} {now : Int}
    (h : (store.cancelWorkflowRun id reason now).2 = true) :
    ∃ r, (store.cancelWorkflowRun id reason now).1.run id = some r ∧ r.row.active = false := by
  obtain ⟨r, hr, hok⟩ := (any_eq_true _ _).mp h
  refine ⟨⟨{ r.row with status := .cancelled, error := some reason, endedAt := some now },
    cancelSteps now r.steps⟩, ?_, rfl⟩
  rw [Store.cancelWorkflowRun, Store.run_updated ?_ hr, if_pos hok]
  exact fun _ => rfl

/-- **Every effect happens at most once.** Over every run of ticks, cancels and runs queued, with
    the app stopping and store calls failing at any point. -/
theorem effects_at_most_once (acts : List Act) (s : System)
    (h : run System.step .start acts = some s) : AtMostOnce s := by
  have honce : Once s := run_invariant (fun _ _ _ => Once.step) h once_start
  refine ⟨honce.once, ?_, ?_, ?_⟩
  · intro m effect rest answers s' hphase hstep hnot
    obtain ⟨-, hasks⟩ | ⟨-, outputs, hout⟩ | hfinal := carryOut_cases answers m.typedTo effect
    · cases turn_took hstep with
      | carried answers hphase' =>
        cases hphase.symm.trans hphase'
        show (s.carry m effect answers).deeds = s.deeds
        rw [carry_deeds, hasks]
        exact append_nil _
    · rw [hout] at hnot
      cases hnot
    · rw [hnot] at hfinal
      cases hfinal
  · intro id reason now s' hcancel hstep
    cases hstep
    exact cancelWorkflowRun_ends hcancel
  · intro id r hr hend acts' s' hrun
    have hover : Over s id r s' :=
      run_invariant (fun _ _ _ hs hstep => hs.step hend hstep) hrun ⟨hr, rfl, Nat.le_refl _⟩
    exact ⟨hover.run, hover.claims, le_trans (Nat.le_add_right _ _) hover.done⟩

def cancelledReview : List Act :=
  [queueReview, .driver .tick, .driver (.moveOn none 2), .driver .recover,
    .driver (.plan idleWorld), .driver (.apply 3), .cancel "run-1" "Cancelled." 4,
    .driver (.carry allWell), .driver (.apply 5), .driver (.plan idleWorld), .driver (.finish 6),
    .driver .close]

theorem cancelled_review_starts_once :
    ∃ s, run System.step .start cancelledReview = some s ∧ s.deeds.length = 1 ∧ AtMostOnce s := by
  have h : (run System.step .start cancelledReview).map (fun s => s.deeds.length) = some 1 := by
    decide +kernel
  obtain ⟨s, hs, hlen⟩ := map_eq_some_iff.mp h
  exact ⟨s, hs, hlen, effects_at_most_once cancelledReview s hs⟩

end Yardsort.Workflow
