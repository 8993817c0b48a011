import Yardsort.Smoke.RunnerRuns

/- Runs only go on. Whatever the thread, the people and the app do, a run comes nearer its end, and
   so does each of its steps; the file it was approved for stays the one it runs; and a run that is
   over never changes again (`runs_go_on`). -/
namespace Yardsort.Smoke
open Yardsort.Lib

def RunStatus.rank : RunStatus → Nat
  | .awaitingApproval => 0
  | .queued => 1
  | .running => 2
  | .passed | .failed | .refused | .cancelled | .errored => 3

def RunStatus.mayBecome (a b : RunStatus) : Bool := a.active && a.rank ≤ b.rank

/-- What may become of a step: an end stays. -/
def StepStatus.mayBecome (a b : StepStatus) : Bool :=
  a = .pending || a = b || (!a.isFinal && b.isFinal)

theorem StepStatus.mayBecome_trans {a b c : StepStatus} (hab : a.mayBecome b = true)
    (hbc : b.mayBecome c = true) : a.mayBecome c = true := by
  revert hab hbc
  cases a <;> cases b <;> cases c <;> decide

theorem StepStatus.mayBecome_final {a b : StepStatus} (ha : a.isFinal = false)
    (hb : b.isFinal = true) : a.mayBecome b = true := by
  simp [mayBecome, ha, hb]

def Action.serves : Action → Bool
  | .start .. => true
  | _ => false

def Served (parse : String → Option Test) (definition id : String) : Prop :=
  ∃ test, parse definition = some test ∧
    ∃ p ∈ test.allSteps, p.2.id = id ∧ p.2.action.serves = true

/-- An end stays, but for that of a server (`serves`), which passed when it was up and fails when it
    is seen to be gone. -/
structure TestStepRow.Onward (serves : String → Prop) (row row' : TestStepRow) : Prop where
  id : row'.stepId = row.stepId
  phase : row'.phase = row.phase
  status : row.status.mayBecome row'.status = true ∨
    (serves row.stepId ∧ row.status = .passed ∧ row'.status = .failed)

theorem TestStepRow.Onward.refl {serves : String → Prop} (row : TestStepRow) :
    row.Onward serves row :=
  ⟨rfl, rfl, .inl (by simp [StepStatus.mayBecome])⟩

theorem TestStepRow.Onward.trans {serves : String → Prop} {a b c : TestStepRow}
    (hab : a.Onward serves b) (hbc : b.Onward serves c) : a.Onward serves c := by
  refine ⟨hbc.id.trans hab.id, hbc.phase.trans hab.phase, ?_⟩
  -- by which of the two steps, if one is, is a server seen to be gone
  obtain hab' | ⟨hserves, ha, hb⟩ := hab.status
  · obtain hbc' | ⟨hserves, hb, hc⟩ := hbc.status
    · exact .inl (StepStatus.mayBecome_trans hab' hbc')
    -- it fails only once it has passed, so it came to pass first
    · rw [hb] at hab'
      rw [hab.id] at hserves
      rw [hc]
      have hpassed : ∀ status : StepStatus, status.mayBecome .passed = true →
          status.mayBecome .failed = true ∨ status = .passed := by
        rintro (_ | _) <;> decide
      exact (hpassed _ hab').imp_right fun ha => ⟨hserves, ha, rfl⟩
  · refine .inr ⟨hserves, ha, ?_⟩
    obtain hbc' | ⟨-, hb', -⟩ := hbc.status
    · rw [hb] at hbc'
      cases hc : c.status with
      | failed => rfl
      | _ =>
        rw [hc] at hbc'
        cases hbc'
    · rw [hb] at hb'
      cases hb'

/-- What a run was asked for: the file, as it was approved, and the inputs. -/
def TestRunRow.file (row : TestRunRow) : String × String × Pairs :=
  (row.definition, row.contentHash, row.inputs)

namespace TestRun

section
variable (parse : String → Option Test)

structure Onward (run run' : TestRun) : Prop where
  ended : run.row.status.active = false → run' = run
  status : run.row.status.rank ≤ run'.row.status.rank
  file : run'.row.file = run.row.file
  steps : ∃ f : TestStepRow → TestStepRow,
    run'.steps = run.steps.map f ∧
      ∀ row : TestStepRow, row.Onward (Served parse run.row.definition) (f row)

end

variable {parse : String → Option Test}

theorem Onward.refl (run : TestRun) : run.Onward parse run :=
  ⟨fun _ => rfl, Nat.le_refl _, rfl, id, (List.map_id _).symm, .refl⟩

theorem Onward.definition {run run' : TestRun} (h : run.Onward parse run') :
    run'.row.definition = run.row.definition := congrArg Prod.fst h.file

theorem Onward.trans {a b c : TestRun} (hab : a.Onward parse b) (hbc : b.Onward parse c) :
    a.Onward parse c := by
  obtain ⟨f, hf, hmoves⟩ := hab.steps
  obtain ⟨g, hg, hmoves'⟩ := hbc.steps
  refine ⟨fun hover => ?_, hab.status.trans hbc.status, hbc.file.trans hab.file, g ∘ f, ?_, ?_⟩
  · have hb := hab.ended hover
    rw [hbc.ended (hb ▸ hover), hb]
  · rw [hg, hf, map_map]
  · rw [hab.definition] at hmoves'
    exact fun row => (hmoves row).trans (hmoves' (f row))

variable {run : TestRun}

theorem onward_of (row : TestRunRow) {when_ : TestStepRow → Bool} {f : TestStepRow → TestStepRow}
    (hstatus : run.row.status.mayBecome row.status = true) (hfile : row.file = run.row.file)
    (hf : ∀ step, when_ step = true → step.Onward (Served parse run.row.definition) (f step)) :
    run.Onward parse { run.mapSteps when_ f with row } := by
  obtain ⟨hactive, hrank⟩ := Bool.and_eq_true_iff.mp hstatus
  refine ⟨fun hover => ?_, of_decide_eq_true hrank, hfile, _, rfl, fun step => ?_⟩
  · rw [hactive] at hover
    cases hover
  · split
    · exact hf step ‹_›
    · exact .refl step

theorem row_onward (row : TestRunRow) (hstatus : run.row.status.mayBecome row.status = true)
    (hfile : row.file = run.row.file) : run.Onward parse { run with row } := by
  have hsame : run.mapSteps (fun _ => false) id = run := Runner.mapSteps_none (by simp)
  have h : run.Onward parse { run.mapSteps (fun _ => false) id with row } :=
    onward_of row hstatus hfile fun _ hno => absurd hno Bool.false_ne_true
  rwa [hsame] at h

theorem moveStep_onward {from_ : List StepStatus} {change : StepChange}
    (h : from_.all (·.mayBecome change.to_) = true) (stepId : String) (now : Int) :
    run.Onward parse (run.moveStep stepId from_ change now).2 := by
  unfold moveStep
  split
  · rename_i hboth
    refine onward_of run.row (by rw [hboth.1]; rfl) rfl fun step hstep => ?_
    obtain ⟨-, hfrom⟩ := Runner.movable_iff.mp hstep
    exact ⟨rfl, rfl, .inl (all_eq_true.mp h _ hfrom)⟩
  · exact .refl _

theorem noted_onward {stepId : String} (h : Served parse run.row.definition stepId)
    (note : Option String) (now : Int) :
    run.Onward parse (run.moveStep stepId [.passed] (Runner.noted .failed note) now).2 := by
  unfold moveStep
  split
  · rename_i hboth
    refine onward_of run.row (by rw [hboth.1]; rfl) rfl fun step hstep => ?_
    obtain ⟨hid, hfrom⟩ := Runner.movable_iff.mp hstep
    exact ⟨rfl, rfl, .inr ⟨hid ▸ h, mem_singleton.mp hfrom, rfl⟩⟩
  · exact .refl _

theorem finish_onward {status : RunStatus} (h : RunStatus.running.mayBecome status = true)
    (error : Option String) (now : Int) : run.Onward parse (run.finish status error now).2 := by
  unfold finish
  split
  · rename_i hrunning
    exact row_onward _ (by rw [hrunning]; exact h) rfl
  · exact .refl _

theorem start_onward (port : Nat) (outputDir : String) (now : Int) :
    run.Onward parse (run.start port outputDir now).2 := by
  unfold start
  split
  · rename_i hqueued
    exact row_onward _ (by rw [hqueued]; rfl) rfl
  · exact .refl _

theorem approve_onward : run.Onward parse run.approve.2 := by
  unfold approve
  split
  · rename_i hwaits
    exact row_onward _ (by rw [hwaits]; rfl) rfl
  · exact .refl _

theorem refuse_onward (now : Int) : run.Onward parse (run.refuse now).2 := by
  unfold refuse
  split
  · rename_i hwaits
    refine onward_of _ (by rw [hwaits]; rfl) rfl fun step hstep => ⟨rfl, rfl, .inl ?_⟩
    rw [of_decide_eq_true hstep]
    rfl
  · exact .refl _

theorem cancel_onward (reason : String) (now : Int) : run.Onward parse (run.cancel reason now).2 := by
  unfold cancel
  split
  · rename_i hwaits
    have hstatus : run.row.status.mayBecome .cancelled = true := by
      obtain h | h := hwaits <;> rw [h] <;> rfl
    refine onward_of _ hstatus rfl fun step hstep => ⟨rfl, rfl, .inl ?_⟩
    exact StepStatus.mayBecome_final (by simpa using hstep) rfl
  · split
    · rename_i hrunning
      exact row_onward _ (by rw [hrunning.1]; rfl) rfl
    · exact .refl _

theorem endInterrupted_onward (error : String) (now : Int) :
    run.Onward parse (run.endInterrupted error now) := by
  unfold endInterrupted
  split
  · rename_i hrunning
    have hstatus : ∀ status, RunStatus.running.mayBecome status = true →
        run.row.status.mayBecome status = true := fun _ h => by rwa [hrunning]
    refine Onward.trans (onward_of run.row (hstatus _ (by rw [hrunning]; rfl)) rfl ?_)
      (onward_of _ (hstatus .errored rfl) rfl ?_)
    · intro step hstep
      refine ⟨rfl, rfl, .inl (StepStatus.mayBecome_final ?_ rfl)⟩
      obtain h | h := Bool.or_eq_true_iff.mp hstep <;> rw [of_decide_eq_true h] <;> rfl
    · exact fun step hstep => ⟨rfl, rfl, .inl (by rw [of_decide_eq_true hstep]; rfl)⟩
  · exact .refl _

end TestRun

/-! ## The servers of a thread -/

namespace Runner

def Stop.server : Stop → Option String
  | .serverExited stepId _ | .serverOutputCapped stepId => some stepId
  | .cancelled | .runTimedOut => none

section
variable (parse : String → Option Test) (definition : String)

structure Going.Serves (g : Going) : Prop where
  test : parse definition = some g.test
  servers : ∀ server ∈ g.servers, Served parse definition server.stepId

/-- What the thread takes for a server is one of the file. -/
def Pc.Serves : Pc → Prop
  | .preparing test | .starting test .. => parse definition = some test
  | .looping g | .skippingStep g .. | .beginning g _ | .waiting g _ | .waitPolling g _
  | .executing g _ => g.Serves parse definition
  | .noting g _ stop _ | .waitStopping g _ stop =>
    g.Serves parse definition ∧ ∀ id ∈ stop.server, Served parse definition id
  | .ending g _ done => g.Serves parse definition ∧
      ∀ stop ∈ done.stopped, ∀ id ∈ stop.server, Served parse definition id
  | .skipReading k | .skipping k _ => ∀ g, k.after = .phases g → g.Serves parse definition
  | _ => True

end

variable {parse : String → Option Test} {definition : String} {g : Going}

theorem Going.Serves.saw (h : g.Serves parse definition) (stepId words : String) :
    (g.saw stepId words).Serves parse definition := by
  refine ⟨h.test, fun server hserver => ?_⟩
  obtain ⟨old, hold, rfl⟩ := mem_map.mp hserver
  split <;> exact h.servers old hold

theorem Going.Serves.serving (h : g.Serves parse definition) {stepId : String}
    (hserving : g.serving stepId = true) : Served parse definition stepId := by
  obtain ⟨server, hserver, hboth⟩ := List.any_eq_true.mp hserving
  have hid := of_decide_eq_true (Bool.and_eq_true_iff.mp hboth).1
  exact hid ▸ h.servers server hserver

theorem Going.Serves.police (h : g.Serves parse definition) (seen : Option (String × Seen)) :
    (g.policeServers seen).2.Serves parse definition ∧
      ∀ stop ∈ (g.policeServers seen).1, ∀ id ∈ stop.server, Served parse definition id := by
  unfold Going.policeServers
  split
  · exact ⟨h, nofun⟩
  all_goals
    split
    · rename_i hserving
      refine ⟨h.saw .., ?_⟩
      rintro stop ⟨⟩ id ⟨⟩
      exact h.serving hserving
    · exact ⟨h, nofun⟩

theorem Going.Serves.stop (h : g.Serves parse definition) (run : TestRun) (look : Look) :
    (g.stop run look).2.Serves parse definition ∧
      ∀ stop ∈ (g.stop run look).1, ∀ id ∈ stop.server, Served parse definition id := by
  have hpolice := h.police look.server
  unfold Going.stop
  split
  · exact ⟨hpolice.1, nofun⟩
  split
  · exact ⟨h, by rintro stop ⟨⟩ id ⟨⟩⟩
  split
  · exact ⟨⟨h.test, h.servers⟩, by rintro stop ⟨⟩ id ⟨⟩⟩
  split
  · exact ⟨h, by rintro stop ⟨⟩ id ⟨⟩⟩
  · exact hpolice

theorem Going.Serves.sawStop (h : g.Serves parse definition) (stop : Stop) :
    (g.sawStop stop).Serves parse definition := by
  cases stop with
  | cancelled => exact ⟨h.test, h.servers⟩
  | runTimedOut => exact h
  | serverExited stepId exit | serverOutputCapped stepId => exact h.saw ..

theorem Going.Serves.afterPhase (h : g.Serves parse definition) :
    (afterPhase g).Serves parse definition := by
  have hphases : (afterPhases g).Serves parse definition := by
    unfold afterPhases
    dsimp only
    split
    · exact ⟨h.test, h.servers⟩
    · rintro g' ⟨⟩
      exact ⟨h.test, h.servers⟩
    · rintro g' ⟨⟩
      exact ⟨h.test, h.servers⟩
  unfold Runner.afterPhase
  split
  · split
    · exact ⟨h.test, h.servers⟩
    · exact hphases
  · exact hphases
  · trivial

theorem afterSkip_serves {k : Skip} (h : ∀ g, k.after = .phases g → g.Serves parse definition)
    (ok : Bool) : (afterSkip k ok).Serves parse definition := by
  unfold afterSkip
  split
  · trivial
  · rename_i g hafter
    split
    · exact ⟨(h g hafter).test, (h g hafter).servers⟩
    · trivial
  · trivial

end Runner

namespace Runner.Machine
open TestRun

variable {parse : String → Option Test} {s s' : Machine}

theorem mark_serves {stepId : String} {from_ : List StepStatus} {change : StepChange} {now : Int}
    {ok missed : Pc} {definition : String} (hok : ok.Serves parse definition)
    (hmissed : missed.Serves parse definition) :
    ∀ pc ∈ (s.mark stepId from_ change now ok missed).thread, pc.Serves parse definition := by
  unfold mark
  rintro pc ⟨⟩
  split
  · exact hok
  · exact hmissed

theorem goStep_serves {definition : String} {g : Going} (h : g.Serves parse definition)
    (step : Step) (look : Look) :
    ∀ pc ∈ (s.goStep g step look).thread, pc.Serves parse definition := by
  have hstop := h.stop s.run look
  unfold goStep
  split
  · exact mark_serves ⟨h.test, h.servers⟩ trivial
  split
  · rename_i stop g' heq
    rw [heq] at hstop
    rintro pc ⟨⟩
    exact ⟨hstop.1, hstop.2 stop rfl⟩
  · rename_i g' heq
    rw [heq] at hstop
    rintro pc ⟨⟩
    exact hstop.1

theorem goExecuting_serves {definition : String} {g : Going} {step : Step}
    (h : g.Serves parse definition) (hahead : (step :: g.rest) <:+ g.test.phase g.which)
    {look : Look} (hs : s.goExecuting g step look = some s') :
    ∀ pc ∈ s'.thread, pc.Serves parse definition := by
  unfold goExecuting at hs
  split at hs
  · cases hs
  rename_i done _
  split at hs
  · rename_i hpossible
    cases hs
    have hsaw : (done.stopped.elim g g.sawStop).Serves parse definition := by
      cases done.stopped with
      | none => exact h
      | some stop => exact h.sawStop stop
    rintro pc ⟨⟩
    constructor
    · split
      · rename_i haction _
        refine ⟨hsaw.test, fun server hserver => ?_⟩
        -- the step under way is a `start` step of the file
        obtain hold | rfl := mem_snoc.mp hserver
        · exact hsaw.servers server hold
        · have hstep := mem_allSteps (hahead.subset (mem_cons_self ..))
          exact ⟨g.test, h.test, _, hstep, rfl, by rw [haction]; rfl⟩
      · exact hsaw
    -- a step is stopped only by a server that serves
    · intro stop hstop id hid
      unfold StepEnd.possible at hpossible
      rw [hstop] at hpossible
      cases stop with
      | cancelled | runTimedOut => cases hid
      | serverExited stepId exit | serverOutputCapped stepId =>
        cases hid
        exact h.serving (Bool.and_eq_true_iff.mp hpossible).2
  · cases hs

theorem goPc_serves (h : s.Sound parse) {look : Look} {pc : Pc} (hthread : s.thread = some pc)
    (hserves : pc.Serves parse s.run.row.definition) (hs : s.goPc parse look pc = some s') :
    ∀ pc' ∈ s'.thread, pc'.Serves parse s.run.row.definition := by
  have hfits := (h.thread pc hthread).fits
  cases pc <;> dsimp only [goPc] at hs
  case reading =>
    split at hs <;> cases hs <;> rintro _ ⟨⟩
    · trivial
    · rename_i test hparse
      exact hparse
  case preparing => split at hs <;> cases hs <;> rintro _ ⟨⟩ <;> trivial
  case erroring => split at hs <;> cases hs <;> rintro _ ⟨⟩ g ⟨⟩
  case starting => split at hs <;> cases hs <;> rintro _ ⟨⟩; exact ⟨hserves, nofun⟩
  case looping g =>
    split at hs <;> cases hs
    · rintro _ ⟨⟩
      exact hserves.afterPhase
    · rename_i step rest _
      have hrest : ({ g with rest } : Going).Serves parse s.run.row.definition :=
        ⟨hserves.test, hserves.servers⟩
      exact goStep_serves hrest step look
  case noting g step stop how =>
    have hgoes : (afterNoting g step stop how).Serves parse s.run.row.definition := by
      cases how <;> exact ⟨hserves.1.test, hserves.1.servers⟩
    split at hs <;> cases hs <;> rintro _ ⟨⟩ <;> exact hgoes
  case skippingStep => cases hs; exact mark_serves ⟨hserves.test, hserves.servers⟩ trivial
  case beginning =>
    cases hs
    unfold begin_
    dsimp only
    split <;> rintro _ ⟨⟩
    · split <;> exact hserves
    · trivial
  case waiting =>
    cases hs
    unfold goWaiting
    split <;> rintro _ ⟨⟩ <;> first | exact hserves | exact ⟨hserves.test, hserves.servers⟩ | trivial
  case waitPolling g step =>
    have hstop := hserves.stop s.run look
    split at hs <;> cases hs <;> rintro _ ⟨⟩
    · rename_i stop _ heq
      rw [heq] at hstop
      exact ⟨hstop.1, hstop.2 stop rfl⟩
    · rename_i heq
      rw [heq] at hstop
      exact hstop.1
  case waitStopping => cases hs; exact mark_serves hserves trivial
  case executing => exact goExecuting_serves hserves hfits.ahead hs
  case ending g step done =>
    cases hs
    refine mark_serves ?_ trivial
    split
    · rename_i stop hstop
      exact ⟨hserves.1, hserves.2 stop hstop⟩
    · exact ⟨hserves.1.test, hserves.1.servers⟩
  case skipReading => cases hs; rintro _ ⟨⟩; exact hserves
  case skipping k left =>
    cases left <;> cases hs
    · rintro _ ⟨⟩
      exact afterSkip_serves hserves true
    · exact mark_serves hserves (afterSkip_serves hserves false)
  case guardMarking why left =>
    cases left <;> cases hs
    · rintro _ ⟨⟩ g ⟨⟩
    · exact mark_serves trivial trivial
  case guard => split at hs <;> cases hs <;> rintro _ ⟨⟩; trivial
  case verdict | finishing | guardReading => cases hs; rintro _ ⟨⟩; trivial
  case erroredEnd | guardEnd => cases hs; rintro _ ⟨⟩

theorem onFail_serves {message : Option String} {pc : Pc} {definition : String}
    (hs : s.onFail message pc = some s') : ∀ pc' ∈ s'.thread, pc'.Serves parse definition := by
  cases pc <;> dsimp only [onFail] at hs
  case skipReading | skipping => split at hs <;> cases hs <;> rintro _ ⟨⟩; trivial
  case guard | guardReading | guardMarking | guardEnd => cases hs
  all_goals
    cases hs
    rintro _ ⟨⟩
    try trivial

theorem step_serves (h : s.Sound parse)
    (hserves : ∀ pc ∈ s.thread, pc.Serves parse s.run.row.definition) {a : Act}
    (hs : s.step parse a = some s') : ∀ pc ∈ s'.thread, pc.Serves parse s.run.row.definition := by
  cases a with
  | approve | refuse now | cancel reason now | answer stepId outputs passed note now =>
    cases hs
    exact hserves
  | crash =>
    cases hs
    rintro _ ⟨⟩
  | recover now | list =>
    dsimp only [Machine.step] at hs
    split at hs <;> cases hs
    exact hserves
  | spawn =>
    dsimp only [Machine.step] at hs
    split at hs <;> cases hs
    rintro _ ⟨⟩
    trivial
  | launched outputs now =>
    dsimp only [Machine.step] at hs
    split at hs
    · split at hs <;> cases hs
      exact hserves
    · cases hs
  | go look =>
    obtain ⟨pc, hpc, hs⟩ := bind_eq_some_iff.mp hs
    exact goPc_serves h hpc (hserves pc hpc) hs
  | fail message =>
    obtain ⟨pc, -, hs⟩ := bind_eq_some_iff.mp hs
    exact onFail_serves hs

theorem goPc_onward (h : s.Sound parse) {look : Look} {pc : Pc} (hthread : s.thread = some pc)
    (hserves : pc.Serves parse s.run.row.definition) (hs : s.goPc parse look pc = some s') :
    s.run.Onward parse s'.run := by
  have hfits := (h.thread pc hthread).fits
  cases pc <;> dsimp only [goPc] at hs
  -- the run is left as it is
  case reading | preparing | waitPolling | guard =>
    split at hs <;> cases hs <;> exact .refl _
  case skipReading | verdict | guardReading => cases hs; exact .refl _
  case waiting =>
    cases hs
    unfold goWaiting
    split <;> exact .refl _
  case executing =>
    unfold goExecuting at hs
    split at hs
    · cases hs
    · split at hs <;> cases hs
      exact .refl _
  -- the run starts or ends
  case erroring | starting => split at hs <;> cases hs <;> exact start_onward ..
  case finishing =>
    cases hs
    obtain hstatus | hstatus | hstatus := hfits.1 <;> rw [hstatus] <;> exact finish_onward rfl ..
  case erroredEnd | guardEnd => cases hs; exact finish_onward rfl ..
  -- a step moves on
  case looping =>
    split at hs <;> cases hs
    · exact .refl _
    · unfold goStep
      split
      · exact moveStep_onward rfl ..
      · split <;> exact .refl _
  case noting g step stop how =>
    split at hs <;> cases hs
    · exact .refl _
    · rename_i stepId note hnote
      -- the one move back: the server whose end was seen
      refine noted_onward (hserves.2 stepId ?_) ..
      cases stop <;> cases hnote <;> rfl
  case skippingStep => cases hs; exact moveStep_onward rfl ..
  case beginning =>
    cases hs
    unfold begin_
    dsimp only
    split <;> exact moveStep_onward rfl ..
  case waitStopping _ _ stop => cases hs; cases stop <;> exact moveStep_onward rfl ..
  case ending _ _ done =>
    cases hs
    have hmoves := StepStatus.mayBecome_final (a := .running) rfl hfits.2.1
    exact moveStep_onward (by simpa [changeOf] using hmoves) ..
  case skipping k left =>
    cases left <;> cases hs
    · exact .refl _
    · exact moveStep_onward rfl ..
  case guardMarking why left =>
    cases left <;> cases hs
    · exact .refl _
    · exact moveStep_onward rfl ..

theorem onFail_onward {message : Option String} {pc : Pc} (hs : s.onFail message pc = some s') :
    s.run.Onward parse s'.run := by
  cases pc <;> dsimp only [onFail] at hs
  case skipReading | skipping => split at hs <;> cases hs <;> exact .refl _
  case guard | guardReading | guardMarking | guardEnd => cases hs
  all_goals cases hs; exact .refl _

theorem step_onward (h : s.Sound parse)
    (hserves : ∀ pc ∈ s.thread, pc.Serves parse s.run.row.definition) {a : Act}
    (hs : s.step parse a = some s') : s.run.Onward parse s'.run := by
  cases a with
  | approve => cases hs; exact approve_onward
  | refuse now => cases hs; exact refuse_onward now
  | cancel reason now => cases hs; exact cancel_onward reason now
  | answer stepId outputs passed note now =>
    cases hs
    cases passed <;> exact moveStep_onward rfl ..
  | crash => cases hs; exact .refl _
  | recover now =>
    dsimp only [Machine.step] at hs
    split at hs <;> cases hs
    exact endInterrupted_onward ..
  | list | spawn =>
    dsimp only [Machine.step] at hs
    split at hs <;> cases hs
    exact .refl _
  | launched outputs now =>
    dsimp only [Machine.step] at hs
    split at hs
    · split at hs <;> cases hs
      exact moveStep_onward rfl ..
    · cases hs
  | go look =>
    obtain ⟨pc, hpc, hs⟩ := bind_eq_some_iff.mp hs
    exact goPc_onward h hpc (hserves pc hpc) hs
  | fail message =>
    obtain ⟨pc, -, hs⟩ := bind_eq_some_iff.mp hs
    exact onFail_onward hs

/-- **Runs only go on.** From any state that a queued run comes to, whatever is done next in
    whatever order: the run and its steps move towards their ends, where only a server of its file
    that passed may still fail; it keeps its file; and once it is over nothing of it changes. -/
theorem runs_go_on {s₀ : Machine} (h : s₀.Fresh parse) {as bs : List Act}
    (hr : Lib.run (step parse) s₀ as = some s) (hbs : Lib.run (step parse) s bs = some s') :
    s.run.Onward parse s'.run := by
  let Inv (s₁ : Machine) : Prop := (s₁.Sound parse ∧ s₁.Up) ∧
    ∀ pc ∈ s₁.thread, pc.Serves parse s₁.run.row.definition
  have hstep : ∀ (s₁ : Machine) a s₂, Inv s₁ → s₁.step parse a = some s₂ →
      Inv s₂ ∧ s₁.run.Onward parse s₂.run := by
    intro s₁ a s₂ hi hs
    have honward := step_onward hi.1.1 hi.2 hs
    refine ⟨⟨⟨hi.1.1.step hi.1.2 hs, up_step hi.1.2 hs⟩, ?_⟩, honward⟩
    rw [honward.definition]
    exact step_serves hi.1.1 hi.2 hs
  have hfirst : Inv s₀ := by
    refine ⟨h.sound, ?_⟩
    rw [h.idle.2]
    rintro _ ⟨⟩
  exact run_related (R := fun s₁ s₂ => s₁.run.Onward parse s₂.run) (fun s₁ => .refl s₁.run)
    Onward.trans hstep hbs (run_invariant (fun _ _ _ hi hs => (hstep _ _ _ hi hs).1) hr hfirst)

end Runner.Machine

namespace Runner

theorem runs_go_on_greet :
    ∃ s s', Lib.run (Machine.step readGreet) greetQueued greetWaits = some s ∧
      Lib.run (Machine.step readGreet) greetQueued greetRefused = some s' ∧
        s.run.Onward readGreet s'.run := by
  have hsome : (Lib.run (Machine.step readGreet) greetQueued greetRefused).isSome = true := by
    decide +kernel
  obtain ⟨s', hs'⟩ := Option.isSome_iff_exists.mp hsome
  have hsplit := hs'
  rw [greetRefused, append_assoc, append_assoc] at hsplit
  obtain ⟨s, hs, hrest⟩ := run_append.mp hsplit
  exact ⟨s, s', hs, hs', Machine.runs_go_on greet_fresh hs hrest⟩

end Runner

end Yardsort.Smoke
