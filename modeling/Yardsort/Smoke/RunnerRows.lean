import Mathlib.Data.List.Nodup
import Mathlib.Data.List.TakeWhile
import Yardsort.Lib.Run
import Yardsort.Smoke.Runner

/- What a run's steps are, by where its thread is, and that the thread keeps them so.

   The steps ahead of the thread are pending, the ones behind it have ended, and all that setup
   and steps have behind them passed as long as nothing failed or stopped (`Pc.RowOk`). What
   each operation of the thread keeps is `goPc_sound`. -/
namespace Yardsort.Smoke.Runner
open Yardsort.Lib

def rank : Phase → Nat
  | .setup => 0
  | .steps => 1
  | .teardown => 2

def Ran (row : TestStepRow) : Prop :=
  row.startedAt.isSome = true ∧ (row.status = .passed ∨ row.status = .failed)

/-- What a step behind the thread is; `clean` says that nothing failed or stopped. -/
structure Behind (clean : Prop) (row : TestStepRow) : Prop where
  final : row.status.isFinal = true
  passed : clean → row.phase ≠ .teardown → row.status = .passed
  ran : row.phase = .teardown → Ran row

namespace Going

def Ahead (g : Going) (row : TestStepRow) : Prop :=
  rank g.which < rank row.phase ∨ (row.phase = g.which ∧ row.stepId ∈ g.rest.map (·.id))

def Clean (g : Going) : Prop := g.end_ = .passed ∧ g.outcome = .passed

/-- What a step is at the top of the loop. -/
def Row (g : Going) (clean : Prop) (row : TestStepRow) : Prop :=
  (g.Ahead row → row.status = .pending) ∧ (¬ g.Ahead row → Behind clean row)

def Around (g : Going) (step : Step) (clean : Prop) (here : TestStepRow → Prop)
    (row : TestStepRow) : Prop :=
  (row.stepId = step.id → here row) ∧ (row.stepId ≠ step.id → g.Row clean row)

end Going

def Waits (row : TestStepRow) : Prop :=
  row.startedAt.isSome = true ∧
    (row.status = .waiting ∨ row.status = .passed ∨ row.status = .failed)

def Runs (row : TestStepRow) : Prop := row.startedAt.isSome = true ∧ row.status = .running

def Idle (row : TestStepRow) : Prop := row.status = .pending ∨ row.status.isFinal = true

structure Skip.Row (k : Skip) (left : List String) (row : TestStepRow) : Prop where
  idle : Idle row
  pending : row.status = .pending → row.stepId ∈ left ∨ (k.teardown = false ∧ row.phase = .teardown)
  listed : row.stepId ∈ left → row.status = .pending
  teardown : k.teardown = false → row.phase = .teardown →
    row.status = .pending ∧ row.stepId ∉ left

/-- What each step is, by where the thread is. -/
def Pc.RowOk : Pc → TestStepRow → Prop
  | .reading, _ | .preparing _, _ | .erroring _, _ | .starting .., _ => True
  | .looping g, row => g.Row g.Clean row
  | .noting g step _ .between, row | .skippingStep g step _, row =>
    g.Around step False (·.status = .pending) row
  | .noting g step _ .answered, row | .noting g step _ .ended, row =>
    g.Around step False (·.status.isFinal = true) row
  | .beginning g step, row => g.Around step g.Clean (·.status = .pending) row
  | .waiting g step, row | .waitPolling g step, row | .waitStopping g step _, row =>
    g.Around step g.Clean Waits row
  | .executing g step, row | .ending g step _, row => g.Around step g.Clean Runs row
  | .skipReading k, row => Idle row ∧
      (k.teardown = false → row.phase = .teardown → row.status = .pending)
  | .skipping k left, row => k.Row left row
  | .verdict g, row => Behind (g.outcome = .passed) row
  | .finishing status _, row => Behind (status = .passed) row
  | .erroredEnd _, row | .guardEnd _, row => row.status.isFinal = true
  | .guard _, _ | .guardReading _, _ => True
  | .guardMarking _ left, row =>
    row.status = .running ∨ row.status = .waiting → row.stepId ∈ left

def Shape (test : Test) (run : TestRun) : Prop :=
  run.steps.map (fun row => (row.phase, row.stepId)) =
    test.allSteps.map fun (phase, step) => (phase, step.id)

def SomeFailed (run : TestRun) : Prop := ∃ row ∈ run.steps, row.status = .failed

/-- What the thread holds, as it agrees with the rows; `ahead` are the steps from here on. -/
structure Going.Fits (g : Going) (ahead : List Step) (run : TestRun) : Prop where
  shape : Shape g.test run
  ahead : ahead <:+ g.test.phase g.which
  outcome : g.which ≠ .teardown → g.outcome = .passed
  teardown : g.which = .teardown → g.end_ = .passed
  failed : g.end_ = .failed ∨ g.outcome = .failed → SomeFailed run

def Skip.Fits (k : Skip) (run : TestRun) : Prop :=
  k.to_.isFinal = true ∧
    match k.after with
    | .errored _ | .guard _ => k.teardown = true
    | .phases g => k.teardown = false ∧ Shape g.test run ∧ g.outcome ≠ .passed ∧
        (g.outcome = .failed → SomeFailed run)

/-- What the thread holds, by where it is. -/
def Pc.Fits (run : TestRun) : Pc → Prop
  | .reading | .erroring _ => True
  | .preparing test | .starting test .. => Shape test run
  | .looping g => g.Fits g.rest run
  | .noting g step _ _ | .skippingStep g step _ | .waitStopping g step _ =>
    g.Fits (step :: g.rest) run ∧ g.which ≠ .teardown
  | .beginning g step => g.Fits (step :: g.rest) run ∧ (g.which ≠ .teardown → g.end_ = .passed)
  | .waiting g step | .waitPolling g step | .executing g step => g.Fits (step :: g.rest) run
  | .ending g step done => g.Fits (step :: g.rest) run ∧ done.status.isFinal = true ∧
      (done.stopped = none → done.status = .passed ∨ done.status = .failed) ∧
      (done.stopped.isSome = true → g.which ≠ .teardown)
  | .skipReading k => k.Fits run
  | .skipping k left => k.Fits run ∧ left.Nodup ∧
      ∀ id ∈ left, ∃ row ∈ run.steps, row.stepId = id
  | .verdict g => g.outcome = .failed → SomeFailed run
  | .finishing status error =>
    (status = .passed ∨ status = .failed ∨ status = .cancelled) ∧
      (status = .failed → error.isSome = true ∨ SomeFailed run)
  | .erroredEnd _ | .guard _ | .guardReading _ | .guardMarking .. | .guardEnd _ => True

def Pc.going : Pc → Bool
  | .reading | .preparing _ | .erroring _ | .starting .. | .guard _ => false
  | _ => true

/-- Rows and thread agree. -/
structure Pc.Holds (run : TestRun) (pc : Pc) : Prop where
  running : pc.going = true → run.row.status = .running
  rows : ∀ row ∈ run.steps, pc.RowOk row
  fits : pc.Fits run

structure Machine.Over (s : Machine) : Prop where
  final : ∀ row ∈ s.run.steps, row.status.isFinal = true
  passed : s.run.row.status = .passed →
    ∀ row ∈ s.run.steps, row.phase ≠ .teardown → row.status = .passed
  failed : s.run.row.status = .failed → s.run.row.error.isSome = true ∨ SomeFailed s.run
  teardown : s.begun = true → s.run.row.status ≠ .errored →
    ∀ row ∈ s.run.steps, row.phase = .teardown → Ran row

section
variable (parse : String → Option Test)

structure Machine.Sound (s : Machine) : Prop where
  ids : (s.run.steps.map (·.stepId)).Nodup
  shape : ∃ test, parse s.run.row.definition = some test ∧ Shape test s.run
  queued : s.run.row.status = .awaitingApproval ∨ s.run.row.status = .queued →
    (∀ row ∈ s.run.steps, row.status = .pending) ∧ s.begun = false
  atEnd : s.run.row.status.active = false → s.Over
  thread : ∀ pc ∈ s.thread, pc.Holds s.run
  opened : ∀ o ∈ s.opened, o.phase ≠ .teardown → ∀ status ∈ o.before, status = .passed

end

variable {run : TestRun}

theorem mapSteps_none {when_ : TestStepRow → Bool} {f : TestStepRow → TestStepRow}
    (h : run.steps.any when_ = false) : run.mapSteps when_ f = run := by
  have hmap : run.steps.map (fun row => if when_ row then f row else row) = run.steps := by
    rw [map_congr_left (g := id), map_id]
    intro row hrow
    rw [if_neg (any_eq_false.mp h row hrow), id]
  rw [TestRun.mapSteps, hmap]

theorem moveStep_running (h : run.row.status = .running) (stepId : String) (from_ : List StepStatus)
    (change : StepChange) (now : Int) :
    run.moveStep stepId from_ change now =
      (run.steps.any (TestRun.movable stepId from_),
        run.mapSteps (TestRun.movable stepId from_) (·.moved change now)) := by
  rw [TestRun.moveStep]
  cases hany : run.steps.any (TestRun.movable stepId from_) with
  | false => rw [if_neg (by simp), mapSteps_none hany]
  | true => rw [if_pos ⟨h, rfl⟩]

theorem moveStep_not_running (h : run.row.status ≠ .running) (stepId : String)
    (from_ : List StepStatus) (change : StepChange) (now : Int) :
    run.moveStep stepId from_ change now = (false, run) := by
  rw [TestRun.moveStep, if_neg fun hboth => h hboth.1]

theorem rows_mapSteps {when_ : TestStepRow → Bool} {f : TestStepRow → TestStepRow}
    {P : TestStepRow → Prop} (h : ∀ row ∈ run.steps, P (if when_ row then f row else row)) :
    ∀ row ∈ (run.mapSteps when_ f).steps, P row := by
  intro row hrow
  obtain ⟨old, hold, rfl⟩ := mem_map.mp hrow
  exact h old hold

def Keeps (f : TestStepRow → TestStepRow) : Prop :=
  ∀ row, (f row).stepId = row.stepId ∧ (f row).phase = row.phase

theorem moved_keeps (change : StepChange) (now : Int) : Keeps (·.moved change now) :=
  fun _ => ⟨rfl, rfl⟩

variable {g : Going}

section
variable {run : TestRun} {when_ : TestStepRow → Bool} {f : TestStepRow → TestStepRow}

theorem mapSteps_ids (hf : Keeps f) :
    (run.mapSteps when_ f).steps.map (·.stepId) = run.steps.map (·.stepId) := by
  rw [TestRun.mapSteps, map_map]
  refine map_congr_left fun row _ => ?_
  simp only [Function.comp]
  split
  · exact (hf row).1
  · rfl

theorem mapSteps_shape {test : Test} (hf : Keeps f) (h : Shape test run) :
    Shape test (run.mapSteps when_ f) := by
  rw [Shape, ← h, TestRun.mapSteps, map_map]
  refine map_congr_left fun row _ => ?_
  simp only [Function.comp]
  split
  · rw [(hf row).1, (hf row).2]
  · rfl

theorem mapSteps_failed (hwhen : ∀ row, when_ row = true → row.status ≠ .failed)
    (h : SomeFailed run) : SomeFailed (run.mapSteps when_ f) := by
  obtain ⟨row, hrow, hfailed⟩ := h
  refine ⟨row, mem_map.mpr ⟨row, hrow, ?_⟩, hfailed⟩
  rw [if_neg fun hmoves => hwhen row hmoves hfailed]

theorem mapSteps_fits {ahead : List Step} (hf : Keeps f)
    (hwhen : ∀ row, when_ row = true → row.status ≠ .failed) (h : g.Fits ahead run) :
    g.Fits ahead (run.mapSteps when_ f) :=
  { h with
    shape := mapSteps_shape hf h.shape
    failed := fun hfailed => mapSteps_failed hwhen (h.failed hfailed) }

end

variable {from_ : List StepStatus} {row : TestStepRow}

theorem movable_iff {stepId : String} :
    TestRun.movable stepId from_ row = true ↔ row.stepId = stepId ∧ row.status ∈ from_ := by
  rw [TestRun.movable, Bool.and_eq_true, decide_eq_true_eq, decide_eq_true_eq]

variable {step : Step}

theorem mem_allSteps {test : Test} {phase : Phase} (h : step ∈ test.phase phase) :
    (phase, step) ∈ test.allSteps := by
  have hmem := mem_map_of_mem h (f := (phase, ·))
  cases phase with
  | setup => exact mem_append_left _ (mem_append_left _ hmem)
  | steps => exact mem_append_left _ (mem_append_right _ hmem)
  | teardown => exact mem_append_right _ hmem

theorem phase_sublist (test : Test) (phase : Phase) :
    (test.phase phase).Sublist (test.allSteps.map (·.2)) := by
  rw [Test.allSteps, map_append, map_append]
  simp only [map_map, comp_def, List.map_id']
  cases phase with
  | setup => exact (sublist_append_left ..).trans (sublist_append_left ..)
  | steps => exact (List.sublist_append_right ..).trans (sublist_append_left ..)
  | teardown => exact List.sublist_append_right ..

theorem Shape.ids {test : Test} (h : Shape test run) :
    run.steps.map (·.stepId) = test.allSteps.map (·.2.id) := by
  have hsnd := congrArg (List.map Prod.snd) h
  simpa only [map_map, comp_def] using hsnd

/-- The step a thread is at: its row is one of the phase, and it is not ahead any more. -/
theorem Going.Fits.head {rest : List Step} (h : g.Fits (step :: rest) run)
    (hids : (run.steps.map (·.stepId)).Nodup) :
    (∃ row ∈ run.steps, row.stepId = step.id) ∧
    (∀ row ∈ run.steps, row.stepId = step.id → row.phase = g.which) ∧
      step.id ∉ rest.map (·.id) := by
  have hall := mem_allSteps (h.ahead.subset (mem_cons_self ..))
  have hpair : (g.which, step.id) ∈ run.steps.map fun row => (row.phase, row.stepId) := by
    rw [h.shape]
    exact mem_map_of_mem hall (f := fun entry => (entry.1, entry.2.id))
  obtain ⟨here, hmem, heq⟩ := mem_map.mp hpair
  obtain ⟨hphase, hid⟩ := Prod.mk.inj heq
  refine ⟨⟨here, hmem, hid⟩, ?_, ?_⟩
  · intro row hrow hsame
    obtain rfl := List.inj_on_of_nodup_map hids hrow hmem (hsame.trans hid.symm)
    exact hphase
  · have hnodup : ((step :: rest).map (·.id)).Nodup := by
      rw [h.shape.ids] at hids
      refine hids.sublist ?_
      have hsub := (h.ahead.sublist.trans (phase_sublist g.test g.which)).map (·.id)
      simpa only [map_map, comp_def] using hsub
    exact (nodup_cons.mp hnodup).1

variable {clean : Prop}

theorem Behind.weaken {clean' : Prop} (h : Behind clean row) (hclean : clean' → clean) :
    Behind clean' row :=
  { h with passed := fun hc => h.passed (hclean hc) }

theorem behind_of_final (hphase : row.phase ≠ .teardown) (hfinal : row.status.isFinal = true)
    (hpassed : clean → row.status = .passed) :
    Behind clean row :=
  ⟨hfinal, fun hc _ => hpassed hc, fun hteardown => absurd hteardown hphase⟩

theorem Ran.final (h : Ran row) : row.status.isFinal = true := by
  obtain hstatus | hstatus := h.2 <;> rw [hstatus] <;> rfl

namespace Going

theorem Row.weaken {clean' : Prop} (h : g.Row clean row) (hclean : clean' → clean) :
    g.Row clean' row :=
  ⟨h.1, fun hbehind => (h.2 hbehind).weaken hclean⟩

theorem Around.weaken {clean' : Prop} {here here' : TestStepRow → Prop}
    (h : g.Around step clean here row) (hclean : clean' → clean) (hhere : here row → here' row) :
    g.Around step clean' here' row :=
  ⟨fun hid => hhere (h.1 hid), fun hid => (h.2 hid).weaken hclean⟩

theorem Row.around {rest : List Step} (hrest : g.rest = step :: rest)
    (hphase : row.stepId = step.id → row.phase = g.which) (h : g.Row clean row) :
    ({ g with rest } : Going).Around step clean (·.status = .pending) row := by
  refine ⟨fun hid => h.1 (.inr ⟨hphase hid, ?_⟩), fun hid => ⟨fun hahead => h.1 ?_, fun hbehind =>
    h.2 fun hahead => hbehind ?_⟩⟩
  · rw [hrest, hid]
    exact mem_cons_self ..
  · obtain hlater | ⟨hp, hmem⟩ := hahead
    · exact .inl hlater
    · refine .inr ⟨hp, ?_⟩
      rw [hrest]
      exact mem_cons_of_mem _ hmem
  · obtain hlater | ⟨hp, hmem⟩ := hahead
    · exact .inl hlater
    · rw [hrest] at hmem
      obtain heq | hmem := mem_cons.mp hmem
      · exact absurd heq hid
      · exact .inr ⟨hp, hmem⟩

theorem Around.past {clean' : Prop} {here : TestStepRow → Prop} (h : g.Around step clean here row)
    (hphase : row.stepId = step.id → row.phase = g.which) (hrest : step.id ∉ g.rest.map (·.id))
    (hclean : clean' → clean) (hhere : row.stepId = step.id → Behind clean' row) :
    g.Row clean' row := by
  by_cases hid : row.stepId = step.id
  · refine ⟨fun hahead => ?_, fun _ => hhere hid⟩
    obtain hlater | ⟨-, hmem⟩ := hahead
    · rw [hphase hid] at hlater
      exact absurd hlater (Nat.lt_irrefl _)
    · exact absurd (hid ▸ hmem) hrest
  · exact (h.2 hid).weaken hclean

end Going

namespace Machine

variable {parse : String → Option Test} {s s' : Machine}

theorem Sound.at_ (h : s.Sound parse) {pc : Pc} (hpc : pc.Holds s.run) : (s.at_ pc).Sound parse :=
  { h with
    atEnd := fun hover => { h.atEnd hover with }
    thread := fun _ hother => Option.some.inj hother ▸ hpc }

theorem Sound.ends (h : s.Sound parse) : s.ends.Sound parse :=
  { h with
    atEnd := fun hover => { h.atEnd hover with }
    thread := fun _ hpc => (not_mem_none _ hpc).elim }

theorem Sound.moves (h : s.Sound parse) {when_ : TestStepRow → Bool} {f : TestStepRow → TestStepRow}
    (hrun : s.run.row.status = .running) (hf : Keeps f) (heq : run = s.run.mapSteps when_ f)
    {thread : Option Pc} (hthread : ∀ pc ∈ thread, pc.Holds run) :
    Sound parse { s with run, thread } := by
  subst heq
  have hrow : (s.run.mapSteps when_ f).row = s.run.row := rfl
  refine
    { ids := ?_, shape := ?_, queued := ?_, atEnd := ?_, thread := hthread, opened := h.opened }
  · show ((s.run.mapSteps when_ f).steps.map (·.stepId)).Nodup
    rw [mapSteps_ids hf]
    exact h.ids
  · obtain ⟨test, hparse, hshape⟩ := h.shape
    exact ⟨test, hparse, mapSteps_shape hf hshape⟩
  · intro hwaits
    rw [hrow, hrun] at hwaits
    obtain hwaits | hwaits := hwaits <;> cases hwaits
  · intro hover
    rw [hrow, hrun] at hover
    cases hover

theorem Sound.mark (h : s.Sound parse) (hrun : s.run.row.status = .running) {stepId : String}
    {change : StepChange} {now : Int} {ok missed : Pc}
    (hok : ok.Holds (s.run.mapSteps (TestRun.movable stepId from_) (·.moved change now)))
    (hmissed : s.run.steps.any (TestRun.movable stepId from_) = false → missed.Holds s.run) :
    (s.mark stepId from_ change now ok missed).Sound parse := by
  rw [Machine.mark, moveStep_running hrun]
  refine h.moves hrun (moved_keeps change now) rfl ?_
  intro pc hpc
  cases hpc
  cases hany : s.run.steps.any (TestRun.movable stepId from_) with
  | true => exact hok
  | false =>
    rw [mapSteps_none hany]
    exact hmissed hany

theorem guard_holds (run : TestRun) (why : String) : (Pc.guard why).Holds run :=
  ⟨nofun, fun _ _ => trivial, trivial⟩

end Machine

theorem Shape.mem {test : Test} (h : Shape test run) (hrow : row ∈ run.steps) :
    row.stepId ∈ (test.phase row.phase).map (·.id) := by
  have hpair : (row.phase, row.stepId) ∈ run.steps.map fun row => (row.phase, row.stepId) :=
    mem_map_of_mem hrow (f := fun row => (row.phase, row.stepId))
  rw [h] at hpair
  obtain ⟨⟨phase, step⟩, hmem, heq⟩ := mem_map.mp hpair
  obtain ⟨hphase, hid⟩ := Prod.mk.inj heq
  rw [← hphase, ← hid]
  refine mem_map_of_mem ?_
  rw [Test.allSteps] at hmem
  obtain hmem | hmem := mem_append.mp hmem
  · obtain hmem | hmem := mem_append.mp hmem
    · obtain ⟨_, hstep, heq⟩ := mem_map.mp hmem
      cases heq
      exact hstep
    · obtain ⟨_, hstep, heq⟩ := mem_map.mp hmem
      cases heq
      exact hstep
  · obtain ⟨_, hstep, heq⟩ := mem_map.mp hmem
    cases heq
    exact hstep

theorem rank_inj {p q : Phase} (h : rank p = rank q) : p = q := by
  cases p <;> cases q <;> first | rfl | cases h

theorem rank_le_teardown (phase : Phase) : rank phase ≤ rank .teardown := by
  cases phase <;> decide

theorem Going.row_enter {which : Phase} (hshape : Shape g.test run) (hrow : row ∈ run.steps)
    (hahead : rank which ≤ rank row.phase → row.status = .pending)
    (hbehind : rank row.phase < rank which → Behind clean row) : (g.enter which).Row clean row := by
  constructor
  · rintro (hlater | ⟨hphase, -⟩)
    · exact hahead (Nat.le_of_lt hlater)
    · exact hahead (Nat.le_of_eq (congrArg rank hphase.symm))
  · intro hnot
    refine hbehind (Nat.lt_of_not_le fun hle => hnot ?_)
    obtain hlt | heq := Nat.lt_or_eq_of_le hle
    · exact .inl hlt
    · obtain rfl := rank_inj heq
      exact .inr ⟨rfl, hshape.mem hrow⟩

theorem Going.fits_enter {which : Phase} (hshape : Shape g.test run)
    (houtcome : which ≠ .teardown → g.outcome = .passed)
    (hfailed : g.outcome = .failed → SomeFailed run) :
    (g.enter which).Fits (g.enter which).rest run where
  shape := hshape
  ahead := suffix_refl _
  outcome := houtcome
  teardown _ := rfl
  failed h := h.elim nofun hfailed

theorem Going.Row.nil (h : g.Row clean row) (hrest : g.rest = []) :
    (rank g.which < rank row.phase → row.status = .pending) ∧
      (rank row.phase ≤ rank g.which → Behind clean row) := by
  refine ⟨fun hlater => h.1 (.inl hlater), fun hle => h.2 ?_⟩
  rintro (hlater | ⟨-, hmem⟩)
  · exact Nat.not_lt.mpr hle hlater
  · rw [hrest] at hmem
    exact not_mem_nil hmem

theorem afterPhases_holds (h : (Pc.looping g).Holds run) (hrest : g.rest = [])
    (hwhich : g.which = .steps ∨ (g.which = .setup ∧ g.end_ ≠ .passed)) :
    (afterPhases g).Holds run := by
  have hnot : g.which ≠ .teardown := by
    obtain hw | ⟨hw, -⟩ := hwhich <;> rw [hw] <;> nofun
  have hteardown : rank g.which < rank .teardown :=
    Nat.lt_of_le_of_ne (rank_le_teardown _) fun heq => hnot (rank_inj heq)
  have hidle : ∀ row ∈ run.steps, Idle row ∧ (row.phase = .teardown → row.status = .pending) := by
    intro row hrow
    obtain ⟨hahead, hbehind⟩ := (h.rows row hrow).nil hrest
    refine ⟨?_, fun hphase => hahead (hphase ▸ hteardown)⟩
    obtain hlt | hle := Nat.lt_or_ge (rank g.which) (rank row.phase)
    · exact .inl (hahead hlt)
    · exact .inr (hbehind hle).final
  have hrunning := h.running rfl
  cases hend : g.end_ with
  | passed =>
    have hsteps : g.which = .steps := hwhich.resolve_right fun hsetup => hsetup.2 hend
    rw [afterPhases]
    simp only [hend]
    refine ⟨fun _ => hrunning, fun row hrow => ?_, ?_⟩
    · obtain ⟨hahead, hbehind⟩ := (h.rows row hrow).nil hrest
      refine Going.row_enter h.fits.shape hrow (fun hle => hahead ?_) fun hlt => ?_
      · exact Nat.lt_of_lt_of_le hteardown hle
      · refine (hbehind (Nat.le_of_lt_succ ?_)).weaken fun _ => ⟨hend, h.fits.outcome hnot⟩
        rw [hsteps]
        exact hlt
    · exact Going.fits_enter h.fits.shape (fun hne => absurd rfl hne) nofun
  | failed =>
    rw [afterPhases]
    simp only [hend]
    refine ⟨fun _ => hrunning, fun row hrow => ?_, rfl, rfl, h.fits.shape, nofun, fun _ => ?_⟩
    · exact ⟨(hidle row hrow).1, fun _ => (hidle row hrow).2⟩
    · exact h.fits.failed (.inl hend)
  | stopped stop =>
    rw [afterPhases]
    simp only [hend]
    refine ⟨fun _ => hrunning, fun row hrow => ?_, ?_, rfl, h.fits.shape, nofun, nofun⟩
    · exact ⟨(hidle row hrow).1, fun _ => (hidle row hrow).2⟩
    · cases stop <;> rfl

theorem afterPhase_holds (h : (Pc.looping g).Holds run) (hrest : g.rest = []) :
    (afterPhase g).Holds run := by
  have hrunning := h.running rfl
  cases hwhich : g.which with
  | setup =>
    rw [afterPhase]
    simp only [hwhich]
    split
    · rename_i hend
      have hoc := h.fits.outcome (hwhich ▸ nofun)
      refine ⟨fun _ => hrunning, fun row hrow => ?_, ?_⟩
      · obtain ⟨hahead, hbehind⟩ := (h.rows row hrow).nil hrest
        rw [hwhich] at hahead hbehind
        refine Going.row_enter h.fits.shape hrow (fun hle => hahead hle) fun hlt => ?_
        exact (hbehind (Nat.le_of_lt_succ hlt)).weaken fun _ => ⟨hend, hoc⟩
      · refine Going.fits_enter h.fits.shape (fun _ => hoc) fun hfailed => ?_
        rw [hoc] at hfailed
        cases hfailed
    · rename_i hend
      exact afterPhases_holds h hrest (.inr ⟨hwhich, hend⟩)
  | steps =>
    rw [afterPhase]
    simp only [hwhich]
    exact afterPhases_holds h hrest (.inl hwhich)
  | teardown =>
    rw [afterPhase]
    simp only [hwhich]
    refine ⟨fun _ => hrunning, fun row hrow => ?_, fun hfailed => h.fits.failed (.inr hfailed)⟩
    obtain ⟨-, hbehind⟩ := (h.rows row hrow).nil hrest
    rw [hwhich] at hbehind
    exact (hbehind (rank_le_teardown _)).weaken fun hoc => ⟨h.fits.teardown hwhich, hoc⟩

/-! ## One step of the thread -/

theorem if_movable_ne {id : String} {change : StepChange} {now : Int} (hid : row.stepId ≠ id) :
    (if TestRun.movable id from_ row then row.moved change now else row) = row :=
  if_neg fun h => hid (movable_iff.mp h).1

theorem if_movable {id : String} {change : StepChange} {now : Int} (hid : row.stepId = id)
    (hfrom : row.status ∈ from_) :
    (if TestRun.movable id from_ row then row.moved change now else row) = row.moved change now :=
  if_pos (movable_iff.mpr ⟨hid, hfrom⟩)

theorem Going.Around.stays {clean' : Prop} {here here' : TestStepRow → Prop} {change : StepChange}
    {now : Int} (h : g.Around step clean here row) (hclean : clean' → clean)
    (hhere : row.stepId = step.id → here row →
        here' (if TestRun.movable step.id from_ row then row.moved change now else row)) :
    g.Around step clean' here'
      (if TestRun.movable step.id from_ row then row.moved change now else row) := by
  by_cases hid : row.stepId = step.id
  · refine ⟨fun _ => hhere hid (h.1 hid), fun hne => absurd ?_ hne⟩
    split <;> exact hid
  · rw [if_movable_ne hid]
    exact ⟨fun heq => absurd heq hid, fun _ => (h.2 hid).weaken hclean⟩

theorem Going.Around.leaves {clean' : Prop} {here : TestStepRow → Prop} {change : StepChange}
    {now : Int} (h : g.Around step clean here row)
    (hphase : row.stepId = step.id → row.phase = g.which) (hrest : step.id ∉ g.rest.map (·.id))
    (hclean : clean' → clean) (hfrom : here row → row.status ∈ from_)
    (hhere : row.stepId = step.id → here row → Behind clean' (row.moved change now)) :
    g.Row clean' (if TestRun.movable step.id from_ row then row.moved change now else row) := by
  by_cases hid : row.stepId = step.id
  · rw [if_movable hid (hfrom (h.1 hid))]
    have hmoves : g.Around step clean (fun _ => True) (row.moved change now) :=
      ⟨fun _ => trivial, fun hne => absurd hid hne⟩
    exact hmoves.past hphase hrest hclean fun _ => hhere hid (h.1 hid)
  · rw [if_movable_ne hid]
    exact h.past hphase hrest hclean fun heq => absurd heq hid

theorem Going.Fits.past {end_ : PhaseEnd} (h : g.Fits (step :: g.rest) run)
    (hend : g.which = .teardown → end_ = .passed) (hfailed : end_ = .failed → SomeFailed run) :
    (g.past step end_).Fits (g.past step end_).rest run where
  shape := h.shape
  ahead := (List.suffix_cons step g.rest).trans h.ahead
  outcome := h.outcome
  teardown := hend
  failed hany := hany.elim hfailed fun hoc => h.failed (.inr hoc)

theorem Going.Fits.same {ahead : List Step} (h : g.Fits ahead run) (servers : List Server)
    (cancelled : Bool) :
    ({ g with servers, cancelled } : Going).Fits ahead run :=
  ⟨h.shape, h.ahead, h.outcome, h.teardown, h.failed⟩

theorem Going.stop_same (g : Going) (run : TestRun) (look : Look) :
    ∃ servers cancelled, (g.stop run look).2 = { g with servers, cancelled } := by
  have hpolice : ∀ seen, ∃ servers, (g.policeServers seen).2 = { g with servers } := by
    intro seen
    rw [policeServers.eq_def]
    split
    · exact ⟨g.servers, rfl⟩
    · split
      · exact ⟨_, rfl⟩
      · exact ⟨g.servers, rfl⟩
    · split
      · exact ⟨_, rfl⟩
      · exact ⟨g.servers, rfl⟩
  obtain ⟨servers, hservers⟩ := hpolice look.server
  rw [Going.stop]
  split
  · exact ⟨servers, g.cancelled, hservers⟩
  split
  · exact ⟨g.servers, g.cancelled, rfl⟩
  · split
    · exact ⟨g.servers, true, rfl⟩
    · split
      · exact ⟨g.servers, g.cancelled, rfl⟩
      · exact ⟨servers, g.cancelled, hservers⟩

theorem Going.stop_teardown (g : Going) (run : TestRun) (look : Look)
    (h : (g.stop run look).1.isSome = true) : g.which ≠ .teardown := by
  intro hwhich
  rw [Going.stop, if_pos hwhich] at h
  cases h

namespace Machine

variable {parse : String → Option Test} {s s' : Machine}

theorem goStep_sound (h : s.Sound parse) (hrunning : s.run.row.status = .running)
    (hfits : g.Fits (step :: g.rest) s.run)
    (hrows : ∀ row ∈ s.run.steps, g.Around step g.Clean (·.status = .pending) row) (look : Look) :
    (s.goStep g step look).Sound parse := by
  obtain ⟨-, hphase, hnot⟩ := hfits.head h.ids
  rw [Machine.goStep]
  split
  · rename_i hskip
    refine h.mark hrunning ⟨fun _ => hrunning, ?_, ?_⟩ fun _ => guard_holds ..
    · refine rows_mapSteps fun row hrow => ?_
      refine (hrows row hrow).leaves (hphase row hrow) hnot (fun hc => absurd hc.1 hskip.1)
        (fun hpending => hpending ▸ mem_cons_self ..) fun hid _ => ?_
      refine behind_of_final ?_ ?_ fun hc => absurd hc.1 hskip.1
      · show row.phase ≠ .teardown
        rw [hphase row hrow hid]
        exact hskip.2
      · show g.end_.skips.isFinal = true
        cases g.end_ with
        | stopped stop => cases stop <;> rfl
        | _ => rfl
    · refine mapSteps_fits (moved_keeps _ _) ?_ (hfits.past hfits.teardown fun hfailed =>
        hfits.failed (.inl hfailed))
      intro row hmoves
      rw [mem_singleton.mp (movable_iff.mp hmoves).2]
      nofun
  · rename_i hgoes
    obtain ⟨servers, cancelled, hsame⟩ := g.stop_same s.run look
    have hnone := g.stop_teardown s.run look
    split
    · rename_i stop g₂ heq
      rw [heq] at hsame hnone
      subst hsame
      refine h.at_ ⟨fun _ => hrunning, fun row hrow => ?_, hfits.same servers cancelled, hnone rfl⟩
      show g.Around step False (·.status = .pending) row
      exact (hrows row hrow).weaken False.elim fun hpending => hpending
    · rename_i g₂ heq
      rw [heq] at hsame
      subst hsame
      refine h.at_ ⟨fun _ => hrunning, hrows, hfits.same servers cancelled, fun hnot => ?_⟩
      by_contra hend
      exact hgoes ⟨hend, hnot⟩

theorem stop_final (stop : Stop) : stop.status.isFinal = true ∧ stop.skips.isFinal = true := by
  cases stop <;> exact ⟨rfl, rfl⟩

theorem afterNoting_holds {stop : Stop} {how : Noting} (hids : (run.steps.map (·.stepId)).Nodup)
    (h : (Pc.noting g step stop how).Holds run) :
    (afterNoting g step stop how).Holds run := by
  obtain ⟨hrunning, hrows, hfits, hnot⟩ := h
  obtain ⟨-, hphase, hrest⟩ := hfits.head hids
  have hstopped : ∀ row, g.Around step False (·.status.isFinal = true) row → row ∈ run.steps →
      (g.past step (.stopped stop)).Row (g.past step (.stopped stop)).Clean row := by
    intro row haround hrow
    refine haround.past (hphase row hrow) hrest (fun hc => nomatch hc.1) fun hid => ?_
    exact behind_of_final (hphase row hrow hid ▸ hnot) (haround.1 hid) fun hc => nomatch hc.1
  have hpast : (g.past step (.stopped stop)).Fits (g.past step (.stopped stop)).rest run :=
    hfits.past (fun ht => absurd ht hnot) nofun
  cases how with
  | between => exact ⟨hrunning, hrows, hfits, hnot⟩
  | answered => exact ⟨hrunning, fun row hrow => hstopped row (hrows row hrow) hrow, hpast⟩
  | ended =>
    rw [afterNoting, if_neg hnot]
    exact ⟨hrunning, fun row hrow => hstopped row (hrows row hrow) hrow, hpast⟩

theorem noted_holds {stop : Stop} {how : Noting} {stepId : String} {note : Option String}
    {now : Int} (h : (Pc.noting g step stop how).Holds run) :
    (Pc.noting g step stop how).Holds
      (run.mapSteps (TestRun.movable stepId [.passed]) (·.moved (noted .failed note) now)) := by
  obtain ⟨hrunning, hrows, hfits, hnot⟩ := h
  have hmoves : ∀ row : TestStepRow, TestRun.movable stepId [.passed] row = true →
      row.status = .passed := fun row hm => mem_singleton.mp (movable_iff.mp hm).2
  refine ⟨hrunning, rows_mapSteps fun row hrow => ?_, mapSteps_fits (moved_keeps _ _) ?_ hfits, hnot⟩
  · split
    · rename_i hm
      have hpassed := hmoves row hm
      have hother : row.stepId ≠ step.id → g.Row False row →
          g.Row False (row.moved (noted .failed note) now) := by
        intro _ hr
        refine ⟨fun hahead => ?_, fun hbehind => ⟨rfl, False.elim, fun hphase => ?_⟩⟩
        · rw [hr.1 hahead] at hpassed
          cases hpassed
        · exact ⟨((hr.2 hbehind).ran hphase).1, .inr rfl⟩
      cases how with
      | between =>
        refine ⟨fun hid => ?_, fun hid => hother hid ((hrows row hrow).2 hid)⟩
        rw [(hrows row hrow).1 hid] at hpassed
        cases hpassed
      | answered | ended => exact ⟨fun _ => rfl, fun hid => hother hid ((hrows row hrow).2 hid)⟩
    · exact hrows row hrow
  · intro row hm
    rw [hmoves row hm]
    nofun

theorem goNoting_sound (h : s.Sound parse) {stop : Stop} {how : Noting}
    (hpc : (Pc.noting g step stop how).Holds s.run) {look : Look}
    (hs : s.goPc parse look (.noting g step stop how) = some s') : s'.Sound parse := by
  simp only [goPc] at hs
  split at hs
  · cases hs
    exact h.at_ (afterNoting_holds h.ids hpc)
  · cases hs
    rw [moveStep_running (hpc.running rfl)]
    refine h.moves (hpc.running rfl) (moved_keeps _ _) rfl fun pc hthread => ?_
    cases hthread
    refine afterNoting_holds ?_ (noted_holds hpc)
    rw [mapSteps_ids (moved_keeps _ _)]
    exact h.ids

theorem goSkippingStep_sound (h : s.Sound parse) {stop : Stop}
    (hpc : (Pc.skippingStep g step stop).Holds s.run) {look : Look}
    (hs : s.goPc parse look (.skippingStep g step stop) = some s') : s'.Sound parse := by
  cases hs
  obtain ⟨hrunning, hrows, hfits, hnot⟩ := hpc
  have hrunning := hrunning rfl
  obtain ⟨-, hphase, hrest⟩ := hfits.head h.ids
  refine h.mark hrunning ⟨fun _ => hrunning, rows_mapSteps fun row hrow => ?_, ?_⟩ fun _ =>
    guard_holds ..
  · have haround : g.Around step False (·.status = .pending) row := hrows row hrow
    refine haround.leaves (hphase row hrow) hrest (fun hc => nomatch hc.1)
      (fun hpending => hpending ▸ mem_cons_self ..) fun hid _ => ?_
    exact behind_of_final (hphase row hrow hid ▸ hnot) (stop_final stop).2 fun hc => nomatch hc.1
  · refine mapSteps_fits (moved_keeps _ _) ?_ (hfits.past (fun ht => absurd ht hnot) nofun)
    intro row hm
    rw [mem_singleton.mp (movable_iff.mp hm).2]
    nofun

theorem split_allSteps (hfits : g.Fits (step :: g.rest) run) :
    ∃ done ahead, g.test.allSteps = done ++ (g.which, step) :: ahead ∧
      (∀ other ∈ g.rest, (g.which, other) ∈ ahead) ∧
      ∀ phase other, rank g.which < rank phase → other ∈ g.test.phase phase →
        (phase, other) ∈ ahead := by
  obtain ⟨done, hdone⟩ := hfits.ahead
  have hmap : (g.test.phase g.which).map (g.which, ·) =
      done.map (g.which, ·) ++ (g.which, step) :: g.rest.map (g.which, ·) := by
    rw [← hdone, map_append, map_cons]
  have later : ∀ {phase other}, other ∈ g.test.phase phase →
      (phase, other) ∈ (g.test.phase phase).map (phase, ·) :=
    fun hmem => mem_map_of_mem hmem
  cases hwhich : g.which with
  | setup =>
    rw [hwhich] at hmap
    refine ⟨done.map (Phase.setup, ·), g.rest.map (Phase.setup, ·) ++
      g.test.steps.map (Phase.steps, ·) ++ g.test.teardown.map (Phase.teardown, ·), ?_, ?_, ?_⟩
    · rw [Test.allSteps, show g.test.setup = g.test.phase .setup from rfl, hmap]
      simp only [append_assoc, cons_append]
    · intro other hmem
      exact mem_append_left _ (mem_append_left _ (mem_map_of_mem hmem))
    · intro phase other hlt hmem
      cases phase with
      | setup => exact absurd hlt (Nat.lt_irrefl _)
      | steps => exact mem_append_left _ (mem_append_right _ (later hmem))
      | teardown => exact mem_append_right _ (later hmem)
  | steps =>
    rw [hwhich] at hmap
    refine ⟨g.test.setup.map (Phase.setup, ·) ++ done.map (Phase.steps, ·),
      g.rest.map (Phase.steps, ·) ++ g.test.teardown.map (Phase.teardown, ·), ?_, ?_, ?_⟩
    · rw [Test.allSteps, show g.test.steps = g.test.phase .steps from rfl, hmap]
      simp only [append_assoc, cons_append]
    · intro other hmem
      exact mem_append_left _ (mem_map_of_mem hmem)
    · intro phase other hlt hmem
      cases phase with
      | setup => exact absurd hlt (by decide)
      | steps => exact absurd hlt (Nat.lt_irrefl _)
      | teardown => exact mem_append_right _ (later hmem)
  | teardown =>
    rw [hwhich] at hmap
    refine ⟨g.test.setup.map (Phase.setup, ·) ++ g.test.steps.map (Phase.steps, ·) ++
      done.map (Phase.teardown, ·), g.rest.map (Phase.teardown, ·), ?_, ?_, ?_⟩
    · rw [Test.allSteps, show g.test.teardown = g.test.phase .teardown from rfl, hmap]
      simp only [append_assoc]
    · exact fun other hmem => mem_map_of_mem hmem
    · exact fun phase other hlt _ => absurd hlt (Nat.not_lt.mpr (rank_le_teardown phase))

theorem before_behind (hids : (s.run.steps.map (·.stepId)).Nodup)
    (hfits : g.Fits (step :: g.rest) s.run)
    (hrow : row ∈ s.run.steps.takeWhile (·.stepId ≠ step.id)) :
    row ∈ s.run.steps ∧ row.stepId ≠ step.id ∧ ¬ g.Ahead row := by
  have hmem := (List.takeWhile_sublist _).subset hrow
  have hne : row.stepId ≠ step.id := by simpa using List.mem_takeWhile_imp hrow
  refine ⟨hmem, hne, fun hahead => ?_⟩
  obtain ⟨done, ahead, hall, hrest, hlater⟩ := split_allSteps hfits
  -- what is ahead stands after the step, in the rows as in the test
  have hlist : row.stepId ∈ ahead.map (·.2.id) := by
    obtain hlt | ⟨-, hin⟩ := hahead
    · obtain ⟨other, hother, hid⟩ := mem_map.mp (hfits.shape.mem hmem)
      exact hid ▸ mem_map_of_mem (f := (·.2.id)) (hlater _ _ hlt hother)
    · obtain ⟨other, hother, hid⟩ := mem_map.mp hin
      exact hid ▸ mem_map_of_mem (f := (·.2.id)) (hrest _ hother)
  have hsplit : s.run.steps.map (·.stepId) =
      done.map (·.2.id) ++ step.id :: ahead.map (·.2.id) := by
    rw [hfits.shape.ids, hall, map_append, map_cons]
  have htake : (s.run.steps.takeWhile (·.stepId ≠ step.id)).map (·.stepId) =
      (s.run.steps.map (·.stepId)).takeWhile (· ≠ step.id) := by
    rw [List.takeWhile_map]
    rfl
  have hids' := hids
  rw [hsplit, nodup_append] at hids'
  obtain ⟨-, -, hdisjoint⟩ := hids'
  have hdone : row.stepId ∈ done.map (·.2.id) := by
    have hin := mem_map_of_mem hrow (f := (·.stepId))
    rw [htake, hsplit, List.takeWhile_append_of_pos] at hin
    · rw [List.takeWhile_cons_of_neg (by simp), append_nil] at hin
      exact hin
    · intro id hid
      exact decide_eq_true (hdisjoint id hid step.id (mem_cons_self ..))
  exact hdisjoint _ hdone _ (mem_cons_of_mem _ hlist) rfl

theorem movable_failed {stepId : String} (h : .failed ∉ from_) :
    ∀ row : TestStepRow, TestRun.movable stepId from_ row = true → row.status ≠ .failed :=
  fun _ hm hfailed => h (hfailed ▸ (movable_iff.mp hm).2)

theorem Sound.opens (h : s.Sound parse) {g : Going} {step : Step} {before : List StepStatus}
    (hbefore : g.which ≠ .teardown → ∀ status ∈ before, status = .passed) :
    Sound parse { s with opened := ⟨step.id, g.which, before⟩ :: s.opened } :=
  { h with
    atEnd := fun hover => { h.atEnd hover with }
    opened := by
      intro o ho
      obtain rfl | ho := mem_cons.mp ho
      · exact hbefore
      · exact h.opened o ho }

theorem before_passed (h : s.Sound parse) (hpc : (Pc.beginning g step).Holds s.run)
    (hnot : g.which ≠ .teardown) :
    ∀ status ∈ s.before step.id, status = .passed := by
  intro status hstatus
  obtain ⟨row, hrow, rfl⟩ := mem_map.mp hstatus
  obtain ⟨htake, hphase⟩ := mem_filter.mp hrow
  obtain ⟨hmem, hne, hbehind⟩ := before_behind h.ids hpc.fits.1 htake
  have hclean : g.Clean := ⟨hpc.fits.2 hnot, hpc.fits.1.outcome hnot⟩
  exact (((hpc.rows row hmem).2 hne).2 hbehind).passed hclean (of_decide_eq_true hphase)

theorem begin_sound (h : s.Sound parse) (hpc : (Pc.beginning g step).Holds s.run) (look : Look) :
    (s.begin_ g step look).Sound parse := by
  have hrunning := hpc.running rfl
  have hrun := moveStep_running hrunning step.id [.pending] (beginChange step look.prompt) look.now
  set run := s.run.mapSteps (TestRun.movable step.id [.pending])
    (·.moved (beginChange step look.prompt) look.now) with hrunEq
  have hfits : g.Fits (step :: g.rest) run :=
    mapSteps_fits (moved_keeps _ _) (movable_failed (by decide)) hpc.fits.1
  have hrows : ∀ here : TestStepRow → Prop,
      (∀ row : TestStepRow, here (row.moved (beginChange step look.prompt) look.now)) →
      ∀ row ∈ run.steps, g.Around step g.Clean here row := by
    intro here hhere
    refine rows_mapSteps fun row hrow => ?_
    have haround : g.Around step g.Clean (·.status = .pending) row := hpc.rows row hrow
    refine haround.stays (fun hc => hc) fun hid hpending => ?_
    rw [if_movable hid (hpending ▸ mem_cons_self ..)]
    exact hhere row
  have hnext : (if step.action.isManual then Pc.waiting g step else .executing g step).Holds run := by
    cases hmanual : step.action.isManual with
    | true =>
      refine ⟨fun _ => hrunning, hrows Waits fun row => ?_, hfits⟩
      rw [beginChange, if_pos hmanual]
      refine ⟨?_, .inl rfl⟩
      cases hstarted : row.startedAt <;> simp [TestStepRow.moved, StepStatus.isFinal, hstarted]
    | false =>
      refine ⟨fun _ => hrunning, hrows Runs fun row => ?_, hfits⟩
      rw [beginChange, if_neg (by rw [hmanual]; nofun)]
      refine ⟨?_, rfl⟩
      cases hstarted : row.startedAt <;> simp [TestStepRow.moved, noted, StepStatus.isFinal, hstarted]
  rw [Machine.begin_, hrun]
  simp only
  split
  · have hsound := h.moves hrunning (moved_keeps _ _) hrunEq fun other hother =>
      Option.some.inj hother ▸ hnext
    exact hsound.opens (before_passed h hpc)
  · exact h.moves hrunning (moved_keeps _ _) hrunEq fun other hother =>
      Option.some.inj hother ▸ guard_holds ..

/-! ### A step waits, or is carried out -/

theorem goWaiting_sound (h : s.Sound parse) (hpc : (Pc.waiting g step).Holds s.run) :
    (s.goWaiting g step ((s.run.step step.id).map (·.status))).Sound parse := by
  obtain ⟨hrunning, hrows, hfits⟩ := hpc
  have hrunning := hrunning rfl
  obtain ⟨-, hphase, hrest⟩ := hfits.head h.ids
  -- the row that is read is the one of this step
  have hread : ∀ status, (s.run.step step.id).map (·.status) = some status →
      (∃ row ∈ s.run.steps, row.status = status) ∧
      ∀ row ∈ s.run.steps, row.stepId = step.id → row.status = status := by
    intro status heq
    obtain ⟨found, hfound, rfl⟩ := map_eq_some_iff.mp heq
    have hmem := mem_of_find?_eq_some hfound
    have hid : found.stepId = step.id := by simpa using List.find?_some hfound
    refine ⟨⟨found, hmem, rfl⟩, fun row hrow hsame => ?_⟩
    rw [List.inj_on_of_nodup_map h.ids hrow hmem (hsame.trans hid.symm)]
  generalize hstatus : (s.run.step step.id).map (·.status) = status at *
  rw [goWaiting.eq_def]
  split
  · obtain ⟨-, hpassed⟩ := hread _ rfl
    refine h.at_ ⟨fun _ => hrunning, fun row hrow => ?_,
      hfits.past hfits.teardown fun hfailed => hfits.failed (.inl hfailed)⟩
    have haround : g.Around step g.Clean Waits row := hrows row hrow
    refine haround.past (hphase row hrow) hrest (fun hc => hc) fun hid => ?_
    have hran : Ran row := ⟨(haround.1 hid).1, .inl (hpassed row hrow hid)⟩
    exact ⟨hran.final, fun _ _ => hpassed row hrow hid, fun _ => hran⟩
  · obtain ⟨⟨failed, hmem, hfailed⟩, hall⟩ := hread _ rfl
    refine h.at_ ⟨fun _ => hrunning, fun row hrow => ?_, hfits.past ?_ fun _ => ⟨failed, hmem, hfailed⟩⟩
    · have haround : g.Around step g.Clean Waits row := hrows row hrow
      refine haround.past (hphase row hrow) hrest ?_ fun hid => ?_
      · rintro ⟨hend, hoc⟩
        refine ⟨?_, hoc⟩
        change (if g.which = .teardown then g.end_ else .failed) = .passed at hend
        split at hend
        · exact hend
        · cases hend
      · have hran : Ran row := ⟨(haround.1 hid).1, .inr (hall row hrow hid)⟩
        refine ⟨hran.final, ?_, fun _ => hran⟩
        rintro ⟨hend, -⟩ hnot
        rw [hphase row hrow hid] at hnot
        change (if g.which = .teardown then g.end_ else .failed) = .passed at hend
        rw [if_neg hnot] at hend
        cases hend
    · intro hteardown
      rw [if_pos hteardown]
      exact hfits.teardown hteardown
  · exact h.at_ ⟨fun _ => hrunning, hrows, hfits⟩
  all_goals exact h.at_ (guard_holds ..)

theorem goWaitPolling_sound (h : s.Sound parse) (hpc : (Pc.waitPolling g step).Holds s.run)
    {look : Look} (hs : s.goPc parse look (.waitPolling g step) = some s') : s'.Sound parse := by
  obtain ⟨hrunning, hrows, hfits⟩ := hpc
  obtain ⟨servers, cancelled, hsame⟩ := g.stop_same s.run look
  have hnone := g.stop_teardown s.run look
  simp only [goPc] at hs
  split at hs
  · rename_i stop g₂ heq
    rw [heq] at hsame hnone
    subst hsame
    cases hs
    exact h.at_ ⟨hrunning, hrows, hfits.same servers cancelled, hnone rfl⟩
  · rename_i g₂ heq
    rw [heq] at hsame
    subst hsame
    cases hs
    exact h.at_ ⟨hrunning, hrows, hfits.same servers cancelled⟩

theorem goWaitStopping_sound (h : s.Sound parse) {stop : Stop}
    (hpc : (Pc.waitStopping g step stop).Holds s.run) {look : Look}
    (hs : s.goPc parse look (.waitStopping g step stop) = some s') : s'.Sound parse := by
  cases hs
  obtain ⟨hrunning, hrows, hfits, hnot⟩ := hpc
  have hrunning := hrunning rfl
  refine h.mark hrunning ⟨fun _ => hrunning, rows_mapSteps fun row hrow => ?_,
    mapSteps_fits (moved_keeps _ _) (movable_failed (by decide)) hfits, hnot⟩ fun _ =>
    guard_holds ..
  have haround : g.Around step g.Clean Waits row := hrows row hrow
  show g.Around step False (·.status.isFinal = true) _
  refine haround.stays False.elim fun hid hwaits => ?_
  split
  · exact (stop_final stop).1
  rename_i hm
  obtain hstatus | hstatus | hstatus := hwaits.2
  · exact absurd (movable_iff.mpr ⟨hid, hstatus ▸ mem_cons_self ..⟩) hm
  · rw [hstatus]
    rfl
  · rw [hstatus]
    rfl

theorem possible_end {done : StepEnd} (h : done.possible g run = true) :
    done.status.isFinal = true ∧
      (done.stopped = none → done.status = .passed ∨ done.status = .failed) ∧
      (done.stopped.isSome = true → g.which ≠ .teardown) := by
  unfold StepEnd.possible at h
  split at h
  · rename_i hnone
    obtain hpassed | hfailed := Bool.or_eq_true_iff.mp h
    · have hstatus := of_decide_eq_true hpassed
      rw [hnone, hstatus]
      exact ⟨rfl, fun _ => .inl rfl, nofun⟩
    · have hstatus := of_decide_eq_true hfailed
      rw [hnone, hstatus]
      exact ⟨rfl, fun _ => .inr rfl, nofun⟩
  · rename_i stop hsome
    obtain ⟨hboth, -⟩ := Bool.and_eq_true_iff.mp h
    obtain ⟨hnot, hstatus⟩ := Bool.and_eq_true_iff.mp hboth
    rw [hsome, of_decide_eq_true hstatus]
    exact ⟨(stop_final stop).1, nofun, fun _ => of_decide_eq_true hnot⟩

theorem sawStop_same (g : Going) (stop : Stop) :
    ∃ servers cancelled, g.sawStop stop = { g with servers, cancelled } := by
  cases stop with
  | cancelled => exact ⟨g.servers, true, rfl⟩
  | runTimedOut => exact ⟨g.servers, g.cancelled, rfl⟩
  | serverExited stepId exit | serverOutputCapped stepId => exact ⟨_, g.cancelled, rfl⟩

theorem goExecuting_sound (h : s.Sound parse) (hpc : (Pc.executing g step).Holds s.run)
    {look : Look} (hs : s.goExecuting g step look = some s') : s'.Sound parse := by
  obtain ⟨hrunning, hrows, hfits⟩ := hpc
  unfold goExecuting at hs
  split at hs
  · cases hs
  rename_i done _
  split at hs
  · rename_i hpossible
    have hend := possible_end hpossible
    have hsaw : ∃ servers cancelled,
        done.stopped.elim g g.sawStop = { g with servers, cancelled } := by
      cases done.stopped with
      | none => exact ⟨g.servers, g.cancelled, rfl⟩
      | some stop => exact sawStop_same g stop
    obtain ⟨servers, cancelled, hsaw⟩ := hsaw
    rw [hsaw] at hs
    simp only at hs
    split at hs
    · cases hs
      exact h.at_ ⟨hrunning, hrows, hfits.same _ cancelled, hend⟩
    · cases hs
      exact h.at_ ⟨hrunning, hrows, hfits.same servers cancelled, hend⟩
  · cases hs

theorem goEnding_sound (h : s.Sound parse) {done : StepEnd}
    (hpc : (Pc.ending g step done).Holds s.run) {look : Look}
    (hs : s.goPc parse look (.ending g step done) = some s') : s'.Sound parse := by
  cases hs
  obtain ⟨hrunning, hrows, hfits, hfinal, hown, hstop⟩ := hpc
  have hrunning := hrunning rfl
  obtain ⟨⟨here, hhere, hhereId⟩, hphase, hrest⟩ := hfits.head h.ids
  have hmoved : g.Fits (step :: g.rest)
      (s.run.mapSteps (TestRun.movable step.id [.running]) (·.moved (changeOf done) look.now)) :=
    mapSteps_fits (moved_keeps _ _) (movable_failed (by decide)) hfits
  have haround : ∀ row ∈ s.run.steps, g.Around step g.Clean Runs row := hrows
  cases hstopped : done.stopped with
  | some stop =>
    dsimp only
    refine h.mark hrunning ⟨fun _ => hrunning, rows_mapSteps fun row hrow => ?_, hmoved,
      hstop (hstopped ▸ rfl)⟩ fun _ => guard_holds ..
    show g.Around step False (·.status.isFinal = true) _
    refine (haround row hrow).stays False.elim fun hid hruns => ?_
    rw [if_movable hid (hruns.2 ▸ mem_cons_self ..)]
    exact hfinal
  | none =>
    dsimp only
    have hown := hown hstopped
    refine h.mark hrunning ⟨fun _ => hrunning, rows_mapSteps fun row hrow => ?_,
      hmoved.past ?_ ?_⟩ fun _ => guard_holds ..
    · have hpast : ∀ {clean : Prop}, clean = (g.past step (done.phaseEnd g)).Clean →
          (clean → g.Clean ∧ (g.which = .teardown ∨ done.status = .passed)) := by
        rintro _ rfl ⟨hend, hoc⟩
        change done.phaseEnd g = .passed at hend
        rw [StepEnd.phaseEnd] at hend
        split at hend
        · rename_i hteardown
          exact ⟨⟨hend, hoc⟩, .inl hteardown⟩
        · rw [hstopped] at hend
          simp only at hend
          split at hend
          · rename_i hpassed
            exact ⟨⟨hend, hoc⟩, .inr hpassed⟩
          · cases hend
      refine (haround row hrow).leaves (hphase row hrow) hrest (fun hc => (hpast rfl hc).1)
        (fun hruns => hruns.2 ▸ mem_cons_self ..) fun hid hruns => ⟨hfinal, ?_, ?_⟩
      · intro hc hnot
        obtain hteardown | hpassed := (hpast rfl hc).2
        · exact absurd ((hphase row hrow hid).trans hteardown) hnot
        · exact hpassed
      · intro _
        refine ⟨?_, hown⟩
        show (if done.status.isFinal then row.startedAt else _).isSome = true
        rw [if_pos hfinal]
        exact hruns.1
    · intro hteardown
      rw [StepEnd.phaseEnd, if_pos hteardown]
      exact hfits.teardown hteardown
    · intro hend
      rw [StepEnd.phaseEnd, hstopped] at hend
      split at hend
      · exact hmoved.failed (.inl hend)
      simp only at hend
      split at hend
      · exact hmoved.failed (.inl hend)
      rename_i hnot
      refine ⟨_, mem_map_of_mem hhere, ?_⟩
      rw [if_movable hhereId (((haround here hhere).1 hhereId).2 ▸ mem_cons_self ..)]
      exact hown.resolve_left hnot

theorem goSkipReading_sound (h : s.Sound parse) {k : Skip}
    (hpc : (Pc.skipReading k).Holds s.run) :
    (s.at_ (.skipping k (s.pendingSteps k))).Sound parse := by
  obtain ⟨hrunning, hrows, hfits⟩ := hpc
  have hin : ∀ row ∈ s.run.steps, row.stepId ∈ s.pendingSteps k →
      row.status = .pending ∧ (k.teardown = true ∨ row.phase ≠ .teardown) := by
    intro row hrow hmem
    obtain ⟨other, hother, hid⟩ := mem_map.mp hmem
    obtain ⟨hmem, hcond⟩ := mem_filter.mp hother
    obtain rfl := List.inj_on_of_nodup_map h.ids hmem hrow hid
    simpa using hcond
  refine h.at_ ⟨hrunning, fun row hrow => ⟨(hrows row hrow).1, ?_, ?_, ?_⟩, hfits, ?_, ?_⟩
  · intro hpending
    by_cases hskips : k.teardown = true ∨ row.phase ≠ .teardown
    · left
      refine mem_map_of_mem (mem_filter.mpr ⟨hrow, ?_⟩)
      simpa [hpending] using hskips
    · obtain ⟨hnot, hphase⟩ := not_or.mp hskips
      exact .inr ⟨Bool.not_eq_true _ ▸ hnot, not_not.mp hphase⟩
  · exact fun hmem => (hin row hrow hmem).1
  · intro hnot hphase
    refine ⟨(hrows row hrow).2 hnot hphase, fun hmem => ?_⟩
    obtain hyes | hne := (hin row hrow hmem).2
    · rw [hnot] at hyes
      cases hyes
    · exact hne hphase
  · exact h.ids.sublist (filter_sublist.map _)
  · intro id hid
    obtain ⟨row, hrow, rfl⟩ := mem_map.mp hid
    exact ⟨row, mem_of_mem_filter hrow, rfl⟩

theorem goSkipped_sound (h : s.Sound parse) {k : Skip}
    (hpc : (Pc.skipping k []).Holds s.run) : (s.at_ (afterSkip k true)).Sound parse := by
  obtain ⟨hrunning, hrows, hfits, -⟩ := hpc
  have hrunning := hrunning rfl
  have hfinal : k.teardown = true → ∀ row ∈ s.run.steps, row.status.isFinal = true := by
    intro hteardown row hrow
    obtain hpending | hfinal := (hrows row hrow).idle
    · obtain hmem | ⟨hnot, -⟩ := (hrows row hrow).pending hpending
      · exact (not_mem_nil hmem).elim
      · rw [hteardown] at hnot
        cases hnot
    · exact hfinal
  obtain ⟨-, hfor⟩ := hfits
  rw [afterSkip]
  split
  · rename_i why hafter
    rw [hafter] at hfor
    exact h.at_ ⟨fun _ => hrunning, hfinal hfor, trivial⟩
  · rename_i g hafter
    rw [hafter] at hfor
    obtain ⟨hnot, hshape, hne, hfailed⟩ := hfor
    refine h.at_ ⟨fun _ => hrunning, fun row hrow => ?_,
      Going.fits_enter hshape (fun hne => absurd rfl hne) hfailed⟩
    refine Going.row_enter hshape hrow (fun hle => ?_) fun hlt => ?_
    · have hphase := rank_inj (Nat.le_antisymm hle (rank_le_teardown _))
      exact ((hrows row hrow).teardown hnot hphase.symm).1
    · have hphase : row.phase ≠ .teardown := by
        rintro heq
        rw [heq] at hlt
        exact Nat.lt_irrefl _ hlt
      refine behind_of_final hphase ?_ fun hc => absurd hc.2 hne
      obtain hpending | hfinal := (hrows row hrow).idle
      · obtain hmem | ⟨-, heq⟩ := (hrows row hrow).pending hpending
        · exact (not_mem_nil hmem).elim
        · exact absurd heq hphase
      · exact hfinal
  · rename_i why hafter
    rw [hafter] at hfor
    exact h.at_ ⟨fun _ => hrunning, hfinal hfor, trivial⟩

theorem skip_fits {k : Skip} {when_ : TestStepRow → Bool} {f : TestStepRow → TestStepRow}
    (hf : Keeps f) (hwhen : ∀ row, when_ row = true → row.status ≠ .failed) (h : k.Fits run) :
    k.Fits (run.mapSteps when_ f) := by
  obtain ⟨hto, hfor⟩ := h
  refine ⟨hto, ?_⟩
  split at hfor
  · exact hfor
  · exact hfor
  · obtain ⟨hnot, hshape, hne, hfailed⟩ := hfor
    exact ⟨hnot, mapSteps_shape hf hshape, hne, fun hout => mapSteps_failed hwhen (hfailed hout)⟩

theorem goSkipping_sound (h : s.Sound parse) {k : Skip} {id : String} {left : List String}
    (hpc : (Pc.skipping k (id :: left)).Holds s.run) (look : Look) :
    (s.mark id [.pending] (noted k.to_ (some k.why)) look.now (.skipping k left)
      (afterSkip k false)).Sound parse := by
  obtain ⟨hrunning, hrows, hfits, hnodup, hthere⟩ := hpc
  have hrunning := hrunning rfl
  obtain ⟨hfresh, hnodup⟩ := nodup_cons.mp hnodup
  refine h.mark hrunning ⟨fun _ => hrunning, rows_mapSteps fun row hrow => ?_,
    skip_fits (moved_keeps _ _) (movable_failed (by decide)) hfits, hnodup, ?_⟩ fun hnone => ?_
  · have hr := hrows row hrow
    by_cases hid : row.stepId = id
    · have hmem : row.stepId ∈ id :: left := hid ▸ mem_cons_self ..
      rw [if_movable hid (hr.listed hmem ▸ mem_cons_self ..)]
      refine ⟨.inr hfits.1, fun hpending => ?_, fun hin => absurd (hid ▸ hin) hfresh, ?_⟩
      · have hfinal := hfits.1
        rw [show k.to_ = .pending from hpending] at hfinal
        cases hfinal
      · exact fun hnot hphase => absurd hmem (hr.teardown hnot hphase).2
    · rw [if_movable_ne hid]
      refine ⟨hr.idle, fun hpending => ?_, fun hin => hr.listed (mem_cons_of_mem _ hin),
        fun hnot hphase => ?_⟩
      · refine (hr.pending hpending).imp_left fun hmem => ?_
        obtain heq | hmem := mem_cons.mp hmem
        · exact absurd heq hid
        · exact hmem
      · obtain ⟨hpending, hout⟩ := hr.teardown hnot hphase
        exact ⟨hpending, fun hin => hout (mem_cons_of_mem _ hin)⟩
  · intro other hother
    obtain ⟨row, hrow, heq⟩ := hthere other (mem_cons_of_mem _ hother)
    refine ⟨_, mem_map_of_mem hrow, ?_⟩
    split <;> exact heq
  -- a step that was read as pending is still there, and pending
  · obtain ⟨row, hrow, heq⟩ := hthere id (mem_cons_self ..)
    have hpending := (hrows row hrow).listed (heq ▸ mem_cons_self ..)
    have hmoves : TestRun.movable id [.pending] row = true :=
      movable_iff.mpr ⟨heq, hpending ▸ mem_cons_self ..⟩
    exact absurd hmoves (any_eq_false.mp hnone row hrow)

theorem finish_running (h : run.row.status = .running) (status : RunStatus) (error : Option String)
    (now : Int) :
    (run.finish status error now).2 =
      { run with row := { run.row with status, error, endedAt := some now } } := by
  rw [TestRun.finish, if_pos h]

theorem Sound.rows (h : s.Sound parse) {row : TestRunRow} {s₁ : Machine}
    (hrun : s₁.run = { s.run with row }) (hdefinition : row.definition = s.run.row.definition)
    (hopened : s₁.opened = s.opened)
    (hqueued : row.status = .awaitingApproval ∨ row.status = .queued →
      (∀ step ∈ s.run.steps, step.status = .pending) ∧ s₁.begun = false)
    (hover : row.status.active = false → s₁.Over)
    (hthread : ∀ pc ∈ s₁.thread, pc.Holds s₁.run) : s₁.Sound parse where
  ids := by
    rw [hrun]
    exact h.ids
  shape := by
    obtain ⟨test, hparse, hshape⟩ := h.shape
    rw [hrun]
    exact ⟨test, hdefinition ▸ hparse, hshape⟩
  queued := by
    rw [hrun]
    exact hqueued
  atEnd := by
    rw [hrun]
    exact hover
  thread := hthread
  opened := by
    rw [hopened]
    exact h.opened

theorem Sound.errored (h : s.Sound parse) (hrunning : s.run.row.status = .running)
    (hfinal : ∀ row ∈ s.run.steps, row.status.isFinal = true) (why : String) (now : Int)
    {thread : Option Pc}
    (hthread : ∀ pc ∈ thread, pc.Holds (s.run.finish .errored (some why) now).2) :
    Sound parse { s with run := (s.run.finish .errored (some why) now).2, thread } := by
  rw [finish_running hrunning] at hthread ⊢
  refine h.rows rfl rfl rfl ?_ (fun _ => ⟨hfinal, nofun, nofun, fun _ hne => absurd rfl hne⟩) hthread
  rintro (heq | heq) <;> cases heq

theorem goFinishing_sound (h : s.Sound parse) {status : RunStatus} {error : Option String}
    (hpc : (Pc.finishing status error).Holds s.run) (now : Int) :
    ({ s with run := (s.run.finish status error now).2 }.at_ (.guard couldNotSee)).Sound parse := by
  obtain ⟨hrunning, hrows, hstatus, hfailed⟩ := hpc
  have hrows : ∀ row ∈ s.run.steps, Behind (status = .passed) row := hrows
  rw [finish_running (hrunning rfl)]
  refine h.rows rfl rfl rfl ?_ (fun _ => ⟨?_, ?_, hfailed, ?_⟩) fun pc hpc =>
    Option.some.inj hpc ▸ guard_holds ..
  · intro hwaits
    obtain rfl | rfl | rfl := hstatus <;> obtain heq | heq := hwaits <;> cases heq
  · exact fun row hrow => (hrows row hrow).final
  · exact fun hpassed row hrow => (hrows row hrow).passed hpassed
  · exact fun _ _ row hrow => (hrows row hrow).ran

/-- The verdict says passed only of an outcome that is, and gives a reason with each failure
    that no step accounts for. -/
theorem verdict_of (g : Going) (run : TestRun) :
    ((verdictOf g run).1 = .passed → g.outcome = .passed) ∧
    ((verdictOf g run).1 = .passed ∨ (verdictOf g run).1 = .failed ∨
      (verdictOf g run).1 = .cancelled) ∧
    ((verdictOf g run).1 = .failed → (verdictOf g run).2.isSome = true ∨ g.outcome = .failed) := by
  unfold verdictOf
  split
  · rename_i hpassed
    exact ⟨fun _ => hpassed, .inl rfl, nofun⟩
  · rename_i hfailed
    exact ⟨nofun, .inr (.inl rfl), fun _ => .inr hfailed⟩
  · exact ⟨nofun, .inr (.inr rfl), nofun⟩
  all_goals exact ⟨nofun, .inr (.inl rfl), fun _ => .inl rfl⟩

theorem goVerdict_sound (h : s.Sound parse) (hpc : (Pc.verdict g).Holds s.run) :
    (s.at_ (.finishing (verdictOf g s.run).1 (verdictOf g s.run).2)).Sound parse := by
  obtain ⟨hrunning, hrows, hfits⟩ := hpc
  obtain ⟨hpassed, hstatus, hfailed⟩ := verdict_of g s.run
  have hrows : ∀ row ∈ s.run.steps, Behind (g.outcome = .passed) row := hrows
  have hfits : g.outcome = .failed → SomeFailed s.run := hfits
  exact h.at_ ⟨fun _ => hrunning rfl, fun row hrow => (hrows row hrow).weaken hpassed,
    hstatus, fun hf => (hfailed hf).imp_right hfits⟩

theorem goGuardMarking_sound (h : s.Sound parse) {why id : String} {left : List String}
    (hpc : (Pc.guardMarking why (id :: left)).Holds s.run) (look : Look) :
    (s.mark id [.running, .waiting] (noted .failed (some why)) look.now (.guardMarking why left)
      (.guardMarking why left)).Sound parse := by
  obtain ⟨hrunning, hrows, -⟩ := hpc
  have hrunning := hrunning rfl
  have hleft : ∀ row ∈ s.run.steps, row.stepId ≠ id →
      row.status = .running ∨ row.status = .waiting → row.stepId ∈ left := by
    intro row hrow hid hstatus
    obtain heq | hmem := mem_cons.mp (hrows row hrow hstatus)
    · exact absurd heq hid
    · exact hmem
  have hlisted : ∀ status : StepStatus, status = .running ∨ status = .waiting →
      status ∈ [StepStatus.running, .waiting] := by
    rintro status (rfl | rfl) <;> decide
  refine h.mark hrunning ⟨fun _ => hrunning, rows_mapSteps fun row hrow => ?_, trivial⟩ fun hnone =>
    ⟨fun _ => hrunning, fun row hrow => ?_, trivial⟩
  · by_cases hid : row.stepId = id
    · intro hstatus
      split at hstatus
      · obtain heq | heq := hstatus <;> cases heq
      · rename_i hm
        exact absurd (movable_iff.mpr ⟨hid, hlisted _ hstatus⟩) hm
    · rw [if_movable_ne hid]
      exact hleft row hrow hid
  · intro hstatus
    refine hleft row hrow (fun hid => ?_) hstatus
    exact any_eq_false.mp hnone row hrow (movable_iff.mpr ⟨hid, hlisted _ hstatus⟩)

theorem goGuarded_sound (h : s.Sound parse) {why : String}
    (hpc : (Pc.guardMarking why []).Holds s.run) :
    (s.at_ (.skipReading ⟨.skipped, why, true, .guard why⟩)).Sound parse := by
  obtain ⟨hrunning, hrows, -⟩ := hpc
  refine h.at_ ⟨hrunning, fun row hrow => ⟨?_, nofun⟩, rfl, rfl⟩
  have hnone : ¬ (row.status = .running ∨ row.status = .waiting) :=
    fun hstatus => not_mem_nil (hrows row hrow hstatus)
  rw [Idle]
  cases hstatus : row.status with
  | pending => exact .inl rfl
  | running => exact absurd (.inl hstatus) hnone
  | waiting => exact absurd (.inr hstatus) hnone
  | _ => exact .inr rfl

theorem Sound.start (h : s.Sound parse) (port : Nat) (outputDir : String) (now : Int) (pc : Pc)
    (begun : Bool)
    (hpc : ∀ row, s.run.row.status = .queued → row.status = RunStatus.running →
      (∀ step ∈ s.run.steps, step.status = .pending) → pc.Holds { s.run with row }) :
    (if (s.run.start port outputDir now).1 then
        { s with run := (s.run.start port outputDir now).2, begun }.at_ pc
      else { s with run := (s.run.start port outputDir now).2 }.ends).Sound parse := by
  unfold TestRun.start
  split
  · rename_i hqueued
    have hpending := (h.queued (.inr hqueued)).1
    rw [if_pos rfl]
    refine h.rows rfl rfl rfl ?_ nofun fun other hother => ?_
    · rintro (heq | heq) <;> cases heq
    · exact Option.some.inj hother ▸ hpc _ hqueued rfl hpending
  · rw [if_neg nofun]
    exact h.ends

theorem first_holds {test : Test} (hrunning : run.row.status = .running) (hshape : Shape test run)
    (hpending : ∀ row ∈ run.steps, row.status = .pending) :
    (Pc.looping (Going.first test)).Holds run := by
  have henter : Going.first test = (Going.first test).enter .setup := rfl
  refine ⟨fun _ => hrunning, fun row hrow => ?_, ?_⟩
  · rw [henter]
    exact Going.row_enter hshape hrow (fun _ => hpending row hrow) fun hlt =>
      absurd hlt (Nat.not_lt_zero _)
  · exact Going.fits_enter (g := Going.first test) hshape (fun _ => rfl) nofun

/-- **What the thread's next operation keeps.** -/
theorem goPc_sound (h : s.Sound parse) {look : Look} {pc : Pc} (hpc : pc.Holds s.run)
    (hs : s.goPc parse look pc = some s') : s'.Sound parse := by
  cases pc with
  | reading =>
    simp only [goPc] at hs
    split at hs
    · cases hs
      exact h.at_ ⟨nofun, fun _ _ => trivial, trivial⟩
    · rename_i test hparse
      cases hs
      obtain ⟨test', hparse', hshape⟩ := h.shape
      cases hparse.symm.trans hparse'
      exact h.at_ ⟨nofun, fun _ _ => trivial, hshape⟩
  | preparing test =>
    simp only [goPc] at hs
    split at hs
    · cases hs
      exact h.at_ ⟨nofun, fun _ _ => trivial, trivial⟩
    · cases hs
      exact h.at_ ⟨nofun, fun _ _ => trivial, hpc.fits⟩
  | erroring why =>
    have hgoes := h.start 0 "" look.now (.skipReading ⟨.skipped, why, true, .errored why⟩) s.begun ?_
    · simp only [goPc] at hs
      split at hs <;> rename_i hmoved <;> obtain rfl := Option.some.inj hs
      · rw [if_pos hmoved] at hgoes
        exact hgoes
      · rw [if_neg hmoved] at hgoes
        exact hgoes
    · intro row _ hrunning hpending
      exact ⟨fun _ => hrunning, fun step hstep => ⟨.inl (hpending step hstep), nofun⟩, rfl, rfl⟩
  | starting test port outputDir =>
    have hgoes := h.start port outputDir look.now (.looping (Going.first test)) true ?_
    · simp only [goPc] at hs
      split at hs <;> rename_i hmoved <;> obtain rfl := Option.some.inj hs
      · rw [if_pos hmoved] at hgoes
        exact hgoes
      · rw [if_neg hmoved] at hgoes
        exact hgoes
    · intro row _ hrunning hpending
      exact first_holds hrunning hpc.fits hpending
  | looping g =>
    simp only [goPc] at hs
    split at hs
    · rename_i hrest
      cases hs
      exact h.at_ (afterPhase_holds hpc hrest)
    · rename_i step rest hrest
      cases hs
      have hfits : ({ g with rest } : Going).Fits (step :: rest) s.run :=
        { hpc.fits with ahead := hrest ▸ hpc.fits.ahead }
      obtain ⟨-, hphase, -⟩ := hfits.head h.ids
      exact goStep_sound h (hpc.running rfl) hfits
        (fun row hrow => (hpc.rows row hrow).around hrest (hphase row hrow)) look
  | noting g step stop how => exact goNoting_sound h hpc hs
  | skippingStep g step stop => exact goSkippingStep_sound h hpc hs
  | beginning g step =>
    cases hs
    exact begin_sound h hpc look
  | waiting g step =>
    cases hs
    exact goWaiting_sound h hpc
  | waitPolling g step => exact goWaitPolling_sound h hpc hs
  | waitStopping g step stop => exact goWaitStopping_sound h hpc hs
  | executing g step => exact goExecuting_sound h hpc hs
  | ending g step done => exact goEnding_sound h hpc hs
  | skipReading k =>
    cases hs
    exact goSkipReading_sound h hpc
  | skipping k left =>
    cases left with
    | nil =>
      cases hs
      exact goSkipped_sound h hpc
    | cons id left =>
      cases hs
      exact goSkipping_sound h hpc look
  | verdict g =>
    cases hs
    exact goVerdict_sound h hpc
  | finishing status error =>
    cases hs
    exact goFinishing_sound h hpc look.now
  | erroredEnd why | guardEnd why =>
    cases hs
    exact h.errored (hpc.running rfl) hpc.rows why look.now fun _ hn =>
      (not_mem_none _ hn).elim
  | guard why =>
    simp only [goPc] at hs
    split at hs
    · rename_i hrunning
      cases hs
      exact h.at_ ⟨fun _ => hrunning, fun _ _ => trivial, trivial⟩
    · cases hs
      exact h.ends
  | guardReading why =>
    cases hs
    refine h.at_ ⟨hpc.running, fun row hrow hstatus => ?_, trivial⟩
    refine mem_map_of_mem (mem_filter.mpr ⟨hrow, ?_⟩)
    simpa using hstatus
  | guardMarking why left =>
    cases left with
    | nil =>
      cases hs
      exact goGuarded_sound h hpc
    | cons id left =>
      cases hs
      exact goGuardMarking_sound h hpc look

theorem onFail_sound (h : s.Sound parse) {message : Option String} {pc : Pc}
    (hs : s.onFail message pc = some s') : s'.Sound parse := by
  unfold onFail at hs
  split at hs
  all_goals first
    | (obtain rfl := Option.some.inj hs; exact h.ends)
    | (obtain rfl := Option.some.inj hs; exact h.at_ (guard_holds ..))
    | cases hs
    | skip
  all_goals
    split at hs
    · cases hs
      exact h.ends
    · cases hs
      exact h.at_ (guard_holds ..)
    · cases hs

end Machine

end Yardsort.Smoke.Runner
