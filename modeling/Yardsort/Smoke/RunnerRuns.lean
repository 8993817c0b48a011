import Yardsort.Smoke.Queue
import Yardsort.Smoke.RunnerRows

/- A run while its thread carries it out, and when it is over.

   A person's answer is the only thing that moves a step beside the thread, and only one that
   waits. However the run went, when it is over nothing of it is left pending, running or
   waiting, and its verdict is what its steps say (`over_run_settled`). -/
namespace Yardsort.Smoke.Runner
open Yardsort.Lib

theorem Pc.Holds.row {run : TestRun} {pc : Pc} (h : pc.Holds run) {row : TestRunRow}
    (hrow : pc.going = true → row.status = .running) : pc.Holds { run with row } := by
  have hfits : ∀ {g : Going} {ahead : List Step}, g.Fits ahead run →
      g.Fits ahead { run with row } :=
    fun hg => ⟨hg.shape, hg.ahead, hg.outcome, hg.teardown, hg.failed⟩
  refine ⟨hrow, h.rows, ?_⟩
  have hf := h.fits
  cases pc with
  | looping g => exact hfits hf
  | noting g step stop how => exact ⟨hfits hf.1, hf.2⟩
  | skippingStep g step stop => exact ⟨hfits hf.1, hf.2⟩
  | waitStopping g step stop => exact ⟨hfits hf.1, hf.2⟩
  | beginning g step => exact ⟨hfits hf.1, hf.2⟩
  | waiting g step => exact hfits hf
  | waitPolling g step => exact hfits hf
  | executing g step => exact hfits hf
  | ending g step done => exact ⟨hfits hf.1, hf.2⟩
  | skipReading k => exact hf
  | skipping k left => exact hf
  | _ => exact hf

theorem Pc.Holds.moves {run : TestRun} {pc : Pc} (h : pc.Holds run)
    {when_ : TestStepRow → Bool} {f : TestStepRow → TestStepRow} (hf : Keeps f)
    (hwhen : ∀ row, when_ row = true → row.status ≠ .failed)
    (hrows : ∀ row ∈ run.steps, pc.RowOk row → pc.RowOk (if when_ row then f row else row)) :
    pc.Holds (run.mapSteps when_ f) := by
  refine ⟨h.running, rows_mapSteps fun row hrow => hrows row hrow (h.rows row hrow), ?_⟩
  have hfits := h.fits
  cases pc with
  | looping g | waiting g step | waitPolling g step
  | executing g step => exact mapSteps_fits hf hwhen hfits
  | noting g step stop how | skippingStep g step stop | waitStopping g step stop | beginning g step
  | ending g step done => exact ⟨mapSteps_fits hf hwhen hfits.1, hfits.2⟩
  | preparing test | starting test port outputDir => exact mapSteps_shape hf hfits
  | skipReading k => exact Machine.skip_fits hf hwhen hfits
  | skipping k left =>
    obtain ⟨hk, hnodup, hthere⟩ := hfits
    refine ⟨Machine.skip_fits hf hwhen hk, hnodup, fun id hid => ?_⟩
    obtain ⟨row, hrow, heq⟩ := hthere id hid
    refine ⟨_, mem_map_of_mem hrow, ?_⟩
    split
    · exact (hf row).1.trans heq
    · exact heq
  | verdict g => exact fun hfailed => mapSteps_failed hwhen (hfits hfailed)
  | finishing status error =>
    exact ⟨hfits.1, fun hfailed => (hfits.2 hfailed).imp_right (mapSteps_failed hwhen)⟩
  | _ => exact hfits

/-! ### An answer -/

variable {row : TestStepRow}

theorem Behind.not_waiting {clean : Prop} (h : Behind clean row) :
    row.status ≠ .waiting := by
  intro heq
  have hfinal := h.final
  rw [heq] at hfinal
  cases hfinal

theorem final_not_waiting (h : row.status.isFinal = true) :
    row.status ≠ .waiting := by
  intro heq
  rw [heq] at h
  cases h

theorem Going.Row.not_waiting {g : Going} {clean : Prop} (h : g.Row clean row) :
    row.status ≠ .waiting := by
  intro heq
  by_cases hahead : g.Ahead row
  · rw [h.1 hahead] at heq
    cases heq
  · exact (h.2 hahead).not_waiting heq

theorem Idle.not_waiting (h : Idle row) : row.status ≠ .waiting := by
  intro heq
  obtain hpending | hfinal := h
  · rw [hpending] at heq
    cases heq
  · exact final_not_waiting hfinal heq

theorem Going.Around.not_waiting {g : Going} {step : Step} {clean : Prop}
    {here : TestStepRow → Prop} (h : g.Around step clean here row)
    (hhere : here row → row.status ≠ .waiting) : row.status ≠ .waiting := by
  by_cases hid : row.stepId = step.id
  · exact hhere (h.1 hid)
  · exact (h.2 hid).not_waiting

theorem pending_not_waiting (h : row.status = .pending) :
    row.status ≠ .waiting := by
  rw [h]
  nofun

theorem Runs.not_waiting (h : Runs row) : row.status ≠ .waiting := by
  rw [h.2]
  nofun

def Pc.waits : Pc → Bool
  | .waiting .. | .waitPolling .. | .waitStopping .. | .guardReading _ | .guardMarking .. => true
  | pc => !pc.going

theorem Pc.RowOk.not_waiting {pc : Pc} (h : pc.RowOk row) (hpc : pc.waits = false) :
    row.status ≠ .waiting := by
  cases pc with
  | looping g => exact Going.Row.not_waiting h
  | noting g step stop how =>
    cases how with
    | between =>
      have haround : g.Around step False (·.status = .pending) row := h
      exact haround.not_waiting pending_not_waiting
    | answered | ended =>
      have haround : g.Around step False (·.status.isFinal = true) row := h
      exact haround.not_waiting final_not_waiting
  | skippingStep g step stop =>
    have haround : g.Around step False (·.status = .pending) row := h
    exact haround.not_waiting pending_not_waiting
  | beginning g step =>
    have haround : g.Around step g.Clean (·.status = .pending) row := h
    exact haround.not_waiting pending_not_waiting
  | executing g step | ending g step done =>
    have haround : g.Around step g.Clean Runs row := h
    exact haround.not_waiting Runs.not_waiting
  | skipReading k => exact h.1.not_waiting
  | skipping k left => exact (Skip.Row.idle h).not_waiting
  | verdict g | finishing status error => exact Behind.not_waiting h
  | erroredEnd why | guardEnd why => exact final_not_waiting h
  | _ => cases hpc

theorem answered_else (h : row.status ≠ .waiting) {stepId : String} {change : StepChange}
    {now : Int} :
    (if TestRun.movable stepId [.waiting] row then row.moved change now else row) = row :=
  if_neg fun hm => h (mem_singleton.mp (movable_iff.mp hm).2)

theorem Going.Around.answered {g : Going} {step : Step} {clean : Prop} {row : TestStepRow}
    (h : g.Around step clean Waits row) {stepId : String} {change : StepChange} {now : Int}
    (hto : change.to_ = .passed ∨ change.to_ = .failed) :
    g.Around step clean Waits
      (if TestRun.movable stepId [.waiting] row then row.moved change now else row) := by
  have hfinal : change.to_.isFinal = true := by
    obtain heq | heq := hto <;> rw [heq] <;> rfl
  by_cases hid : row.stepId = step.id
  · refine ⟨fun _ => ?_, fun hne => absurd ?_ hne⟩
    · split
      · refine ⟨?_, .inr hto⟩
        show (if change.to_.isFinal then row.startedAt else _).isSome = true
        rw [if_pos hfinal]
        exact (h.1 hid).1
      · exact h.1 hid
    · split <;> exact hid
  · rw [answered_else (h.2 hid).not_waiting]
    exact h

theorem Pc.RowOk.answered {pc : Pc} {row : TestStepRow} (h : pc.RowOk row) {stepId : String}
    {change : StepChange} {now : Int} (hto : change.to_ = .passed ∨ change.to_ = .failed) :
    pc.RowOk (if TestRun.movable stepId [.waiting] row then row.moved change now else row) := by
  cases hpc : pc.waits with
  | false =>
    rw [answered_else (h.not_waiting hpc)]
    exact h
  | true =>
    cases pc with
    | waiting g step | waitPolling g step
    | waitStopping g step stop => exact Going.Around.answered h hto
    | guardMarking why left =>
      intro hstatus
      split at hstatus
      · rw [show (row.moved change now).status = change.to_ from rfl] at hstatus
        obtain heq | heq := hto <;> rw [heq] at hstatus <;> obtain hs | hs := hstatus <;> cases hs
      · rename_i hm
        rw [if_neg hm]
        exact h hstatus
    | reading | preparing | erroring | starting | guard | guardReading => trivial
    | _ => cases hpc

namespace Machine

variable {parse : String → Option Test} {s s' : Machine}

def Up (s : Machine) : Prop := s.recovered = false → s.thread = none ∧ s.listed = false

/-- What the thread does not touch. -/
structure Beside (s s' : Machine) : Prop where
  recovered : s'.recovered = s.recovered
  listed : s'.listed = s.listed
  asked : s'.asked = s.asked
  crashed : s'.crashed = s.crashed

theorem mark_beside (s : Machine) (stepId : String) (from_ : List StepStatus)
    (change : StepChange) (now : Int) (ok missed : Pc) :
    s.Beside (s.mark stepId from_ change now ok missed) := ⟨rfl, rfl, rfl, rfl⟩

theorem goStep_beside (s : Machine) (g : Going) (step : Step) (look : Look) :
    s.Beside (s.goStep g step look) := by
  unfold goStep
  split
  · exact mark_beside ..
  · split <;> exact ⟨rfl, rfl, rfl, rfl⟩

theorem begin_beside (s : Machine) (g : Going) (step : Step) (look : Look) :
    s.Beside (s.begin_ g step look) := by
  unfold begin_
  dsimp only
  split <;> exact ⟨rfl, rfl, rfl, rfl⟩

theorem goWaiting_beside (s : Machine) (g : Going) (step : Step) (status : Option StepStatus) :
    s.Beside (s.goWaiting g step status) := by
  unfold goWaiting
  split <;> exact ⟨rfl, rfl, rfl, rfl⟩

theorem goExecuting_beside {g : Going} {step : Step} {look : Look}
    (hs : s.goExecuting g step look = some s') : s.Beside s' := by
  unfold goExecuting at hs
  split at hs
  · cases hs
  split at hs
  · cases hs
    exact ⟨rfl, rfl, rfl, rfl⟩
  · cases hs

theorem goPc_beside {look : Look} {pc : Pc} (hs : s.goPc parse look pc = some s') :
    s.Beside s' := by
  unfold goPc at hs
  split at hs
  case h_12 => exact goExecuting_beside hs
  case h_5 =>
    split at hs <;> obtain rfl := Option.some.inj hs
    · exact ⟨rfl, rfl, rfl, rfl⟩
    · exact goStep_beside ..
  case h_8 => obtain rfl := Option.some.inj hs; exact begin_beside ..
  case h_9 => obtain rfl := Option.some.inj hs; exact goWaiting_beside ..
  all_goals try dsimp only at hs
  all_goals first
    | (obtain rfl := Option.some.inj hs; exact ⟨rfl, rfl, rfl, rfl⟩)
    | (split at hs <;> obtain rfl := Option.some.inj hs <;> exact ⟨rfl, rfl, rfl, rfl⟩)

theorem onFail_beside {message : Option String} {pc : Pc} (hs : s.onFail message pc = some s') :
    s.Beside s' := by
  unfold onFail at hs
  split at hs
  all_goals first
    | (obtain rfl := Option.some.inj hs; exact ⟨rfl, rfl, rfl, rfl⟩)
    | cases hs
    | (split at hs <;> first
        | (obtain rfl := Option.some.inj hs; exact ⟨rfl, rfl, rfl, rfl⟩)
        | cases hs)

theorem Sound.closes (h : s.Sound parse) {s₁ : Machine} {when_ : TestStepRow → Bool}
    {f : TestStepRow → TestStepRow} (row : TestRunRow)
    (hrun : s₁.run = { s.run.mapSteps when_ f with row }) (hf : Keeps f)
    (hdefinition : row.definition = s.run.row.definition)
    (hover : row.status.active = false ∧ s₁.Over) (hopened : s₁.opened = s.opened)
    (hthread : s₁.thread = s.thread) (hidle : ∀ pc ∈ s.thread, pc.going = false) :
    s₁.Sound parse where
  ids := by
    rw [hrun, show ({ s.run.mapSteps when_ f with row } : TestRun).steps =
      (s.run.mapSteps when_ f).steps from rfl, mapSteps_ids hf]
    exact h.ids
  shape := by
    obtain ⟨test, hparse, hshape⟩ := h.shape
    rw [hrun]
    have hmapped : Shape test (s.run.mapSteps when_ f) := mapSteps_shape hf hshape
    exact ⟨test, hdefinition ▸ hparse, hmapped⟩
  queued := by
    rw [hrun]
    rintro (heq | heq) <;> rw [show row.status = _ from heq] at hover <;> cases hover.1
  atEnd _ := hover.2
  thread := by
    intro pc hpc
    rw [hthread] at hpc
    have hnot := hidle pc hpc
    have hfits := (h.thread pc hpc).fits
    rw [hrun]
    cases pc with
    | reading | erroring why | guard why => exact ⟨nofun, fun _ _ => trivial, trivial⟩
    | preparing test | starting test port outputDir =>
      have hmapped : Shape test (s.run.mapSteps when_ f) := mapSteps_shape hf hfits
      exact ⟨nofun, fun _ _ => trivial, hmapped⟩
    | _ => cases hnot
  opened := by
    rw [hopened]
    exact h.opened

theorem Sound.idle (h : s.Sound parse) (hnot : s.run.row.status ≠ .running) :
    ∀ pc ∈ s.thread, pc.going = false := by
  intro pc hpc
  by_contra hgoing
  exact hnot ((h.thread pc hpc).running (by simpa using hgoing))

theorem cancel_cases (run : TestRun) (reason : String) (now : Int) :
    ((run.row.status = .awaitingApproval ∨ run.row.status = .queued) ∧
      run.cancel reason now =
        (true, { run.mapSteps (!·.status.isFinal)
            (fun row => { row with status := .cancelled, endedAt := some now }) with
          row := { run.row with
            status := .cancelled, error := some reason, endedAt := some now } })) ∨
    ((run.row.status = .running ∧ run.row.cancelRequestedAt = none) ∧
      run.cancel reason now =
        (true, { run with row := { run.row with
          cancelRequestedAt := some now, error := some reason } })) ∨
    run.cancel reason now = (false, run) := by
  unfold TestRun.cancel
  split
  · rename_i hwaits
    exact .inl ⟨hwaits, rfl⟩
  · split
    · rename_i hrunning
      exact .inr (.inl ⟨hrunning, rfl⟩)
    · exact .inr (.inr rfl)

theorem endInterrupted_final {run : TestRun} (hrunning : run.row.status = .running)
    (error : String) (now : Int) :
    ∃ f, Keeps f ∧ (∀ row, (f row).status.isFinal = true) ∧
      run.endInterrupted error now =
        { run.mapSteps (fun _ => true) f with row := { run.row with
          status := .errored, error := some error, endedAt := some now } } := by
  refine ⟨fun row =>
    if row.status = .running || row.status = .waiting then
      { row with status := .failed, endedAt := some now, note := some error }
    else if row.status = .pending then { row with status := .skipped, endedAt := some now }
    else row, ?_, ?_, ?_⟩
  · intro row
    dsimp only
    split
    · exact ⟨rfl, rfl⟩
    · split <;> exact ⟨rfl, rfl⟩
  · intro row
    dsimp only
    split
    · rfl
    rename_i hgoes
    split
    · rfl
    · rename_i hpending
      cases hstatus : row.status <;> simp_all [StepStatus.isFinal]
  · rw [TestRun.endInterrupted, if_pos hrunning]
    simp only [TestRun.mapSteps, map_map]
    congr 1
    refine map_congr_left fun row _ => ?_
    simp only [Function.comp, if_true]
    split
    · rfl
    · simp only [decide_eq_true_eq]

theorem Sound.step (h : s.Sound parse) (hup : s.Up) {a : Act} (hs : s.step parse a = some s') :
    s'.Sound parse := by
  cases a with
  | approve =>
    cases hs
    unfold TestRun.approve
    split
    · rename_i hwaits
      obtain ⟨hpending, hbegun⟩ := h.queued (.inl hwaits)
      refine h.rows rfl rfl rfl (fun _ => ⟨hpending, hbegun⟩) nofun fun pc hpc => ?_
      refine (h.thread pc hpc).row fun hgoing => ?_
      have hrunning := (h.thread pc hpc).running hgoing
      rw [hwaits] at hrunning
      cases hrunning
    · exact { h with atEnd := fun hover => { h.atEnd hover with } }
  | refuse now =>
    cases hs
    unfold TestRun.refuse
    split
    · rename_i hwaits
      obtain ⟨hpending, hbegun⟩ := h.queued (.inl hwaits)
      refine h.closes { s.run.row with status := .refused, endedAt := some now }
        rfl (fun _ => ⟨rfl, rfl⟩) rfl ⟨rfl, ?_, nofun, nofun, ?_⟩ rfl rfl
        (h.idle (by rw [hwaits]; nofun))
      · refine rows_mapSteps fun row hrow => ?_
        rw [if_pos (decide_eq_true (hpending row hrow))]
        rfl
      · intro hyes
        rw [show s.begun = true from hyes] at hbegun
        cases hbegun
    · exact { h with atEnd := fun hover => { h.atEnd hover with } }
  | cancel reason now =>
    simp only [Machine.step] at hs
    obtain ⟨hwaits, heq⟩ | ⟨hrunning, heq⟩ | heq := cancel_cases s.run reason now
    · obtain ⟨hpending, hbegun⟩ := h.queued hwaits
      rw [heq] at hs
      cases hs
      refine h.closes
        { s.run.row with status := .cancelled, error := some reason, endedAt := some now }
        rfl (fun _ => ⟨rfl, rfl⟩) rfl ⟨rfl, ?_, nofun, nofun, ?_⟩ rfl rfl (h.idle fun heq => ?_)
      · refine rows_mapSteps fun row _ => ?_
        split
        · rfl
        · rename_i hfinal
          simpa using hfinal
      · intro hyes
        rw [show s.begun = true from hyes] at hbegun
        cases hbegun
      · rw [heq] at hwaits
        obtain hwaits | hwaits := hwaits <;> cases hwaits
    · rw [heq] at hs
      cases hs
      refine h.rows rfl rfl rfl (fun hwaits => ?_) (fun hover => ?_) fun pc hpc => ?_
      · rw [show s.run.row.status = .running from hrunning.1] at hwaits
        obtain hwaits | hwaits := hwaits <;> cases hwaits
      · rw [show s.run.row.status = .running from hrunning.1] at hover
        cases hover
      · exact (h.thread pc hpc).row fun _ => hrunning.1
    · rw [heq] at hs
      cases hs
      exact { h with atEnd := fun hover => { h.atEnd hover with } }
  | answer stepId outputs passed note now =>
    cases hs
    by_cases hrunning : s.run.row.status = .running
    · rw [moveStep_running hrunning]
      have hto : (TestRun.answerChange outputs passed note).to_ = .passed ∨
          (TestRun.answerChange outputs passed note).to_ = .failed := by
        cases passed
        · exact .inr rfl
        · exact .inl rfl
      refine h.moves hrunning (moved_keeps _ _) rfl fun pc hpc => ?_
      exact (h.thread pc hpc).moves (moved_keeps _ _) (movable_failed (by decide))
        fun row _ hrow => hrow.answered hto
    · rw [moveStep_not_running hrunning]
      exact { h with atEnd := fun hover => { h.atEnd hover with } }
  | crash =>
    cases hs
    exact { h with
      atEnd := fun hover => { h.atEnd hover with }
      thread := fun _ hpc => (not_mem_none _ hpc).elim }
  | recover now =>
    simp only [Machine.step] at hs
    split at hs
    · cases hs
    rename_i hdown
    cases hs
    by_cases hrunning : s.run.row.status = .running
    · obtain ⟨f, hf, hfinal, heq⟩ := endInterrupted_final hrunning INTERRUPTED now
      rw [heq]
      refine h.closes
        { s.run.row with status := .errored, error := some INTERRUPTED, endedAt := some now }
        rfl hf rfl ⟨rfl, rows_mapSteps fun row _ => ?_, nofun, nofun,
          fun _ hne => absurd rfl hne⟩ rfl rfl fun pc hpc => ?_
      · rw [if_pos rfl]
        exact hfinal row
      · rw [(hup (by simpa using hdown)).1] at hpc
        cases hpc
    · rw [TestRun.endInterrupted, if_neg hrunning]
      exact { h with atEnd := fun hover => { h.atEnd hover with } }
  | list =>
    simp only [Machine.step] at hs
    split at hs
    · cases hs
      exact { h with atEnd := fun hover => { h.atEnd hover with } }
    · cases hs
  | spawn =>
    simp only [Machine.step] at hs
    split at hs
    · cases hs
      exact { h with
        atEnd := fun hover => { h.atEnd hover with }
        thread := fun pc hpc => Option.some.inj hpc ▸ ⟨nofun, fun _ _ => trivial, trivial⟩ }
    · cases hs
  | launched outputs now =>
    simp only [Machine.step] at hs
    split at hs
    · rename_i g step hthread
      split at hs
      · cases hs
        have hpc := h.thread _ hthread
        rw [moveStep_running (hpc.running rfl)]
        refine h.moves (hpc.running rfl) (moved_keeps _ _) rfl fun pc hpc' => ?_
        cases hthread.symm.trans hpc'
        refine hpc.moves (moved_keeps _ _) (movable_failed (by decide)) fun row _ hrow => ?_
        have haround : g.Around step g.Clean Runs row := hrow
        refine haround.stays (fun hc => hc) fun hid hruns => ?_
        rw [if_movable hid (hruns.2 ▸ mem_cons_self ..)]
        refine ⟨?_, rfl⟩
        cases hstarted : row.startedAt <;> simp [TestStepRow.moved, StepStatus.isFinal, hstarted]
      · cases hs
    · cases hs
  | go look =>
    obtain ⟨pc, hpc, hgo⟩ := bind_eq_some_iff.mp hs
    exact goPc_sound h (h.thread pc hpc) hgo
  | fail message =>
    obtain ⟨pc, -, hfail⟩ := bind_eq_some_iff.mp hs
    exact onFail_sound h hfail

theorem up_step (hup : s.Up) {a : Act} (hs : s.step parse a = some s') : s'.Up := by
  have hstill : ∀ {s₁ : Machine}, s.Beside s₁ → s.thread.isSome = true → s₁.Up := by
    intro s₁ hbeside hthread hdown
    rw [(hup (hbeside.recovered ▸ hdown)).1] at hthread
    cases hthread
  cases a with
  | approve | refuse now | cancel reason now
  | answer stepId outputs passed note now => obtain rfl := Option.some.inj hs; exact hup
  | crash => obtain rfl := Option.some.inj hs; exact fun _ => ⟨rfl, rfl⟩
  | recover now =>
    simp only [Machine.step] at hs
    split at hs
    · cases hs
    · cases hs
      exact nofun
  | list =>
    simp only [Machine.step] at hs
    split at hs
    · rename_i hgoes
      cases hs
      intro hdown
      rw [show s.recovered = false from hdown] at hgoes
      exact nomatch hgoes.1
    · cases hs
  | spawn =>
    simp only [Machine.step] at hs
    split at hs
    · rename_i hgoes
      cases hs
      intro hdown
      rw [(hup hdown).2] at hgoes
      exact nomatch hgoes.1
    · cases hs
  | launched outputs now =>
    simp only [Machine.step] at hs
    split at hs
    · split at hs
      · cases hs
        exact hup
      · cases hs
    · cases hs
  | go look =>
    obtain ⟨pc, hpc, hgo⟩ := bind_eq_some_iff.mp hs
    exact hstill (goPc_beside hgo) (hpc ▸ rfl)
  | fail message =>
    obtain ⟨pc, hpc, hfail⟩ := bind_eq_some_iff.mp hs
    exact hstill (onFail_beside hfail) (hpc ▸ rfl)

theorem queuedSteps_shape {test : Test} {run : TestRun}
    (h : run.steps = TestRun.queuedSteps test) : Shape test run := by
  rw [Shape, h, TestRun.queuedSteps, map_map]
  rfl

theorem Fresh.sound (h : s.Fresh parse) : s.Sound parse ∧ s.Up := by
  obtain ⟨test, hparse, hsteps⟩ := h.steps
  obtain ⟨hbegun, hopened, -, -⟩ := h.nothing
  have hpending : ∀ row ∈ s.run.steps, row.status = .pending := by
    intro row hrow
    rw [hsteps] at hrow
    obtain ⟨entry, -, rfl⟩ := mem_map.mp hrow
    rfl
  refine ⟨⟨h.ids, ⟨test, hparse, queuedSteps_shape hsteps⟩, fun _ => ⟨hpending, hbegun⟩, ?_, ?_, ?_⟩,
    fun _ => h.idle.symm⟩
  · intro hover
    obtain heq | heq := h.status <;> rw [heq] at hover <;> cases hover
  · intro pc hpc
    rw [h.idle.2] at hpc
    cases hpc
  · intro o ho
    rw [hopened] at ho
    exact (not_mem_nil ho).elim

theorem run_sound {s₀ : Machine} (h : s₀.Fresh parse) {as : List Act}
    (hr : Lib.run (step parse) s₀ as = some s) : s.Sound parse ∧ s.Up := by
  have hstep : ∀ (s₁ : Machine) a s₂, s₁.Sound parse ∧ s₁.Up → s₁.step parse a = some s₂ →
      s₂.Sound parse ∧ s₂.Up := fun _ _ _ hi hs => ⟨hi.1.step hi.2 hs, up_step hi.2 hs⟩
  exact run_invariant hstep hr h.sound

/-- **What a run that is over says.** None of its steps is left pending, running or waiting; it
    passed only if all its setup and steps did, and failed only if some step did or it says why;
    and a setup or steps-phase step was started only with all the ones before it passed. -/
theorem over_run_settled {s₀ : Machine} (h : s₀.Fresh parse) {as : List Act}
    (hr : Lib.run (step parse) s₀ as = some s) :
    (∃ test, parse s.run.row.definition = some test ∧ Shape test s.run) ∧
    (s.run.row.status.active = false →
      (∀ row ∈ s.run.steps, row.status.isFinal = true) ∧
      (s.run.row.status = .passed →
        ∀ row ∈ s.run.steps, row.phase ≠ .teardown → row.status = .passed) ∧
      (s.run.row.status = .failed →
        s.run.row.error.isSome = true ∨ ∃ row ∈ s.run.steps, row.status = .failed)) ∧
    ∀ o ∈ s.opened, o.phase ≠ .teardown → ∀ status ∈ o.before, status = .passed := by
  obtain ⟨hsound, -⟩ := run_sound h hr
  refine ⟨hsound.shape, fun hover => ?_, hsound.opened⟩
  have hover := hsound.atEnd hover
  exact ⟨hover.final, hover.passed, hover.failed⟩

theorem newRun_fresh {hash : String → String} {asked : Asked} {inputs : Pairs} {approved : Bool}
    {id : String} {now : Int} {recovered : Bool} (hparse : parse asked.entry.text = some asked.test)
    (hids : ((TestRun.queuedSteps asked.test).map (·.stepId)).Nodup) :
    Fresh parse
      ⟨newRun hash asked inputs approved id now, recovered, false, none, false, [], none, false⟩ where
  status := by
    cases approved
    · exact .inl rfl
    · exact .inr rfl
  notAsked := rfl
  steps := ⟨asked.test, hparse, rfl⟩
  ids := hids
  idle := ⟨rfl, rfl⟩
  nothing := ⟨rfl, rfl, rfl, rfl⟩

end Machine

def greetFile : String :=
  "id: greet\nname: Greet\nversion: 1\nsteps:\n  - id: say\n    action: run\n" ++
    "    program: echo\n    args: [hello]\n  - id: confirm\n    action: manual\n" ++
    "    prompt: Did it say hello?\nteardown:\n  - id: clean\n    action: run\n" ++
    "    program: rm\n    args: [-f, greeting]\n"

def runStep (id program : String) (args : List String) : Step where
  id := id
  action := .run program args none [] none ⟨.code 0, none, none, false, none⟩ none

/-- Say hello, have a person confirm it, and clean up. -/
def greet : Test where
  id := "greet"
  name := "Greet"
  inputs := []
  timeoutSecs := 1800
  setup := []
  steps := [runStep "say" "echo" ["hello"], ⟨"confirm", .manual "Did it say hello?"⟩]
  teardown := [runStep "clean" "rm" ["-f", "greeting"]]

def readGreet (text : String) : Option Test := if text = greetFile then some greet else none

/-- The run of it that an agent asked for, its file approved. -/
def greetQueued : Machine where
  run := newRun (fun _ => "") ⟨⟨"greet", "w", [], "agent", none, false⟩, none,
    ⟨"w", "p", "task", "/w", false, false⟩, ⟨"greet", [], some greet, greetFile⟩, greet⟩ [] true "r1" 5
  recovered := true
  listed := false
  thread := none
  begun := false
  opened := []
  asked := none
  crashed := false

theorem greet_fresh : greetQueued.Fresh readGreet :=
  Machine.newRun_fresh (if_pos rfl) (by decide)

def goOn (times : Nat) : List Act := List.replicate times (.go {})

def passes : Act := .go { done := some ⟨.passed, some 0, [], none, [], none⟩ }

def greetWaits : List Act :=
  [Act.list, .spawn] ++ goOn 6 ++ [passes] ++ goOn 4

def greetRefused : List Act :=
  greetWaits ++ Act.answer "confirm" [] false (some "It said nothing.") 9 :: goOn 7 ++
    [passes] ++ goOn 5

theorem refused_greet_settled : ∃ s, Lib.run (Machine.step readGreet) greetQueued greetRefused = some s ∧
    s.run.row.status = .failed ∧ (∀ row ∈ s.run.steps, row.status.isFinal = true) ∧
    (s.run.row.error.isSome = true ∨ ∃ row ∈ s.run.steps, row.status = .failed) := by
  have h : (Lib.run (Machine.step readGreet) greetQueued greetRefused).map
      (fun s => s.run.row.status) = some .failed := by decide +kernel
  obtain ⟨s, hs, hstatus⟩ := map_eq_some_iff.mp h
  obtain ⟨-, hover, -⟩ := Machine.over_run_settled greet_fresh hs
  obtain ⟨hfinal, -, hfailed⟩ := hover (by rw [hstatus]; rfl)
  exact ⟨s, hs, hstatus, hfinal, hfailed hstatus⟩

end Yardsort.Smoke.Runner
