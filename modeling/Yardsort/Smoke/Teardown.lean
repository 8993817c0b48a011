import Yardsort.Smoke.RunnerRuns

/- Every teardown step is run before the run ends, whatever setup and steps did.

   The thread takes a step that did not move for the sign that its run ended from outside, and
   leaves the rest to the guard, which skips the teardown and ends the run as errored. A person's
   answer can be that step's move: one that comes after the thread has read the step as waiting,
   and then decides to stop it (`answered_while_stopped`). Where a step is still waiting whenever
   the thread comes to stop it, every move is the thread's own (`teardown_ran`). -/
namespace Yardsort.Smoke.Runner
open Yardsort.Lib

/-- Where the thread goes on with the phases of a run, up to its end. -/
def Pc.carries : Pc → Bool
  | .looping _ | .noting .. | .skippingStep .. | .beginning .. | .waiting .. | .waitPolling ..
  | .waitStopping .. | .executing .. | .ending .. | .verdict _ | .finishing .. => true
  | .skipReading k | .skipping k _ => match k.after with
    | .phases _ => true
    | .errored _ | .guard _ => false
  | .reading | .preparing _ | .erroring _ | .starting .. | .erroredEnd _ | .guard _
  | .guardReading _ | .guardMarking .. | .guardEnd _ => false

namespace Machine

/-- No store failure, and no crash while the run is going. -/
def undisturbed (s : Machine) : Act → Bool
  | .fail _ => false
  | .crash => s.run.row.status ≠ .running
  | _ => true

/-- A step that the thread comes to stop is still waiting. -/
def stillWaits (s : Machine) : Act → Bool
  | .go _ => match s.thread with
    | some (.waitStopping _ step _) => (s.run.step step.id).any (·.status = .waiting)
    | _ => true
  | _ => true

/-- A run that was begun has its thread until it ends, and does not end as errored. -/
structure Carried (s : Machine) : Prop where
  going : s.begun = true → s.run.row.status = .running → ∃ pc, s.thread = some pc ∧ pc.carries = true
  atEnd : s.begun = true → s.run.row.status ≠ .errored

variable {parse : String → Option Test} {s s' : Machine}

/-- The thread goes on with the run's phases, and the run's row is as it was. -/
def GoesOn (s s' : Machine) : Prop :=
  (∃ pc, s'.thread = some pc ∧ pc.carries = true) ∧ s'.run.row = s.run.row

theorem at_goesOn (s : Machine) {pc : Pc} (hpc : pc.carries = true) : s.GoesOn (s.at_ pc) :=
  ⟨⟨pc, rfl, hpc⟩, rfl⟩

theorem mark_goesOn (hrunning : s.run.row.status = .running) {stepId : String}
    {status : StepStatus} {change : StepChange} {now : Int} {ok missed : Pc}
    (hthere : ∃ row ∈ s.run.steps, row.stepId = stepId ∧ row.status = status)
    (hok : ok.carries = true) : s.GoesOn (s.mark stepId [status] change now ok missed) := by
  obtain ⟨row, hrow, hid, hstatus⟩ := hthere
  have hany : s.run.steps.any (TestRun.movable stepId [status]) = true :=
    List.any_eq_true.mpr ⟨row, hrow, movable_iff.mpr ⟨hid, hstatus ▸ mem_cons_self ..⟩⟩
  rw [Machine.mark, moveStep_running hrunning, hany]
  exact ⟨⟨ok, rfl, hok⟩, rfl⟩

theorem here_row (h : s.Sound parse) {g : Going} {step : Step} {clean : Prop}
    {here : TestStepRow → Prop} (hfits : g.Fits (step :: g.rest) s.run)
    (hrows : ∀ row ∈ s.run.steps, g.Around step clean here row) :
    ∃ row ∈ s.run.steps, row.stepId = step.id ∧ here row := by
  obtain ⟨⟨row, hrow, hid⟩, -, -⟩ := hfits.head h.ids
  exact ⟨row, hrow, hid, (hrows row hrow).1 hid⟩

theorem afterPhase_carries (g : Going) : (afterPhase g).carries = true := by
  have hphases : (afterPhases g).carries = true := by
    unfold afterPhases
    dsimp only
    split <;> rfl
  unfold afterPhase
  split
  · split
    · rfl
    · exact hphases
  · exact hphases
  · rfl

theorem goStep_goesOn (h : s.Sound parse) {g : Going} {step : Step}
    (hrunning : s.run.row.status = .running) (hfits : g.Fits (step :: g.rest) s.run)
    (hrows : ∀ row ∈ s.run.steps, g.Around step g.Clean (·.status = .pending) row) (look : Look) :
    s.GoesOn (s.goStep g step look) := by
  rw [Machine.goStep]
  split
  · exact mark_goesOn hrunning (here_row h hfits hrows) rfl
  · split <;> exact at_goesOn s rfl

theorem begin_goesOn (h : s.Sound parse) {g : Going} {step : Step}
    (hpc : (Pc.beginning g step).Holds s.run) (look : Look) :
    s.GoesOn (s.begin_ g step look) := by
  have hrows : ∀ row ∈ s.run.steps, g.Around step g.Clean (·.status = .pending) row := hpc.rows
  obtain ⟨row, hrow, hid, hpending⟩ := here_row h hpc.fits.1 hrows
  have hany : s.run.steps.any (TestRun.movable step.id [.pending]) = true :=
    List.any_eq_true.mpr ⟨row, hrow, movable_iff.mpr ⟨hid, hpending ▸ mem_cons_self ..⟩⟩
  rw [Machine.begin_, moveStep_running (hpc.running rfl), hany]
  refine ⟨⟨_, rfl, ?_⟩, rfl⟩
  split <;> rfl

theorem goWaiting_goesOn (h : s.Sound parse) {g : Going} {step : Step}
    (hpc : (Pc.waiting g step).Holds s.run) :
    s.GoesOn (s.goWaiting g step ((s.run.step step.id).map (·.status))) := by
  have hrows : ∀ row ∈ s.run.steps, g.Around step g.Clean Waits row := hpc.rows
  obtain ⟨row, hrow, hid, hwaits⟩ := here_row h hpc.fits hrows
  -- the row that is read is this one
  have hread : s.run.step step.id = some row := by
    cases hfound : s.run.step step.id with
    | none =>
      have hnone := List.find?_eq_none.mp hfound row hrow
      exact absurd (decide_eq_true hid) hnone
    | some found =>
      have hfid : found.stepId = step.id := by simpa using List.find?_some hfound
      rw [List.inj_on_of_nodup_map h.ids (mem_of_find?_eq_some hfound) hrow
        (hfid.trans hid.symm)]
  rw [hread, map_some]
  obtain hstatus | hstatus | hstatus := hwaits.2 <;> rw [hstatus] <;> exact at_goesOn s rfl

/-- The thread's next operation, where it goes on with a run it began: it still does, or the run
    ended, and not as errored. -/
theorem goPc_goesOn (h : s.Sound parse) {pc : Pc} (hthread : s.thread = some pc)
    (hcarries : pc.carries = true) {look : Look} (hstill : s.stillWaits (.go look) = true)
    (hs : s.goPc parse look pc = some s') :
    s.GoesOn s' ∨ ((∃ status error, pc = .finishing status error) ∧
      s'.run.row.status ≠ .running ∧ s'.run.row.status ≠ .errored) := by
  have hpc := h.thread pc hthread
  cases pc with
  | looping g =>
    left
    simp only [goPc] at hs
    split at hs
    · cases hs
      exact at_goesOn s (afterPhase_carries g)
    · rename_i step rest hrest
      cases hs
      have hfits : ({ g with rest } : Going).Fits (step :: rest) s.run :=
        { hpc.fits with ahead := hrest ▸ hpc.fits.ahead }
      obtain ⟨-, hphase, -⟩ := hfits.head h.ids
      exact goStep_goesOn h (hpc.running rfl) hfits
        (fun row hrow => (hpc.rows row hrow).around hrest (hphase row hrow)) look
  | noting g step stop how =>
    left
    have hafter : (afterNoting g step stop how).carries = true := by cases how <;> rfl
    simp only [goPc] at hs
    split at hs
    · cases hs
      exact at_goesOn s hafter
    · cases hs
      rw [moveStep_running (hpc.running rfl)]
      exact ⟨⟨_, rfl, hafter⟩, rfl⟩
  | skippingStep g step stop =>
    left
    cases hs
    have hrows : ∀ row ∈ s.run.steps, g.Around step False (·.status = .pending) row := hpc.rows
    exact mark_goesOn (hpc.running rfl) (here_row h hpc.fits.1 hrows) rfl
  | beginning g step =>
    left
    cases hs
    exact begin_goesOn h hpc look
  | waiting g step =>
    left
    cases hs
    exact goWaiting_goesOn h hpc
  | waitPolling g step =>
    left
    simp only [goPc] at hs
    split at hs <;> obtain rfl := Option.some.inj hs <;> exact at_goesOn s rfl
  | waitStopping g step stop =>
    left
    cases hs
    rw [stillWaits, hthread] at hstill
    have hstill : (s.run.step step.id).any (·.status = .waiting) = true := hstill
    cases hread : s.run.step step.id with
    | none =>
      rw [hread] at hstill
      cases hstill
    | some row =>
      rw [hread] at hstill
      have hid : row.stepId = step.id := by simpa using List.find?_some hread
      exact mark_goesOn (hpc.running rfl)
        ⟨row, mem_of_find?_eq_some hread, hid, of_decide_eq_true hstill⟩ rfl
  | executing g step =>
    left
    simp only [goPc] at hs
    unfold goExecuting at hs
    split at hs
    · cases hs
    split at hs
    · cases hs
      exact at_goesOn s rfl
    · cases hs
  | ending g step done =>
    left
    cases hs
    have hrows : ∀ row ∈ s.run.steps, g.Around step g.Clean Runs row := hpc.rows
    obtain ⟨row, hrow, hid, hruns⟩ := here_row h hpc.fits.1 hrows
    refine mark_goesOn (hpc.running rfl) ⟨row, hrow, hid, hruns.2⟩ ?_
    split <;> rfl
  | skipReading k =>
    left
    cases hs
    exact at_goesOn s hcarries
  | skipping k left =>
    left
    cases left with
    | nil =>
      cases hs
      refine at_goesOn s ?_
      unfold afterSkip
      split
      · rename_i hafter
        simp only [Pc.carries, hafter] at hcarries
        cases hcarries
      · rfl
      · rename_i hafter
        simp only [Pc.carries, hafter] at hcarries
        cases hcarries
    | cons id left =>
      cases hs
      obtain ⟨-, -, hthere⟩ := hpc.fits
      obtain ⟨row, hrow, hid⟩ := hthere id (mem_cons_self ..)
      have hlisted := Skip.Row.listed (hpc.rows row hrow)
      exact mark_goesOn (hpc.running rfl)
        ⟨row, hrow, hid, hlisted (hid ▸ mem_cons_self ..)⟩ hcarries
  | verdict g =>
    left
    cases hs
    exact at_goesOn s rfl
  | finishing status error =>
    right
    cases hs
    obtain ⟨hstatus, -⟩ := hpc.fits
    rw [finish_running (hpc.running rfl)]
    obtain rfl | rfl | rfl := hstatus <;>
      exact ⟨⟨_, _, rfl⟩, (fun h => by cases h), fun h => by cases h⟩
  | _ => cases hcarries

theorem goPc_begun {look : Look} {pc : Pc} (hs : s.goPc parse look pc = some s') :
    s'.begun = s.begun ∨ ∃ test port outputDir, pc = .starting test port outputDir := by
  cases pc with
  | starting test port outputDir => exact .inr ⟨test, port, outputDir, rfl⟩
  | looping g =>
    left
    simp only [goPc] at hs
    split at hs <;> obtain rfl := Option.some.inj hs
    · rfl
    unfold goStep
    split
    · rfl
    · split <;> rfl
  | beginning g step =>
    left
    cases hs
    unfold begin_
    dsimp only
    split <;> rfl
  | waiting g step =>
    left
    cases hs
    unfold goWaiting
    split <;> rfl
  | executing g step =>
    left
    simp only [goPc] at hs
    unfold goExecuting at hs
    split at hs
    · cases hs
    split at hs
    · cases hs
      rfl
    · cases hs
  | skipping k left
  | guardMarking why left => left; cases left <;> obtain rfl := Option.some.inj hs <;> rfl
  | reading | preparing | erroring | noting | waitPolling | guard =>
    left
    simp only [goPc] at hs
    split at hs <;> obtain rfl := Option.some.inj hs <;> rfl
  | _ => left; obtain rfl := Option.some.inj hs; rfl

theorem start_not_queued {run : TestRun} (h : run.row.status ≠ .queued) (port : Nat)
    (outputDir : String) (now : Int) : run.start port outputDir now = (false, run) := by
  rw [TestRun.start, if_neg h]

theorem goPc_over (hbegun : s.run.row.status ≠ .queued) {look : Look} {pc : Pc}
    (hpc : pc.going = false) (hs : s.goPc parse look pc = some s') : s'.run = s.run := by
  cases pc with
  | reading | preparing | guard why =>
    simp only [goPc] at hs
    split at hs <;> obtain rfl := Option.some.inj hs <;> rfl
  | erroring why | starting test port outputDir =>
    simp only [goPc, start_not_queued hbegun] at hs
    cases hs
    rfl
  | _ => cases hpc

theorem Carried.go (h : s.Sound parse) (hc : s.Carried) {pc : Pc} (hthread : s.thread = some pc)
    {look : Look} (hstill : s.stillWaits (.go look) = true) (hs : s.goPc parse look pc = some s') :
    s'.Carried := by
  cases hbegun : s.begun with
  | false =>
    obtain heq | ⟨test, port, outputDir, rfl⟩ := goPc_begun hs
    · rw [hbegun] at heq
      refine ⟨fun hyes => ?_, fun hyes => ?_⟩ <;> rw [heq] at hyes <;> cases hyes
    · by_cases hqueued : s.run.row.status = .queued
      · simp only [goPc, TestRun.start, if_pos hqueued, if_true] at hs
        cases hs
        exact ⟨fun _ _ => ⟨_, rfl, rfl⟩, fun _ h => by cases h⟩
      · simp only [goPc, start_not_queued hqueued] at hs
        cases hs
        refine ⟨fun hyes => ?_, fun hyes => ?_⟩ <;> rw [show s.begun = true from hyes] at hbegun <;>
          cases hbegun
  | true =>
    by_cases hrunning : s.run.row.status = .running
    · obtain ⟨pc', hpc', hcarries⟩ := hc.going hbegun hrunning
      cases hthread.symm.trans hpc'
      obtain ⟨hnext, hrow⟩ | ⟨-, hnot, herr⟩ := goPc_goesOn h hthread hcarries hstill hs
      · exact ⟨fun _ _ => hnext, fun _ => by rw [hrow, hrunning]; intro h; cases h⟩
      · exact ⟨fun _ hyes => absurd hyes hnot, fun _ => herr⟩
    · have hqueued : s.run.row.status ≠ .queued := by
        intro heq
        rw [(h.queued (.inr heq)).2] at hbegun
        cases hbegun
      have hgoing : pc.going = false := h.idle hrunning pc hthread
      have hsame := goPc_over hqueued hgoing hs
      exact ⟨fun _ hyes => absurd (hsame ▸ hyes) hrunning, fun _ => hsame ▸ hc.atEnd hbegun⟩

/-- **What one action keeps**, where nothing fails and a step that is stopped still waits. -/
theorem Carried.step (h : s.Sound parse) (hup : s.Up) (hc : s.Carried) {a : Act}
    (hcond : (s.undisturbed a && s.stillWaits a) = true) (hs : s.step parse a = some s') :
    s'.Carried := by
  obtain ⟨hquiet, hstill⟩ := Bool.and_eq_true_iff.mp hcond
  have hnever : ∀ {s₁ : Machine}, s.begun = false → s₁.begun = s.begun → s₁.Carried := by
    intro s₁ hbegun heq
    refine ⟨fun hyes => ?_, fun hyes => ?_⟩ <;> rw [heq, hbegun] at hyes <;> cases hyes
  cases a with
  | approve =>
    cases hs
    unfold TestRun.approve
    split
    · rename_i hwaits
      exact hnever (h.queued (.inl hwaits)).2 rfl
    · exact ⟨hc.going, hc.atEnd⟩
  | refuse now =>
    cases hs
    unfold TestRun.refuse
    split
    · rename_i hwaits
      exact hnever (h.queued (.inl hwaits)).2 rfl
    · exact ⟨hc.going, hc.atEnd⟩
  | cancel reason now =>
    simp only [Machine.step] at hs
    obtain ⟨hwaits, heq⟩ | ⟨hrunning, heq⟩ | heq := cancel_cases s.run reason now <;>
      rw [heq] at hs <;> obtain rfl := Option.some.inj hs
    · exact hnever (h.queued hwaits).2 rfl
    · exact ⟨hc.going, hc.atEnd⟩
    · exact ⟨hc.going, hc.atEnd⟩
  | answer stepId outputs passed note now =>
    cases hs
    have hrow : (s.run.moveStep stepId [.waiting]
        (TestRun.answerChange outputs passed note) now).2.row = s.run.row := by
      unfold TestRun.moveStep
      split <;> rfl
    exact ⟨fun hb hr => hc.going hb (hrow ▸ hr), fun hb => hrow ▸ hc.atEnd hb⟩
  | crash =>
    cases hs
    exact ⟨fun _ hr => absurd hr (of_decide_eq_true hquiet), hc.atEnd⟩
  | recover now =>
    simp only [Machine.step] at hs
    split at hs
    · cases hs
    rename_i hdown
    cases hs
    by_cases hrunning : s.run.row.status = .running
    · cases hbegun : s.begun with
      | false => exact hnever hbegun hbegun.symm
      | true =>
        obtain ⟨pc, hthread, -⟩ := hc.going hbegun hrunning
        rw [(hup (by simpa using hdown)).1] at hthread
        cases hthread
    · rw [TestRun.endInterrupted, if_neg hrunning]
      exact ⟨hc.going, hc.atEnd⟩
  | list =>
    simp only [Machine.step] at hs
    split at hs
    · cases hs
      exact ⟨hc.going, hc.atEnd⟩
    · cases hs
  | spawn =>
    simp only [Machine.step] at hs
    split at hs
    · rename_i hidle
      cases hs
      refine ⟨fun hb hr => ?_, hc.atEnd⟩
      obtain ⟨pc, hthread, -⟩ := hc.going hb hr
      rw [hidle.2] at hthread
      cases hthread
    · cases hs
  | launched outputs now =>
    simp only [Machine.step] at hs
    split at hs
    · split at hs
      · rename_i step _ _
        cases hs
        have hrow : (s.run.moveStep step.id [.running]
            ⟨.running, none, some outputs, none, none⟩ now).2.row = s.run.row := by
          unfold TestRun.moveStep
          split <;> rfl
        exact ⟨fun hb hr => hc.going hb (hrow ▸ hr), fun hb => hrow ▸ hc.atEnd hb⟩
      · cases hs
    · cases hs
  | go look =>
    obtain ⟨pc, hthread, hgo⟩ := bind_eq_some_iff.mp hs
    exact hc.go h hthread hstill hgo
  | fail message => cases hquiet

/-- **The teardown is run.** Where the app does not stop, the store does not fail, and a step is
    still waiting whenever the thread comes to stop it, a run that was begun does not end as
    errored, and ends with every teardown step started and come to its own end. -/
theorem teardown_ran {s₀ : Machine} (h : s₀.Fresh parse) {as : List Act}
    (hm : Meets (step parse) (fun s a => (s.undisturbed a && s.stillWaits a) = true) s₀ as)
    (hr : Lib.run (step parse) s₀ as = some s) (hbegun : s.begun = true)
    (hover : s.run.row.status.active = false) :
    s.run.row.status ≠ .errored ∧
      ∀ row ∈ s.run.steps, row.phase = .teardown → Ran row := by
  have hstep : ∀ (s₁ : Machine) a s₂, (s₁.Sound parse ∧ s₁.Up) ∧ s₁.Carried →
      (s₁.undisturbed a && s₁.stillWaits a) = true → s₁.step parse a = some s₂ →
      (s₂.Sound parse ∧ s₂.Up) ∧ s₂.Carried := fun s₁ a s₂ hi hcond hs =>
    ⟨⟨hi.1.1.step hi.1.2 hs, up_step hi.1.2 hs⟩, hi.2.step hi.1.1 hi.1.2 hcond hs⟩
  have hstart : s₀.Carried := by
    refine ⟨fun hyes => ?_, fun hyes => ?_⟩ <;> rw [h.nothing.1] at hyes <;> cases hyes
  obtain ⟨⟨hsound, -⟩, hcarried⟩ := hm.invariant hstep hr ⟨h.sound, hstart⟩
  have herr := hcarried.atEnd hbegun
  exact ⟨herr, (hsound.atEnd hover).teardown hbegun herr⟩

end Machine

def greetStopped : List Act :=
  greetWaits ++ .cancel "Changed my mind." 8 :: goOn 8 ++ [passes] ++ goOn 5

theorem stopped_greet_cleaned : ∃ s,
    Lib.run (Machine.step readGreet) greetQueued greetStopped = some s ∧
    s.run.row.status = .cancelled ∧ s.run.row.status ≠ .errored ∧
    ∀ row ∈ s.run.steps, row.phase = .teardown → Ran row := by
  have h : (Lib.run (Machine.step readGreet) greetQueued greetStopped).map
      (fun s => (s.run.row.status, s.begun)) = some (.cancelled, true) := by decide +kernel
  have hm : meets (Machine.step readGreet) (fun s a => s.undisturbed a && s.stillWaits a)
      greetQueued greetStopped = true := by decide +kernel
  obtain ⟨s, hs, heq⟩ := map_eq_some_iff.mp h
  obtain ⟨hstatus, hbegun⟩ := Prod.mk.inj heq
  obtain ⟨herr, hran⟩ := Machine.teardown_ran greet_fresh (meets_iff.mp hm) hs hbegun
    (by rw [hstatus]; rfl)
  exact ⟨s, hs, hstatus, herr, hran⟩

/-- The person answers just when the thread has decided to stop the step. -/
def greetAnswered : List Act :=
  greetWaits ++ ([.cancel "Changed my mind." 8, .go {}, .answer "confirm" [] true none 9] : List Act) ++
    goOn 8

theorem answered_while_stopped : ∃ s,
    Lib.run (Machine.step readGreet) greetQueued greetAnswered = some s ∧
    Meets (Machine.step readGreet) (fun s a => s.undisturbed a = true) greetQueued greetAnswered ∧
    s.begun = true ∧ s.run.row.status = .errored ∧
    ∃ row ∈ s.run.steps, row.phase = .teardown ∧ row.status = .skipped := by
  have h : (Lib.run (Machine.step readGreet) greetQueued greetAnswered).map (fun s =>
      (s.begun, s.run.row.status,
        s.run.steps.any fun row => row.phase = .teardown && row.status = .skipped)) =
      some (true, .errored, true) := by decide +kernel
  have hm : meets (Machine.step readGreet) Machine.undisturbed greetQueued greetAnswered = true := by
    decide +kernel
  obtain ⟨s, hs, heq⟩ := map_eq_some_iff.mp h
  obtain ⟨hbegun, heq⟩ := Prod.mk.inj heq
  obtain ⟨hstatus, hany⟩ := Prod.mk.inj heq
  obtain ⟨row, hrow, hboth⟩ := List.any_eq_true.mp hany
  exact ⟨s, hs, meets_iff.mp hm, hbegun, hstatus, row, hrow, by simpa using hboth⟩

end Yardsort.Smoke.Runner
