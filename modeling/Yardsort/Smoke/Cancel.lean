import Yardsort.Smoke.Teardown

/- A cancel that was answered with true ends the run as cancelled, with its reason.

   A cancel of a running run is a mark on its row, which the thread looks for now and then while
   it goes through setup and steps, and not after. One that comes when setup and steps come to
   another end, or later, is answered with true all the same, and lost: the run ends with its own
   verdict, and the reason is gone (`cancelled_too_late`). Where none comes then, the run ends as
   cancelled, or as errored if the app stops first (`cancel_kept`). -/
namespace Yardsort.Smoke.Runner
open Yardsort.Lib

/-- A cancel is still looked for, or was what ended setup and steps. -/
def Going.Hears (g : Going) : Prop := g.which ≠ .teardown ∨ g.outcome = .stopped .cancelled

/-- Where a thread ends its run as cancelled once it is asked to, or never touches it. -/
def Pc.Keeps (reason : String) : Pc → Prop
  | .reading | .preparing _ | .erroring _ | .starting .. => True
  | .looping g | .noting g _ _ _ | .skippingStep g _ _ | .beginning g _ | .waiting g _
  | .waitPolling g _ | .waitStopping g _ _ | .executing g _ | .ending g _ _ => g.Hears
  | .skipReading k | .skipping k _ => ∃ g, k.after = .phases g ∧ g.outcome = .stopped .cancelled
  | .verdict g => g.outcome = .stopped .cancelled
  | .finishing status error => status = .cancelled ∧ error = some reason
  | .erroredEnd _ | .guard _ | .guardReading _ | .guardMarking .. | .guardEnd _ => False

/-- Where a cancel that is asked now is still looked for. -/
def Pc.hears : Pc → Bool
  | .reading | .preparing _ | .erroring _ | .starting .. => true
  | .looping g | .noting g _ _ _ | .skippingStep g _ _ | .beginning g _ | .waiting g _
  | .waitPolling g _ | .waitStopping g _ _ | .executing g _ | .ending g _ _ => g.which ≠ .teardown
  | _ => false

theorem Pc.keeps_of_hears {pc : Pc} (h : pc.hears = true) (reason : String) : pc.Keeps reason := by
  cases pc with
  | reading | preparing | erroring | starting => trivial
  | looping | noting | skippingStep | beginning | waiting | waitPolling | waitStopping | executing
  | ending => exact .inl (of_decide_eq_true h)
  | _ => cases h

namespace Machine

/-- Whether setup and steps come to an end now, other than by a cancel. -/
def closes (s : Machine) : Bool :=
  match s.thread with
  | some (.looping g) => g.rest = [] && g.which ≠ .teardown &&
      !(g.which = .setup && g.end_ = .passed) && g.end_ ≠ .stopped .cancelled
  | some (.waitStopping _ step _) => !(s.run.step step.id).any (·.status = .waiting)
  | _ => false

/-- No cancel is asked of a running run where it is not looked for any more, or is there, unseen,
    when setup and steps come to an end or the thread fails. -/
def heeds (s : Machine) : Act → Bool
  | .cancel _ _ => s.run.row.status ≠ .running || s.thread.all Pc.hears
  | .go _ => !(s.closes && s.run.row.cancelRequestedAt.isSome)
  | .fail _ => !(s.run.row.status = .running && s.run.row.cancelRequestedAt.isSome)
  | _ => true

/-- What became of a cancel that was answered with true. -/
def Kept (s : Machine) (reason : String) : Prop :=
  (s.run.row.status = .cancelled ∧ s.run.row.error = some reason) ∨
  (s.run.row.status = .errored ∧ s.crashed = true) ∨
  (s.run.row.status = .running ∧ s.run.row.cancelRequestedAt.isSome = true ∧
    s.run.row.error = some reason ∧ ∀ pc ∈ s.thread, pc.Keeps reason)

structure Heeded (s : Machine) : Prop where
  notAsked : s.asked = none → s.run.row.cancelRequestedAt = none
  kept : ∀ reason ∈ s.asked, s.Kept reason
  down : s.recovered = false → s.run.row.status = .running → s.crashed = true

variable {parse : String → Option Test} {s s' : Machine} {reason : String}

/-! ## The thread -/

/-- What a step's move, and the thread's start and end of a run, leave of a cancel. -/
def Unasked (s s' : Machine) : Prop :=
  s'.run.row.cancelRequestedAt = s.run.row.cancelRequestedAt

theorem moveStep_row (run : TestRun) (stepId : String) (from_ : List StepStatus)
    (change : StepChange) (now : Int) : (run.moveStep stepId from_ change now).2.row = run.row := by
  unfold TestRun.moveStep
  split <;> rfl

theorem mark_unasked (s : Machine) (stepId : String) (from_ : List StepStatus)
    (change : StepChange) (now : Int) (ok missed : Pc) :
    s.Unasked (s.mark stepId from_ change now ok missed) := by
  show (s.run.moveStep stepId from_ change now).2.row.cancelRequestedAt = _
  rw [moveStep_row]

theorem start_unasked (run : TestRun) (port : Nat) (outputDir : String) (now : Int) :
    (run.start port outputDir now).2.row.cancelRequestedAt = run.row.cancelRequestedAt := by
  unfold TestRun.start
  split <;> rfl

theorem finish_unasked (run : TestRun) (status : RunStatus) (error : Option String) (now : Int) :
    (run.finish status error now).2.row.cancelRequestedAt = run.row.cancelRequestedAt := by
  unfold TestRun.finish
  split <;> rfl

theorem goPc_unasked {look : Look} {pc : Pc} (hs : s.goPc parse look pc = some s') :
    s.Unasked s' := by
  cases pc with
  | looping g =>
    simp only [goPc] at hs
    split at hs <;> obtain rfl := Option.some.inj hs
    · rfl
    unfold goStep
    split
    · exact mark_unasked ..
    · split <;> rfl
  | noting g step stop how =>
    simp only [goPc] at hs
    split at hs <;> obtain rfl := Option.some.inj hs
    · rfl
    · exact congrArg TestRunRow.cancelRequestedAt (moveStep_row ..)
  | beginning g step =>
    cases hs
    unfold begin_
    dsimp only
    split <;> exact congrArg TestRunRow.cancelRequestedAt (moveStep_row ..)
  | waiting g step =>
    cases hs
    unfold goWaiting
    split <;> rfl
  | executing g step =>
    simp only [goPc] at hs
    unfold goExecuting at hs
    split at hs
    · cases hs
    split at hs
    · cases hs
      rfl
    · cases hs
  | skippingStep | waitStopping | ending => obtain rfl := Option.some.inj hs; exact mark_unasked ..
  | skipping k left | guardMarking why left =>
    cases left <;> obtain rfl := Option.some.inj hs
    · rfl
    · exact mark_unasked ..
  | erroring | starting =>
    simp only [goPc] at hs
    split at hs <;> obtain rfl := Option.some.inj hs <;> exact start_unasked ..
  | finishing | erroredEnd | guardEnd => obtain rfl := Option.some.inj hs; exact finish_unasked ..
  | reading | preparing | waitPolling | guard =>
    simp only [goPc] at hs
    split at hs <;> obtain rfl := Option.some.inj hs <;> rfl
  | _ => obtain rfl := Option.some.inj hs; rfl

theorem onFail_row {message : Option String} {pc : Pc} (hs : s.onFail message pc = some s') :
    s'.run.row = s.run.row := by
  unfold onFail at hs
  split at hs
  all_goals first
    | (obtain rfl := Option.some.inj hs; rfl)
    | cases hs
    | (split at hs <;> first
        | (obtain rfl := Option.some.inj hs; rfl)
        | cases hs)

theorem mark_keeps {stepId : String} {from_ : List StepStatus} {change : StepChange} {now : Int}
    {ok missed : Pc} (hmissed : missed.carries = false) (hok : ok.Keeps reason)
    (hgoes : s.GoesOn (s.mark stepId from_ change now ok missed)) :
    ∃ pc, (s.mark stepId from_ change now ok missed).thread = some pc ∧ pc.Keeps reason := by
  obtain ⟨⟨pc, hthread, hcarries⟩, -⟩ := hgoes
  refine ⟨pc, hthread, ?_⟩
  have hor : pc = ok ∨ pc = missed := by
    rw [Machine.mark] at hthread
    cases hthread
    split
    · exact .inl rfl
    · exact .inr rfl
  obtain rfl | rfl := hor
  · exact hok
  · rw [hmissed] at hcarries
    cases hcarries

theorem stop_hears {g : Going} (h : g.Hears) (run : TestRun) (look : Look) :
    (g.stop run look).2.Hears := by
  obtain ⟨servers, cancelled, hsame⟩ := g.stop_same run look
  rw [hsame]
  exact h

theorem stillWaits_of_closes (hcloses : s.closes = false) (look : Look) :
    s.stillWaits (.go look) = true := by
  rw [stillWaits]
  split
  · rename_i g step stop hthread
    rw [closes, hthread] at hcloses
    simpa using hcloses
  · rfl

/-- Where a cancel is there and setup and steps do not come to another end, the thread goes on to
    end its run as cancelled. -/
theorem afterPhase_keeps {g : Going} (hrest : g.rest = []) (hthread : s.thread = some (.looping g))
    (hcloses : s.closes = false) (hears : g.Hears) : (afterPhase g).Keeps reason := by
  rw [closes, hthread] at hcloses
  simp only [hrest] at hcloses
  have hphases : g.which ≠ .teardown → ¬ (g.which = .setup ∧ g.end_ = .passed) →
      (afterPhases g).Keeps reason := by
    intro hnot hends
    have hend : g.end_ = .stopped .cancelled := by
      by_contra hne
      simp [hnot, hends, hne] at hcloses
    rw [afterPhases]
    simp only [hend]
    exact ⟨_, rfl, rfl⟩
  rw [afterPhase]
  split
  · rename_i hsetup
    split
    · exact .inl fun h => by cases h
    · rename_i hend
      exact hphases (hsetup ▸ by decide) fun hboth => hend hboth.2
  · rename_i hsteps
    exact hphases (hsteps ▸ by decide) fun hboth => by cases hsteps.symm.trans hboth.1
  · rename_i hteardown
    exact hears.resolve_left fun hne => hne hteardown

def Stops (s s' : Machine) (reason : String) : Prop :=
  (s'.run.row = s.run.row ∧ ∀ pc ∈ s'.thread, pc.Keeps reason) ∨
  (s'.run.row.status = .cancelled ∧ s'.run.row.error = some reason)

theorem at_stops (s : Machine) {pc : Pc} (hpc : pc.Keeps reason) : s.Stops (s.at_ pc) reason :=
  .inl ⟨rfl, fun _ hother => Option.some.inj hother ▸ hpc⟩

theorem mark_stops {stepId : String} {from_ : List StepStatus} {change : StepChange} {now : Int}
    {ok missed : Pc} (hmissed : missed.carries = false) (hok : ok.Keeps reason)
    (hgoes : s.GoesOn (s.mark stepId from_ change now ok missed)) :
    s.Stops (s.mark stepId from_ change now ok missed) reason := by
  obtain ⟨pc, hthread, hkeeps⟩ := mark_keeps hmissed hok hgoes
  refine .inl ⟨hgoes.2, fun other hother => ?_⟩
  rw [hthread] at hother
  exact Option.some.inj hother ▸ hkeeps

theorem goPc_stops (h : s.Sound parse) {pc : Pc} (hthread : s.thread = some pc)
    (hrunning : s.run.row.status = .running) (herror : s.run.row.error = some reason)
    (hkeeps : pc.Keeps reason) (hcloses : s.closes = false) {look : Look}
    (hs : s.goPc parse look pc = some s') : s.Stops s' reason := by
  have hpc := h.thread pc hthread
  have hgoes : pc.carries = true → (∀ status error, pc ≠ .finishing status error) →
      s.GoesOn s' := by
    intro hcarries hnot
    obtain hgoes | ⟨⟨status, error, rfl⟩, -⟩ :=
      goPc_goesOn h hthread hcarries (stillWaits_of_closes hcloses look) hs
    · exact hgoes
    · exact absurd rfl (hnot status error)
  have hqueued : s.run.row.status ≠ .queued := by
    rw [hrunning]
    intro h
    cases h
  cases pc with
  | looping g =>
    specialize hgoes rfl fun _ _ h => by cases h
    simp only [goPc] at hs
    split at hs
    · rename_i hrest
      cases hs
      exact at_stops s (afterPhase_keeps hrest hthread hcloses hkeeps)
    · rename_i step rest hrest
      cases hs
      unfold goStep at hgoes ⊢
      split at hgoes
      · rename_i hskip
        rw [if_pos hskip]
        exact mark_stops rfl hkeeps hgoes
      · rename_i hgo
        rw [if_neg hgo]
        have hears : ({ g with rest } : Going).Hears := hkeeps
        have hstop := stop_hears hears s.run look
        split <;> rename_i heq <;> rw [heq] at hstop <;> exact at_stops s hstop
  | noting g step stop how =>
    have hafter : (afterNoting g step stop how).Keeps reason := by cases how <;> exact hkeeps
    simp only [goPc] at hs
    split at hs <;> obtain rfl := Option.some.inj hs
    · exact at_stops s hafter
    · exact .inl ⟨moveStep_row .., fun _ hother => Option.some.inj hother ▸ hafter⟩
  | skippingStep g step stop | waitStopping g step stop =>
    cases hs
    exact mark_stops rfl hkeeps (hgoes rfl fun _ _ h => by cases h)
  | beginning g step =>
    specialize hgoes rfl fun _ _ h => by cases h
    cases hs
    obtain ⟨⟨pc, hpc', hcarries⟩, hrow⟩ := hgoes
    refine .inl ⟨hrow, fun other hother => ?_⟩
    cases hpc'.symm.trans hother
    unfold begin_ at hpc'
    dsimp only at hpc'
    split at hpc' <;> obtain rfl := Option.some.inj hpc'
    · split <;> exact hkeeps
    · cases hcarries
  | waiting g step =>
    specialize hgoes rfl fun _ _ h => by cases h
    cases hs
    obtain ⟨⟨pc, hpc', hcarries⟩, hrow⟩ := hgoes
    refine .inl ⟨hrow, fun other hother => ?_⟩
    cases hpc'.symm.trans hother
    unfold goWaiting at hpc'
    split at hpc' <;> obtain rfl := Option.some.inj hpc' <;> first | exact hkeeps | cases hcarries
  | waitPolling g step =>
    have hstop := stop_hears hkeeps s.run look
    simp only [goPc] at hs
    split at hs <;> rename_i heq <;> rw [heq] at hstop <;> obtain rfl := Option.some.inj hs <;>
      exact at_stops s hstop
  | executing g step =>
    simp only [goPc] at hs
    unfold goExecuting at hs
    split at hs
    · cases hs
    rename_i done _
    split at hs
    · cases hs
      refine at_stops s ?_
      have hsaw : (done.stopped.elim g g.sawStop).Hears := by
        cases done.stopped with
        | none => exact hkeeps
        | some stop => cases stop <;> exact hkeeps
      show Going.Hears _
      split <;> exact hsaw
    · cases hs
  | ending g step done =>
    cases hs
    refine mark_stops rfl ?_ (hgoes rfl fun _ _ h => by cases h)
    split <;> exact hkeeps
  | skipReading k =>
    cases hs
    exact at_stops s hkeeps
  | skipping k left =>
    obtain ⟨g, hafter, houtcome⟩ := hkeeps
    have hcarries : (Pc.skipping k left).carries = true := by
      rw [Pc.carries, hafter]
    cases left with
    | nil =>
      cases hs
      refine at_stops s ?_
      rw [afterSkip, hafter]
      exact .inr houtcome
    | cons id left =>
      cases hs
      refine mark_stops ?_ ⟨g, hafter, houtcome⟩ (hgoes hcarries fun _ _ h => by cases h)
      rw [afterSkip, hafter]
      rfl
  | verdict g =>
    have houtcome : g.outcome = .stopped .cancelled := hkeeps
    have hverdict : verdictOf g s.run = (.cancelled, s.run.row.error) := by
      rw [verdictOf, houtcome]
    rw [goPc, hverdict] at hs
    cases hs
    exact at_stops s ⟨rfl, herror⟩
  | finishing status error =>
    cases hs
    obtain ⟨rfl, rfl⟩ := hkeeps
    right
    rw [finish_running hrunning]
    exact ⟨rfl, rfl⟩
  | reading | preparing =>
    simp only [goPc] at hs
    split at hs <;> obtain rfl := Option.some.inj hs <;> exact at_stops s trivial
  | erroring why | starting test port outputDir =>
    simp only [goPc, start_not_queued hqueued] at hs
    cases hs
    exact .inl ⟨rfl, fun _ hother => (not_mem_none _ hother).elim⟩
  | _ => cases hkeeps

theorem Heeded.notYet (hh : s.Heeded)
    (hwaits : s.run.row.status = .awaitingApproval ∨ s.run.row.status = .queued) :
    s.asked = none := by
  cases hasked : s.asked with
  | none => rfl
  | some reason =>
    obtain ⟨hstatus, -⟩ | ⟨hstatus, -⟩ | ⟨hstatus, -⟩ := hh.kept reason hasked <;>
      rw [hstatus] at hwaits <;> obtain hwaits | hwaits := hwaits <;> cases hwaits

theorem heeded_of_none (hasked : s.asked = none) (hnone : s.run.row.cancelRequestedAt = none)
    (hdown : s.recovered = false → s.run.row.status = .running → s.crashed = true) : s.Heeded where
  notAsked _ := hnone
  kept _ h := (not_mem_none _ (hasked ▸ h)).elim
  down := hdown

theorem Heeded.same (hh : s.Heeded) (hrow : s'.run.row = s.run.row) (hasked : s'.asked = s.asked)
    (hcrashed : s'.crashed = s.crashed) (hup : s'.recovered = false → s.recovered = false)
    (hthread : ∀ reason : String, s.run.row.status = .running →
      s.run.row.cancelRequestedAt.isSome = true → (∀ pc ∈ s.thread, pc.Keeps reason) →
      ∀ pc ∈ s'.thread, pc.Keeps reason) : s'.Heeded where
  notAsked h := by
    rw [hrow]
    exact hh.notAsked (hasked ▸ h)
  kept reason h := by
    obtain hdone | hlost | ⟨hrunning, hthere, herror, hkeeps⟩ := hh.kept reason (hasked ▸ h)
    · exact .inl (hrow ▸ hdone)
    · exact .inr (.inl ⟨hrow ▸ hlost.1, hcrashed ▸ hlost.2⟩)
    · exact .inr (.inr (hrow ▸ ⟨hrunning, hthere, herror, hthread reason hrunning hthere hkeeps⟩))
  down hdown hrunning := hcrashed ▸ hh.down (hup hdown) (hrow ▸ hrunning)

theorem Heeded.go (h : s.Sound parse) (hup : s.Up) (hh : s.Heeded) {pc : Pc}
    (hthread : s.thread = some pc) {look : Look} (hcond : s.heeds (.go look) = true)
    (hs : s.goPc parse look pc = some s') : s'.Heeded := by
  have hbeside := goPc_beside hs
  have hdown : s'.recovered ≠ false := by
    intro hdown
    rw [(hup (hbeside.recovered ▸ hdown)).1] at hthread
    cases hthread
  cases hasked : s.asked with
  | none =>
    refine heeded_of_none (hbeside.asked.trans hasked) ?_ fun heq => absurd heq hdown
    exact (goPc_unasked hs).trans (hh.notAsked hasked)
  | some reason =>
    by_cases hrunning : s.run.row.status = .running
    -- the cancel is there for the thread to find, so the thread does not end setup and steps
    · have hkept : s.Kept reason := hh.kept reason hasked
      simp only [Kept, hrunning, reduceCtorEq, false_and, true_and, false_or] at hkept
      obtain ⟨hthere, herror, hkeeps⟩ := hkept
      have hcloses : s.closes = false := by
        simpa [heeds, hthere] using hcond
      refine ⟨fun hnone => ?_, fun other hother => ?_, fun heq => absurd heq hdown⟩
      · rw [hbeside.asked, hasked] at hnone
        cases hnone
      · rw [hbeside.asked, hasked] at hother
        cases hother
        obtain ⟨hrow, hkeeps⟩ | hdone :=
          goPc_stops h hthread hrunning herror (hkeeps pc hthread) hcloses hs
        · exact .inr (.inr (hrow ▸ ⟨hrunning, hthere, herror, hkeeps⟩))
        · exact .inl hdone
    · have hqueued : s.run.row.status ≠ .queued := by
        intro heq
        rw [hh.notYet (.inr heq)] at hasked
        cases hasked
      have hsame := goPc_over hqueued (h.idle hrunning pc hthread) hs
      exact hh.same (congrArg TestRun.row hsame) hbeside.asked hbeside.crashed
        (fun heq => absurd heq hdown) fun _ hyes => absurd hyes hrunning

/-- **What one action keeps**, where each cancel is asked while it is still looked for, and is
    not there unseen when setup and steps come to an end. -/
theorem Heeded.step (h : s.Sound parse) (hup : s.Up) (hh : s.Heeded) {a : Act}
    (hcond : s.heeds a = true) (hs : s.step parse a = some s') : s'.Heeded := by
  cases a with
  | approve =>
    cases hs
    unfold TestRun.approve
    split
    · rename_i hwaits
      have hasked := hh.notYet (.inl hwaits)
      exact heeded_of_none hasked (hh.notAsked hasked) fun _ h => by cases h
    · exact hh.same rfl rfl rfl id fun _ _ _ hkeeps => hkeeps
  | refuse now =>
    cases hs
    unfold TestRun.refuse
    split
    · rename_i hwaits
      have hasked := hh.notYet (.inl hwaits)
      exact heeded_of_none hasked (hh.notAsked hasked) fun _ h => by cases h
    · exact hh.same rfl rfl rfl id fun _ _ _ hkeeps => hkeeps
  | cancel reason now =>
    simp only [Machine.step] at hs
    obtain ⟨-, heq⟩ | ⟨hrunning, heq⟩ | heq := cancel_cases s.run reason now <;>
      rw [heq] at hs <;> obtain rfl := Option.some.inj hs
    · exact ⟨(fun h => by cases h), fun _ hr => .inl ⟨rfl, hr⟩, fun _ h => by cases h⟩
    · refine ⟨(fun h => by cases h), fun other hother => ?_, fun hdown _ => hh.down hdown hrunning.1⟩
      cases hother
      refine .inr (.inr ⟨hrunning.1, rfl, rfl, fun pc hpc => ?_⟩)
      have hears : s.thread.all Pc.hears = true := by
        simpa [heeds, hrunning.1] using hcond
      rw [show s.thread = some pc from hpc] at hears
      exact Pc.keeps_of_hears hears reason
    · exact hh.same rfl rfl rfl id fun _ _ _ hkeeps => hkeeps
  | answer stepId outputs passed note now =>
    cases hs
    exact hh.same (moveStep_row ..) rfl rfl id fun _ _ _ hkeeps => hkeeps
  | crash =>
    cases hs
    refine ⟨hh.notAsked, fun reason hr => ?_, fun _ hrunning => ?_⟩
    · obtain hdone | ⟨hstatus, hcrashed⟩ | ⟨hrunning, hthere, herror, -⟩ := hh.kept reason hr
      · exact .inl hdone
      · exact .inr (.inl ⟨hstatus, by rw [hcrashed, Bool.true_or]⟩)
      · exact .inr (.inr ⟨hrunning, hthere, herror, fun _ hpc => (not_mem_none _ hpc).elim⟩)
    · show (s.crashed || s.run.row.status.active) = true
      rw [show s.run.row.status = .running from hrunning]
      exact Bool.or_true _
  | recover now =>
    simp only [Machine.step] at hs
    split at hs
    · cases hs
    rename_i hdown
    cases hs
    by_cases hrunning : s.run.row.status = .running
    · have hcrashed := hh.down (by simpa using hdown) hrunning
      rw [TestRun.endInterrupted, if_pos hrunning]
      exact ⟨hh.notAsked, fun _ _ => .inr (.inl ⟨rfl, hcrashed⟩), fun _ h => by cases h⟩
    · rw [TestRun.endInterrupted, if_neg hrunning]
      exact hh.same rfl rfl rfl (fun h => by cases h) fun _ _ _ hkeeps => hkeeps
  | list =>
    simp only [Machine.step] at hs
    split at hs
    · cases hs
      exact hh.same rfl rfl rfl id fun _ _ _ hkeeps => hkeeps
    · cases hs
  | spawn =>
    simp only [Machine.step] at hs
    split at hs
    · cases hs
      exact hh.same rfl rfl rfl id fun _ _ _ _ _ hpc => Option.some.inj hpc ▸ trivial
    · cases hs
  | launched outputs now =>
    simp only [Machine.step] at hs
    split at hs
    · split at hs
      · cases hs
        exact hh.same (moveStep_row ..) rfl rfl id fun _ _ _ hkeeps => hkeeps
      · cases hs
    · cases hs
  | go look =>
    obtain ⟨pc, hthread, hgo⟩ := bind_eq_some_iff.mp hs
    exact hh.go h hup hthread hcond hgo
  | fail message =>
    obtain ⟨pc, -, hfail⟩ := bind_eq_some_iff.mp hs
    have hbeside := onFail_beside hfail
    refine hh.same (onFail_row hfail) hbeside.asked hbeside.crashed
      (fun hdown => hbeside.recovered ▸ hdown) fun _ hrunning hthere => ?_
    rw [heeds, hrunning, hthere] at hcond
    cases hcond

/-- **A cancel is kept.** Where each cancel of a running run is asked while the thread still
    looks for one, and none is there unseen when setup and steps come to an end by themselves or
    the thread fails, a run whose cancel was answered with true ends as cancelled with its reason,
    or as errored because the app stopped before it ended. -/
theorem cancel_kept {s₀ : Machine} (h : s₀.Fresh parse) {as : List Act}
    (hm : Meets (step parse) (fun s a => s.heeds a = true) s₀ as)
    (hr : Lib.run (step parse) s₀ as = some s) (hasked : s.asked = some reason)
    (hover : s.run.row.status.active = false) :
    (s.run.row.status = .cancelled ∧ s.run.row.error = some reason) ∨
      (s.run.row.status = .errored ∧ s.crashed = true) := by
  have hstep : ∀ (s₁ : Machine) a s₂, (s₁.Sound parse ∧ s₁.Up) ∧ s₁.Heeded →
      s₁.heeds a = true → s₁.step parse a = some s₂ →
      (s₂.Sound parse ∧ s₂.Up) ∧ s₂.Heeded := fun s₁ a s₂ hi hcond hs =>
    ⟨⟨hi.1.1.step hi.1.2 hs, up_step hi.1.2 hs⟩, hi.2.step hi.1.1 hi.1.2 hcond hs⟩
  have hstart : s₀.Heeded := by
    refine heeded_of_none h.nothing.2.2.1 h.notAsked fun _ hrunning => ?_
    obtain hstatus | hstatus := h.status <;> rw [hstatus] at hrunning <;> cases hrunning
  obtain ⟨-, hheeded⟩ := hm.invariant hstep hr ⟨h.sound, hstart⟩
  obtain hdone | hlost | ⟨hrunning, -⟩ := hheeded.kept reason hasked
  · exact .inl hdone
  · exact .inr hlost
  · rw [hrunning] at hover
    cases hover

end Machine

theorem stopped_greet_kept : ∃ s,
    Lib.run (Machine.step readGreet) greetQueued greetStopped = some s ∧
    s.asked = some "Changed my mind." ∧ s.run.row.status.active = false ∧
    ((s.run.row.status = .cancelled ∧ s.run.row.error = some "Changed my mind.") ∨
      (s.run.row.status = .errored ∧ s.crashed = true)) := by
  have h : (Lib.run (Machine.step readGreet) greetQueued greetStopped).map
      (fun s => (s.asked, s.run.row.status.active)) = some (some "Changed my mind.", false) := by
    decide +kernel
  have hm : meets (Machine.step readGreet) Machine.heeds greetQueued greetStopped = true := by
    decide +kernel
  obtain ⟨s, hs, heq⟩ := map_eq_some_iff.mp h
  obtain ⟨hasked, hover⟩ := Prod.mk.inj heq
  exact ⟨s, hs, hasked, hover,
    Machine.cancel_kept greet_fresh (meets_iff.mp hm) hs hasked hover⟩

def greetLate : List Act :=
  greetWaits ++ .answer "confirm" [] true none 9 :: goOn 3 ++ .cancel "Changed my mind." 8 ::
    goOn 2 ++ [passes] ++ goOn 5

theorem cancelled_too_late : ∃ s,
    Lib.run (Machine.step readGreet) greetQueued greetLate = some s ∧
    s.asked = some "Changed my mind." ∧ s.crashed = false ∧
    s.run.row.status = .passed ∧ s.run.row.error = none := by
  have h : (Lib.run (Machine.step readGreet) greetQueued greetLate).map
      (fun s => (s.asked, s.crashed, s.run.row.status, s.run.row.error)) =
      some (some "Changed my mind.", false, .passed, none) := by decide +kernel
  obtain ⟨s, hs, heq⟩ := map_eq_some_iff.mp h
  simp only [Prod.mk.injEq] at heq
  exact ⟨s, hs, heq⟩

end Yardsort.Smoke.Runner
