import Yardsort.Smoke.Accepted
import Yardsort.Smoke.Carried

/- Which placeholders have a value when a step's fields are rendered.

   Of setup and steps, everything above a step that is carried out has passed, and a step that
   passed left all it produces, but for a page's address and title; a teardown step is carried out
   whatever became of those above it. The invariant of a run, `Sure`, says both of the steps in
   `before`, and what it says of a step that was carried out is `Filled`. -/
namespace Yardsort.Smoke
open Yardsort.Lib Yardsort.Template Runner

/-- The outputs a step has after an answer: all it produces where it ran to its end, what was
    written so far where it was stopped or cut, and of a page what could be read. -/
def Answer.tells : Action → Answer → List String
  | .run .., .exited .. | .shell .., .exited .. => ["exit", "stdout", "stderr"]
  | .run .., .cut _ | .run .., .stopped _ | .shell .., .cut _ | .shell .., .stopped _ =>
    ["stdout", "stderr"]
  | .start .., .started .. => ["pid", "stdout", "stderr"]
  | .waitFor .., .ready _ => ["waited"]
  | .http .., .responded .. => ["status", "body", "headers"]
  | .browser .., .browsed url title .. =>
    (url.map fun _ => "url").toList ++ (title.map fun _ => "title").toList
  | .manual _, .given .. => ["note"]
  | _, _ => []

def Vars.left (vars : Vars) (stepId field : String) : Option String :=
  (vars.steps.lookup stepId).bind fun outputs => outputs.lookup field

theorem lookup_steps (vars : Vars) (read : String → String) (stepId field : String) :
    (vars.lookup read ["steps", stepId, field]).isSome = (vars.left stepId field).isSome := by
  simp only [Vars.lookup, Vars.left, isSome_map]

@[simp] theorem left_leave (vars : Vars) (stepId field : String) (outputs : Pairs) :
    (vars.leave stepId outputs).left stepId field = outputs.lookup field := by
  simp [Vars.left, Vars.leave]

theorem left_leave_of_ne {vars : Vars} {stepId other field : String} {outputs : Pairs}
    (h : other ≠ stepId) : (vars.leave stepId outputs).left other field = vars.left other field := by
  have hne : (other == stepId) = false := beq_false_of_ne h
  simp [Vars.left, Vars.leave, List.lookup_cons, hne]

@[simp] theorem respondedEnd_outputs (outputs : Pairs) (notes : List String) :
    (respondedEnd outputs notes).outputs = outputs := by
  rw [respondedEnd]
  split <;> rfl

theorem browsedEnd_outputs (url title : Option String) (passed : Bool) (note : Option String)
    (screenshots : List String) (stopped : Option Stop) :
    (browsedEnd url title passed note screenshots stopped).outputs =
      (title.map (("title", ·))).toList ++ (url.map (("url", ·))).toList := by
  unfold browsedEnd
  split
  · rfl
  · rfl
  · split <;> rfl

theorem carryOut_tells {files : Files} {action : Action} {answer : Answer} {field : String}
    (h : field ∈ answer.tells action) (hmanual : action.isManual = false) :
    ((carryOut files action answer).outputs.lookup field).isSome := by
  unfold Answer.tells at h
  split at h
  · simp only [mem_cons, not_mem_nil, or_false] at h
    obtain rfl | rfl | rfl := h <;> rfl
  · simp only [mem_cons, not_mem_nil, or_false] at h
    obtain rfl | rfl | rfl := h <;> rfl
  · simp only [mem_cons, not_mem_nil, or_false] at h
    obtain rfl | rfl := h <;> rfl
  · simp only [mem_cons, not_mem_nil, or_false] at h
    obtain rfl | rfl := h <;> rfl
  · simp only [mem_cons, not_mem_nil, or_false] at h
    obtain rfl | rfl := h <;> rfl
  · simp only [mem_cons, not_mem_nil, or_false] at h
    obtain rfl | rfl := h <;> rfl
  · rename_i pid process
    simp only [mem_cons, not_mem_nil, or_false] at h
    cases process <;> obtain rfl | rfl | rfl := h <;> rfl
  · simp only [mem_cons, not_mem_nil, or_false] at h
    obtain rfl := h
    rfl
  · rename_i status body headers notes
    simp only [mem_cons, not_mem_nil, or_false] at h
    simp only [carryOut, respondedEnd_outputs]
    obtain rfl | rfl | rfl := h <;> rfl
  · rename_i url title passed note screenshots stopped
    simp only [carryOut, browsedEnd_outputs]
    rw [mem_append, mem_toList, mem_toList] at h
    obtain h | h := h
    · obtain ⟨url, rfl, rfl⟩ := map_eq_some_iff.mp h
      cases title <;> rfl
    · obtain ⟨title, rfl, rfl⟩ := map_eq_some_iff.mp h
      rfl
  · simp [Action.isManual] at hmanual
  · cases h

theorem carry_tells {w : Weather} {which : Phase} {step : Step} {answer : Answer} {c : Course}
    {field : String} (h : field ∈ answer.tells step.action) :
    ((c.carry w which step answer).vars.left step.id field).isSome := by
  unfold Course.carry
  dsimp only
  split
  · rename_i prompt passed note haction
    rw [haction] at h
    obtain rfl := mem_singleton.mp h
    simp
  · rename_i prompt stop haction
    rw [haction] at h
    cases h
  · rename_i answer _ _ hgiven hstopped
    rw [left_leave]
    refine carryOut_tells h ?_
    cases haction : step.action with
    | manual prompt =>
      rw [haction] at h
      cases answer with
      | given passed note => exact (hgiven _ _ _ haction rfl).elim
      | _ => cases h
    | _ => rfl

/-- An answer that tells all its action produces; of a page nothing is sure. -/
def Answer.Whole (action : Action) (answer : Answer) : Prop :=
  action.isBrowser = true ∨ ∀ field ∈ Action.produces action.name, field ∈ answer.tells action

theorem carryOut_whole {files : Files} {action : Action} {answer : Answer}
    (hstatus : (carryOut files action answer).status = .passed)
    (hstopped : (carryOut files action answer).stopped = none) : answer.Whole action := by
  unfold carryOut at hstatus hstopped
  split at hstatus
  · cases hstatus
  · exact .inr fun _ h => h
  · exact .inr fun _ h => h
  · cases hstatus
  · cases hstatus
  · cases hstopped
  · cases hstopped
  · exact .inr fun _ h => h
  · exact .inr fun _ h => h
  · cases hstopped
  · cases hstopped
  · exact .inr fun _ h => h
  · exact .inl rfl
  · cases hstatus

theorem carry_passed {w : Weather} {which : Phase} {step : Step} {answer : Answer} {c : Course}
    (hwhich : which ≠ .teardown) (h : (c.carry w which step answer).end_ = .passed) :
    c.end_ = .passed ∧ answer.Whole step.action := by
  unfold Course.carry at h
  dsimp only at h
  split at h
  · rename_i prompt passed note haction
    rw [haction]
    split at h
    · cases h
    · exact ⟨h, .inr fun _ hin => hin⟩
  · cases h
  · rw [phaseGoes, if_neg hwhich] at h
    split at h
    · cases h
    rename_i hstopped
    split at h
    · rename_i hstatus
      exact ⟨h, carryOut_whole hstatus hstopped⟩
    · cases h

theorem checkEach_given {given : Pairs} {inputs : List Input} {values : Pairs}
    {missing : List String} {result : Pairs × List String}
    (h : checkEach given inputs values missing = .ok result) :
    (∀ entry ∈ values, entry ∈ result.1) ∧ (∀ why ∈ missing, why ∈ result.2) ∧
      ∀ input ∈ inputs, (∃ value, (input.id, value) ∈ result.1) ∨
        (input.default = none ∧ (input.required = true → result.2 ≠ [])) := by
  induction inputs generalizing values missing with
  | nil =>
    cases h
    exact ⟨fun _ h => h, fun _ h => h, forall_mem_nil _⟩
  | cons input rest ih =>
    rw [checkEach] at h
    split at h
    · rename_i hvalue
      obtain ⟨hvalues, hmissing, hrest⟩ := ih h
      have hdefault : input.default = none := (Option.or_eq_none_iff.mp hvalue).2
      refine ⟨hvalues, ?_, ?_⟩
      · intro why hwhy
        apply hmissing
        split
        · exact mem_append_left _ hwhy
        · exact hwhy
      · intro other hother
        obtain rfl | hother := mem_cons.mp hother
        · refine .inr ⟨hdefault, ?_⟩
          intro hrequired hnone
          rw [if_pos hrequired, hnone] at hmissing
          exact not_mem_nil (hmissing _ (mem_append_right _ (mem_singleton_self _)))
        · exact hrest other hother
    · rename_i value hvalue
      split at h
      · cases h
      obtain ⟨hvalues, hmissing, hrest⟩ := ih h
      refine ⟨fun entry hentry => hvalues entry (mem_append_left _ hentry), hmissing, ?_⟩
      intro other hother
      obtain rfl | hother := mem_cons.mp hother
      · exact .inl ⟨value, hvalues _ (mem_append_right _ (mem_singleton_self _))⟩
      · exact hrest other hother

theorem checkInputs_given {test : Test} {given inputs : Pairs}
    (h : checkInputs test given = .ok inputs) {input : Input} (hin : input ∈ test.inputs) :
    (∃ value, (input.id, value) ∈ inputs) ∨ (input.default = none ∧ input.required = false) := by
  unfold checkInputs at h
  split at h
  · cases h
  split at h
  · cases h
  · rename_i hcheck
    cases h
    obtain hvalue | ⟨hdefault, hrequired⟩ := (checkEach_given hcheck).2.2 input hin
    · exact .inl hvalue
    · refine .inr ⟨hdefault, ?_⟩
      cases hr : input.required with
      | false => rfl
      | true => exact absurd rfl (hrequired hr)
  · cases h

theorem lookup_isSome_of_mem {pairs : Pairs} {key value : String} (h : (key, value) ∈ pairs) :
    (pairs.lookup key).isSome := by
  rw [List.lookup_isSome_iff]
  exact ⟨(key, value), h, beq_self_eq_true key⟩

theorem Begins.input {test : Test} {vars : Vars} (h : Begins test vars) {input : Input}
    (hin : input ∈ test.inputs) : (vars.inputs.lookup input.id).isSome ∨
      (input.default = none ∧ input.required = false) := by
  obtain ⟨given, inputs, hcheck, hperm⟩ := h.inputs
  obtain ⟨value, hvalue⟩ | hempty := checkInputs_given hcheck hin
  · exact .inl (lookup_isSome_of_mem (hperm.mem_iff.mpr hvalue))
  · exact .inr hempty

/-! ## What is filled in -/

/-- Why a placeholder of a carried-out step may have no value: an optional input with no default
    was left empty, the workspace is on no branch, a page's address or title could not be read, or
    the step is of the teardown and the one it names never had that output. -/
inductive Excused (test : Test) (k : Carried) (above : List Carried) : List String → Prop
  | input {input : Input} (hin : input ∈ test.inputs) (hrequired : input.required = false)
      (hdefault : input.default = none) (hempty : k.vars.inputs.lookup input.id = none) :
      Excused test k above ["inputs", input.id]
  | branch (h : k.vars.place.branch = none) : Excused test k above ["workspace", "branch"]
  | page {page : Carried} {field : String} (hin : page ∈ above)
      (hbrowser : page.step.action.isBrowser = true)
      (hfield : field ∉ page.answer.tells page.step.action) :
      Excused test k above ["steps", page.step.id, field]
  | teardown {id field : String} (hwhich : k.which = .teardown)
      (h : ∀ e ∈ above, e.step.id = id → field ∉ e.answer.tells e.step.action) :
      Excused test k above ["steps", id, field]

/-- Every placeholder of every text a carried-out step renders has a value, or is excused;
    `above` are the steps carried out before it. -/
def Filled (test : Test) (k : Carried) (above : List Carried) : Prop :=
  ∀ text ∈ k.step.action.rendered, ∀ var ∈ Template.placeholders text, ∀ read,
    (k.vars.lookup read var.path).isSome ∨ Excused test k above var.path

def EnvSet (test : Test) (vars : Vars) : Prop :=
  ∀ step ∈ test.inFile, ∀ text ∈ step.action.rendered, ∀ var ∈ Template.placeholders text,
    ∀ name, var.path = ["env", name] → (vars.env.lookup name).isSome

/-- A phase other than the teardown goes on only where all before passed. -/
def Phase.firm (which : Phase) : Bool := which ≠ .teardown

/-- What is so of a run where the steps in `before` had their turn; `going` while it is in setup or
    steps. -/
structure Sure (test : Test) (vars : Vars) (going : Bool) (before : List String) (c : Course) :
    Prop where
  same : vars.SameRun c.vars
  steps : ∀ e ∈ c.carried, e.step ∈ test.inFile ∧ e.step.id ∈ before ∧ vars.SameRun e.vars
  told : ∀ e ∈ c.carried, ∀ field ∈ e.answer.tells e.step.action,
    (c.vars.left e.step.id field).isSome
  -- Setup and steps go on where all above passed.
  passed : going = true → c.end_ = .passed → ∀ id ∈ before,
    ∃ e ∈ c.carried, e.step.id = id ∧ e.answer.Whole e.step.action
  filled : EnvSet test vars → ∀ k above, k :: above <:+ c.carried → Filled test k above

section
variable {test : Test} {vars : Vars} {w : Weather} {which : Phase} {before : List String}
  {step : Step} {c : Course} {going : Bool}

theorem Sure.loose (h : Sure test vars going before c) (more : List String) :
    Sure test vars false (before ++ more) c where
  same := h.same
  steps e he := by
    obtain ⟨hin, hid, hsame⟩ := h.steps e he
    exact ⟨hin, mem_append_left _ hid, hsame⟩
  told := h.told
  passed := nofun
  filled := h.filled

theorem InOrder.named (horder : InOrder test) {a b : Step} (ha : a ∈ test.inFile)
    (hb : b ∈ test.inFile) (hid : a.id = b.id) : a = b :=
  List.inj_on_of_nodup_map horder.ids ha hb hid

theorem InOrder.action (horder : InOrder test) {a : Step} (ha : a ∈ test.inFile) {action : String}
    (h : test.actions.lookup a.id = some action) : a.action.name = action := by
  obtain ⟨b, hb, heq⟩ := mem_map.mp (mem_of_lookup h)
  obtain ⟨hid, rfl⟩ := Prod.mk.inj heq
  rw [horder.named ha hb hid.symm]

/-- **What is rendered.** Where a step is carried out, each of its placeholders has a value or is
    excused: by cases on what it names. -/
theorem Sure.rendered (h : Sure test vars going before c) (hbegins : Begins test vars)
    (henv : EnvSet test vars) (horder : InOrder test) (hin : step ∈ test.inFile)
    (hsound : ∀ text ∈ step.action.rendered, Sound ⟨test.kinds, test.actions, before⟩ text)
    (hgoes : which ≠ .teardown → going = true ∧ c.end_ = .passed) (answer : Answer) :
    Filled test ⟨which, step, c.vars, answer⟩ c.carried := by
  intro text htext var hvar read
  have hvars := h.same
  have hscope := hsound text htext var hvar
  have hset := henv step hin text htext var hvar
  generalize var.path = path at hscope hset
  have hinputs : c.vars.inputs = vars.inputs := by rw [hvars]
  cases hscope with
  | field hns hf =>
    have hmem := mem_of_lookup hns
    simp only [FIELDS, mem_cons, not_mem_nil, or_false, Prod.mk.injEq] at hmem
    obtain ⟨rfl, rfl⟩ | ⟨rfl, rfl⟩ | ⟨rfl, rfl⟩ := hmem
    · simp only [mem_cons, not_mem_nil, or_false] at hf
      obtain rfl | rfl := hf <;> exact .inl rfl
    · simp only [mem_cons, not_mem_nil, or_false] at hf
      obtain rfl | rfl | rfl := hf
      · exact .inl rfl
      -- A workspace may be on no branch.
      · cases hbranch : c.vars.place.branch with
        | none => exact .inr (.branch hbranch)
        | some branch => exact .inl (isSome_iff_exists.mpr ⟨branch, hbranch⟩)
      · exact .inl rfl
    · simp only [mem_cons, not_mem_nil, or_false] at hf
      obtain rfl | rfl | rfl := hf <;> exact .inl rfl
  | input hid =>
    obtain ⟨kind, hkind⟩ := isSome_iff_exists.mp hid
    obtain ⟨input, hin, heq⟩ := mem_map.mp (mem_of_lookup hkind)
    cases heq
    cases hvalue : c.vars.inputs.lookup input.id with
    | some value => exact .inl (isSome_iff_exists.mpr ⟨value, hvalue⟩)
    | none =>
      have hempty := hbegins.input hin
      rw [← hinputs, hvalue] at hempty
      obtain hsome | ⟨hdefault, hrequired⟩ := hempty
      · cases hsome
      · exact .inr (.input hin hrequired hdefault hvalue)
  | env hname =>
    have henv : c.vars.env = vars.env := by rw [hvars]
    left
    show (c.vars.env.lookup _).isSome
    rw [henv]
    exact hset _ rfl
  | @step id field action ha hb hf =>
    rw [lookup_steps]
    by_cases hteardown : which = .teardown
    · by_cases htold : ∃ e ∈ c.carried, e.step.id = id ∧ field ∈ e.answer.tells e.step.action
      · obtain ⟨e, he, rfl, hfield⟩ := htold
        exact .inl (h.told e he field hfield)
      · refine .inr (.teardown hteardown ?_)
        intro e he hid hfield
        exact htold ⟨e, he, hid, hfield⟩
    -- All above passed, and what passed told all it produces.
    · obtain ⟨e, he, rfl, hwhole⟩ := h.passed (hgoes hteardown).1 (hgoes hteardown).2 id hb
      have hname := horder.action (h.steps e he).1 ha
      by_cases hfield : field ∈ e.answer.tells e.step.action
      · exact .inl (h.told e he field hfield)
      · obtain hbrowser | hall := hwhole
        · exact .inr (.page he hbrowser hfield)
        · exact absurd (hall field (hname ▸ hf)) hfield

theorem Sure.carry (h : Sure test vars which.firm before c) (hbegins : Begins test vars)
    (horder : InOrder test) (hin : step ∈ test.inFile) (hnew : step.id ∉ before)
    (hsound : ∀ text ∈ step.action.rendered, Sound ⟨test.kinds, test.actions, before⟩ text)
    (hgoes : which ≠ .teardown → c.end_ = .passed) (answer : Answer) :
    Sure test vars which.firm (before ++ [step.id]) (c.carry w which step answer) where
  same := by
    obtain heq | ⟨outputs, heq⟩ := carry_vars w which step answer c
    · rw [heq]
      exact h.same
    · rw [heq]
      exact h.same.leave step.id outputs
  steps e he := by
    rw [carry_carried] at he
    obtain rfl | he := mem_cons.mp he
    · exact ⟨hin, mem_append_right _ (mem_singleton_self _), h.same⟩
    · obtain ⟨hfile, hid, hsame⟩ := h.steps e he
      exact ⟨hfile, mem_append_left _ hid, hsame⟩
  told e he field hfield := by
    rw [carry_carried] at he
    obtain rfl | he := mem_cons.mp he
    · exact carry_tells hfield
    · have hne : e.step.id ≠ step.id := fun heq => hnew (heq ▸ (h.steps e he).2.1)
      obtain heq | ⟨outputs, heq⟩ := carry_vars w which step answer c
      · rw [heq]
        exact h.told e he field hfield
      · rw [heq, left_leave_of_ne hne]
        exact h.told e he field hfield
  passed hfirm hend id hid := by
    have hwhich : which ≠ .teardown := by simpa [Phase.firm] using hfirm
    obtain ⟨hpassed, hwhole⟩ := carry_passed hwhich hend
    rw [carry_carried]
    obtain hid | rfl := mem_snoc.mp hid
    · obtain ⟨e, he, heq, hall⟩ := h.passed hfirm hpassed id hid
      exact ⟨e, mem_cons_of_mem _ he, heq, hall⟩
    · exact ⟨_, mem_cons_self .., rfl, hwhole⟩
  filled henv k above hsuffix := by
    rw [carry_carried] at hsuffix
    obtain heq | hsuffix := List.suffix_cons_iff.mp hsuffix
    · cases heq
      refine h.rendered hbegins henv horder hin hsound ?_ answer
      intro hwhich
      exact ⟨by simpa [Phase.firm] using hwhich, hgoes hwhich⟩
    · exact h.filled henv k above hsuffix

theorem Sure.atEnd (h : Sure test vars going before c) (hend : c.end_ ≠ .passed) (id : String) :
    Sure test vars going (before ++ [id]) c where
  __ := h.loose [id]
  passed _ hpassed := absurd hpassed hend

theorem Sure.turn (h : Sure test vars which.firm before c) (hbegins : Begins test vars)
    (horder : InOrder test) (hin : step ∈ test.inFile) (hnew : step.id ∉ before)
    (hsound : ∀ text ∈ step.action.rendered, Sound ⟨test.kinds, test.actions, before⟩ text) :
    Sure test vars (which.firm && (c.turn w which step).2) (before ++ [step.id])
      (c.turn w which step).1 := by
  have hcarry : c.skips which = false → ∀ answer,
      Sure test vars which.firm (before ++ [step.id]) (c.carry w which step answer) := by
    intro hskips answer
    refine h.carry hbegins horder hin hnew hsound ?_ answer
    intro hwhich
    simpa [Course.skips, hwhich] using hskips
  have hover : c.skips which = true → Sure test vars which.firm (before ++ [step.id]) c := by
    intro hskips
    refine h.atEnd ?_ step.id
    simp only [Course.skips, Bool.and_eq_true, decide_eq_true_eq] at hskips
    exact hskips.1
  unfold Course.turn
  split
  · simpa using h.loose [step.id]
  · rename_i stop hturn
    cases hskips : c.skips which with
    | true => simpa [hskips] using hover hskips
    | false =>
      simp only [Bool.and_true]
      have hstopped : Sure test vars which.firm before { c with end_ := .stopped stop } :=
        ⟨h.same, h.steps, h.told, nofun, h.filled⟩
      exact hstopped.atEnd nofun step.id
  · rename_i answer hturn
    cases hskips : c.skips which with
    | true => simpa [hskips] using hover hskips
    | false => simpa [hskips] using hcarry hskips answer
  · rename_i answer hturn
    cases hskips : c.skips which with
    | true => simpa [hskips] using (hover hskips).loose []
    | false => simpa [hskips] using (hcarry hskips answer).loose []

theorem Sure.phaseFrom (hbegins : Begins test vars) (horder : InOrder test) {steps : List Step}
    (h : Sure test vars which.firm before c) (hin : ∀ step ∈ steps, step ∈ test.inFile)
    (hnew : (before ++ steps.map (·.id)).Nodup)
    (hscoped : Scoped test.kinds test.actions before steps) :
    Sure test vars (which.firm && (c.phaseFrom w which steps).2) (before ++ steps.map (·.id))
      (c.phaseFrom w which steps).1 := by
  induction steps generalizing before c with
  | nil => simpa [Course.phaseFrom] using h
  | cons step rest ih =>
    rw [map_cons] at hnew ⊢
    have hstep : step.id ∉ before := by
      intro hmem
      exact List.disjoint_of_nodup_append hnew hmem (mem_cons_self ..)
    have hturn := h.turn (w := w) hbegins horder (hin step (mem_cons_self ..)) hstep hscoped.1
    rw [Course.phaseFrom]
    split
    · rename_i c' heq
      rw [heq, Bool.and_true] at hturn
      have hrest := ih hturn (fun s hs => hin s (mem_cons_of_mem _ hs)) (by simpa using hnew)
        hscoped.2
      simpa using hrest
    · rename_i c' heq
      rw [heq] at hturn
      simpa using hturn.loose (rest.map (·.id))

theorem Sure.phase (h : Sure test vars going before c) (w : Weather) (which : Phase)
    (hgoing : which.firm = true → going = true ∧ c.end_ = .passed) (hbegins : Begins test vars)
    (horder : InOrder test) (steps : List Step)
    (hin : ∀ step ∈ steps, step ∈ test.inFile) (hnew : (before ++ steps.map (·.id)).Nodup)
    (hscoped : Scoped test.kinds test.actions before steps) :
    Sure test vars (which.firm && (c.phase w which steps).2) (before ++ steps.map (·.id))
      (c.phase w which steps).1 := by
  have hstart : Sure test vars which.firm before { c with end_ := .passed } :=
    ⟨h.same, h.steps, h.told,
      fun hfirm _ => h.passed (hgoing hfirm).1 (hgoing hfirm).2, h.filled⟩
  exact hstart.phaseFrom hbegins horder hin hnew hscoped

theorem sure_start (test : Test) (vars : Vars) : Sure test vars true [] ⟨vars, .passed, []⟩ where
  same := .refl vars
  steps := forall_mem_nil _
  told := forall_mem_nil _
  passed _ _ := forall_mem_nil _
  filled _ _ _ h := absurd (List.suffix_nil.mp h) (cons_ne_nil _ _)

theorem forward_sure (hbegins : Begins test vars) (horder : InOrder test) :
    Sure test vars false ((test.setup ++ test.steps).map (·.id)) (forward w test vars).1 := by
  have hnodup := horder.ids
  rw [Test.inFile, map_append, map_append] at hnodup
  have hforward := hnodup.of_append_left
  rw [map_append]
  have hsetup := (sure_start test vars).phase w .setup (fun _ => ⟨rfl, rfl⟩)
    hbegins horder test.setup (by simp +contextual [Test.inFile])
    (by simpa using hforward.of_append_left) horder.setup
  rw [nil_append] at hsetup
  unfold forward
  split
  · rename_i c heq
    rw [heq] at hsetup
    split
    · rename_i hpassed
      have hsteps := hsetup.phase w .steps (fun _ => ⟨rfl, hpassed⟩)
        hbegins horder test.steps (by simp +contextual [Test.inFile]) hforward
        horder.steps
      simpa using hsteps.loose []
    · exact hsetup.loose _
  · rename_i c heq
    rw [heq] at hsetup
    exact hsetup.loose _

/-- **Every run is sure of what it carried out.** -/
theorem phases_sure (hbegins : Begins test vars) (horder : InOrder test) :
    Sure test vars false (test.inFile.map (·.id)) (phases w test vars) := by
  have hforward := forward_sure (w := w) hbegins horder
  have hnodup := horder.ids
  rw [Test.inFile, map_append] at hnodup ⊢
  unfold phases
  split
  · rename_i c heq
    rw [heq] at hforward
    split
    · exact hforward.loose _
    · have hteardown := hforward.phase w .teardown nofun hbegins horder
        test.teardown (by simp +contextual [Test.inFile]) hnodup horder.teardown
      exact hteardown
  · rename_i c heq
    rw [heq] at hforward
    exact hforward.loose _

end

/-- **Every placeholder a run renders has a value, or is excused**, whatever meets the run: of every
    step that is carried out, in setup, steps or teardown, with the steps carried out above it. -/
theorem carried_filled {reader : Reader} {text : String} {test : Test}
    (h : parse reader text = .ok test) {vars : Vars} (hbegins : Begins test vars)
    (henv : EnvSet test vars) (w : Weather) {k : Carried} {above : List Carried}
    (hk : k :: above <:+ (phases w test vars).carried) : Filled test k above :=
  (phases_sure hbegins (parse_inOrder h).1).filled henv k above hk

def serverVars (inputs : Pairs) : Vars where
  place :=
    { projectName := "shop", projectRoot := "/shop", workspaceId := "w1", workspaceName := "basket"
      workspacePath := "/shop/basket", task := none, branch := some "basket", baseBranch := none }
  runId := "r1"
  port := 4000
  dir := "/tmp/r1"
  inputs := inputs
  env := []
  steps := []

def noServer : Weather where
  turn id := if id = "server" then .ended (.failed "`serve` is not on your PATH.")
    else .ended (.exited (some 0) [])
  skipped := true
  read _ _ := ""
  outputDir := "/out"

def askedUser : List Input := [⟨"user", .text, "user", true, none, []⟩]

theorem server_begins : Begins (serverTest askedUser) (serverVars [("user", "ann")]) :=
  ⟨⟨[("user", "ann")], [("user", "ann")], by decide +kernel, .refl _⟩, nodup_nil, rfl⟩

theorem server_envSet : EnvSet (serverTest askedUser) (serverVars [("user", "ann")]) := by
  have hnone : ∀ step ∈ (serverTest askedUser).inFile, ∀ text ∈ step.action.rendered,
      ∀ var ∈ Template.placeholders text, var.path.head? ≠ some "env" := by decide +kernel
  intro step hin text htext var hvar name hpath
  exact absurd (by rw [hpath]; rfl) (hnone step hin text htext var hvar)

def serverCarried : Carried where
  which := .steps
  step := ⟨"server", .start "serve" [] none []⟩
  vars := serverVars [("user", "ann")]
  answer := .failed "`serve` is not on your PATH."

def stopCarried : Carried where
  which := .teardown
  step :=
    ⟨"stop", .run "kill" ["\x7b\x7b steps.server.pid \x7d\x7d"] none [] none
      ⟨.code 0, none, none, false, none⟩ none⟩
  vars := (serverVars [("user", "ann")]).leave "server" []
  answer := .exited (some 0) []

theorem server_carried : (phases noServer (serverTest askedUser)
    (serverVars [("user", "ann")])).carried = [stopCarried, serverCarried] := rfl

theorem server_filled : Filled (serverTest askedUser) stopCarried [serverCarried] :=
  carried_filled server_accepted server_begins server_envSet noServer
    (server_carried ▸ suffix_refl _)

/-- The teardown stops a server that never started: its number is replaced by nothing. -/
theorem teardown_renders_nothing : ¬ ∀ (reader : Reader) (text : String) (test : Test)
    (vars : Vars) (w : Weather), parse reader text = .ok test → Begins test vars →
    EnvSet test vars → ∀ k ∈ (phases w test vars).carried, ∀ text ∈ k.step.action.rendered,
    ∀ var ∈ Template.placeholders text, ∀ read, (k.vars.lookup read var.path).isSome := by
  intro hall
  have hfilled := hall _ _ _ _ noServer server_accepted server_begins server_envSet
  have hempty : ((phases noServer (serverTest askedUser)
      (serverVars [("user", "ann")])).carried.any fun k => k.step.action.rendered.any fun text =>
        (Template.placeholders text).any fun var =>
          (k.vars.lookup (fun _ => "") var.path).isNone) = true := by decide +kernel
  obtain ⟨k, hk, hempty⟩ := List.any_eq_true.mp hempty
  obtain ⟨text, htext, hempty⟩ := List.any_eq_true.mp hempty
  obtain ⟨var, hvar, hnone⟩ := List.any_eq_true.mp hempty
  have hsome := hfilled k hk text htext var hvar fun _ => ""
  rw [isNone_iff_eq_none.mp hnone] at hsome
  cases hsome

end Yardsort.Smoke
