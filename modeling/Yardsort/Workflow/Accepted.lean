import Yardsort.Lib.Table
import Yardsort.Workflow.Parse
import Yardsort.Workflow.Place

/- What an accepted workflow file is sure of.

   The checks are followed as they run: what a clean check of a text, of an action, of a step's
   needs and of the whole graph says of the value it gave (`text_clean`, `action_clean`,
   `edgesOf_clean`, `steps_clean`). The graph is the library's: a clean search for circles means
   there is none, and what comes before a step is the transitive closure of its needs. -/
namespace Yardsort.Workflow
open Yardsort.Lib Yardsort.Yaml Yardsort.Template Relation

def Needs (w : Workflow) (a b : String) : Prop := ∃ s ∈ w.steps, s.id = a ∧ b ∈ s.needs

/-- A variable names something that has a value when step `s` runs: a declared input, a field an
    earlier step leaves, or what the engine looks up of the place the run works in. -/
def Resolves (w : Workflow) (s : Step) : List String → Prop
  | ["inputs", id] => ∃ input ∈ w.inputs, input.id = id
  | ["steps", id, field] =>
    TransGen (Needs w) s.id id ∧ ∃ t ∈ w.steps, t.id = id ∧ field ∈ Action.produces t.action.name
  | path => ∀ seen : Seen, seen.Full → (seen.var path).isSome

/-- A template text is well-formed and every placeholder in it resolves. -/
def Fills (w : Workflow) (s : Step) (text : String) : Prop :=
  (∃ parts, Template.parse text = .ok parts) ∧ ∀ var ∈ placeholders text, Resolves w s var.path

/-- Step ids are unique names, the needs name other steps and go in no circle, every placeholder
    of every text resolves, and every session referred to is the workspace's own or one that a
    step before starts. -/
structure InOrder (w : Workflow) : Prop where
  unique : (w.steps.map (·.id)).Nodup
  names : ∀ s ∈ w.steps, isName s.id = true
  needs : ∀ s ∈ w.steps, ∀ need ∈ s.needs, need ≠ s.id ∧ ∃ t ∈ w.steps, t.id = need
  acyclic : ∀ id, ¬ TransGen (Needs w) id id
  texts : ∀ s ∈ w.steps, ∀ text ∈ s.action.texts, Fills w s text
  sessions : ∀ s ∈ w.steps, ∀ id, s.action.session? = some (.step id) →
    TransGen (Needs w) s.id id ∧ ∃ t ∈ w.steps, t.id = id ∧ t.action.name = "start_session"

inductive InScope (scope : Scope) : List String → Prop
  | field {namesp field : String} {fields : List String} (hns : FIELDS.lookup namesp = some fields)
      (hf : field ∈ fields) : InScope scope [namesp, field]
  | whole {name : String} (h : name ∈ WHOLE) : InScope scope [name]
  | input {id : String} (h : (scope.inputs.lookup id).isSome) : InScope scope ["inputs", id]
  | step {id field action : String} (ha : scope.actions.lookup id = some action)
      (hb : id ∈ scope.before) (hf : field ∈ Action.produces action) :
      InScope scope ["steps", id, field]

variable {scope : Scope}

theorem inScope_of_resolve {var : Placeholder} (h : resolve var scope = .ok ()) :
    InScope scope var.path := by
  unfold resolve at h
  dsimp only at h
  split at h
  · cases h
  rename_i namesp rest hpath
  rw [hpath]
  split at h
  · rename_i fields field hns
    split at h
    · rename_i hf
      exact .field hns hf
    · cases h
  · cases h
  · split at h
    · rename_i hwhole
      split at h
      · exact .whole hwhole
      · cases h
    · split at h
      · rename_i hinputs
        subst hinputs
        split at h
        · split at h
          · rename_i hid
            exact .input hid
          · cases h
        · cases h
      · split at h
        · rename_i hsteps
          subst hsteps
          split at h
          · split at h
            · cases h
            · rename_i action ha
              split at h
              · cases h
              rename_i hb
              split at h
              · rename_i hf
                exact .step ha (not_not.mp hb) hf
              · split at h <;> cases h
          · cases h
        · cases h

theorem InScope.before {id field : String} (h : InScope scope ["steps", id, field]) :
    id ∈ scope.before := by
  generalize hpath : ["steps", id, field] = path at h
  cases h with
  | step _ hb _ =>
    simp only [List.cons.injEq] at hpath
    obtain ⟨-, rfl, -⟩ := hpath
    exact hb
  | _ => simp at hpath

theorem resolves_field {namesp field : String} {fields : List String}
    (hns : FIELDS.lookup namesp = some fields) (hf : field ∈ fields) (w : Workflow) (s : Step) :
    Resolves w s [namesp, field] := by
  have hmem := mem_of_lookup hns
  simp only [FIELDS, mem_cons, not_mem_nil, or_false, Prod.mk.injEq] at hmem
  obtain ⟨rfl, rfl⟩ | ⟨rfl, rfl⟩ | ⟨rfl, rfl⟩ := hmem
  · intro seen hfull
    simp only [mem_cons, not_mem_nil, or_false] at hf
    obtain rfl | rfl := hf <;> rfl
  · intro seen hfull
    simp only [mem_cons, not_mem_nil, or_false] at hf
    obtain rfl | rfl | rfl | rfl | rfl := hf
    · rfl
    · exact hfull.branch
    · exact hfull.baseBranch
    · rfl
    · exact hfull.task
  · intro seen hfull
    obtain ⟨pr, hpr⟩ := isSome_iff_exists.mp hfull.pr
    simp only [mem_cons, not_mem_nil, or_false] at hf
    obtain rfl | rfl | rfl := hf <;> simp [Seen.var, Facts.var, hpr]

theorem resolves_whole {name : String} (h : name ∈ WHOLE) (w : Workflow) (s : Step) :
    Resolves w s [name] := by
  simp only [WHOLE, mem_cons, not_mem_nil, or_false] at h
  obtain rfl | rfl := h
  · exact fun _ hfull => hfull.memory
  · exact fun _ hfull => hfull.handoff

def Sound (scope : Scope) (text : String) : Prop :=
  (∃ parts, Template.parse text = .ok parts) ∧ ∀ var ∈ placeholders text, InScope scope var.path

variable {check : Checker}

theorem checkVariable_clean {field : Spanned String} {var : Placeholder}
    (h : (check.checkVariable scope field var).Clean) :
    InScope scope var.path := by
  unfold Checker.checkVariable at h
  split at h
  · rename_i hok
    exact inScope_of_resolve hok
  · exact absurd h (Checked.not_clean_report _)

theorem not_clean_each_report {α : Type} {f : α → Problem} {as : List α} (h : as ≠ []) :
    ¬ (Checked.each (fun a => .report (f a)) as).Clean := by
  intro hc
  obtain ⟨a, ha⟩ := exists_mem_of_ne_nil as h
  exact Checked.not_clean_report _ (Checked.clean_each.mp hc a ha)

theorem parse_error_ne_nil {text : String} {malformed : List Malformed}
    (h : Template.parse text = .error malformed) : malformed ≠ [] := by
  unfold Template.parse at h
  dsimp only at h
  split at h
  · cases h
  · rename_i hne
    exact Except.error.inj h ▸ hne

theorem text_clean {field : Option (Spanned String)} (h : (check.text scope field).Clean) :
    (check.text scope field).value = field.map (·.value) ∧
      ∀ text, field.map (·.value) = some text → Sound scope text := by
  cases field with
  | none => exact ⟨rfl, nofun⟩
  | some field =>
    rw [Checker.text] at h ⊢
    split at h
    · rename_i parts hparts
      refine ⟨rfl, ?_⟩
      rintro text ⟨⟩
      have hall := Checked.clean_each.mp (Checked.clean_bind.mp h).1
      exact ⟨⟨parts, hparts⟩, fun var hvar => checkVariable_clean (hall var hvar)⟩
    · rename_i malformed hbad
      exact absurd (Checked.clean_bind.mp h).1 (not_clean_each_report (parse_error_ne_nil hbad))

theorem required_clean {field : Option (Spanned String)} {step : RawStep} {key what : String}
    (h : (check.required scope field step key what).Clean) :
    Sound scope (check.required scope field step key what).value := by
  cases field with
  | none => exact absurd (Checked.clean_bind.mp h).1 (Checked.not_clean_report _)
  | some field =>
    obtain ⟨hvalue, hsound⟩ := text_clean (Checked.clean_bind.mp h).1
    have : (check.required scope (some field) step key what).value = field.value := by
      show ((check.text scope (some field)).value).getD "" = field.value
      rw [hvalue]
      rfl
    rw [this]
    exact hsound field.value rfl

theorem sound_of_plain {value : String} (h : Checker.holdsBraces value = false) :
    Sound scope value := by
  have hcut : Text.cut opening value.toList = none :=
    Option.isSome_eq_false_iff.mp h |> isNone_iff_eq_none.mp
  refine ⟨⟨_, parse_plain hcut⟩, ?_⟩
  rw [placeholders_plain hcut]
  exact forall_mem_nil _

theorem sound_of_usable {kind : InputKind} {value : String}
    (h : Checker.usable kind scope value = true) : Sound scope value := by
  unfold Checker.usable at h
  split at h
  · rename_i id start raw hparse
    refine ⟨⟨_, hparse⟩, ?_⟩
    intro var hvar
    have hvar := (mem_placeholders hparse).mp hvar
    cases mem_singleton.mp hvar
    have := of_decide_eq_true h
    exact .input (by rw [this]; rfl)
  · cases h

theorem harness_clean {step : RawStep} (h : (Checker.harness scope step).Clean) :
    Sound scope (Checker.harness scope step).value := by
  unfold Checker.harness at h ⊢
  split at h
  · exact absurd (Checked.clean_bind.mp h).1 (Checked.not_clean_report _)
  rename_i field hfield
  dsimp only at h ⊢
  split at h
  · rename_i hbraces
    rw [if_pos hbraces]
    have husable := Checked.clean_reportIf.mp (Checked.clean_bind.mp h).1
    exact sound_of_usable (Bool.not_eq_false _ |>.mp husable)
  · rename_i hbraces
    rw [if_neg hbraces]
    exact sound_of_plain (Bool.not_eq_true _ |>.mp hbraces)

theorem test_clean {step : RawStep} (h : (Checker.test scope step).Clean) :
    Sound scope (Checker.test scope step).value := by
  unfold Checker.test at h ⊢
  split at h
  · exact absurd (Checked.clean_bind.mp h).1 (Checked.not_clean_report _)
  rename_i field hfield
  dsimp only at h ⊢
  split at h
  · rename_i hbraces
    rw [if_pos hbraces]
    have husable := Checked.clean_reportIf.mp (Checked.clean_bind.mp h).1
    exact sound_of_usable (Bool.not_eq_false _ |>.mp husable)
  · rename_i hbraces
    rw [if_neg hbraces]
    exact sound_of_plain (Bool.not_eq_true _ |>.mp hbraces)

theorem testInputs_clean {step : RawStep} (h : (check.testInputs scope step).Clean) :
    ∀ text ∈ (check.testInputs scope step).value.map Prod.snd, Sound scope text := by
  unfold Checker.testInputs at h ⊢
  split at h
  · exact fun _ hin => absurd hin (not_mem_nil)
  rename_i field hfield
  intro text hin
  rw [Checked.value_each, List.map_map] at hin
  obtain ⟨⟨name, value⟩, hmem, rfl⟩ := mem_map.mp hin
  have htext := (Checked.clean_bind.mp (Checked.clean_each.mp h (name, value) hmem)).1
  exact (text_clean htext).2 value.value rfl

def Started (scope : Scope) : SessionRef → Prop
  | .origin => True
  | .step id => id ∈ scope.before ∧ scope.actions.lookup id = some "start_session"

theorem sessionOf_clean {field : Spanned String} {var : Placeholder} {id part : String}
    (hpath : var.path = ["steps", id, part]) (h : (check.sessionOf scope field var id part).Clean) :
    Started scope (.step id) := by
  unfold Checker.sessionOf at h
  split at h
  · exact absurd h (Checked.not_clean_report _)
  split at h
  · exact absurd h (Checked.not_clean_report _)
  · rename_i action haction
    split at h
    · exact absurd h (Checked.not_clean_report _)
    rename_i hstart
    obtain rfl := not_not.mp hstart
    have hscope := checkVariable_clean h
    rw [hpath] at hscope
    exact ⟨hscope.before, haction⟩

theorem session_clean {step : RawStep} (h : (check.session scope step).Clean) :
    Started scope (check.session scope step).value := by
  unfold Checker.session at h ⊢
  split at h
  · trivial
  rename_i field hfield
  dsimp only at h ⊢
  split at h
  · rename_i horigin
    rw [if_pos horigin]
    trivial
  · rename_i horigin
    rw [if_neg horigin]
    split at h
    · rename_i var hparse
      split at h
      · rename_i id part hpath
        exact sessionOf_clean hpath (Checked.clean_bind.mp h).1
      · trivial
    · trivial

structure Checks (scope : Scope) (name : String) (action : Action) : Prop where
  name : action.name = name
  texts : ∀ text ∈ action.texts, Sound scope text
  session : ∀ session, action.session? = some session → Started scope session

theorem action_clean {raw : RawStep} (hname : raw.action.value ∈ ACTIONS)
    (h : (check.action scope raw).Clean) :
    Checks scope raw.action.value (check.action scope raw).value := by
  unfold Checker.action at h ⊢
  split at h
  · rename_i hstart
    rw [hstart]
    simp only [Checked.clean_bind, Checked.clean_pure, and_true] at h
    obtain ⟨hharness, hprompt, hmodel, heffort⟩ := h
    have htext : ∀ {field : Option (Spanned String)} {text : String},
        (check.text scope field).Clean → text ∈ (check.text scope field).value.toList →
        Sound scope text := by
      intro field text hclean hin
      obtain ⟨hvalue, hsound⟩ := text_clean hclean
      exact hsound text (hvalue ▸ mem_toList.mp hin)
    refine ⟨rfl, ?_, fun _ h => by cases h⟩
    intro text hin
    simp only [Checked.value_bind, Checked.value_pure, Action.texts, mem_cons,
      mem_append] at hin
    obtain rfl | (hin | hin) | hin := hin
    · exact harness_clean hharness
    · exact htext hprompt hin
    · exact htext hmodel hin
    · exact htext heffort hin
  · rename_i hwait
    rw [hwait]
    refine ⟨rfl, (fun _ h => by cases h), ?_⟩
    rintro session ⟨⟩
    exact session_clean (Checked.clean_bind.mp h).1
  · rename_i hsend
    rw [hsend]
    simp only [Checked.clean_bind, Checked.clean_pure, and_true] at h
    obtain ⟨hsession, hprompt, -⟩ := h
    refine ⟨rfl, ?_, ?_⟩
    · intro text hin
      obtain rfl := mem_singleton.mp hin
      exact required_clean hprompt
    · rintro session ⟨⟩
      exact session_clean hsession
  · rename_i hpr
    rw [hpr]
    exact ⟨rfl, (fun _ h => by cases h), fun _ h => by cases h⟩
  · rename_i hrun
    rw [hrun]
    simp only [Checked.clean_bind, Checked.clean_pure, and_true] at h
    obtain ⟨htest, hinputs, -⟩ := h
    refine ⟨rfl, ?_, fun _ h => by cases h⟩
    intro text hin
    obtain rfl | hin := mem_cons.mp hin
    · exact test_clean htest
    · exact testInputs_clean hinputs text hin
  · rename_i h₁ h₂ h₃ h₄ h₅
    simp only [Checked.clean_bind, Checked.clean_pure, and_true] at h
    obtain ⟨htitle, hbody⟩ := h
    refine ⟨?_, ?_, fun _ h => by cases h⟩
    · simp only [ACTIONS, mem_cons, not_mem_nil, or_false] at hname
      obtain hn | hn | hn | hn | hn | hn := hname
      · exact absurd hn h₁
      · exact absurd hn h₂
      · exact absurd hn h₃
      · exact absurd hn h₄
      · exact absurd hn h₅
      · exact hn.symm
    · intro text hin
      obtain rfl | hin := mem_cons.mp hin
      · exact required_clean htitle
      · obtain ⟨hvalue, hsound⟩ := text_clean hbody
        exact hsound text (hvalue ▸ mem_toList.mp hin)

theorem step_clean {raw : RawStep} (h : (check.step scope raw).Clean) :
    ∃ action, (check.step scope raw).value =
        { id := raw.id.value, needs := raw.needs.map (·.value), action := action } ∧
      Checks scope raw.action.value action := by
  unfold Checker.step at h ⊢
  dsimp only at h ⊢
  split at h
  · exact absurd (Checked.clean_bind.mp h).1 (Checked.not_clean_report _)
  rename_i hname
  rw [if_neg hname]
  have hname := not_not.mp hname
  have haction := (Checked.clean_bind.mp (Checked.clean_bind.mp h).2).1
  exact ⟨_, rfl, action_clean hname haction⟩

theorem edgesOf_clean {actions : List (String × String)} {id : String} {listed : List String}
    {needs : List (Spanned String)} (h : (Checker.edgesOf actions id listed needs).Clean) :
    (∀ need ∈ needs, need.value ≠ id ∧ (actions.lookup need.value).isSome) ∧
      (Checker.edgesOf actions id listed needs).value = needs.map (fun need => (id, need.value)) := by
  induction needs generalizing listed with
  | nil => exact ⟨nofun, rfl⟩
  | cons need needs ih =>
    rw [Checker.edgesOf] at h ⊢
    split at h
    · exact absurd (Checked.clean_bind.mp h).1 (Checked.not_clean_report _)
    rename_i hself
    rw [if_neg hself]
    split at h
    · exact absurd (Checked.clean_bind.mp h).1 (Checked.not_clean_report _)
    rename_i hknown
    rw [if_neg hknown]
    split at h
    · exact absurd (Checked.clean_bind.mp h).1 (Checked.not_clean_report _)
    rename_i htwice
    rw [if_neg htwice]
    obtain ⟨hneeds, hvalue⟩ := ih (Checked.clean_bind.mp h).1
    refine ⟨?_, ?_⟩
    · intro n hn
      obtain rfl | hn := mem_cons.mp hn
      · exact ⟨hself, by simpa using hknown⟩
      · exact hneeds n hn
    · simp [hvalue]

/-- What a clean check of the graph says of the edges it gives. -/
structure Acyclic (steps : List RawStep) (actions : List (String × String))
    (edges : List (String × String)) : Prop where
  needs : ∀ step ∈ steps, ∀ need ∈ step.needs,
    need.value ≠ step.id.value ∧ (actions.lookup need.value).isSome
  edge : ∀ a b, Graph.Edge edges a b ↔ ∃ step ∈ steps, step.id.value = a ∧ b ∈ step.needs.map (·.value)
  acyclic : Graph.Acyclic edges

theorem graph_clean {steps : List RawStep} {actions : List (String × String)}
    (h : (Checker.graph steps actions).Clean) :
    Acyclic steps actions (Checker.graph steps actions).value := by
  unfold Checker.graph at h ⊢
  obtain ⟨heach, hrest⟩ := Checked.clean_bind.mp h
  have hedges := fun step hstep => edgesOf_clean (Checked.clean_each.mp heach step hstep)
  rw [Checked.value_bind]
  generalize hflat : (Checked.each (fun step => Checker.edgesOf actions step.id.value [] step.needs)
    steps).value.flatten = edges at hrest ⊢
  have hedge : ∀ a b, Graph.Edge edges a b ↔
      ∃ step ∈ steps, step.id.value = a ∧ b ∈ step.needs.map (·.value) := by
    intro a b
    rw [Graph.Edge, ← hflat, Checked.value_each]
    simp only [mem_flatten, mem_map]
    constructor
    · rintro ⟨_, ⟨step, hstep, rfl⟩, hin⟩
      rw [(hedges step hstep).2] at hin
      obtain ⟨need, hneed, he⟩ := mem_map.mp hin
      cases he
      exact ⟨step, hstep, rfl, need, hneed, rfl⟩
    · rintro ⟨step, hstep, rfl, need, hneed, rfl⟩
      refine ⟨_, ⟨step, hstep, rfl⟩, ?_⟩
      rw [(hedges step hstep).2]
      exact mem_map_of_mem hneed
  split at hrest
  · rename_i hnone
    refine ⟨fun step hstep => (hedges step hstep).1, hedge, ?_⟩
    apply Graph.circle_none _ hnone
    rintro ⟨a, b⟩ he
    obtain ⟨step, hstep, rfl, -⟩ := (hedge a b).mp he
    exact mem_map_of_mem hstep
  · exact absurd (Checked.clean_bind.mp hrest).1 (Checked.not_clean_report _)

theorem ids_clean {before steps : List RawStep} (hbefore : (before.map (·.id.value)).Nodup)
    (h : (Checker.ids before steps).Clean) :
    (∀ step ∈ steps, isName step.id.value = true) ∧
      ((before ++ steps).map (·.id.value)).Nodup := by
  induction steps generalizing before with
  | nil => exact ⟨forall_mem_nil _, by simpa using hbefore⟩
  | cons step steps ih =>
    rw [Checker.ids] at h
    obtain ⟨hname, hrest⟩ := Checked.clean_bind.mp h
    have hname := Bool.not_eq_false _ |>.mp (Checked.clean_reportIf.mp hname)
    split at hrest
    · exact absurd (Checked.clean_bind.mp hrest).1 (Checked.not_clean_report _)
    rename_i hfind
    have hnew : step.id.value ∉ before.map (·.id.value) := by
      intro hin
      obtain ⟨other, hother, heq⟩ := mem_map.mp hin
      have := List.find?_eq_none.mp hfind other hother
      simp [heq] at this
    have hbefore' : ((before ++ [step]).map (·.id.value)).Nodup := by
      rw [map_append, map_singleton]
      exact nodup_append.mpr ⟨hbefore, List.nodup_singleton _, by
        rintro a ha b hb rfl
        exact hnew (mem_singleton.mp hb ▸ ha)⟩
    obtain ⟨hnames, hnodup⟩ := ih hbefore' hrest
    refine ⟨?_, by simpa using hnodup⟩
    intro s hs
    obtain rfl | hs := mem_cons.mp hs
    · exact hname
    · exact hnames s hs

/-! ## The file as a whole -/

def scopeOf (inputs : List Input) (raw : List RawStep) (edges : List (String × String))
    (step : RawStep) : Scope where
  inputs := inputs.map (fun input => (input.id, input.kind))
  actions := raw.map (fun step => (step.id.value, step.action.value))
  before := Graph.reached edges step.id.value

/-- How an accepted file's steps came about: from raw steps whose ids and graph are in order,
    each checked in its scope without a problem. -/
structure Built (w : Workflow) (check : Checker) (raw : List RawStep)
    (edges : List (String × String)) : Prop where
  steps : w.steps = raw.map (fun s => (check.step (scopeOf w.inputs raw edges s) s).value)
  clean : ∀ s ∈ raw, (check.step (scopeOf w.inputs raw edges s) s).Clean
  names : ∀ s ∈ raw, isName s.id.value = true
  unique : (raw.map (·.id.value)).Nodup
  graph : Acyclic raw (raw.map (fun step => (step.id.value, step.action.value))) edges

theorem parse_built {reader : Reader} {text : String} {w : Workflow}
    (h : parse reader text = .ok w) : ∃ check raw edges, Built w check raw edges := by
  unfold parse at h
  dsimp only at h
  split at h
  · cases h
  split at h
  · cases h
  · rename_i raw hraw
    split at h
    · rename_i hclean
      cases h
      let check : Checker := { source := text.toList }
      have hclean : (check.workflow raw).Clean := hclean
      unfold Checker.workflow at hclean
      simp only [Checked.clean_bind] at hclean
      obtain ⟨-, -, -, -, -, hsteps, -⟩ := hclean
      set inputs := (Checker.inputs [] raw.inputs).value with hinputs
      have hvalue : (check.workflow raw).value.steps = (check.steps raw.steps inputs).value := rfl
      unfold Checker.steps at hsteps hvalue
      split at hsteps
      · exact absurd (Checked.clean_bind.mp hsteps).1 (Checked.not_clean_report _)
      rename_i hne
      rw [if_neg hne] at hvalue
      simp only [Checked.clean_bind] at hsteps
      obtain ⟨hids, hgraph, heach⟩ := hsteps
      have hnil : (([] : List RawStep).map (·.id.value)).Nodup := nodup_nil
      obtain ⟨hnames, hunique⟩ := ids_clean hnil hids
      rw [Checked.value_bind, Checked.value_bind, Checked.value_each] at hvalue
      exact ⟨check, raw.steps.value, _, hvalue, Checked.clean_each.mp heach, hnames, hunique,
        graph_clean hgraph⟩
    · cases h

namespace Built
variable {w : Workflow} {check : Checker} {raw : List RawStep} {edges : List (String × String)}

theorem mem_steps (h : Built w check raw edges) {t : Step} :
    t ∈ w.steps ↔ ∃ s ∈ raw, t = (check.step (scopeOf w.inputs raw edges s) s).value := by
  rw [h.steps, mem_map]
  constructor <;> rintro ⟨s, hs, ht⟩ <;> exact ⟨s, hs, ht.symm⟩

theorem of_raw (h : Built w check raw edges) {s : RawStep} (hs : s ∈ raw) :
    ∃ t ∈ w.steps, t.id = s.id.value ∧ t.needs = s.needs.map (·.value) ∧
      Checks (scopeOf w.inputs raw edges s) s.action.value t.action := by
  obtain ⟨action, hvalue, hchecks⟩ := step_clean (h.clean s hs)
  exact ⟨_, h.mem_steps.mpr ⟨s, hs, rfl⟩, by rw [hvalue], by rw [hvalue], by rw [hvalue]; exact hchecks⟩

theorem to_raw (h : Built w check raw edges) {t : Step} (ht : t ∈ w.steps) :
    ∃ s ∈ raw, t.id = s.id.value ∧ t.needs = s.needs.map (·.value) ∧
      Checks (scopeOf w.inputs raw edges s) s.action.value t.action := by
  obtain ⟨s, hs, rfl⟩ := h.mem_steps.mp ht
  obtain ⟨action, hvalue, hchecks⟩ := step_clean (h.clean s hs)
  exact ⟨s, hs, by rw [hvalue], by rw [hvalue], by rw [hvalue]; exact hchecks⟩

theorem needs_eq (h : Built w check raw edges) : Needs w = Graph.Edge edges := by
  funext a b
  apply propext
  rw [h.graph.edge]
  constructor
  · rintro ⟨t, ht, rfl, hb⟩
    obtain ⟨s, hs, hid, hneeds, -⟩ := h.to_raw ht
    exact ⟨s, hs, hid.symm, hneeds ▸ hb⟩
  · rintro ⟨s, hs, rfl, hb⟩
    obtain ⟨t, ht, hid, hneeds, -⟩ := h.of_raw hs
    exact ⟨t, ht, hid, hneeds ▸ hb⟩

theorem of_action (h : Built w check raw edges) {id action : String}
    (ha : (raw.map (fun step => (step.id.value, step.action.value))).lookup id = some action) :
    ∃ t ∈ w.steps, t.id = id ∧ t.action.name = action := by
  obtain ⟨s, hs, he⟩ := mem_map.mp (mem_of_lookup ha)
  cases he
  obtain ⟨t, ht, hid, -, hchecks⟩ := h.of_raw hs
  exact ⟨t, ht, hid, hchecks.name⟩

theorem resolves (h : Built w check raw edges) {s : RawStep} {t : Step} (hid : t.id = s.id.value)
    {path : List String} (hp : InScope (scopeOf w.inputs raw edges s) path) : Resolves w t path := by
  cases hp with
  | field hns hf => exact resolves_field hns hf w t
  | whole hwhole => exact resolves_whole hwhole w t
  | input hin =>
    obtain ⟨kind, hkind⟩ := isSome_iff_exists.mp hin
    obtain ⟨input, hinput, he⟩ := mem_map.mp (mem_of_lookup hkind)
    exact ⟨input, hinput, (Prod.mk.inj he).1⟩
  | step ha hb hf =>
    obtain ⟨u, hu, huid, hname⟩ := h.of_action ha
    refine ⟨?_, u, hu, huid, hname ▸ hf⟩
    rw [h.needs_eq, hid]
    exact Graph.mem_reached.mp hb

theorem ids_unique (h : Built w check raw edges) : (w.steps.map (·.id)).Nodup := by
  have hids : w.steps.map (·.id) = raw.map (·.id.value) := by
    rw [h.steps, List.map_map]
    apply map_congr_left
    intro s hs
    obtain ⟨action, hvalue, -⟩ := step_clean (h.clean s hs)
    show (check.step (scopeOf w.inputs raw edges s) s).value.id = s.id.value
    rw [hvalue]
  rw [hids]
  exact h.unique

theorem ids_named (h : Built w check raw edges) : ∀ s ∈ w.steps, isName s.id = true := by
  intro t ht
  obtain ⟨s, hs, hid, -⟩ := h.to_raw ht
  rw [hid]
  exact h.names s hs

theorem needs_named (h : Built w check raw edges) :
    ∀ s ∈ w.steps, ∀ need ∈ s.needs, need ≠ s.id ∧ ∃ t ∈ w.steps, t.id = need := by
  intro t ht need hneed
  obtain ⟨s, hs, hid, hneeds, -⟩ := h.to_raw ht
  rw [hneeds] at hneed
  obtain ⟨n, hn, rfl⟩ := mem_map.mp hneed
  obtain ⟨hself, hknown⟩ := h.graph.needs s hs n hn
  obtain ⟨action, haction⟩ := isSome_iff_exists.mp hknown
  obtain ⟨u, hu, huid, -⟩ := h.of_action haction
  exact ⟨hid ▸ hself, u, hu, huid⟩

theorem needs_acyclic (h : Built w check raw edges) (id : String) : ¬ TransGen (Needs w) id id := by
  rw [h.needs_eq]
  exact h.graph.acyclic id

theorem texts_fill (h : Built w check raw edges) :
    ∀ s ∈ w.steps, ∀ text ∈ s.action.texts, Fills w s text := by
  intro t ht text htext
  obtain ⟨s, hs, hid, -, hchecks⟩ := h.to_raw ht
  obtain ⟨hparse, hscope⟩ := hchecks.texts text htext
  exact ⟨hparse, fun var hvar => h.resolves hid (hscope var hvar)⟩

theorem sessions_start (h : Built w check raw edges) :
    ∀ s ∈ w.steps, ∀ id, s.action.session? = some (.step id) →
      TransGen (Needs w) s.id id ∧ ∃ t ∈ w.steps, t.id = id ∧ t.action.name = "start_session" := by
  intro t ht id hsession
  obtain ⟨s, hs, hid, -, hchecks⟩ := h.to_raw ht
  obtain ⟨hbefore, haction⟩ := hchecks.session _ hsession
  refine ⟨?_, h.of_action haction⟩
  rw [h.needs_eq, hid]
  exact Graph.mem_reached.mp hbefore

end Built

/-- **What the parser accepts is in order.** -/
theorem accepted_in_order (reader : Reader) (text : String) (w : Workflow)
    (h : parse reader text = .ok w) : InOrder w := by
  obtain ⟨check, raw, edges, hb⟩ := parse_built h
  exact ⟨hb.ids_unique, hb.ids_named, hb.needs_named, hb.needs_acyclic, hb.texts_fill,
    hb.sessions_start⟩

def onLine {α : Type} (line : Nat) (value : α) : Spanned α := ⟨value, ⟨line, 1⟩⟩

def bareStep (line : Nat) (id action : String) (needs : List String) : RawStep where
  id := onLine line id
  action := onLine line action
  needs := needs.map (onLine line)
  harness := none
  prompt := none
  model := none
  effort := none
  skipMemory := none
  session := none
  till := none
  timeout := none
  kind := none
  test := none
  inputs := none
  title := none
  body := none

/-- A file that starts an agent, waits for it, and says how it went, last step first. -/
def reviewFile : RawWorkflow where
  id := onLine 1 "review"
  name := onLine 2 "Review"
  description := none
  version := onLine 3 1
  trigger := onLine 4 { kind := onLine 4 "manual", context := none }
  inputs := [{ id := onLine 5 "who", kind := onLine 5 "harness", label := none, required := true,
               default := none, options := none }]
  steps := onLine 6
    [{ bareStep 7 "tell" "notify" ["settled"] with
         title := some (onLine 8 "Review of \x7b\x7b workspace.branch \x7d\x7d"),
         body := some (onLine 9 "It \x7b\x7b steps.settled.outcome \x7d\x7d.") },
      { bareStep 10 "settled" "wait_session" ["start"] with
         session := some (onLine 11 "\x7b\x7b steps.start.session \x7d\x7d"),
         timeout := some (onLine 12 "2h") },
      { bareStep 13 "start" "start_session" [] with
         harness := some (onLine 14 "\x7b\x7b inputs.who \x7d\x7d"),
         prompt := some (onLine 15 "Review this. \x7b\x7b memory \x7d\x7d") }]

def reviewReader : Reader where
  head _ := none
  file _ := .ok reviewFile

def review : Workflow where
  id := "review"
  name := "Review"
  description := none
  version := 1
  trigger := { kind := .manual, context := .workspace }
  inputs := [{ id := "who", kind := .harness, label := "who", required := true, default := none,
               options := [] }]
  steps :=
    [⟨"tell", ["settled"], .notify "Review of \x7b\x7b workspace.branch \x7d\x7d"
        (some "It \x7b\x7b steps.settled.outcome \x7d\x7d.")⟩,
      ⟨"settled", ["start"], .waitSession (.step "start") .settled (some 7200)⟩,
      ⟨"start", [], .startSession "\x7b\x7b inputs.who \x7d\x7d"
        (some "Review this. \x7b\x7b memory \x7d\x7d") none none false⟩]

theorem review_accepted : parse reviewReader "" = .ok review := by decide +kernel

theorem review_in_order : InOrder review := accepted_in_order reviewReader "" review review_accepted

end Yardsort.Workflow
