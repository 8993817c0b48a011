import Yardsort.Lib.Table
import Yardsort.Smoke.Exec
import Yardsort.Smoke.Parse

/- What an accepted test file is sure of: its inputs' and its steps' ids are names and each is
   there once, a `shell` line is the file's own and holds no `{{`, and every placeholder of every
   text a step renders names something in scope there: a field of the project, the workspace or the
   run, a declared input, an environment name, or what a step earlier in the file leaves.

   The checks are followed as they run, one lemma for each (`text_clean`, `action_clean`,
   `phase_clean`); the texts are those `exec.rs` renders, not those the check was written for. -/
namespace Yardsort.Smoke
open Yardsort.Lib Yardsort.Yaml Yardsort.Template

inductive InScope (scope : Scope) : List String → Prop
  | field {namesp field : String} {fields : List String} (hns : FIELDS.lookup namesp = some fields)
      (hf : field ∈ fields) : InScope scope [namesp, field]
  | input {id : String} (h : (scope.inputs.lookup id).isSome) : InScope scope ["inputs", id]
  | env {name : String} (h : isEnvName name = true) : InScope scope ["env", name]
  | step {id field action : String} (ha : scope.actions.lookup id = some action)
      (hb : id ∈ scope.before) (hf : field ∈ Action.produces action) :
      InScope scope ["steps", id, field]

theorem inScope_of_resolve {var : Placeholder} {scope : Scope} (h : resolve var scope = .ok ()) :
    InScope scope var.path := by
  unfold resolve at h
  dsimp only at h
  split at h
  · cases h
  rename_i namesp rest hpath
  rw [hpath]
  split at h
  · rename_i fields field hns
    split at h
    · rename_i hf
      exact .field hns hf
    · cases h
  · cases h
  · split at h
    · rename_i hinputs
      subst hinputs
      split at h
      · split at h
        · rename_i hid
          exact .input hid
        · cases h
      · cases h
    · split at h
      · rename_i henv
        subst henv
        split at h
        · split at h
          · rename_i hname
            exact .env hname
          · cases h
        · cases h
      · split at h
        · rename_i hsteps
          subst hsteps
          split at h
          · split at h
            · cases h
            · rename_i action ha
              split at h
              · cases h
              rename_i hb
              split at h
              · rename_i hf
                exact .step ha (not_not.mp hb) hf
              · cases h
          · cases h
        · cases h

def Sound (scope : Scope) (text : String) : Prop :=
  ∀ var ∈ Template.placeholders text, InScope scope var.path

variable {raw : RawStep}

section
variable {check : Checker} {scope : Scope}

theorem checkVariable_clean {field : Location} {value : String} {var : Placeholder}
    (h : (check.checkVariable scope field value var).Clean) : InScope scope var.path := by
  unfold Checker.checkVariable at h
  split at h
  · rename_i hok
    exact inScope_of_resolve hok
  · exact absurd h (Checked.not_clean_report _)

theorem placeholders_clean {field : Location} {value : String}
    (h : (check.placeholders scope field value).Clean) : Sound scope value := by
  intro var hvar
  unfold Checker.placeholders at h
  split at h
  · have hall := Checked.clean_each.mp (Checked.clean_bind.mp h).1
    exact checkVariable_clean (hall var hvar)
  · rename_i malformed hbad
    rw [Template.placeholders, hbad] at hvar
    cases hvar

theorem text_clean {field : Option (Spanned String)} (h : (check.text scope field).Clean) :
    ∀ text ∈ (check.text scope field).value.toList, Sound scope text := by
  cases field with
  | none => exact forall_mem_nil _
  | some field =>
    intro text htext
    obtain rfl := mem_singleton.mp htext
    exact placeholders_clean (Checked.clean_bind.mp h).1

theorem required_clean {field : Option (Spanned String)} {step : RawStep} {key what : String}
    (h : (check.required scope field step key what).Clean) :
    Sound scope (check.required scope field step key what).value := by
  cases field with
  | none => exact absurd (Checked.clean_bind.mp h).1 (Checked.not_clean_report _)
  | some field =>
    have htext := (Checked.clean_bind.mp (Checked.clean_bind.mp h).2).1
    exact text_clean htext field.value (mem_singleton_self _)

theorem each_clean {α : Type} {f : α → Checker.Check String} {as : List α}
    (hf : ∀ a, (f a).Clean → Sound scope (f a).value) (h : (Checked.each f as).Clean) :
    ∀ text ∈ (Checked.each f as).value, Sound scope text := by
  rw [Checked.value_each]
  intro text htext
  obtain ⟨a, ha, rfl⟩ := mem_map.mp htext
  exact hf a (Checked.clean_each.mp h a ha)

theorem eachPair_clean {α : Type} {f : α → Checker.Check (String × String)} {as : List α}
    (hf : ∀ a, (f a).Clean → Sound scope (f a).value.2) (h : (Checked.each f as).Clean) :
    ∀ text ∈ (Checked.each f as).value.map (·.2), Sound scope text := by
  rw [Checked.value_each, map_map]
  intro text htext
  obtain ⟨a, ha, rfl⟩ := mem_map.mp htext
  exact hf a (Checked.clean_each.mp h a ha)

theorem args_clean (h : (check.args scope raw).Clean) :
    ∀ text ∈ (check.args scope raw).value, Sound scope text := by
  unfold Checker.args at h ⊢
  split at h
  · exact forall_mem_nil _
  · exact each_clean (fun arg harg => placeholders_clean (Checked.clean_bind.mp harg).1) h

theorem env_clean {given : Option (Spanned (List (String × Spanned String)))}
    (h : (check.env scope given).Clean) :
    ∀ text ∈ (check.env scope given).value.map (·.2), Sound scope text := by
  cases given with
  | none => exact forall_mem_nil _
  | some given =>
    refine eachPair_clean ?_ h
    intro entry hentry
    exact placeholders_clean (Checked.clean_bind.mp (Checked.clean_bind.mp hentry).2).1

theorem headers_clean (h : (check.headers scope raw).Clean) :
    ∀ text ∈ (check.headers scope raw).value.map (·.2), Sound scope text := by
  unfold Checker.headers at h ⊢
  split at h
  · exact forall_mem_nil _
  · refine eachPair_clean ?_ h
    intro entry hentry
    exact placeholders_clean (Checked.clean_bind.mp (Checked.clean_bind.mp hentry).2).1

theorem jsonExpect_clean {field : Option (Spanned RawJsonExpect)}
    (h : (check.jsonExpect scope field).Clean) :
    ∀ text ∈ ((check.jsonExpect scope field).value.map (·.equals)).toList, Sound scope text := by
  cases field with
  | none => exact forall_mem_nil _
  | some json =>
    intro text htext
    obtain rfl := mem_singleton.mp htext
    exact placeholders_clean (Checked.clean_bind.mp (Checked.clean_bind.mp h).2).1

theorem headerExpect_clean {field : Option (Spanned RawHeaderExpect)}
    (h : (check.headerExpect scope field).Clean) :
    ∀ text ∈ ((check.headerExpect scope field).value.map (·.contains)).toList,
      Sound scope text := by
  cases field with
  | none => exact forall_mem_nil _
  | some header =>
    intro text htext
    obtain rfl := mem_singleton.mp htext
    exact placeholders_clean (Checked.clean_bind.mp (Checked.clean_bind.mp h).2).1

theorem processExpect_clean (h : (check.processExpect scope raw).Clean) :
    ∀ text ∈ (check.processExpect scope raw).value.rendered, Sound scope text := by
  unfold Checker.processExpect at h ⊢
  split at h
  · exact forall_mem_nil _
  simp only [Checked.clean_bind, Checked.clean_pure, and_true] at h
  obtain ⟨-, -, hcontains, -, hjson⟩ := h
  intro text htext
  obtain htext | htext := mem_append.mp htext
  · exact text_clean hcontains text htext
  · exact jsonExpect_clean hjson text htext

theorem httpExpect_clean (h : (check.httpExpect scope raw).Clean) :
    ∀ text ∈ (check.httpExpect scope raw).value.rendered, Sound scope text := by
  unfold Checker.httpExpect at h ⊢
  split at h
  · exact forall_mem_nil _
  simp only [Checked.clean_bind, Checked.clean_pure, and_true] at h
  obtain ⟨-, -, hjson, hcontains, -, hheader⟩ := h
  intro text htext
  simp only [HttpExpect.rendered, mem_append] at htext
  obtain (htext | htext) | htext := htext
  · exact text_clean hjson text htext
  · exact text_clean hcontains text htext
  · exact headerExpect_clean hheader text htext

theorem cut_number (n : Nat) : Text.cut opening (toString n).toList = none := by
  apply cut_opening_none
  intro hin
  have hin : '{' ∈ Nat.toDigits 10 n := by
    simpa [toString, Nat.repr] using hin
  have hdigit := Nat.isDigit_of_mem_toDigits (b := 10) (by decide) (by decide) hin
  exact absurd hdigit (by decide)

theorem port_clean {field : Spanned NumberOrText} (h : (check.port scope field).Clean) :
    ∀ text ∈ (check.port scope field).value.texts, Sound scope text := by
  intro text htext
  obtain rfl := mem_singleton.mp htext
  have hport := (Checked.clean_bind.mp h).1
  unfold Checker.isPort at hport
  split at hport
  · rename_i n hvalue
    split at hport
    · rename_i hn
      have hcut : Text.cut opening (toString n).toList = none := by
        rw [← Int.toNat_of_nonneg (show 0 ≤ n by omega)]
        exact cut_number n.toNat
      rw [hvalue, Sound]
      show ∀ var ∈ Template.placeholders (toString n), _
      rw [placeholders_plain hcut]
      exact forall_mem_nil _
    · exact absurd hport (Checked.not_clean_report _)
  · rename_i t hvalue
    split at hport
    · rw [hvalue]
      exact placeholders_clean hport
    · exact absurd hport (Checked.not_clean_report _)

theorem waitTarget_clean (h : (check.waitTarget scope raw).Clean) :
    ∀ text ∈ (check.waitTarget scope raw).value.texts, Sound scope text := by
  unfold Checker.waitTarget at h ⊢
  have h := (Checked.clean_bind.mp h).2
  rw [Checked.value_bind]
  split at h
  · exact absurd (Checked.clean_bind.mp h).1 (Checked.not_clean_report _)
  · exact absurd (Checked.clean_bind.mp h).1 (Checked.not_clean_report _)
  split at h
  · exact port_clean h
  · intro text htext
    obtain rfl := mem_singleton.mp htext
    exact required_clean (Checked.clean_bind.mp h).1
  · intro text htext
    obtain rfl := mem_singleton.mp htext
    exact required_clean (Checked.clean_bind.mp h).1
  · intro text htext
    obtain ⟨hprogram, hargs⟩ := Checked.clean_bind.mp h
    obtain rfl | htext := mem_cons.mp htext
    · exact required_clean hprogram
    · exact args_clean (Checked.clean_bind.mp hargs).1 text htext

theorem request_clean (h : (check.request scope raw).Clean) :
    Sound scope (check.request scope raw).value.2 := by
  unfold Checker.request at h ⊢
  split at h
  · exact absurd (Checked.clean_bind.mp h).1 (Checked.not_clean_report _)
  · exact placeholders_clean (Checked.clean_bind.mp (Checked.clean_bind.mp h).2).1
  · exact absurd (Checked.clean_bind.mp h).1 (Checked.not_clean_report _)

theorem browserText_clean {at_ : Location} {key what : String} {arg : BrowserArg}
    (h : (check.browserText scope at_ key arg what).Clean) :
    ∀ text ∈ (check.browserText scope at_ key arg what).value.toList, Sound scope text := by
  unfold Checker.browserText at h ⊢
  cases arg with
  | text given =>
    dsimp only at h ⊢
    split at h
    · rename_i hgiven
      rw [if_pos hgiven]
      intro text htext
      obtain rfl := mem_singleton.mp htext
      exact placeholders_clean (Checked.clean_bind.mp h).1
    · exact absurd (Checked.clean_bind.mp h).1 (Checked.not_clean_report _)
  | map entries => exact absurd (Checked.clean_bind.mp h).1 (Checked.not_clean_report _)

theorem browserField_clean {at_ : Location} {key name : String} {wanted data : List String}
    {entries : Pairs} (h : (check.browserField scope at_ key wanted data entries name).Clean) :
    ∀ text ∈ (check.browserField scope at_ key wanted data entries name).value.toList,
      Sound scope text := by
  unfold Checker.browserField at h ⊢
  dsimp only at h ⊢
  split at h
  · split at h
    · rename_i hvalue
      rw [if_pos hvalue]
      intro text htext
      obtain rfl := mem_singleton.mp htext
      exact placeholders_clean (Checked.clean_bind.mp h).1
    · exact absurd (Checked.clean_bind.mp h).1 (Checked.not_clean_report _)
  · exact absurd (Checked.clean_bind.mp h).1 (Checked.not_clean_report _)

theorem browserFields_clean {at_ : Location} {key : String} {arg : BrowserArg}
    {wanted data : List String} {values : List String}
    (h : (check.browserFields scope at_ key arg wanted data).Clean)
    (hvalue : (check.browserFields scope at_ key arg wanted data).value = some values) :
    ∀ text ∈ values, Sound scope text := by
  unfold Checker.browserFields at h hvalue
  cases arg with
  | text given => cases hvalue
  | map entries =>
    dsimp only at h hvalue
    have h := (Checked.clean_bind.mp h).2
    rw [Checked.value_bind] at hvalue
    split at h
    · rename_i hother
      rw [if_pos hother] at hvalue
      cases hvalue
    · rename_i hother
      rw [if_neg hother, Checked.value_bind, Checked.value_pure] at hvalue
      split at hvalue
      · cases hvalue
        have hall := Checked.clean_each.mp (Checked.clean_bind.mp h).1
        intro text htext
        rw [Checked.value_each] at htext
        obtain ⟨value, hmem, hsome⟩ := mem_filterMap.mp htext
        obtain ⟨name, hname, rfl⟩ := mem_map.mp hmem
        exact browserField_clean (hall name hname) text (mem_toList.mpr hsome)
      · cases hvalue

theorem browserText_action {at_ : Location} {key what : String} {arg : BrowserArg}
    {f : String → BrowserAction} {action : BrowserAction} (hf : ∀ t, (f t).rendered ⊆ [t])
    (h : (check.browserText scope at_ key arg what).Clean)
    (hvalue : (check.browserText scope at_ key arg what).value.map f = some action) :
    ∀ text ∈ action.rendered, Sound scope text := by
  obtain ⟨given, hgiven, rfl⟩ := map_eq_some_iff.mp hvalue
  intro text htext
  obtain rfl := mem_singleton.mp (hf given htext)
  exact browserText_clean h text (mem_toList.mpr hgiven)

theorem browserFields_action {at_ : Location} {key : String} {arg : BrowserArg}
    {wanted data : List String} {f : String → String → BrowserAction} {action : BrowserAction}
    (hf : ∀ t u, (f t u).rendered ⊆ [t, u])
    (h : (check.browserFields scope at_ key arg wanted data).Clean)
    (hvalue : (match (check.browserFields scope at_ key arg wanted data).value with
      | some [t, u] => some (f t u)
      | _ => none) = some action) :
    ∀ text ∈ action.rendered, Sound scope text := by
  split at hvalue
  · rename_i t u hpair
    cases hvalue
    intro text htext
    exact browserFields_clean h hpair text (hf t u htext)
  · cases hvalue

/-- What an item of a `do` list gives is sound where its check is clean: either one text was
    looked at and it is the action's, or the fields of a mapping were. -/
theorem browserAction_clean {item : BrowserItem} {action : BrowserAction}
    (h : (check.browserAction scope item).Clean)
    (hvalue : (check.browserAction scope item).value = some action) :
    ∀ text ∈ action.rendered, Sound scope text := by
  unfold Checker.browserAction at h hvalue
  dsimp only at h hvalue
  split at h
  · rename_i key arg hitem
    simp only [hitem] at hvalue
    split at h
    case h_1 | h_2 | h_7 | h_8 | h_9 | h_10 | h_11 | h_12 =>
      exact browserText_action (fun _ => by simp [BrowserAction.rendered])
        (Checked.clean_bind.mp h).1 hvalue
    · exact browserFields_action (fun _ _ => by simp [BrowserAction.rendered])
        (Checked.clean_bind.mp h).1 hvalue
    -- A key is not rendered.
    · simp only [Checked.value_bind] at hvalue
      split at hvalue
      · cases hvalue
      split at hvalue
      · cases hvalue
      · cases hvalue
        exact forall_mem_nil _
    · exact browserFields_action (fun _ _ => by simp [BrowserAction.rendered])
        (Checked.clean_bind.mp h).1 hvalue
    · cases arg with
      | text given =>
        exact browserText_action (f := fun selector => .waitFor (some selector) none)
          (fun _ => by simp [BrowserAction.rendered]) (Checked.clean_bind.mp h).1 hvalue
      | map entries =>
        obtain ⟨values, hvalues, rfl⟩ := map_eq_some_iff.mp hvalue
        intro text htext
        have htext : text ∈ values.head? := by simpa [BrowserAction.rendered] using htext
        exact browserFields_clean (Checked.clean_bind.mp h).1 hvalues text
          (mem_of_mem_head? htext)
    · exact absurd (Checked.clean_bind.mp h).1 (Checked.not_clean_report _)
  · exact absurd (Checked.clean_bind.mp h).1 (Checked.not_clean_report _)

structure Checks (scope : Scope) (raw : RawStep) (action : Action) : Prop where
  name : action.name = raw.action.value
  texts : ∀ text ∈ action.rendered, Sound scope text
  line : ∀ line cwd env expect timeoutSecs, action = .shell line cwd env expect timeoutSecs →
    Checker.holdsBraces line = false ∧ raw.line.map (·.value) = some line

theorem line_clean (h : (Checker.line raw).Clean) :
    Checker.holdsBraces (Checker.line raw).value = false ∧
      raw.line.map (·.value) = some (Checker.line raw).value := by
  unfold Checker.line at h ⊢
  split at h
  · exact absurd (Checked.clean_bind.mp h).1 (Checked.not_clean_report _)
  rename_i field hfield
  have hbraces := (Checked.clean_bind.mp (Checked.clean_bind.mp h).2).1
  rw [hfield]
  exact ⟨Bool.not_eq_true _ |>.mp (Checked.clean_reportIf.mp hbraces), rfl⟩

theorem action_clean (hname : raw.action.value ∈ ACTIONS) (h : (check.action scope raw).Clean) :
    Checks scope raw (check.action scope raw).value := by
  unfold Checker.action at h ⊢
  split at h
  · rename_i hrun
    simp only [Checked.clean_bind, Checked.clean_pure, and_true] at h
    obtain ⟨hprogram, hargs, -, henv, hstdin, hexpect, -⟩ := h
    refine ⟨hrun.symm, ?_, fun _ _ _ _ _ h => by cases h⟩
    intro text htext
    simp only [Checked.value_bind, Checked.value_pure, Action.rendered, mem_cons,
      mem_append] at htext
    obtain (((rfl | htext) | htext) | htext) | htext := htext
    · exact required_clean hprogram
    · exact args_clean hargs text htext
    · exact env_clean henv text htext
    · exact text_clean hstdin text htext
    · exact processExpect_clean hexpect text htext
  · rename_i hshell
    simp only [Checked.clean_bind, Checked.clean_pure, and_true] at h
    obtain ⟨hline, -, henv, hexpect, -⟩ := h
    refine ⟨hshell.symm, ?_, ?_⟩
    · intro text htext
      obtain htext | htext := mem_append.mp htext
      · exact env_clean henv text htext
      · exact processExpect_clean hexpect text htext
    · rintro _ _ _ _ _ ⟨⟩
      exact line_clean hline
  · rename_i hstart
    simp only [Checked.clean_bind, Checked.clean_pure, and_true] at h
    obtain ⟨hprogram, hargs, -, henv⟩ := h
    refine ⟨hstart.symm, ?_, fun _ _ _ _ _ h => by cases h⟩
    intro text htext
    simp only [Checked.value_bind, Checked.value_pure, Action.rendered, mem_cons,
      mem_append] at htext
    obtain (rfl | htext) | htext := htext
    · exact required_clean hprogram
    · exact args_clean hargs text htext
    · exact env_clean henv text htext
  · rename_i hwait
    exact ⟨hwait.symm, waitTarget_clean (Checked.clean_bind.mp h).1, fun _ _ _ _ _ h => by cases h⟩
  · rename_i hhttp
    unfold Checker.http at h ⊢
    simp only [Checked.clean_bind, Checked.clean_pure, and_true] at h
    obtain ⟨hrequest, hheaders, -, hjson, hbody, hexpect, -⟩ := h
    refine ⟨hhttp.symm, ?_, fun _ _ _ _ _ h => by cases h⟩
    intro text htext
    simp only [Checked.value_bind, Checked.value_pure, Action.rendered, mem_cons,
      mem_append] at htext
    obtain (((rfl | htext) | htext) | htext) | htext := htext
    · exact request_clean hrequest
    · exact headers_clean hheaders text htext
    · exact text_clean hbody text htext
    · exact text_clean hjson text htext
    · exact httpExpect_clean hexpect text htext
  · rename_i hbrowser
    refine ⟨hbrowser.symm, ?_, fun _ _ _ _ _ h => by cases h⟩
    have hactions := (Checked.clean_bind.mp h).1
    intro text htext
    obtain ⟨action, haction, htext⟩ := mem_flatMap.mp htext
    obtain ⟨item, hitem, hsome⟩ := mem_filterMap.mp haction
    unfold Checker.browserActions at hactions hitem
    split at hactions
    · exact absurd (Checked.clean_bind.mp hactions).1 (Checked.not_clean_report _)
    rename_i given hgiven
    rw [hgiven] at hitem
    simp only [Checked.value_bind, Checked.value_each, mem_map] at hitem
    obtain ⟨source, hsource, rfl⟩ := hitem
    have hall := Checked.clean_each.mp (Checked.clean_bind.mp hactions).2
    exact browserAction_clean (hall source hsource) hsome text htext
  · rename_i h₁ h₂ h₃ h₄ h₅ h₆
    refine ⟨?_, ?_, fun _ _ _ _ _ h => by cases h⟩
    · simp only [ACTIONS, mem_cons, not_mem_nil, or_false] at hname
      obtain hn | hn | hn | hn | hn | hn | hn := hname
      · exact absurd hn h₁
      · exact absurd hn h₂
      · exact absurd hn h₃
      · exact absurd hn h₄
      · exact absurd hn h₅
      · exact absurd hn h₆
      · exact hn.symm
    · intro text htext
      obtain rfl := mem_singleton.mp htext
      exact required_clean (Checked.clean_bind.mp h).1

theorem step_clean (h : (check.step scope raw).Clean) :
    (check.step scope raw).value.id = raw.id.value ∧
      Checks scope raw (check.step scope raw).value.action := by
  unfold Checker.step at h ⊢
  split at h
  · exact absurd (Checked.clean_bind.mp h).1 (Checked.not_clean_report _)
  rename_i hname
  rw [if_neg hname]
  have haction := (Checked.clean_bind.mp (Checked.clean_bind.mp h).2).1
  exact ⟨rfl, action_clean (not_not.mp hname) haction⟩

end

/-- Every step's texts are sound, where `before` are the steps that run before the list. -/
def Scoped (inputs : List (String × InputKind)) (actions : List (String × String)) :
    List String → List Step → Prop
  | _, [] => True
  | before, step :: rest =>
    (∀ text ∈ step.action.rendered, Sound ⟨inputs, actions, before⟩ text) ∧
      Scoped inputs actions (before ++ [step.id]) rest

theorem Scoped.of_eq {inputs : List (String × InputKind)} {actions actions' : List (String × String)}
    {before before' : List String} {steps : List Step} (h : Scoped inputs actions before steps)
    (ha : actions = actions') (hb : before = before') : Scoped inputs actions' before' steps := by
  subst ha hb
  exact h

/-- A step is what the file says it is: its id, its action, and its line where it has one. -/
def Written (raw : RawStep) (step : Step) : Prop :=
  step.id = raw.id.value ∧ step.action.name = raw.action.value ∧
    ∀ line cwd env expect timeoutSecs, step.action = .shell line cwd env expect timeoutSecs →
      Checker.holdsBraces line = false ∧ raw.line.map (·.value) = some line

theorem phase_clean {check : Checker} {inputs : List (String × InputKind)}
    {actions : List (String × String)} {before : List String} {raw : List RawStep}
    (h : (check.phase inputs actions before raw).Clean) :
    Scoped inputs actions before (check.phase inputs actions before raw).value ∧
      List.Forall₂ Written raw (check.phase inputs actions before raw).value := by
  induction raw generalizing before with
  | nil => exact ⟨trivial, .nil⟩
  | cons raw rest ih =>
    rw [Checker.phase] at h ⊢
    obtain ⟨hstep, hrest⟩ := Checked.clean_bind.mp h
    obtain ⟨hid, hchecks⟩ := step_clean hstep
    obtain ⟨hscoped, hwritten⟩ := ih (Checked.clean_bind.mp hrest).1
    refine ⟨⟨hchecks.texts, ?_⟩, .cons ⟨hid, hchecks.name, hchecks.line⟩ hwritten⟩
    rw [hid]
    exact hscoped

theorem ids_clean {before steps : List RawStep} (hbefore : (before.map (·.id.value)).Nodup)
    (h : (Checker.ids before steps).Clean) : ((before ++ steps).map (·.id.value)).Nodup := by
  induction steps generalizing before with
  | nil => simpa using hbefore
  | cons step steps ih =>
    rw [Checker.ids] at h
    have hrest := (Checked.clean_bind.mp h).2
    split at hrest
    · exact absurd (Checked.clean_bind.mp hrest).1 (Checked.not_clean_report _)
    rename_i hfind
    have hnew : step.id.value ∉ before.map (·.id.value) := by
      intro hin
      obtain ⟨other, hother, heq⟩ := mem_map.mp hin
      have := List.find?_eq_none.mp hfind other hother
      simp [heq] at this
    have hbefore' : ((before ++ [step]).map (·.id.value)).Nodup := by
      exact nodup_snoc hbefore hnew
    simpa using ih hbefore' hrest

theorem inputs_clean {above raw : List RawInput} (h : (Checker.inputs above raw).Clean) :
    (∀ input ∈ (Checker.inputs above raw).value, isName input.id = true ∧
        input.id ∉ above.map (·.id.value)) ∧
      ((Checker.inputs above raw).value.map (·.id)).Nodup := by
  induction raw generalizing above with
  | nil => exact ⟨forall_mem_nil _, nodup_nil⟩
  | cons raw rest ih =>
    rw [Checker.inputs] at h ⊢
    obtain ⟨hinput, hrest⟩ := Checked.clean_bind.mp h
    obtain ⟨hall, hnodup⟩ := ih (Checked.clean_bind.mp hrest).1
    have hname := Bool.not_eq_false _ |>.mp
      (Checked.clean_reportIf.mp (Checked.clean_bind.mp hinput).1)
    have hnew : raw.id.value ∉ above.map (·.id.value) := by
      have htwice := (Checked.clean_bind.mp (Checked.clean_bind.mp hinput).2).1
      unfold Checker.inputTwice at htwice
      split at htwice
      · exact absurd htwice (Checked.not_clean_report _)
      rename_i hfind
      intro hin
      obtain ⟨other, hother, heq⟩ := mem_map.mp hin
      have := List.find?_eq_none.mp hfind other hother
      simp [heq] at this
    refine ⟨?_, ?_⟩
    · intro input hin
      obtain rfl | hin := mem_cons.mp hin
      · exact ⟨hname, hnew⟩
      · obtain ⟨hn, habove⟩ := hall input hin
        refine ⟨hn, fun h => habove ?_⟩
        rw [map_cons]
        exact mem_cons_of_mem _ h
    · refine nodup_cons.mpr ⟨?_, hnodup⟩
      intro hin
      obtain ⟨input, hinput, heq⟩ := mem_map.mp hin
      exact (hall input hinput).2 (heq ▸ mem_cons_self ..)

def Test.inFile (test : Test) : List Step := test.setup ++ test.steps ++ test.teardown

def RawTest.inFile (raw : RawTest) : List RawStep := raw.setup ++ raw.steps.value ++ raw.teardown

/-- What the variables of a test's steps are checked against. -/
def Test.kinds (test : Test) : List (String × InputKind) :=
  test.inputs.map fun input => (input.id, input.kind)

def Test.actions (test : Test) : List (String × String) :=
  test.inFile.map fun step => (step.id, step.action.name)

/-- What is in order in a test: ids are there once, inputs' ids are names, and every text a step
    renders names what is in scope at its place in the file. -/
structure InOrder (test : Test) : Prop where
  inputNames : ∀ input ∈ test.inputs, isName input.id = true
  inputIds : (test.inputs.map (·.id)).Nodup
  ids : (test.inFile.map (·.id)).Nodup
  setup : Scoped test.kinds test.actions [] test.setup
  steps : Scoped test.kinds test.actions (test.setup.map (·.id)) test.steps
  teardown : Scoped test.kinds test.actions ((test.setup ++ test.steps).map (·.id)) test.teardown

theorem written_map {α : Type} {f : RawStep → α} {g : Step → α}
    (hfg : ∀ raw step, Written raw step → f raw = g step) {raw : List RawStep} {steps : List Step}
    (h : List.Forall₂ Written raw steps) : raw.map f = steps.map g := by
  induction h with
  | nil => rfl
  | cons hstep _ ih => rw [map_cons, map_cons, hfg _ _ hstep, ih]

theorem written_of_mem {raw : List RawStep} {steps : List Step}
    (h : List.Forall₂ Written raw steps) {step : Step} (hin : step ∈ steps) :
    ∃ s ∈ raw, Written s step := by
  induction h with
  | nil => cases hin
  | cons hstep _ ih =>
    obtain rfl | hin := mem_cons.mp hin
    · exact ⟨_, mem_cons_self .., hstep⟩
    · obtain ⟨s, hs, hwritten⟩ := ih hin
      exact ⟨s, mem_cons_of_mem _ hs, hwritten⟩

theorem test_clean {check : Checker} {raw : RawTest} (h : (check.test raw).Clean) :
    InOrder (check.test raw).value ∧
      List.Forall₂ Written raw.inFile (check.test raw).value.inFile := by
  unfold Checker.test at h ⊢
  simp only [Checked.clean_bind, Checked.clean_pure, and_true] at h
  obtain ⟨-, -, -, -, hinputs, -, hids, hsetup, hsteps, hteardown⟩ := h
  obtain ⟨hinput, hinputIds⟩ := inputs_clean hinputs
  obtain ⟨hsetup, hwritten₁⟩ := phase_clean hsetup
  obtain ⟨hsteps, hwritten₂⟩ := phase_clean hsteps
  obtain ⟨hteardown, hwritten₃⟩ := phase_clean hteardown
  have hwritten := List.rel_append (List.rel_append hwritten₁ hwritten₂) hwritten₃
  have hid : ∀ raw step, Written raw step → raw.id.value = step.id := fun _ _ h => h.1.symm
  have hactions := written_map (g := fun step : Step => (step.id, step.action.name))
    (f := fun raw : RawStep => (raw.id.value, raw.action.value))
    (fun raw step h => by rw [h.1, h.2.1]) hwritten
  refine ⟨⟨fun input hin => (hinput input hin).1, hinputIds, ?_, ?_, ?_, ?_⟩, hwritten⟩
  · have hnodup := @ids_clean [] _ nodup_nil hids
    rw [nil_append, written_map hid hwritten] at hnodup
    exact hnodup
  · exact hsetup.of_eq hactions rfl
  · exact hsteps.of_eq hactions (written_map hid hwritten₁)
  · exact hteardown.of_eq hactions (written_map hid (List.rel_append hwritten₁ hwritten₂))

/-- **Accepted files are in order.** -/
theorem parse_inOrder {reader : Reader} {text : String} {test : Test}
    (h : parse reader text = .ok test) : InOrder test ∧
      ∃ raw, reader.file text = .ok raw ∧ List.Forall₂ Written raw.inFile test.inFile := by
  unfold parse at h
  dsimp only at h
  split at h
  · cases h
  split at h
  · cases h
  · rename_i raw hraw
    split at h
    · rename_i hclean
      cases h
      obtain ⟨horder, hwritten⟩ := test_clean hclean
      exact ⟨horder, raw, hraw, hwritten⟩
    · cases h

def onLine {α : Type} (line : Nat) (value : α) : Spanned α := ⟨value, ⟨line, 1⟩⟩

def bareStep (line : Nat) (id action : String) : RawStep where
  id := onLine line id
  action := onLine line action
  program := none
  args := none
  cwd := none
  env := none
  stdin := none
  expect := none
  timeout := none
  line := none
  port := none
  url := none
  file := none
  interval := none
  get := none
  post := none
  put := none
  delete := none
  patch := none
  headers := none
  body := none
  json := none
  actions := none
  screenshots := none
  viewport := none
  headed := none
  prompt := none

def bareInput (line : Nat) (id : String) (required : Bool) : RawInput where
  id := onLine line id
  kind := onLine line "text"
  label := none
  required := required
  default := none
  options := none

def serverFile (inputs : List RawInput) : RawTest where
  id := onLine 1 "server"
  name := onLine 2 "Server"
  version := onLine 3 1
  inputs := inputs
  timeout := none
  setup := []
  steps := onLine 7
    [{ bareStep 8 "server" "start" with program := some (onLine 9 "serve") },
      { bareStep 10 "page" "shell" with line := some (onLine 11 "curl :$YS_RUN_PORT | grep hello") }]
  teardown :=
    [{ bareStep 12 "stop" "run" with
         program := some (onLine 13 "kill"),
         args := some (onLine 14 [onLine 14 "\x7b\x7b steps.server.pid \x7d\x7d"]) }]

def serverReader (inputs : List RawInput) : Reader where
  head _ := none
  file _ := .ok (serverFile inputs)
  regex _ := none

def serverTest (inputs : List Input) : Test where
  id := "server"
  name := "Server"
  inputs := inputs
  timeoutSecs := 1800
  setup := []
  steps :=
    [⟨"server", .start "serve" [] none []⟩,
      ⟨"page", .shell "curl :$YS_RUN_PORT | grep hello" none []
        ⟨.code 0, none, none, false, none⟩ none⟩]
  teardown :=
    [⟨"stop", .run "kill" ["\x7b\x7b steps.server.pid \x7d\x7d"] none [] none
      ⟨.code 0, none, none, false, none⟩ none⟩]

theorem server_accepted : parse (serverReader [bareInput 5 "user" true]) "" =
    .ok (serverTest [⟨"user", .text, "user", true, none, []⟩]) := by decide +kernel

end Yardsort.Smoke
