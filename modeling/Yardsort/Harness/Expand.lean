import Mathlib.Data.List.Forall2
import Yardsort.Lib.Text

/- The arguments a harness is started with: `expand`, `start_args` and `continue_args` of
   `core/src/harness.rs`. An argument group is a list of templates, and `expand` scans each for
   what stands between a brace and the next closing one.

   What a group stands for is `expected`: every `{name}` of a known placeholder replaced at once,
   and nothing where one of them has no value. The scanner takes a literal brace together with all
   that follows it up to the next closing one, so it is the group's own braces that decide whether
   the two agree. -/
namespace Yardsort.Harness
open Yardsort.Lib

def PLACEHOLDERS : List Text :=
  ["prompt".toList, "model".toList, "effort".toList, "session_id".toList,
    "new_session_id".toList, "context".toList]

def isPlaceholder (name : Text) : Bool := PLACEHOLDERS.contains name

theorem isPlaceholder_eq (name : Text) : isPlaceholder name = decide (name ∈ PLACEHOLDERS) :=
  List.contains_eq_mem ..

structure LaunchValues where
  prompt : Option Text
  model : Option Text
  effort : Option Text
  sessionId : Option Text
  newSessionId : Option Text
  context : Option Text

def lookup (values : LaunchValues) (name : Text) : Option Text :=
  if name = "prompt".toList then values.prompt
  else if name = "model".toList then values.model
  else if name = "effort".toList then values.effort
  else if name = "session_id".toList then values.sessionId
  else if name = "new_session_id".toList then values.newSessionId
  else if name = "context".toList then values.context
  else none

def given (values : LaunchValues) (name : Text) : Option Text :=
  (lookup values name).filter (· ≠ [])

def braced (name : Text) : Text := '{' :: name ++ ['}']

/-- The loop of `expand` over what is left of a template; `none` drops the group. -/
def expandArg (values : LaunchValues) (rest : Text) : Option Text :=
  match _hopen : Text.cut ['{'] rest with
  | none => some rest
  | some (before, inner) =>
    match _hclose : Text.cut ['}'] inner with
    | none => some rest
    | some (name, after) =>
      if isPlaceholder name then
        match given values name with
        | some value => (expandArg values after).map (before ++ value ++ ·)
        | none => none
      else
        -- literal braces, e.g. JSON in an argument: copied through untouched
        (expandArg values after).map (before ++ braced name ++ ·)
termination_by rest.length
decreasing_by
  all_goals
    have h₁ := Text.length_after_cut _hopen
    have h₂ := Text.length_after_cut _hclose
    simp only [length_singleton] at h₁ h₂
    omega

def expand (group : List Text) (values : LaunchValues) : List Text :=
  (group.mapM (expandArg values)).getD []

inductive PromptTransport where
  | argv
  | stdin
  deriving DecidableEq

structure HarnessDef where
  baseArgs : List Text
  autoArgs : List Text
  autoMode : Bool
  modelArgs : List Text
  effortArgs : List Text
  sessionArgs : List Text
  promptArgs : List Text
  contextArgs : List Text
  resumeContextArgs : List Text
  resumeArgs : List Text
  forkArgs : List Text
  promptTransport : PromptTransport

namespace HarnessDef

def auto (harness : HarnessDef) : List Text := if harness.autoMode then harness.autoArgs else []

def startGroups (harness : HarnessDef) : List (List Text) :=
  [harness.baseArgs, harness.auto, harness.modelArgs, harness.effortArgs, harness.sessionArgs,
    harness.contextArgs] ++
    if harness.promptTransport = .argv then [harness.promptArgs] else []

def startArgs (harness : HarnessDef) (values : LaunchValues) : List Text :=
  harness.startGroups.flatMap (expand · values)

def continueGroups (harness : HarnessDef) (fork : Bool) : List (List Text) :=
  [harness.baseArgs, harness.modelArgs, harness.effortArgs,
    if fork then harness.forkArgs else harness.resumeArgs, harness.resumeContextArgs, harness.auto]

def continueArgs (harness : HarnessDef) (values : LaunchValues) (fork : Bool) : List Text :=
  (harness.continueGroups fork).flatMap (expand · values)

end HarnessDef

def mention (text : Text) : Option (Text × Text) :=
  PLACEHOLDERS.findSome? fun name =>
    if braced name <+: text then some (name, text.drop (braced name).length) else none

theorem mention_eq {text name after : Text} (h : mention text = some (name, after)) :
    name ∈ PLACEHOLDERS ∧ text = braced name ++ after := by
  obtain ⟨p, hp, hif⟩ := List.exists_of_findSome?_eq_some h
  split at hif
  · rename_i hpre
    cases hif
    exact ⟨hp, (List.prefix_iff_eq_append.mp hpre).symm⟩
  · cases hif

def substitute (values : LaunchValues) (template : Text) : Text :=
  match template with
  | [] => []
  | c :: rest =>
    match _h : mention (c :: rest) with
    | some (name, after) => (given values name).getD [] ++ substitute values after
    | none => c :: substitute values rest
termination_by template.length
decreasing_by
  · have hlength := congrArg List.length (mention_eq _h).2
    simp [braced] at hlength
    simp
    omega
  · simp

def Mentions (template name : Text) : Prop :=
  name ∈ PLACEHOLDERS ∧ ∃ u v, template = u ++ braced name ++ v

/-- **What a group stands for**: nothing where it mentions a placeholder without a value, and
    otherwise each template with the values in it. -/
def Expands (values : LaunchValues) (group out : List Text) : Prop :=
  ((∃ template ∈ group, ∃ name, Mentions template name ∧ given values name = none) ∧ out = []) ∨
  ((∀ template ∈ group, ∀ name, Mentions template name → given values name ≠ none) ∧
    out = group.map (substitute values))

def Unclosed (text : Text) : Prop := ∃ a b, text = a ++ '{' :: b ∧ '}' ∉ b

def InTheOpen (template : Text) : Prop :=
  ∀ u name v, name ∈ PLACEHOLDERS → template = u ++ braced name ++ v → ¬ Unclosed u

theorem placeholder_clean {name : Text} (h : name ∈ PLACEHOLDERS) : '{' ∉ name ∧ '}' ∉ name := by
  have hall : ∀ name ∈ PLACEHOLDERS, '{' ∉ name ∧ '}' ∉ name := by decide
  exact hall name h

/-- Every brace is closed later, or there is a first one that is, and what is in between. -/
theorem braces_induction {motive : Text → Prop}
    (plain : ∀ text, (∀ a b, text = a ++ '{' :: b → '}' ∉ b) → motive text)
    (pair : ∀ before name after, '{' ∉ before → '}' ∉ name → motive after →
      motive (before ++ (braced name ++ after))) (text : Text) : motive text := by
  induction hn : text.length using Nat.strongRecOn generalizing text with
  | ind n ih =>
    subst hn
    cases hopen : Text.cut ['{'] text with
    | none =>
      apply plain
      intro a b htext
      exact absurd (htext ▸ by simp) (Text.cut_char_none.mp hopen)
    | some cut =>
      obtain ⟨before, inner⟩ := cut
      obtain ⟨hbefore, rfl⟩ := Text.cut_char_some hopen
      cases hclose : Text.cut ['}'] inner with
      | none =>
        apply plain
        intro a b htext hb
        -- what follows a later brace is a part of what follows the first
        have hinner : '}' ∉ inner := Text.cut_char_none.mp hclose
        obtain ⟨c, hc, hrest⟩ | ⟨c, hc, hrest⟩ := append_eq_append_iff.mp htext
        · cases c with
          | nil =>
            obtain rfl := (List.cons.inj hrest).2
            exact hinner hb
          | cons d c =>
            obtain ⟨-, hrest⟩ := List.cons.inj hrest
            exact hinner (hrest ▸ by simp [hb])
        · cases c with
          | nil =>
            obtain rfl := (List.cons.inj hrest).2
            exact hinner hb
          | cons d c =>
            cases hrest
            exact hbefore (hc ▸ by simp)
      | some cut =>
        obtain ⟨name, after⟩ := cut
        obtain ⟨hname, rfl⟩ := Text.cut_char_some hclose
        have h := pair before name after hbefore hname (ih _ (by simp; omega) after rfl)
        simpa [braced] using h

variable {values : LaunchValues}

theorem expandArg_plain {text : Text} (h : ∀ a b, text = a ++ '{' :: b → '}' ∉ b) :
    expandArg values text = some text := by
  rw [expandArg]
  split
  · rfl
  rename_i before inner hopen
  obtain ⟨-, htext⟩ := Text.cut_char_some hopen
  split
  · rfl
  · rename_i name after hclose
    obtain ⟨-, rfl⟩ := Text.cut_char_some hclose
    exact absurd (by simp) (h _ _ htext)

theorem expandArg_pair {before name : Text} (after : Text) (hb : '{' ∉ before) (hn : '}' ∉ name) :
    expandArg values (before ++ (braced name ++ after)) =
      if isPlaceholder name then
        (given values name).bind fun value => (expandArg values after).map (before ++ value ++ ·)
      else (expandArg values after).map (before ++ braced name ++ ·) := by
  have hopen : Text.cut ['{'] (before ++ (braced name ++ after)) =
      some (before, name ++ '}' :: after) := by
    have hcut := @Text.cut_char '{' before (name ++ '}' :: after) hb
    simpa [braced] using hcut
  rw [expandArg]
  split
  · rename_i h
    rw [hopen] at h
    cases h
  · rename_i b inner h
    cases hopen.symm.trans h
    split
    · rename_i h
      rw [Text.cut_char hn] at h
      cases h
    · rename_i p a h
      cases (Text.cut_char hn).symm.trans h
      cases given values name <;> rfl

/-! ## Substituting between the braces -/

theorem mention_none {text : Text} :
    mention text = none ↔ ∀ name ∈ PLACEHOLDERS, ¬ braced name <+: text := by
  simp [mention, List.findSome?_eq_none_iff]

theorem mention_braced {name : Text} (after : Text) (hn : '}' ∉ name) :
    mention (braced name ++ after) = if isPlaceholder name then some (name, after) else none := by
  have hsame : ∀ p ∈ PLACEHOLDERS, ∀ rest, braced name ++ after = braced p ++ rest →
      p = name ∧ rest = after := by
    intro p hp rest h
    have h : name ++ '}' :: after = p ++ '}' :: rest := by simpa [braced] using h
    have hcut := @Text.cut_char '}' p rest (placeholder_clean hp).2
    rw [← h, Text.cut_char hn] at hcut
    cases hcut
    exact ⟨rfl, rfl⟩
  cases h : mention (braced name ++ after) with
  | some found =>
    obtain ⟨p, rest⟩ := found
    obtain ⟨hp, heq⟩ := mention_eq h
    obtain ⟨rfl, rfl⟩ := hsame p hp rest heq
    simp [isPlaceholder_eq, hp]
  | none =>
    by_cases hp : name ∈ PLACEHOLDERS
    · exact absurd ⟨after, rfl⟩ (mention_none.mp h name hp)
    · simp [isPlaceholder_eq, hp]

theorem mention_other {c : Char} (rest : Text) (hc : c ≠ '{') : mention (c :: rest) = none := by
  rw [mention_none]
  intro name _ hpre
  exact hc (cons_prefix_cons.mp hpre).1.symm

theorem substitute_mention {text name after : Text} (h : mention text = some (name, after)) :
    substitute values text = (given values name).getD [] ++ substitute values after := by
  cases text with
  | nil =>
    have htext := (mention_eq h).2
    simp [braced] at htext
  | cons c rest =>
    rw [substitute]
    split
    · rename_i h'
      cases h.symm.trans h'
      rfl
    · rename_i h'
      rw [h] at h'
      cases h'

theorem substitute_char {c : Char} {rest : Text} (h : mention (c :: rest) = none) :
    substitute values (c :: rest) = c :: substitute values rest := by
  rw [substitute]
  split
  · rename_i h'
    rw [h] at h'
    cases h'
  · rfl

theorem substitute_plain {text : Text} (h : ∀ a b, text = a ++ '{' :: b → '}' ∉ b) :
    substitute values text = text := by
  induction text with
  | nil => rw [substitute]
  | cons c rest ih =>
    have hnone : mention (c :: rest) = none := by
      cases hm : mention (c :: rest) with
      | none => rfl
      | some found =>
        obtain ⟨name, after⟩ := found
        have htext := (mention_eq hm).2
        exact absurd (by simp) (h [] (name ++ '}' :: after) (by simpa [braced] using htext))
    rw [substitute_char hnone, ih]
    intro a b hrest
    exact h (c :: a) b (by rw [hrest, cons_append])

theorem substitute_before {before : Text} (after : Text) (hb : '{' ∉ before) :
    substitute values (before ++ after) = before ++ substitute values after := by
  induction before with
  | nil => rfl
  | cons c before ih =>
    obtain ⟨hc, hb⟩ := not_or.mp (mt mem_cons.mpr hb)
    rw [cons_append, substitute_char (mention_other _ (Ne.symm hc)), ih hb, cons_append]

def Clear (text : Text) : Prop := ∀ x p, text = x ++ '{' :: p → p ∉ PLACEHOLDERS

theorem substitute_clear {name : Text} (after : Text) (hn : '}' ∉ name) (hclear : Clear name) :
    substitute values (name ++ '}' :: after) = name ++ '}' :: substitute values after := by
  induction name with
  | nil => exact substitute_char (mention_other _ (by decide))
  | cons c name ih =>
    have hn' : '}' ∉ name := fun h => hn (mem_cons_of_mem c h)
    have hnone : mention (c :: (name ++ '}' :: after)) = none := by
      by_cases hc : c = '{'
      · subst hc
        have h := mention_braced after hn'
        rw [isPlaceholder_eq, decide_eq_false (hclear [] name rfl)] at h
        simpa [braced] using h
      · exact mention_other _ hc
    rw [cons_append, substitute_char hnone, ih hn', cons_append]
    intro x p hname
    exact hclear (c :: x) p (by rw [hname, cons_append])

theorem substitute_shadow {x p : Text} (after : Text) (hx : '}' ∉ x) (hp : p ∈ PLACEHOLDERS) :
    substitute values (x ++ (braced p ++ after)) =
      x ++ ((given values p).getD [] ++ substitute values after) := by
  induction x with
  | nil =>
    have h := mention_braced after (placeholder_clean hp).2
    rw [isPlaceholder_eq, decide_eq_true hp, if_pos rfl] at h
    exact substitute_mention h
  | cons c x ih =>
    have hx' : '}' ∉ x := fun h => hx (mem_cons_of_mem c h)
    have hnone : mention (c :: (x ++ (braced p ++ after))) = none := by
      by_cases hc : c = '{'
      · subst hc
        have hname : '}' ∉ x ++ '{' :: p := by simp [hx', (placeholder_clean hp).2]
        have h := mention_braced after hname
        have hnot : x ++ '{' :: p ∉ PLACEHOLDERS := fun hmem =>
          (placeholder_clean hmem).1 (by simp)
        rw [isPlaceholder_eq, decide_eq_false hnot] at h
        simpa [braced] using h
      · exact mention_other _ hc
    rw [cons_append, substitute_char hnone, ih hx', cons_append]

section
variable {before name after : Text}

theorem substitute_given (hb : '{' ∉ before) (hp : name ∈ PLACEHOLDERS) :
    substitute values (before ++ (braced name ++ after)) =
      before ++ ((given values name).getD [] ++ substitute values after) := by
  have hmention : mention (braced name ++ after) = some (name, after) := by
    rw [mention_braced after (placeholder_clean hp).2, isPlaceholder_eq, decide_eq_true hp,
      if_pos rfl]
  rw [substitute_before _ hb, substitute_mention hmention]

theorem substitute_literal (hb : '{' ∉ before) (hn : '}' ∉ name) (hp : name ∉ PLACEHOLDERS)
    (hclear : Clear name) :
    substitute values (before ++ (braced name ++ after)) =
      before ++ (braced name ++ substitute values after) := by
  have hnone : mention ('{' :: (name ++ '}' :: after)) = none := by
    have h := mention_braced after hn
    rw [isPlaceholder_eq, decide_eq_false hp] at h
    simpa [braced] using h
  have hpair : ∀ rest, braced name ++ rest = '{' :: (name ++ '}' :: rest) := by
    intro rest
    simp [braced]
  rw [substitute_before _ hb, hpair, hpair, substitute_char hnone, substitute_clear after hn hclear]

theorem substitute_hidden {x p : Text} (hb : '{' ∉ before) (hx : '}' ∉ x) (hp : p ∈ PLACEHOLDERS) :
    substitute values (before ++ (braced (x ++ '{' :: p) ++ after)) =
      before ++ ('{' :: x ++ ((given values p).getD [] ++ substitute values after)) := by
  have hopens : '}' ∉ '{' :: x := by simp [hx]
  rw [substitute_before _ hb, ← substitute_shadow after hopens hp]
  simp [braced]

end

section
variable {before name after : Text}

theorem mention_place {u p v : Text} (hb : '{' ∉ before) (hn : '}' ∉ name)
    (hp : p ∈ PLACEHOLDERS) (h : before ++ (braced name ++ after) = u ++ braced p ++ v) :
    (∃ x, '{' :: name = x ++ '{' :: p ∧ u = before ++ x) ∨
      ∃ u', u = before ++ braced name ++ u' ∧ after = u' ++ braced p ++ v := by
  have hsplit : (before ++ braced name) ++ after = u ++ (braced p ++ v) := by
    rw [append_assoc, h, append_assoc]
  obtain ⟨c, hu, hafter⟩ | ⟨c, hpair, hmention⟩ := append_eq_append_iff.mp hsplit
  · exact .inr ⟨c, hu, by rw [hafter, append_assoc]⟩
  · obtain rfl | ⟨d, e, rfl⟩ := List.eq_nil_or_concat' c
    · refine .inr ⟨[], by simpa using hpair.symm, ?_⟩
      simpa using hmention.symm
    -- the brace that closes the mention is the one that closes the pair
    have hends : (before ++ '{' :: name) ++ ['}'] = (u ++ d) ++ [e] := by
      simpa [braced] using hpair
    obtain ⟨hopens, he⟩ := List.append_inj' hends rfl
    obtain rfl := (List.cons.inj he).1
    cases d with
    | nil =>
      have := (List.cons.inj hmention).1
      simp at this
    | cons f d =>
      obtain ⟨rfl, hrest⟩ := List.cons.inj hmention
      obtain ⟨x, hu, hname⟩ | ⟨x, hbefore, hname⟩ := append_eq_append_iff.mp hopens
      · have hd : '}' ∉ d := by
          intro hd
          have hmem : '}' ∈ '{' :: name := hname ▸ by simp [hd]
          exact hn (by simpa using hmem)
        have hcut := @Text.cut_char '}' p v (placeholder_clean hp).2
        have hrest' : p ++ '}' :: v = d ++ '}' :: after := by simpa using hrest
        rw [hrest', Text.cut_char hd] at hcut
        cases hcut
        exact .inl ⟨x, hname, hu⟩
      · cases x with
        | nil =>
          obtain ⟨-, rfl⟩ := List.cons.inj hname
          have hcut := @Text.cut_char '}' p v (placeholder_clean hp).2
          have hrest' : p ++ '}' :: v = d ++ '}' :: after := by simpa using hrest
          rw [hrest', Text.cut_char hn] at hcut
          cases hcut
          exact .inl ⟨[], rfl, by simpa using hbefore.symm⟩
        | cons g x =>
          cases hname
          exact absurd (hbefore ▸ by simp) hb

theorem unclosed_append {a b : Text} (h : Unclosed b) : Unclosed (a ++ b) := by
  obtain ⟨x, y, rfl, hy⟩ := h
  exact ⟨a ++ x, y, by rw [append_assoc], hy⟩

theorem unclosed_pair {a b : Text} (h : Unclosed (a ++ '}' :: b)) : Unclosed b := by
  obtain ⟨x, y, heq, hy⟩ := h
  obtain ⟨c, hx, hb⟩ | ⟨c, ha, hb⟩ := append_eq_append_iff.mp heq
  · cases c with
    | nil => simp at hb
    | cons d c => exact ⟨c, y, (List.cons.inj hb).2, hy⟩
  · cases c with
    | nil => simp at hb
    | cons d c => exact absurd ((List.cons.inj hb).2 ▸ by simp) hy

theorem inTheOpen_pair (hb : '{' ∉ before) (hn : '}' ∉ name) :
    InTheOpen (before ++ (braced name ++ after)) ↔ Clear name ∧ InTheOpen after := by
  constructor
  · intro h
    constructor
    · rintro x p rfl hp
      apply h (before ++ '{' :: x) p after hp (by simp [braced])
      exact ⟨before, x, rfl, fun hx => hn (by simp [hx])⟩
    · intro u p v hp hafter hu
      apply h (before ++ braced name ++ u) p v hp (by simp [hafter])
      exact unclosed_append hu
  · rintro ⟨hclear, hafter⟩ u p v hp h hu
    obtain ⟨x, hname, rfl⟩ | ⟨u', rfl, hrest⟩ := mention_place hb hn hp h
    · cases x with
      | nil =>
        obtain ⟨a, b, hbefore, -⟩ := hu
        rw [append_nil] at hbefore
        exact hb (hbefore ▸ by simp)
      | cons c x => exact hclear x p (List.cons.inj hname).2 hp
    · refine hafter u' p v hp hrest (unclosed_pair (a := before ++ '{' :: name) ?_)
      simpa [braced] using hu

theorem mentions_pair (hb : '{' ∉ before) (hn : '}' ∉ name) (p : Text) :
    Mentions (before ++ (braced name ++ after)) p ↔
      (p ∈ PLACEHOLDERS ∧ ∃ x, '{' :: name = x ++ '{' :: p) ∨ Mentions after p := by
  constructor
  · rintro ⟨hp, u, v, h⟩
    obtain ⟨x, hname, -⟩ | ⟨u', -, hafter⟩ := mention_place hb hn hp h
    · exact .inl ⟨hp, x, hname⟩
    · exact .inr ⟨hp, u', v, hafter⟩
  · rintro (⟨hp, x, hname⟩ | ⟨hp, u, v, rfl⟩)
    · refine ⟨hp, before ++ x, after, ?_⟩
      have hpair : braced name = x ++ braced p := by
        simp only [braced, hname, cons_append, append_assoc]
      rw [hpair]
      simp
    · exact ⟨hp, before ++ braced name ++ u, v, by simp⟩

theorem mentions_plain {text p : Text} (h : ∀ a b, text = a ++ '{' :: b → '}' ∉ b) :
    ¬ Mentions text p := by
  rintro ⟨-, u, v, rfl⟩
  exact absurd (by simp) (h u (p ++ '}' :: v) (by simp [braced]))

end

def Agrees (values : LaunchValues) (template : Text) : Option Text → Prop
  | none => ∃ name, Mentions template name ∧ given values name = none
  | some arg =>
    arg = substitute values template ∧ ∀ name, Mentions template name → given values name ≠ none

theorem expandArg_agrees (template : Text) (h : InTheOpen template) :
    Agrees values template (expandArg values template) := by
  induction template using braces_induction with
  | plain text hplain =>
    rw [expandArg_plain hplain]
    exact ⟨(substitute_plain hplain).symm, fun name hm => absurd hm (mentions_plain hplain)⟩
  | pair before name after hb hn ih =>
    obtain ⟨hclear, hafter⟩ := (inTheOpen_pair hb hn).mp h
    have ih := ih hafter
    rw [expandArg_pair after hb hn]
    by_cases hp : name ∈ PLACEHOLDERS
    · rw [isPlaceholder_eq, decide_eq_true hp, if_pos rfl]
      have hmine : Mentions (before ++ (braced name ++ after)) name :=
        (mentions_pair hb hn name).mpr (.inl ⟨hp, [], rfl⟩)
      cases hv : given values name with
      | none => exact ⟨name, hmine, hv⟩
      | some value =>
        rw [bind_some]
        cases ha : expandArg values after with
        | none =>
          rw [ha] at ih
          obtain ⟨q, hq, hnone⟩ := ih
          exact ⟨q, (mentions_pair hb hn q).mpr (.inr hq), hnone⟩
        | some arg =>
          rw [ha] at ih
          obtain ⟨rfl, hgiven⟩ := ih
          refine ⟨?_, ?_⟩
          · rw [substitute_given hb hp, hv, getD_some, ← append_assoc]
          · intro q hq
            obtain ⟨hq, x, hx⟩ | hq := (mentions_pair hb hn q).mp hq
            · cases x with
              | nil =>
                obtain rfl := (List.cons.inj hx).2
                rw [hv]
                exact Option.some_ne_none _
              | cons c x =>
                exact absurd ((List.cons.inj hx).2 ▸ by simp) (placeholder_clean hp).1
            · exact hgiven q hq
    · rw [isPlaceholder_eq, decide_eq_false hp]
      have hmentions : ∀ q, Mentions (before ++ (braced name ++ after)) q ↔ Mentions after q := by
        intro q
        rw [mentions_pair hb hn]
        refine or_iff_right ?_
        rintro ⟨hq, x, hx⟩
        cases x with
        | nil => exact hp ((List.cons.inj hx).2 ▸ hq)
        | cons c x => exact hclear x q (List.cons.inj hx).2 hq
      cases ha : expandArg values after with
      | none =>
        rw [ha] at ih
        obtain ⟨q, hq, hmissing⟩ := ih
        exact ⟨q, (hmentions q).mpr hq, hmissing⟩
      | some arg =>
        rw [ha] at ih
        obtain ⟨rfl, hgiven⟩ := ih
        refine ⟨?_, fun q hq => hgiven q ((hmentions q).mp hq)⟩
        rw [substitute_literal hb hn hp hclear, ← append_assoc]

theorem mapM_some {α β : Type} {f : α → Option β} {group : List α} {out : List β}
    (h : group.mapM f = some out) : group.map f = out.map some := by
  induction group generalizing out with
  | nil =>
    rw [List.mapM_nil] at h
    cases h
    rfl
  | cons a group ih =>
    simp only [List.mapM_cons, bind_eq_bind, Option.pure_def, bind_eq_some_iff] at h
    obtain ⟨b, hb, bs, hbs, hout⟩ := h
    cases hout
    rw [map_cons, hb, ih hbs, map_cons]

theorem mapM_none {α β : Type} {f : α → Option β} {group : List α} (h : group.mapM f = none) :
    ∃ a ∈ group, f a = none := by
  induction group with
  | nil => simp at h
  | cons a group ih =>
    cases ha : f a with
    | none => exact ⟨a, mem_cons_self, ha⟩
    | some b =>
      cases hg : group.mapM f with
      | none =>
        obtain ⟨c, hc, hnone⟩ := ih hg
        exact ⟨c, mem_cons_of_mem a hc, hnone⟩
      | some bs => simp [ha, hg] at h

/-- A group whose placeholders stand in the open gives what it stands for. -/
theorem expand_open {group : List Text} (h : ∀ template ∈ group, InTheOpen template) :
    Expands values group (expand group values) := by
  unfold expand
  cases hg : group.mapM (expandArg values) with
  | none =>
    obtain ⟨template, ht, hnone⟩ := mapM_none hg
    have hagrees : Agrees values template (expandArg values template) :=
      expandArg_agrees template (h template ht)
    rw [hnone] at hagrees
    exact .inl ⟨⟨template, ht, hagrees⟩, rfl⟩
  | some out =>
    have hmap := mapM_some hg
    have hall : ∀ template ∈ group, expandArg values template =
        some (substitute values template) ∧
          ∀ name, Mentions template name → given values name ≠ none := by
      intro template ht
      have hagrees : Agrees values template (expandArg values template) :=
        expandArg_agrees template (h template ht)
      have hmem : expandArg values template ∈ out.map some :=
        hmap ▸ mem_map_of_mem ht
      obtain ⟨arg, -, harg⟩ := mem_map.mp hmem
      rw [← harg] at hagrees ⊢
      exact ⟨congrArg some hagrees.1, hagrees.2⟩
    refine .inr ⟨fun template ht => (hall template ht).2, ?_⟩
    have hsome : out.map some = (group.map (substitute values)).map some := by
      rw [← hmap, map_map]
      exact map_congr_left fun template ht => (hall template ht).1
    exact List.map_injective_iff.mpr (fun _ _ => Option.some.inj) hsome

def marked : LaunchValues :=
  ⟨some ['!'], some ['!'], some ['!'], some ['!'], some ['!'], some ['!']⟩

theorem given_marked {name : Text} (h : name ∈ PLACEHOLDERS) : given marked name = some ['!'] := by
  have hall : ∀ name ∈ PLACEHOLDERS, given marked name = some ['!'] := by decide
  exact hall name h

/-- A placeholder after an open brace keeps its own in the argument, and loses it in what is
    meant. -/
theorem expandArg_marked (template : Text) :
    ∃ arg, expandArg marked template = some arg ∧
      (substitute marked template).count '{' ≤ arg.count '{' ∧
      (¬ InTheOpen template → (substitute marked template).count '{' < arg.count '{') := by
  induction template using braces_induction with
  | plain text hplain =>
    refine ⟨text, expandArg_plain hplain, Nat.le_of_eq (by rw [substitute_plain hplain]), ?_⟩
    intro hshadow
    exact absurd (fun u p v hp htext => absurd ⟨hp, u, v, htext⟩ (mentions_plain hplain)) hshadow
  | pair before name after hb hn ih =>
    obtain ⟨arg, harg, hle, hlt⟩ := ih
    rw [expandArg_pair after hb hn, inTheOpen_pair hb hn, harg]
    by_cases hp : name ∈ PLACEHOLDERS
    · have hclear : Clear name := by
        rintro x p rfl
        exact absurd (by simp) (placeholder_clean hp).1
      rw [isPlaceholder_eq, decide_eq_true hp, if_pos rfl, given_marked hp, substitute_given hb hp,
        given_marked hp]
      refine ⟨_, rfl, ?_, ?_⟩
      · simp only [getD_some, count_append]
        omega
      · intro hshadow
        have := hlt fun hafter => hshadow ⟨hclear, hafter⟩
        simp only [getD_some, count_append]
        omega
    · rw [isPlaceholder_eq, decide_eq_false hp, if_neg Bool.false_ne_true]
      refine ⟨_, rfl, ?_⟩
      by_cases hclear : Clear name
      · rw [substitute_literal hb hn hp hclear]
        simp only [count_append]
        refine ⟨by omega, ?_⟩
        intro hshadow
        have := hlt fun hafter => hshadow ⟨hclear, hafter⟩
        omega
      · simp only [Clear, not_forall, not_not] at hclear
        obtain ⟨x, p, rfl, hmem⟩ := hclear
        have hx : '}' ∉ x := fun h => hn (by simp [h])
        rw [substitute_hidden hb hx hmem, given_marked hmem, getD_some]
        simp only [braced, count_append, List.count_cons, cons_append]
        simp
        omega

theorem shadow_differs {group : List Text} {template : Text} (ht : template ∈ group)
    (hshadow : ¬ InTheOpen template) : ¬ Expands marked group (expand group marked) := by
  unfold expand
  rintro (⟨⟨t, -, name, hname, hnone⟩, -⟩ | ⟨-, hout⟩)
  · rw [given_marked hname.1] at hnone
    cases hnone
  · cases hg : group.mapM (expandArg marked) with
    | none =>
      obtain ⟨t, -, hnone⟩ := mapM_none hg
      obtain ⟨arg, harg, -⟩ := expandArg_marked t
      rw [harg] at hnone
      cases hnone
    | some out =>
      rw [hg, getD_some] at hout
      subst hout
      have hmap := mapM_some hg
      rw [map_map] at hmap
      have hsame := List.map_inj_left.mp hmap template ht
      obtain ⟨arg, harg, -, hlt⟩ := expandArg_marked template
      rw [harg] at hsame
      cases hsame
      exact Nat.lt_irrefl _ (hlt hshadow)

/-- **Templates are substituted at once.** For every group: whatever the values, `expand` drops it
    where it mentions a placeholder that has none and otherwise puts each value in, if and only if
    no placeholder in it has an open brace before it. -/
theorem expand_substitutes (group : List Text) :
    (∀ values, Expands values group (expand group values)) ↔
      ∀ template ∈ group, InTheOpen template := by
  refine ⟨?_, fun h values => expand_open h⟩
  intro h template ht
  by_contra hshadow
  exact shadow_differs ht hshadow (h marked)

/-- In `{"ask":"{prompt}"}` the prompt is not put in. -/
theorem json_keeps_its_placeholder :
    ¬ Expands marked ["\x7b\"ask\":\"\x7bprompt\x7d\"\x7d".toList]
      (expand ["\x7b\"ask\":\"\x7bprompt\x7d\"\x7d".toList] marked) := by
  apply shadow_differs mem_cons_self
  intro h
  apply h "\x7b\"ask\":\"".toList "prompt".toList "\"\x7d".toList (by decide) (by decide)
  exact ⟨[], "\"ask\":\"".toList, by decide, by decide⟩

theorem args_stand (groups : List (List Text))
    (h : ∀ group ∈ groups, ∀ template ∈ group, InTheOpen template) :
    ∃ args, groups.Forall₂ (Expands values) args ∧
      groups.flatMap (expand · values) = args.flatten := by
  refine ⟨groups.map (expand · values), ?_, List.flatMap_def⟩
  rw [List.forall₂_map_right_iff, List.forall₂_same]
  exact fun group hgroup => expand_open (h group hgroup)

namespace HarnessDef
variable {harness : HarnessDef}

theorem startArgs_stand (h : ∀ group ∈ harness.startGroups, ∀ t ∈ group, InTheOpen t) :
    ∃ args, harness.startGroups.Forall₂ (Expands values) args ∧
      harness.startArgs values = args.flatten :=
  args_stand harness.startGroups h

theorem continueArgs_stand {fork : Bool}
    (h : ∀ group ∈ harness.continueGroups fork, ∀ t ∈ group, InTheOpen t) :
    ∃ args, (harness.continueGroups fork).Forall₂ (Expands values) args ∧
      harness.continueArgs values fork = args.flatten :=
  args_stand (harness.continueGroups fork) h

end HarnessDef

end Yardsort.Harness
