import Mathlib.Data.List.Induction
import Yardsort.Lib.Snoc

/- Runs of a system given by a partial step function. A step takes the action
   it is offered or is not enabled; everything a scheduler or an environment
   chooses is in the action. `Run s as s'` is a run, `Meets s as` says that
   every action of it was taken from a state where a side condition held, and
   `Meets.invariant` is the induction every safety result of this development
   goes through: what one step that meets the condition keeps, a run whose
   steps all meet it keeps. -/
namespace Yardsort.Lib

section
variable {σ α : Type} (step : σ → α → Option σ)

def run : σ → List α → Option σ
  | s, [] => some s
  | s, a :: as => (step s a).bind (fun s' => run s' as)

/-- Every action of the run is taken from a state where `cond` holds of it. -/
def Meets (cond : σ → α → Prop) : σ → List α → Prop
  | _, [] => True
  | s, a :: as => cond s a ∧ ∀ s', step s a = some s' → Meets cond s' as

def meets (cond : σ → α → Bool) : σ → List α → Bool
  | _, [] => true
  | s, a :: as =>
    cond s a && match step s a with
      | none => true
      | some s' => meets cond s' as

variable {step}

@[simp] theorem run_nil (s : σ) : run step s [] = some s := rfl

theorem run_cons {s s'' : σ} {a : α} {as : List α} :
    run step s (a :: as) = some s'' ↔ ∃ s', step s a = some s' ∧ run step s' as = some s'' := by
  simp only [run, bind_eq_some_iff]

theorem run_append {s s'' : σ} {as bs : List α} :
    run step s (as ++ bs) = some s'' ↔
      ∃ s', run step s as = some s' ∧ run step s' bs = some s'' := by
  induction as generalizing s with
  | nil => simp
  | cons a as ih =>
    rw [cons_append, run_cons]
    constructor
    · rintro ⟨s₁, h₁, h⟩
      obtain ⟨s', h', hb⟩ := ih.mp h
      exact ⟨s', run_cons.mpr ⟨s₁, h₁, h'⟩, hb⟩
    · rintro ⟨s', h, hb⟩
      obtain ⟨s₁, h₁, h'⟩ := run_cons.mp h
      exact ⟨s₁, h₁, ih.mpr ⟨s', h', hb⟩⟩

theorem meets_iff {cond : σ → α → Bool} {s : σ} {as : List α} :
    meets step cond s as = true ↔ Meets step (fun s a => cond s a = true) s as := by
  induction as generalizing s with
  | nil => simp [meets, Meets]
  | cons a as ih =>
    cases h : step s a with
    | none => simp [meets, Meets, h]
    | some s' => simp [meets, Meets, h, ih]

theorem Meets.append {cond : σ → α → Prop} {s s' : σ} {as bs : List α}
    (h : Meets step cond s (as ++ bs)) (hr : run step s as = some s') :
    Meets step cond s as ∧ Meets step cond s' bs := by
  induction as generalizing s with
  | nil =>
    rw [run_nil, Option.some.injEq] at hr
    exact ⟨trivial, hr ▸ h⟩
  | cons a as ih =>
    obtain ⟨s₁, h₁, h'⟩ := run_cons.mp hr
    obtain ⟨ha, htail⟩ := h
    obtain ⟨hl, hb⟩ := ih (htail s₁ h₁) h'
    refine ⟨⟨ha, ?_⟩, hb⟩
    intro s₂ h₂
    rw [h₁, Option.some.injEq] at h₂
    exact h₂ ▸ hl

theorem Meets.and_forall {cond : σ → α → Prop} {P : α → Prop} {s : σ} {as : List α}
    (h : Meets step cond s as) (hP : ∀ a ∈ as, P a) :
    Meets step (fun s a => cond s a ∧ P a) s as := by
  induction as generalizing s with
  | nil => trivial
  | cons a as ih =>
    refine ⟨⟨h.1, hP a (mem_cons_self ..)⟩, fun s' hs' => ih (h.2 s' hs') ?_⟩
    exact fun b hb => hP b (mem_cons_of_mem a hb)

/-- **The invariant rule.** What every step that meets the condition keeps,
    every run whose steps meet it keeps. -/
theorem Meets.invariant {cond : σ → α → Prop} {Inv : σ → Prop}
    (hstep : ∀ s a s', Inv s → cond s a → step s a = some s' → Inv s')
    {s s' : σ} {as : List α} (hm : Meets step cond s as) (hr : run step s as = some s')
    (hi : Inv s) : Inv s' := by
  induction as generalizing s with
  | nil =>
    rw [run_nil, Option.some.injEq] at hr
    exact hr ▸ hi
  | cons a as ih =>
    obtain ⟨s₁, h₁, h'⟩ := run_cons.mp hr
    obtain ⟨ha, htail⟩ := hm
    exact ih (htail s₁ h₁) h' (hstep s a s₁ hi ha h₁)

theorem run_invariant {Inv : σ → Prop} (hstep : ∀ s a s', Inv s → step s a = some s' → Inv s')
    {s s' : σ} {as : List α} (hr : run step s as = some s') (hi : Inv s) : Inv s' := by
  induction as generalizing s with
  | nil =>
    rw [run_nil, Option.some.injEq] at hr
    exact hr ▸ hi
  | cons a as ih =>
    obtain ⟨s₁, h₁, h'⟩ := run_cons.mp hr
    exact ih h' (hstep s a s₁ hi h₁)

/-- What holds before anything is done, and of a run with one step more where it does of the run,
    holds of every run. -/
theorem run_history {P : List α → σ → Prop} {s₀ : σ}
    (hstep : ∀ as s a s', run step s₀ as = some s → P as s → step s a = some s' →
      P (as ++ [a]) s')
    {s : σ} {as : List α} (hr : run step s₀ as = some s) (h₀ : P [] s₀) : P as s := by
  induction as using List.reverseRecOn generalizing s with
  | nil =>
    cases hr
    exact h₀
  | append_singleton as a ih =>
    obtain ⟨s₁, h₁, hlast⟩ := run_append.mp hr
    obtain ⟨s₂, h₂, hnil⟩ := run_cons.mp hlast
    cases hnil
    exact hstep as s₁ a s h₁ (ih h₁) h₂

theorem run_related {Inv : σ → Prop} {R : σ → σ → Prop} (hrefl : ∀ s, R s s)
    (htrans : ∀ {a b c}, R a b → R b c → R a c)
    (hstep : ∀ s a s', Inv s → step s a = some s' → Inv s' ∧ R s s')
    {s s' : σ} {as : List α} (hr : run step s as = some s') (hi : Inv s) : R s s' := by
  have hkeeps : ∀ t a t', Inv t ∧ R s t → step t a = some t' → Inv t' ∧ R s t' := by
    intro t a t' ht hs
    obtain ⟨hinv, hrel⟩ := hstep t a t' ht.1 hs
    exact ⟨hinv, htrans ht.2 hrel⟩
  exact (run_invariant hkeeps hr ⟨hi, hrefl s⟩).2

/-- Where a step keeps the invariant exactly if it meets the condition, every state of a run is as
    the invariant says exactly if all its steps meet it. -/
theorem meets_iff_every {cond : σ → α → Prop} {Inv : σ → Prop}
    (hstep : ∀ s a s', Inv s → step s a = some s' → (cond s a ↔ Inv s')) {s t : σ} {as : List α}
    (hr : run step s as = some t) (hi : Inv s) :
    Meets step cond s as ↔ ∀ first rest u, as = first ++ rest → run step s first = some u → Inv u := by
  constructor
  · rintro hm first rest u rfl hu
    exact Meets.invariant (fun s a s' hs ha h => (hstep s a s' hs h).mp ha)
      (by
        obtain ⟨s', hs', -⟩ := run_append.mp hr
        exact (hm.append hs').1) hu hi
  · intro h
    induction as generalizing s with
    | nil => trivial
    | cons a as ih =>
      obtain ⟨s₁, h₁, h'⟩ := run_cons.mp hr
      have hnext : Inv s₁ := h [a] as s₁ rfl (run_cons.mpr ⟨s₁, h₁, rfl⟩)
      refine ⟨(hstep s a s₁ hi h₁).mpr hnext, fun s₂ h₂ => ?_⟩
      cases h₁.symm.trans h₂
      refine ih h' hnext fun first rest u has hu => ?_
      exact h (a :: first) rest u (has ▸ rfl) (run_cons.mpr ⟨s₁, h₁, hu⟩)

end

end Yardsort.Lib
