import Mathlib

/- Choosing within a budget. Places are offered forms, each at a cost, and a place takes the first
   form that fits, unless it has as much already; one running total stands for all that is taken.
   What a place had is given back when it takes another form: the total must hold that much, and an
   offer that finds less is `none`. -/
namespace Yardsort.Lib

structure Offer (S F : Type) where
  place : S
  forms : List F

structure Choice (S F : Type) where
  chosen : S → Option F
  used : Nat

namespace Budget

theorem le_sum {α : Type} {l : List α} {a : α} (ha : a ∈ l) (f : α → Nat) :
    f a ≤ (l.map f).sum := by
  induction l with
  | nil => cases ha
  | cons b l ih =>
    rw [List.map_cons, List.sum_cons]
    obtain rfl | ha := List.mem_cons.mp ha
    · omega
    · have := ih ha
      omega

section
variable {S F : Type} (cost : S → F → Nat) (budget : Nat)

def had (s : Choice S F) (x : S) : Nat := ((s.chosen x).map (cost x)).getD 0

def put [DecidableEq S] (s : Choice S F) (x : S) (form : F) (used : Nat) : Choice S F :=
  ⟨fun y => if y = x then some form else s.chosen y, used⟩

variable [LE F] [DecidableLE F]

/-- The first form that fits, and the total with it; or that none is taken. -/
def pick (used had : Nat) (current : Option F) (price : F → Nat) :
    List F → Option (Option (F × Nat))
  | [] => some none
  | form :: forms =>
    if current.any (form ≤ ·) then some none
    else if used < had then none
    else if used - had + price form ≤ budget then some (some (form, used - had + price form))
    else pick used had current price forms

variable [DecidableEq S]

def offer (s : Choice S F) (o : Offer S F) : Option (Choice S F) :=
  (pick budget s.used (had cost s o.place) (s.chosen o.place) (cost o.place) o.forms).map fun
    | none => s
    | some (form, used) => put s o.place form used

def offers (s : Choice S F) : List (Offer S F) → Option (Choice S F)
  | [] => some s
  | o :: os => (offer cost budget s o).bind fun s' => offers s' os

end

section
variable {S F : Type} [DecidableEq S] {cost : S → F → Nat} {budget : Nat}
  {s s' : Choice S F} {o : Offer S F} {os : List (Offer S F)}

@[simp] theorem put_self (s : Choice S F) (x : S) (form : F) (used : Nat) :
    (put s x form used).chosen x = some form := if_pos rfl

theorem put_ne {x y : S} (h : y ≠ x) (form : F) (used : Nat) :
    (put s x form used).chosen y = s.chosen y := if_neg h

/-- What an offer comes to: nothing, and then a place that has nothing could afford none of the
    forms; or a form that fits, which costs less than those offered before it. -/
inductive Offered (cost : S → F → Nat) (budget : Nat) (s : Choice S F) (o : Offer S F) :
    Choice S F → Prop where
  | kept (h : s.chosen o.place = none → ∀ form ∈ o.forms, budget < s.used + cost o.place form) :
    Offered cost budget s o s
  | took (before : List F) (form : F) (after : List F) (h : o.forms = before ++ form :: after)
    (hfits : s.used - had cost s o.place + cost o.place form ≤ budget)
    (hfirst : ∀ other ∈ before,
      budget < s.used - had cost s o.place + cost o.place other) :
    Offered cost budget s o (put s o.place form (s.used - had cost s o.place + cost o.place form))

structure Sums (cost : S → F → Nat) (places : List S) (base : Nat) (s : Choice S F) : Prop where
  used : s.used = base + (places.map (had cost s)).sum
  only : ∀ x, s.chosen x ≠ none → x ∈ places

theorem had_put (x : S) (form : F) (used : Nat) : had cost (put s x form used) x = cost x form := by
  rw [had, put_self]
  rfl

theorem had_put_ne {x y : S} (h : y ≠ x) (form : F) (used : Nat) :
    had cost (put s x form used) y = had cost s y := by
  rw [had, put_ne h, had]

theorem sum_put {places : List S} (hn : places.Nodup) {x : S} (hx : x ∈ places) (form : F)
    (used : Nat) :
    (places.map (had cost (put s x form used))).sum + had cost s x =
      (places.map (had cost s)).sum + cost x form := by
  obtain ⟨before, after, rfl⟩ := List.append_of_mem hx
  rw [List.nodup_middle, List.nodup_cons, List.mem_append, not_or] at hn
  obtain ⟨⟨hbefore, hafter⟩, -⟩ := hn
  have hsame : ∀ l : List S, x ∉ l →
      l.map (had cost (put s x form used)) = l.map (had cost s) := by
    intro l hl
    apply List.map_congr_left
    intro y hy
    have hyx : y ≠ x := by
      rintro rfl
      exact hl hy
    exact had_put_ne hyx form used
  simp only [List.map_append, List.map_cons, List.sum_append, List.sum_cons, hsame before hbefore,
    hsame after hafter, had_put]
  omega

variable {places : List S} {base : Nat}

omit [DecidableEq S] in
theorem Sums.had_le (h : Sums cost places base s) (x : S) : had cost s x ≤ s.used := by
  cases hx : s.chosen x with
  | none =>
    rw [had, hx]
    exact Nat.zero_le _
  | some form =>
    have := le_sum (h.only x (by simp [hx])) (had cost s)
    rw [h.used]
    omega

theorem Sums.offered (h : Sums cost places base s) (hn : places.Nodup) (ho : o.place ∈ places)
    (hs : Offered cost budget s o s') : Sums cost places base s' := by
  cases hs with
  | kept => exact h
  | took before form after hforms hfits hfirst =>
    constructor
    · have hsum := @sum_put S F _ cost s places hn o.place ho form
        (s.used - had cost s o.place + cost o.place form)
      have hhad := h.had_le o.place
      have hused := h.used
      simp only [put] at hsum ⊢
      omega
    · intro x hx
      by_cases hxo : x = o.place
      · rw [hxo]
        exact ho
      · rw [put_ne hxo] at hx
        exact h.only x hx

/-- What a run of offers comes to, one after another. -/
inductive Ran (cost : S → F → Nat) (budget : Nat) :
    Choice S F → List (Offer S F) → Choice S F → Prop where
  | nil (s : Choice S F) : Ran cost budget s [] s
  | cons {s s' s'' : Choice S F} {o : Offer S F} {os : List (Offer S F)}
    (ho : Offered cost budget s o s') (hos : Ran cost budget s' os s'') :
    Ran cost budget s (o :: os) s''

theorem Ran.sums (h : Ran cost budget s os s') (hs : Sums cost places base s) (hn : places.Nodup)
    (hos : ∀ o ∈ os, o.place ∈ places) : Sums cost places base s' := by
  induction h with
  | nil => exact hs
  | cons ho _ ih =>
    exact ih (hs.offered hn (hos _ List.mem_cons_self) ho) fun o' ho' =>
      hos o' (List.mem_cons_of_mem _ ho')

omit [DecidableEq S] in
theorem Sums.used_le (h : Sums cost places base s) {most : Nat} (hmost : ∀ x, had cost s x ≤ most) :
    s.used ≤ base + places.length * most := by
  have hsum : ∀ l : List S, (l.map (had cost s)).sum ≤ l.length * most := by
    intro l
    induction l with
    | nil => simp
    | cons x l ih =>
      have hx := hmost x
      rw [List.map_cons, List.sum_cons, List.length_cons, Nat.succ_mul]
      omega
  rw [h.used]
  exact Nat.add_le_add_left (hsum places) base

theorem Ran.used_le (h : Ran cost budget s os s') : s'.used ≤ max budget s.used := by
  induction h with
  | nil => omega
  | cons ho _ ih =>
    cases ho with
    | kept => exact ih
    | took before form after hforms hfits =>
      simp only [put] at ih
      omega

theorem Ran.chosen (h : Ran cost budget s os s') {x : S} {form : F}
    (hx : s'.chosen x = some form) :
    s.chosen x = some form ∨ ∃ o ∈ os, o.place = x ∧ ∃ before after,
      o.forms = before ++ form :: after ∧ ∀ other ∈ before, cost x form < cost x other := by
  induction h with
  | nil => exact .inl hx
  | @cons s s₁ s' o os ho _ ih =>
    obtain hsame | ⟨o', ho', hrest⟩ := ih hx
    · cases ho with
      | kept => exact .inl hsame
      | took before taken after hforms hfits hfirst =>
        by_cases hxo : x = o.place
        · subst hxo
          rw [put_self] at hsame
          cases hsame
          refine .inr ⟨o, List.mem_cons_self, rfl, before, after, hforms, fun other hother => ?_⟩
          have := hfirst other hother
          omega
        · rw [put_ne hxo] at hsame
          exact .inl hsame
    · exact .inr ⟨o', List.mem_cons_of_mem _ ho', hrest⟩

theorem Offered.stays (h : Offered cost budget s o s') {x : S} (hx : s.chosen x ≠ none) :
    s'.chosen x ≠ none := by
  cases h with
  | kept => exact hx
  | took before form after hforms hfits =>
    by_cases hxo : x = o.place
    · rw [hxo, put_self]
      nofun
    · rwa [put_ne hxo]

theorem Ran.stays (h : Ran cost budget s os s') {x : S} (hx : s.chosen x ≠ none) :
    s'.chosen x ≠ none := by
  induction h with
  | nil => exact hx
  | cons ho _ ih => exact ih (ho.stays hx)

theorem Ran.untouched (h : Ran cost budget s os s') {x : S} (hx : ∀ o ∈ os, o.place ≠ x) :
    s'.chosen x = s.chosen x := by
  induction h with
  | nil => rfl
  | @cons s s₁ s' o os ho _ ih =>
    rw [ih fun o' ho' => hx o' (List.mem_cons_of_mem _ ho')]
    cases ho with
    | kept => rfl
    | took before form after hforms hfits =>
      exact put_ne (fun h => hx o List.mem_cons_self h.symm) _ _

theorem Offered.gets (h : Offered cost budget s o s') {form : F} (hform : form ∈ o.forms)
    (hroom : s.used + cost o.place form ≤ budget) : s'.chosen o.place ≠ none := by
  cases hchosen : s.chosen o.place with
  | some other => exact h.stays (by simp [hchosen])
  | none =>
    cases h with
    | kept hall =>
      have := hall hchosen form hform
      omega
    | took before other after hforms hfits =>
      rw [put_self]
      nofun

theorem Ran.split {before after : List (Offer S F)}
    (h : Ran cost budget s (before ++ o :: after) s') :
    ∃ mid mid', Ran cost budget s before mid ∧ Offered cost budget mid o mid' ∧
      Ran cost budget mid' after s' := by
  induction before generalizing s with
  | nil =>
    cases h with
    | cons ho hos => exact ⟨s, _, .nil s, ho, hos⟩
  | cons first before ih =>
    cases h with
    | cons ho hos =>
      obtain ⟨mid, mid', hbefore, hoffered, hafter⟩ := ih hos
      exact ⟨mid, mid', .cons ho hbefore, hoffered, hafter⟩

/-- Each place is offered something once, and has nothing yet. -/
structure Fresh (os : List (Offer S F)) (s : Choice S F) : Prop where
  once : (os.map (·.place)).Nodup
  nothing : ∀ o ∈ os, s.chosen o.place = none

theorem Fresh.offered (h : Fresh (o :: os) s) (ho : Offered cost budget s o s') :
    Fresh os s' ∧ s.used ≤ s'.used := by
  obtain ⟨hnew, honce⟩ := List.nodup_cons.mp h.once
  have hnone := h.nothing o List.mem_cons_self
  have hrest : ∀ o' ∈ os, s.chosen o'.place = none := fun o' ho' =>
    h.nothing o' (List.mem_cons_of_mem _ ho')
  cases ho with
  | kept => exact ⟨⟨honce, hrest⟩, Nat.le_refl _⟩
  | took before form after hforms hfits =>
    refine ⟨⟨honce, fun o' ho' => ?_⟩, ?_⟩
    · have hne : o'.place ≠ o.place := by
        intro heq
        exact hnew (List.mem_map.mpr ⟨o', ho', heq⟩)
      rw [put_ne hne]
      exact hrest o' ho'
    · have hzero : had cost s o.place = 0 := by rw [had, hnone]; rfl
      simp only [put]
      omega

theorem Fresh.ran (h : Fresh os s) (hr : Ran cost budget s os s') : s.used ≤ s'.used := by
  induction hr with
  | nil => exact Nat.le_refl _
  | cons ho _ ih =>
    obtain ⟨hfresh, hle⟩ := h.offered ho
    exact Nat.le_trans hle (ih hfresh)

end

section
variable {S F : Type} [LE F] [DecidableLE F] {budget : Nat}

theorem pick_spec {used had : Nat} (hle : had ≤ used) (current : Option F) (price : F → Nat)
    (forms : List F) :
    (pick budget used had current price forms = some none ∧
        (current = none → ∀ form ∈ forms, budget < used - had + price form)) ∨
      ∃ before form after, forms = before ++ form :: after ∧
        pick budget used had current price forms = some (some (form, used - had + price form)) ∧
        used - had + price form ≤ budget ∧
        ∀ other ∈ before, budget < used - had + price other := by
  induction forms with
  | nil => exact .inl ⟨rfl, by simp⟩
  | cons form forms ih =>
    rw [pick]
    by_cases hany : current.any (form ≤ ·) = true
    · refine .inl ⟨if_pos hany, ?_⟩
      rintro rfl
      cases hany
    rw [if_neg hany, if_neg (Nat.not_lt.mpr hle)]
    by_cases hfits : used - had + price form ≤ budget
    · rw [if_pos hfits]
      exact .inr ⟨[], form, forms, rfl, rfl, hfits, by simp⟩
    rw [if_neg hfits]
    obtain ⟨hnone, hall⟩ | ⟨before, other, after, rfl, hsome, hother, hfirst⟩ := ih
    · refine .inl ⟨hnone, fun hcurrent f hf => ?_⟩
      obtain rfl | hf := List.mem_cons.mp hf
      · omega
      · exact hall hcurrent f hf
    · refine .inr ⟨form :: before, other, after, rfl, hsome, hother, fun f hf => ?_⟩
      obtain rfl | hf := List.mem_cons.mp hf
      · omega
      · exact hfirst f hf

theorem pick_same {budget' used had : Nat} {price : F → Nat} {forms : List F}
    {picked : Option (F × Nat)} (hle : budget' ≤ budget)
    (h : pick budget used had none price forms = some picked)
    (hfits : ∀ form total, picked = some (form, total) → total ≤ budget') :
    pick budget' used had none price forms = some picked := by
  induction forms with
  | nil => exact h
  | cons form forms ih =>
    rw [pick, Option.any_none, if_neg (by simp)] at h ⊢
    split at h
    · cases h
    rename_i hhad
    rw [if_neg hhad]
    split at h
    · cases h
      rw [if_pos (hfits form _ rfl)]
    · rw [if_neg (by omega)]
      exact ih h

end

section
variable {S F : Type} [DecidableEq S] [LE F] [DecidableLE F] {cost : S → F → Nat} {budget : Nat}
  {s s' : Choice S F} {o : Offer S F} {os : List (Offer S F)} {places : List S} {base : Nat}

theorem offer_spec (h : had cost s o.place ≤ s.used) :
    ∃ s', offer cost budget s o = some s' ∧ Offered cost budget s o s' := by
  obtain ⟨hnone, hall⟩ | ⟨before, form, after, hforms, hsome, hfits, hfirst⟩ :=
    @pick_spec F _ _ budget _ _ h (s.chosen o.place) (cost o.place) o.forms
  · refine ⟨s, by rw [offer, hnone]; rfl, .kept fun hchosen form hform => ?_⟩
    have hzero : had cost s o.place = 0 := by rw [had, hchosen]; rfl
    have := hall hchosen form hform
    omega
  · exact ⟨_, by rw [offer, hsome]; rfl, .took before form after hforms hfits hfirst⟩

theorem offers_ran (h : Sums cost places base s) (hn : places.Nodup)
    (hos : ∀ o ∈ os, o.place ∈ places) :
    ∃ s', offers cost budget s os = some s' ∧ Ran cost budget s os s' ∧
      Sums cost places base s' := by
  induction os generalizing s with
  | nil => exact ⟨s, rfl, .nil s, h⟩
  | cons o os ih =>
    obtain ⟨s₁, hoffer, hoffered⟩ := @offer_spec S F _ _ _ cost budget s o (h.had_le o.place)
    obtain ⟨s', hoffers, hran, hsums⟩ :=
      ih (h.offered hn (hos o List.mem_cons_self) hoffered) fun o' ho' =>
        hos o' (List.mem_cons_of_mem _ ho')
    refine ⟨s', ?_, .cons hoffered hran, hsums⟩
    rw [offers, hoffer, Option.bind_some, hoffers]

theorem offers_append (os os' : List (Offer S F)) :
    offers cost budget s (os ++ os') =
      (offers cost budget s os).bind fun s' => offers cost budget s' os' := by
  induction os generalizing s with
  | nil => rfl
  | cons o os ih =>
    rw [List.cons_append, offers, offers, Option.bind_assoc]
    congr 1
    funext s'
    exact ih

theorem offers_same {budget' : Nat} (hsums : Sums cost places base s) (hn : places.Nodup)
    (hos : ∀ o ∈ os, o.place ∈ places) (hf : Fresh os s) (hle : budget' ≤ budget)
    (h : offers cost budget s os = some s') (hused : s'.used ≤ budget') :
    offers cost budget' s os = some s' := by
  induction os generalizing s with
  | nil => exact h
  | cons o os ih =>
    have hplace := hos o List.mem_cons_self
    have hrest : ∀ o' ∈ os, o'.place ∈ places := fun o' ho' => hos o' (List.mem_cons_of_mem _ ho')
    obtain ⟨s₁, hoffer, hoffered⟩ := @offer_spec S F _ _ _ cost budget s o (hsums.had_le o.place)
    have hsums₁ := hsums.offered hn hplace hoffered
    obtain ⟨hfresh₁, -⟩ := hf.offered hoffered
    obtain ⟨s₂, hoffers, hran, -⟩ :=
      @offers_ran S F _ _ _ cost budget s₁ os places base hsums₁ hn hrest
    rw [offers, hoffer, Option.bind_some] at h
    cases h.symm.trans hoffers
    have hgrows := hfresh₁.ran hran
    have hsame : offer cost budget' s o = some s₁ := by
      have hnone := hf.nothing o List.mem_cons_self
      rw [offer, hnone] at hoffer ⊢
      obtain ⟨picked, hpicked, heq⟩ := Option.map_eq_some_iff.mp hoffer
      have hpicked' := pick_same hle hpicked fun form total hsome => by
        rw [hsome] at heq
        have htotal : s₁.used = total := by rw [← heq]; rfl
        omega
      rw [hpicked', Option.map_some, heq]
    rw [offers, hsame, Option.bind_some]
    exact ih hsums₁ hrest hfresh₁ h

end

end Budget

end Yardsort.Lib
