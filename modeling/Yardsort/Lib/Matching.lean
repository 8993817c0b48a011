import Mathlib.Data.List.Induction
import Mathlib.Data.List.Pairwise

/- Matching the elements of two sides, the closest pair first.

   A pair is taken when neither of its sides is, in the order of the list. What is taken is stable:
   for every pair that could have been taken, one that stands no later was, on one of its sides. In
   an order that tells pairs of different sides apart there is only one stable matching, so what
   the walk takes can be spoken of without it. -/
namespace Yardsort.Lib.Matching

section
variable {π α β : Type} (left : π → α) (right : π → β)

/-- Two pairs with a side in common. -/
def Meets (p q : π) : Prop := left p = left q ∨ right p = right q

/-- A matching of `pairs` in which no side is in two pairs, and which holds, for every pair, one
    that stands no later and meets it. -/
structure Stable (before : π → π → Prop) (pairs matched : List π) : Prop where
  part : ∀ p ∈ matched, p ∈ pairs
  apart : ∀ p ∈ matched, ∀ q ∈ matched, Meets left right p q → left p = left q ∧ right p = right q
  settled : ∀ p ∈ pairs, ∃ q ∈ matched, before q p ∧ Meets left right q p

variable {left right} {before : π → π → Prop}

instance : Std.Symm fun p q => ¬ Meets left right p q where
  symm _ _ h hmeets := h (hmeets.imp Eq.symm Eq.symm)

/-- Where two pairs stand no later than each other only with the same sides, two stable matchings
    of one list hold pairs of the same sides. -/
theorem Stable.unique {pairs matched matched' : List π}
    (hanti : ∀ p q, before p q → before q p → left p = left q ∧ right p = right q)
    (hsorted : pairs.Pairwise before) (h : Stable left right before pairs matched)
    (h' : Stable left right before pairs matched') :
    ∀ p ∈ matched, ∃ q ∈ matched', left q = left p ∧ right q = right p := by
  -- By induction on what stands before a pair, both ways at once.
  have hboth : ∀ done rest, pairs = done ++ rest → ∀ p ∈ done,
      (∃ m ∈ matched, left m = left p ∧ right m = right p) ↔
        ∃ m ∈ matched', left m = left p ∧ right m = right p := by
    intro done
    induction done using List.reverseRecOn with
    | nil => exact fun _ _ _ hp => absurd hp List.not_mem_nil
    | append_singleton done p ih =>
      intro rest hpairs
      rw [List.append_assoc, List.singleton_append] at hpairs
      have hbefore := ih (p :: rest) hpairs
      intro q hq
      obtain hq | hq := List.mem_append.mp hq
      · exact hbefore q hq
      · obtain rfl := List.mem_singleton.mp hq
        rw [hpairs, List.pairwise_append] at hsorted
        have hlater := List.pairwise_cons.mp hsorted.2.1
        -- What blocks `q` in one matching is `q` itself or stands before it, and is in both.
        have hone : ∀ {m₁ m₂ : List π}, Stable left right before pairs m₁ →
            Stable left right before pairs m₂ →
            (∀ p ∈ done, (∃ m ∈ m₁, left m = left p ∧ right m = right p) →
              ∃ m ∈ m₂, left m = left p ∧ right m = right p) →
            (∃ m ∈ m₂, left m = left q ∧ right m = right q) →
            ∃ m ∈ m₁, left m = left q ∧ right m = right q := by
          intro m₁ m₂ h₁ h₂ hdone ⟨m, hm, hleft, hright⟩
          obtain ⟨b, hb, hbq, hmeets⟩ := h₁.settled q (by rw [hpairs]; simp)
          have hin := h₁.part b hb
          rw [hpairs] at hin
          obtain hin | hin := List.mem_append.mp hin
          -- It is in the other matching too, where it meets `q`'s pair.
          · obtain ⟨b', hb', hbl, hbr⟩ := hdone b hin ⟨b, hb, rfl, rfl⟩
            have hmeet : Meets left right b' m := by
              rw [Meets, hbl, hbr, hleft, hright]
              exact hmeets
            obtain ⟨hl, hr⟩ := h₂.apart b' hb' m hm hmeet
            exact ⟨b, hb, by rw [← hbl, hl, hleft], by rw [← hbr, hr, hright]⟩
          · obtain rfl | hin := List.mem_cons.mp hin
            · exact ⟨b, hb, rfl, rfl⟩
            · obtain ⟨hl, hr⟩ := hanti b q hbq (hlater.1 b hin)
              exact ⟨b, hb, hl, hr⟩
        constructor
        · exact fun hex => hone h' h (fun p hp => (hbefore p hp).mpr) hex
        · exact fun hex => hone h h' (fun p hp => (hbefore p hp).mp) hex
  intro p hp
  exact (hboth pairs [] (List.append_nil pairs).symm p (h.part p hp)).mp ⟨p, hp, rfl, rfl⟩

variable [DecidableEq α] [DecidableEq β]

def blocked (left : π → α) (right : π → β) (taken : List π) (p : π) : Bool :=
  taken.any fun q => decide (left q = left p) || decide (right q = right p)

def walk (left : π → α) (right : π → β) : List π → List π → List π
  | taken, [] => taken
  | taken, p :: ps =>
    if blocked left right taken p then walk left right taken ps
    else walk left right (taken ++ [p]) ps

theorem blocked_iff {taken : List π} {p : π} :
    blocked left right taken p = true ↔ ∃ q ∈ taken, Meets left right q p := by
  simp [blocked, Meets]

theorem walk_taken {taken ps : List π} {p : π} (h : p ∈ taken) : p ∈ walk left right taken ps := by
  induction ps generalizing taken with
  | nil => exact h
  | cons q ps ih =>
    rw [walk]
    split
    · exact ih h
    · exact ih (List.mem_append_left _ h)

theorem walk_part {taken ps : List π} {p : π} (h : p ∈ walk left right taken ps) :
    p ∈ taken ∨ p ∈ ps := by
  induction ps generalizing taken with
  | nil => exact .inl h
  | cons q ps ih =>
    rw [walk] at h
    split at h
    · exact (ih h).imp_right (List.mem_cons_of_mem _)
    obtain h | h := ih h
    · obtain h | h := List.mem_append.mp h
      · exact .inl h
      · exact .inr (List.mem_singleton.mp h ▸ List.mem_cons_self ..)
    · exact .inr (List.mem_cons_of_mem _ h)

theorem walk_pairwise {taken ps : List π} (h : taken.Pairwise fun p q => ¬ Meets left right p q) :
    (walk left right taken ps).Pairwise fun p q => ¬ Meets left right p q := by
  induction ps generalizing taken with
  | nil => exact h
  | cons r ps ih =>
    rw [walk]
    split
    · exact ih h
    rename_i hfree
    apply ih
    apply List.pairwise_append.mpr
    refine ⟨h, List.pairwise_singleton _ r, ?_⟩
    intro q hq r' hr' hmeets
    rw [List.mem_singleton.mp hr'] at hmeets
    exact hfree (blocked_iff.mpr ⟨q, hq, hmeets⟩)

theorem walk_apart {ps : List π} : ∀ p ∈ walk left right [] ps, ∀ q ∈ walk left right [] ps,
    Meets left right p q → left p = left q ∧ right p = right q := by
  intro p hp q hq hmeets
  by_cases heq : p = q
  · exact heq ▸ ⟨rfl, rfl⟩
  · have hpairwise := @walk_pairwise _ _ _ left right _ _ [] ps List.Pairwise.nil
    exact absurd hmeets (hpairwise.forall hp hq heq)

theorem walk_settled {taken ps : List π} (hrefl : ∀ p, before p p) (hsorted : ps.Pairwise before)
    (htaken : ∀ q ∈ taken, ∀ p ∈ ps, before q p) :
    ∀ p ∈ ps, ∃ q ∈ walk left right taken ps, before q p ∧ Meets left right q p := by
  induction ps generalizing taken with
  | nil => exact List.forall_mem_nil _
  | cons r ps ih =>
    obtain ⟨hr, hsorted⟩ := List.pairwise_cons.mp hsorted
    rw [walk]
    intro p hp
    split
    · rename_i hblocked
      obtain rfl | hp := List.mem_cons.mp hp
      · obtain ⟨q, hq, hmeets⟩ := blocked_iff.mp hblocked
        exact ⟨q, walk_taken hq, htaken q hq p (List.mem_cons_self ..), hmeets⟩
      · exact ih hsorted (fun q hq p hp => htaken q hq p (List.mem_cons_of_mem _ hp)) p hp
    · obtain rfl | hp := List.mem_cons.mp hp
      · exact ⟨p, walk_taken (List.mem_append_right _ (List.mem_singleton_self p)), hrefl p,
          .inl rfl⟩
      · refine ih hsorted ?_ p hp
        intro q hq p hp
        obtain hq | hq := List.mem_append.mp hq
        · exact htaken q hq p (List.mem_cons_of_mem _ hp)
        · exact List.mem_singleton.mp hq ▸ hr p hp

/-- **The walk takes a stable matching.** -/
theorem walk_stable {ps : List π} (hrefl : ∀ p, before p p) (hsorted : ps.Pairwise before) :
    Stable left right before ps (walk left right [] ps) where
  part _ hp := (walk_part hp).resolve_left List.not_mem_nil
  apart := walk_apart
  settled := walk_settled hrefl hsorted (List.forall_mem_nil _)

end

end Yardsort.Lib.Matching
