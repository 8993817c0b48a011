import Mathlib.Data.List.Basic

/- Replacing every occurrence of a pattern in a list, from the left and without
   overlaps, and what the result can contain.

   The facts below are about a pattern `c :: m` whose first element occurs only at
   its head (`c ∉ m`), such as an escape sequence: two occurrences of it never
   overlap. Taking such a pattern out can put a new occurrence together, from the
   pieces around the ones removed. `Spliced` says which stretches do that, and
   `remove_contains_iff` that nothing else does. -/
namespace Yardsort.Lib

section
variable {α : Type} [DecidableEq α]

/-- The replacement from inside an occurrence, `k` elements of it still to pass. -/
def replaceFrom (pat new : List α) : Nat → List α → List α
  | _, [] => []
  | k + 1, _ :: xs => replaceFrom pat new k xs
  | 0, x :: xs =>
    if pat <+: x :: xs then new ++ replaceFrom pat new (pat.length - 1) xs
    else x :: replaceFrom pat new 0 xs

def replace (pat new l : List α) : List α := replaceFrom pat new 0 l

theorem replaceFrom_eq_drop (pat new : List α) (k : Nat) (l : List α) :
    replaceFrom pat new k l = replace pat new (l.drop k) := by
  induction l generalizing k with
  | nil => cases k <;> simp [replace, replaceFrom]
  | cons x xs ih =>
    cases k with
    | zero => rfl
    | succ k => rw [replaceFrom, ih, List.drop_succ_cons]

@[simp] theorem replace_nil (pat new : List α) : replace pat new [] = [] := rfl

theorem replace_hit (c : α) (m new l : List α) :
    replace (c :: m) new (c :: m ++ l) = new ++ replace (c :: m) new l := by
  have hp : c :: m <+: c :: (m ++ l) := List.prefix_append (c :: m) l
  rw [List.cons_append, replace, replaceFrom, if_pos hp, replaceFrom_eq_drop]
  simp

theorem replace_keep {pat new l : List α} {x : α} (h : ¬ pat <+: x :: l) :
    replace pat new (x :: l) = x :: replace pat new l := by
  rw [replace, replaceFrom, if_neg h]; rfl

theorem replace_induction {P : List α → Prop} (c : α) (m : List α) (nil : P [])
    (hit : ∀ l, P l → P (c :: m ++ l))
    (keep : ∀ x l, ¬ c :: m <+: x :: l → P l → P (x :: l)) : ∀ l, P l := by
  have h : ∀ n, ∀ l : List α, l.length ≤ n → P l := by
    intro n
    induction n with
    | zero =>
      intro l hl
      rw [List.eq_nil_of_length_eq_zero (Nat.le_zero.mp hl)]; exact nil
    | succ n ih =>
      intro l hl
      cases l with
      | nil => exact nil
      | cons x l =>
        by_cases hp : c :: m <+: x :: l
        · obtain ⟨t, ht⟩ := hp
          rw [← ht] at hl ⊢
          refine hit t (ih t ?_)
          simp only [List.length_append, List.length_cons] at hl
          omega
        · exact keep x l hp (ih l (Nat.le_of_succ_le_succ hl))
  exact fun l => h l.length l (Nat.le_refl _)

theorem prefix_before {c x : α} {m pre rest : List α} (hm : x ∉ m) {y : α}
    (h : c :: m <+: y :: pre ++ x :: rest) : c :: m <+: y :: pre := by
  rw [List.cons_append, List.cons_prefix_cons] at h
  rw [List.cons_prefix_cons]
  refine ⟨h.1, ?_⟩
  by_contra hn
  have hlen : ¬ m.length ≤ pre.length := fun hle =>
    hn (List.prefix_of_prefix_length_le h.2 (List.prefix_append _ _) hle)
  have hpre : pre ++ [x] <+: m := by
    have hwhole : pre ++ [x] <+: pre ++ x :: rest := ⟨rest, by simp⟩
    refine List.prefix_of_prefix_length_le hwhole h.2 ?_
    simp only [List.length_append, List.length_singleton]; omega
  obtain ⟨t, ht⟩ := hpre
  exact hm (by rw [← ht]; simp)

theorem replace_append_keep {c x : α} {m new rest : List α} (hm : x ∉ m)
    (hk : ¬ c :: m <+: x :: rest) (pre : List α) :
    replace (c :: m) new (pre ++ x :: rest) =
      replace (c :: m) new pre ++ x :: replace (c :: m) new rest := by
  induction pre using replace_induction c m with
  | nil => rw [List.nil_append, replace_keep hk]; rfl
  | hit l ih => rw [List.append_assoc, replace_hit, replace_hit, ih, List.append_assoc]
  | keep y l hy ih =>
    have hy' : ¬ c :: m <+: y :: (l ++ x :: rest) := fun h => hy (prefix_before hm h)
    rw [List.cons_append, replace_keep hy', replace_keep hy, ih]; rfl

theorem replace_split {c x : α} {m new : List α} (hx : x ∉ new) :
    ∀ (l r₁ r₂ : List α), replace (c :: m) new l = r₁ ++ x :: r₂ →
      ∃ l₁ l₂, l = l₁ ++ x :: l₂ ∧ replace (c :: m) new l₁ = r₁ ∧
        replace (c :: m) new l₂ = r₂ ∧ ¬ c :: m <+: x :: l₂ := by
  intro l
  induction l using replace_induction c m with
  | nil => intro r₁ r₂ h; simp at h
  | hit l ih =>
    intro r₁ r₂ h
    rw [replace_hit] at h
    rcases List.append_eq_append_iff.mp h with ⟨a, ha, hb⟩ | ⟨a, ha, hb⟩
    · obtain ⟨l₁, l₂, rfl, h₁, h₂, h₃⟩ := ih _ _ hb
      exact ⟨c :: m ++ l₁, l₂, by simp, by rw [replace_hit, h₁, ha], h₂, h₃⟩
    · cases a with
      | nil =>
        obtain ⟨l₁, l₂, rfl, h₁, h₂, h₃⟩ := ih [] r₂ hb.symm
        exact ⟨c :: m ++ l₁, l₂, by simp, by rw [replace_hit, h₁, ha]; simp, h₂, h₃⟩
      | cons y a =>
        rw [List.cons_append, List.cons.injEq] at hb
        exact absurd (by rw [ha, hb.1]; simp) hx
  | keep y l hy ih =>
    intro r₁ r₂ h
    rw [replace_keep hy] at h
    cases r₁ with
    | nil =>
      rw [List.nil_append, List.cons.injEq] at h
      obtain ⟨rfl, h⟩ := h
      exact ⟨[], l, rfl, rfl, h, hy⟩
    | cons z r₁ =>
      rw [List.cons_append, List.cons.injEq] at h
      obtain ⟨rfl, h⟩ := h
      obtain ⟨l₁, l₂, rfl, h₁, h₂, h₃⟩ := ih _ _ h
      exact ⟨y :: l₁, l₂, rfl, by
        rw [replace_keep (fun hp => hy (hp.trans (List.prefix_append _ _))), h₁], h₂, h₃⟩

/-- `y` is `m` with whole copies of `pat` put in front of some of its elements. -/
inductive Spliced (pat : List α) : List α → List α → Prop where
  | nil : Spliced pat [] []
  | own {x m y} : Spliced pat m y → Spliced pat (x :: m) (x :: y)
  | copy {x m y} : Spliced pat (x :: m) y → Spliced pat (x :: m) (pat ++ y)

/-- `y` comes apart as the pattern `c :: m` with at least one whole copy of the
    pattern put in between its elements. -/
def Broken (c : α) (m y : List α) : Prop := ∃ y', y = c :: y' ∧ Spliced (c :: m) m y' ∧ y' ≠ m

theorem spliced_of_remove_nil {c x : α} {m n y : List α} :
    ∀ l, replace (c :: m) [] l = [] → Spliced (c :: m) (x :: n) y →
      Spliced (c :: m) (x :: n) (l ++ y) := by
  intro l
  induction l using replace_induction c m with
  | nil => exact fun _ h => h
  | hit l ih =>
    intro h hs
    rw [replace_hit, List.nil_append] at h
    rw [List.append_assoc]
    exact .copy (ih h hs)
  | keep z l hz ih => intro h; rw [replace_keep hz] at h; cases h

theorem spliced_of_remove {c : α} {m : List α} :
    ∀ (n l r : List α), replace (c :: m) [] l = n ++ r →
      ∃ y l', l = y ++ l' ∧ Spliced (c :: m) n y := by
  intro n
  induction n with
  | nil => exact fun l r _ => ⟨[], l, rfl, .nil⟩
  | cons x n ih =>
    intro l r h
    obtain ⟨l₁, l₂, rfl, h₁, h₂, _⟩ := replace_split List.not_mem_nil l [] (n ++ r) h
    obtain ⟨y, l', rfl, hs⟩ := ih l₂ r h₂
    exact ⟨l₁ ++ x :: y, l', by simp, spliced_of_remove_nil l₁ h₁ (.own hs)⟩

theorem remove_spliced {c : α} {m n y : List α} (hn : c ∉ n) (hs : Spliced (c :: m) n y)
    (post : List α) : replace (c :: m) [] (y ++ post) = n ++ replace (c :: m) [] post := by
  induction hs with
  | nil => rfl
  | @own x n y _ ih =>
    have hne : c ≠ x := fun h => hn (h ▸ List.mem_cons_self)
    rw [List.cons_append, replace_keep (fun h => hne (List.cons_prefix_cons.mp h).1),
      ih (fun h => hn (List.mem_cons_of_mem x h))]
    rfl
  | copy _ ih => rw [List.append_assoc, replace_hit, ih hn, List.nil_append]

omit [DecidableEq α] in
theorem spliced_not_prefix {c : α} {m n y : List α} (hn : c ∉ n) (hs : Spliced (c :: m) n y)
    (hne : y ≠ n) (post : List α) : ¬ n <+: y ++ post := by
  induction hs with
  | nil => exact absurd rfl hne
  | @own x n y _ ih =>
    rw [List.cons_append, List.cons_prefix_cons]
    rintro ⟨_, h⟩
    exact ih (fun h => hn (List.mem_cons_of_mem x h)) (fun h => hne (by rw [h])) h
  | @copy x n y _ _ =>
    rw [List.append_assoc, List.cons_append, List.cons_prefix_cons]
    rintro ⟨rfl, _⟩
    exact hn List.mem_cons_self

/-- **Taking `c :: m` out leaves a `c :: m` exactly where one was broken up by
    whole ones.** -/
theorem remove_contains_iff {c : α} {m : List α} (hm : c ∉ m) (l : List α) :
    c :: m <:+: replace (c :: m) [] l ↔ ∃ y, y <:+: l ∧ Broken c m y := by
  constructor
  · rintro ⟨a, b, h⟩
    rw [List.append_assoc, List.cons_append] at h
    obtain ⟨l₁, l₂, rfl, _, h₂, hk⟩ := replace_split List.not_mem_nil l a (m ++ b) h.symm
    obtain ⟨y, l', rfl, hs⟩ := spliced_of_remove m l₂ b h₂
    refine ⟨c :: y, ⟨l₁, l', by simp⟩, y, rfl, hs, ?_⟩
    rintro rfl
    exact hk (List.prefix_append (c :: y) l')
  · rintro ⟨y, ⟨pre, post, rfl⟩, y', rfl, hs, hne⟩
    have hk : ¬ c :: m <+: c :: (y' ++ post) := by
      rw [List.cons_prefix_cons]
      exact fun h => spliced_not_prefix hm hs hne post h.2
    refine ⟨replace (c :: m) [] pre, replace (c :: m) [] post, ?_⟩
    have hcut : pre ++ c :: y' ++ post = pre ++ c :: (y' ++ post) := by simp
    rw [hcut, replace_append_keep hm hk, remove_spliced hm hs]
    simp

theorem replace_contains_iff {c d : α} {m new : List α} {y : List α}
    (hp : ∀ x ∈ y, x ≠ c ∧ x ∉ m) (hn : ∀ x ∈ y, x ∉ d :: new) (hy : y ≠ []) (l : List α) :
    y <:+: replace (c :: m) (d :: new) l ↔ y <:+: l := by
  have hkeep : ∀ x ∈ y, ∀ t, ¬ c :: m <+: x :: t :=
    fun x hx t h => (hp x hx).1 (List.cons_prefix_cons.mp h).1.symm
  have hself : ∀ z, (∀ x ∈ z, x ∈ y) → ∀ post,
      replace (c :: m) (d :: new) (z ++ post) = z ++ replace (c :: m) (d :: new) post := by
    intro z
    induction z with
    | nil => intro _ post; rfl
    | cons x z ih =>
      intro hz post
      rw [List.cons_append, replace_keep (hkeep x (hz x List.mem_cons_self) _),
        ih (fun w hw => hz w (List.mem_cons_of_mem x hw))]
      rfl
  constructor
  -- element by element: what is replaced by nothing empty is itself empty
  · have hnil : ∀ l₁, replace (c :: m) (d :: new) l₁ = [] → l₁ = [] := by
      intro l₁
      induction l₁ using replace_induction c m with
      | nil => exact fun _ => rfl
      | hit l _ => intro h; rw [replace_hit] at h; cases h
      | keep x l hx _ => intro h; rw [replace_keep hx] at h; cases h
    have hrest : ∀ z, (∀ x ∈ z, x ∈ y) → ∀ l r,
        replace (c :: m) (d :: new) l = z ++ r → ∃ l', l = z ++ l' := by
      intro z
      induction z with
      | nil => exact fun _ l _ _ => ⟨l, rfl⟩
      | cons x z ih =>
        intro hz l r h
        obtain ⟨l₁, l₂, rfl, h₁, h₂, _⟩ :=
          replace_split (hn x (hz x List.mem_cons_self)) l [] (z ++ r) h
        obtain ⟨l', rfl⟩ := ih (fun w hw => hz w (List.mem_cons_of_mem x hw)) l₂ r h₂
        exact ⟨l', by rw [hnil l₁ h₁]; rfl⟩
    rintro ⟨a, b, h⟩
    obtain ⟨x, z, rfl⟩ := List.exists_cons_of_ne_nil hy
    rw [List.append_assoc, List.cons_append] at h
    obtain ⟨l₁, l₂, rfl, _, h₂, _⟩ :=
      replace_split (hn x List.mem_cons_self) l a (z ++ b) h.symm
    obtain ⟨l', rfl⟩ := hrest z (fun w hw => List.mem_cons_of_mem x hw) l₂ b h₂
    exact ⟨l₁, l', by simp⟩
  · rintro ⟨pre, post, rfl⟩
    obtain ⟨x, z, rfl⟩ := List.exists_cons_of_ne_nil hy
    have hcut : pre ++ x :: z ++ post = pre ++ x :: (z ++ post) := by simp
    refine ⟨replace (c :: m) (d :: new) pre, replace (c :: m) (d :: new) post, ?_⟩
    rw [hcut, replace_append_keep (hp x List.mem_cons_self).2 (hkeep x List.mem_cons_self _),
      hself z (fun w hw => List.mem_cons_of_mem x hw)]
    simp

end

end Yardsort.Lib
