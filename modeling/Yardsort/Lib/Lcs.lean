import Mathlib.Data.List.Infix

/- The longest common sublist of two lists: the recursion that gives its length, what that length
   means, and that a common beginning and a common end can be taken off. -/
namespace Yardsort.Lib.Lcs

section
variable {α : Type} [DecidableEq α]

def lcs : List α → List α → Nat
  | [], _ => 0
  | _ :: _, [] => 0
  | x :: xs, y :: ys =>
    if x = y then lcs xs ys + 1 else max (lcs xs (y :: ys)) (lcs (x :: xs) ys)
termination_by a b => a.length + b.length

@[simp] theorem lcs_nil_left (b : List α) : lcs [] b = 0 := by
  rw [lcs]

@[simp] theorem lcs_nil_right (a : List α) : lcs a [] = 0 := by
  cases a <;> rw [lcs]

@[simp] theorem lcs_cons_same (x : α) (a b : List α) : lcs (x :: a) (x :: b) = lcs a b + 1 := by
  rw [lcs, if_pos rfl]

theorem lcs_cons_ne {x y : α} (h : x ≠ y) (a b : List α) :
    lcs (x :: a) (y :: b) = max (lcs a (y :: b)) (lcs (x :: a) b) := by
  rw [lcs, if_neg h]

/-- `n` is the length of the longest lists that are sublists of both. -/
structure Longest (a b : List α) (n : Nat) : Prop where
  reached : ∃ c : List α, c.Sublist a ∧ c.Sublist b ∧ c.length = n
  most : ∀ c : List α, c.Sublist a → c.Sublist b → c.length ≤ n

theorem length_le_lcs {a b c : List α} (ha : c.Sublist a) (hb : c.Sublist b) :
    c.length ≤ lcs a b := by
  induction a, b using lcs.induct generalizing c with
  | case1 b => simp [List.sublist_nil.mp ha]
  | case2 x xs => simp [List.sublist_nil.mp hb]
  | case3 xs x ys ih =>
    have htail := ih ha.tail hb.tail
    rw [List.length_tail] at htail
    rw [lcs_cons_same]
    omega
  | case4 x xs y ys hne ihLeft ihRight =>
    rw [lcs_cons_ne hne]
    -- One of the two first elements is not in the sublist at its head.
    cases ha with
    | cons _ ha =>
      have := ihLeft ha hb
      omega
    | cons_cons _ ha =>
      cases hb with
      | cons _ hb =>
        have := ihRight (ha.cons_cons x) hb
        omega
      | cons_cons => exact absurd rfl hne

theorem exists_common (a b : List α) :
    ∃ c : List α, c.Sublist a ∧ c.Sublist b ∧ c.length = lcs a b := by
  induction a, b using lcs.induct with
  | case1 b | case2 x xs => exact ⟨[], List.nil_sublist _, List.nil_sublist _, by simp⟩
  | case3 xs x ys ih =>
    obtain ⟨c, ha, hb, hlen⟩ := ih
    exact ⟨x :: c, ha.cons_cons x, hb.cons_cons x, by simp [hlen]⟩
  | case4 x xs y ys hne ihLeft ihRight =>
    rw [lcs_cons_ne hne]
    by_cases hmax : lcs xs (y :: ys) ≤ lcs (x :: xs) ys
    · obtain ⟨c, ha, hb, hlen⟩ := ihRight
      exact ⟨c, ha, hb.cons y, by omega⟩
    · obtain ⟨c, ha, hb, hlen⟩ := ihLeft
      exact ⟨c, ha.cons x, hb, by omega⟩

/-- **The recursion computes the longest common sublist.** -/
theorem lcs_longest (a b : List α) : Longest a b (lcs a b) :=
  ⟨exists_common a b, fun _ => length_le_lcs⟩

theorem lcs_reverse_le (a b : List α) : lcs a b ≤ lcs a.reverse b.reverse := by
  obtain ⟨c, ha, hb, hlen⟩ := exists_common a b
  have := length_le_lcs ha.reverse hb.reverse
  rw [List.length_reverse] at this
  omega

theorem lcs_reverse (a b : List α) : lcs a.reverse b.reverse = lcs a b := by
  apply Nat.le_antisymm
  · simpa using lcs_reverse_le a.reverse b.reverse
  · exact lcs_reverse_le a b

theorem lcs_append_left (front a b : List α) :
    lcs (front ++ a) (front ++ b) = front.length + lcs a b := by
  induction front with
  | nil => simp
  | cons x front ih =>
    rw [List.cons_append, List.cons_append, lcs_cons_same, ih, List.length_cons]
    omega

theorem lcs_append_right (a b back : List α) :
    lcs (a ++ back) (b ++ back) = lcs a b + back.length := by
  rw [← lcs_reverse, List.reverse_append, List.reverse_append, lcs_append_left, lcs_reverse,
    List.length_reverse, Nat.add_comm]

end

section
variable {α : Type} [DecidableEq α]

def alike : List α → List α → Nat
  | x :: xs, y :: ys => if x = y then alike xs ys + 1 else 0
  | _, _ => 0

theorem alike_le_left (a b : List α) : alike a b ≤ a.length := by
  fun_induction alike a b with
  | case1 xs y ys ih => simpa using ih
  | case2 | case3 => simp

theorem alike_le_right (a b : List α) : alike a b ≤ b.length := by
  fun_induction alike a b with
  | case1 xs y ys ih => simpa using ih
  | case2 | case3 => simp

theorem take_alike (a b : List α) : a.take (alike a b) = b.take (alike a b) := by
  fun_induction alike a b with
  | case1 xs y ys ih => simpa using ih
  | case2 | case3 => simp

theorem alike_self (a : List α) : alike a a = a.length := by
  induction a with
  | nil => rfl
  | cons x a ih => simp [alike, ih]

end

end Yardsort.Lib.Lcs
