import Yardsort.Lib.Snoc
import Mathlib.Data.List.Nodup

/- Tables: lists whose entries are named by their index, as tasks and shared
   objects are in the models here. One entry is set, every entry is changed by
   a function, or one is added; each lemma says where an entry of the new table
   comes from. -/
namespace Yardsort.Lib

section
variable {α : Type} {l : List α} {i j : Nat} {a b x : α}

theorem get_set (hi : l[i]? = some a) (h : (l.set i b)[j]? = some x) :
    (j = i ∧ x = b) ∨ (j ≠ i ∧ l[j]? = some x) := by
  have hlt : i < l.length := (List.getElem?_eq_some_iff.mp hi).1
  simp only [List.getElem?_set, hlt, if_true] at h
  split at h
  · rename_i hij
    exact .inl ⟨hij.symm, (Option.some.inj h).symm⟩
  · rename_i hij
    exact .inr ⟨fun h => hij h.symm, h⟩

theorem forall_set {P : Nat → α → Prop} (hi : l[i]? = some a)
    (h : ∀ j x, l[j]? = some x → P j x) (hb : P i b) : ∀ j x, (l.set i b)[j]? = some x → P j x := by
  intro j x hx
  obtain ⟨rfl, rfl⟩ | ⟨-, hx⟩ := get_set hi hx
  · exact hb
  · exact h j x hx

theorem forall_mem_set {P : α → Prop} (h : ∀ x ∈ l, P x) (hb : P b) : ∀ x ∈ l.set i b, P x := by
  intro x hx
  obtain hx | rfl := mem_or_eq_of_mem_set hx
  · exact h x hx
  · exact hb

theorem mem_set_erase (hi : l[i]? = some a) (h : x ∈ l.set i b) : x = b ∨ x ∈ l.eraseIdx i := by
  obtain ⟨j, hj⟩ := mem_iff_getElem?.mp h
  obtain ⟨-, rfl⟩ | ⟨hji, hjx⟩ := get_set hi hj
  · exact .inl rfl
  · exact .inr (mem_eraseIdx_iff_getElem?.mpr ⟨j, hji, hjx⟩)

theorem mem_set_self (hi : l[i]? = some a) : b ∈ l.set i b :=
  List.mem_set (List.getElem?_eq_some_iff.mp hi).1 b

theorem get_set_ne (hij : j ≠ i) : (l.set i b)[j]? = l[j]? :=
  List.getElem?_set_ne fun h => hij h.symm

theorem get_set_self (hi : l[i]? = some a) : (l.set i b)[i]? = some b :=
  List.getElem?_set_self (List.getElem?_eq_some_iff.mp hi).1

theorem get_set_some {P : α → Prop} (hi : l[i]? = some a) (hb : P a → P b) (hj : l[j]? = some x)
    (hx : P x) : ∃ y, (l.set i b)[j]? = some y ∧ P y := by
  by_cases hji : j = i
  · subst hji
    cases hi.symm.trans hj
    exact ⟨b, get_set_self hi, hb hx⟩
  · exact ⟨x, (get_set_ne hji).trans hj, hx⟩

theorem modify_eq_set (hi : l[i]? = some a) (f : α → α) : l.modify i f = l.set i (f a) := by
  rw [List.modify_eq_set_getElem?, hi]
  rfl

theorem exists_set (hi : l[i]? = some a) {P : α → Prop} (hP : P a → P b) (h : ∃ x ∈ l, P x) :
    ∃ x ∈ l.set i b, P x := by
  obtain ⟨x, hx, hp⟩ := h
  obtain ⟨j, hj⟩ := mem_iff_getElem?.mp hx
  obtain ⟨y, hy, hp⟩ := get_set_some hi hP hj hp
  exact ⟨y, mem_of_getElem? hy, hp⟩

theorem mem_set_or (hi : l[i]? = some a) (h : x ∈ l) : x = a ∨ x ∈ l.set i b := by
  obtain ⟨j, hj⟩ := mem_iff_getElem?.mp h
  by_cases hij : j = i
  · subst hij
    exact .inl (Option.some.inj (hj.symm.trans hi))
  · exact .inr (mem_iff_getElem?.mpr ⟨j, (get_set_ne hij).trans hj⟩)

theorem get_append (h : (l ++ [a])[j]? = some x) : l[j]? = some x ∨ (j = l.length ∧ x = a) := by
  rw [List.getElem?_append] at h
  split at h
  · exact .inl h
  have hj : j - l.length = 0 := by
    have := (List.getElem?_eq_some_iff.mp h).1
    simp only [length_singleton] at this
    omega
  rw [hj] at h
  exact .inr ⟨by omega, (Option.some.inj h).symm⟩

theorem get_append_left (h : l[j]? = some x) : (l ++ [a])[j]? = some x := by
  rw [List.getElem?_append_left (List.getElem?_eq_some_iff.mp h).1]
  exact h

theorem countP_flatten_set {ls : List (List α)} {old new : List α} (h : ls[i]? = some old)
    (p : α → Bool) :
    (ls.set i new).flatten.countP p + old.countP p = ls.flatten.countP p + new.countP p := by
  induction ls generalizing i with
  | nil => simp at h
  | cons l ls ih =>
    cases i with
    | zero =>
      simp only [List.getElem?_cons_zero, Option.some.injEq] at h
      subst h
      simp only [List.set_cons_zero, flatten_cons, countP_append]
      omega
    | succ i =>
      simp only [List.getElem?_cons_succ] at h
      have := ih h
      simp only [List.set_cons_succ, flatten_cons, countP_append]
      omega

theorem countP_map_add {f : α → α} {p q : α → Bool}
    (h : ∀ a ∈ l, (p (f a)).toNat = (p a).toNat + (q a).toNat) :
    (l.map f).countP p = l.countP p + l.countP q := by
  induction l with
  | nil => rfl
  | cons a l ih =>
    have ha := h a mem_cons_self
    have ih := ih fun b hb => h b (mem_cons_of_mem a hb)
    rw [map_cons, countP_cons, countP_cons, countP_cons, ih]
    cases hf : p (f a) <;> cases hp : p a <;> cases hq : q a <;> simp [hf, hp, hq] at ha ⊢ <;> omega

end

theorem mem_of_lookup {α β : Type} [BEq α] [LawfulBEq α] {table : List (α × β)} {k : α} {b : β}
    (h : table.lookup k = some b) : (k, b) ∈ table := by
  obtain ⟨before, after, rfl, -⟩ := lookup_eq_some_iff.mp h
  exact mem_append_right _ (mem_cons_self ..)

theorem lookup_of_mem {α β : Type} [BEq α] [LawfulBEq α] {table : List (α × β)}
    (hnodup : (table.map (·.1)).Nodup) {k : α} {b : β} (h : (k, b) ∈ table) :
    table.lookup k = some b := by
  obtain ⟨before, after, rfl⟩ := append_of_mem h
  rw [map_append, map_cons] at hnodup
  refine lookup_eq_some_iff.mpr ⟨before, after, rfl, ?_⟩
  intro entry hentry
  have hne : entry.1 ≠ k := by
    intro heq
    exact List.disjoint_of_nodup_append hnodup (mem_map_of_mem hentry)
      (heq ▸ mem_cons_self ..)
  simpa using Ne.symm hne

theorem nodup_snoc {α β : Type} {l : List α} {f : α → β} {a : α} (hl : (l.map f).Nodup)
    (ha : f a ∉ l.map f) : ((l ++ [a]).map f).Nodup := by
  rw [map_append, map_singleton]
  refine nodup_append.mpr ⟨hl, List.nodup_singleton _, ?_⟩
  intro b hb c hc heq
  rw [mem_singleton] at hc
  exact ha (hc ▸ heq ▸ hb)

theorem map_set_same {α β : Type} {l : List α} {i : Nat} {a b : α} {f : α → β}
    (hi : l[i]? = some a) (hf : f b = f a) : (l.set i b).map f = l.map f := by
  have hget : (l.map f)[i]? = some (f b) := by
    rw [List.getElem?_map, hi, hf]
    rfl
  obtain ⟨hlt, hat⟩ := List.getElem?_eq_some_iff.mp hget
  rw [List.map_set, ← hat]
  exact set_getElem_self hlt

theorem erase_ne {α β : Type} {l : List α} {i : Nat} {a b : α} {f : α → β} (hl : (l.map f).Nodup)
    (hi : l[i]? = some a) (hb : b ∈ l.eraseIdx i) : f b ≠ f a := by
  intro heq
  obtain ⟨j, hji, hj⟩ := mem_eraseIdx_iff_getElem?.mp hb
  have hgeti : (l.map f)[i]? = some (f a) := by
    rw [List.getElem?_map, hi]
    rfl
  have hgetj : (l.map f)[j]? = some (f a) := by
    rw [List.getElem?_map, hj, ← heq]
    rfl
  have hlt : i < (l.map f).length := (List.getElem?_eq_some_iff.mp hgeti).1
  exact hji ((List.getElem?_inj hlt hl).mp (hgeti.trans hgetj.symm)).symm

theorem nodup_map {α β : Type} {l : List α} {f : α → β} {g : α → α} (hl : (l.map f).Nodup)
    (hg : ∀ a, f (g a) = f a) : ((l.map g).map f).Nodup := by
  have hfg : f ∘ g = f := by
    funext a
    exact hg a
  rwa [map_map, hfg]

theorem find_filter {α β : Type} [DecidableEq β] {l : List α} {f : α → β} (hl : (l.map f).Nodup)
    (p : α → Bool) (k : β) :
    (l.filter p).find? (f · = k) = (l.find? (f · = k)).filter p := by
  induction l with
  | nil => rfl
  | cons a l ih =>
    obtain ⟨hnew, hl⟩ := nodup_cons.mp hl
    by_cases hk : f a = k
    · have hnone : (l.filter p).find? (f · = k) = none := by
        rw [List.find?_eq_none]
        intro b hb heq
        exact hnew (hk.trans (of_decide_eq_true heq).symm ▸ mem_map_of_mem (mem_of_mem_filter hb))
      cases hp : p a <;> simp [hp, hk, hnone, Option.filter_some]
    · cases hp : p a <;> simp [hp, hk, ih hl]

def swapRemove {α : Type} (l : List α) (i : Nat) : List α :=
  match l.getLast? with
  | none => l
  | some last => (l.set i last).dropLast

theorem swapRemove_perm {α : Type} {l : List α} {i : Nat} (hi : i < l.length) :
    (swapRemove l i).Perm (l.eraseIdx i) := by
  obtain hnil | ⟨front, last, rfl⟩ := eq_nil_or_concat l
  · rw [hnil] at hi
    exact absurd hi (Nat.not_lt_zero i)
  unfold swapRemove
  rw [List.concat_eq_append, List.getLast?_concat]
  dsimp only
  rw [List.concat_eq_append, length_append, length_singleton] at hi
  by_cases hlast : i < front.length
  · rw [List.set_append_left i last hlast, dropLast_concat,
      List.eraseIdx_append_of_lt_length hlast]
    rw [List.set_eq_take_append_cons_drop, if_pos hlast, List.eraseIdx_eq_take_drop_succ]
    exact List.perm_middle.trans (List.perm_append_singleton _ _).symm
  · have hi : i = front.length := by omega
    subst hi
    rw [List.set_append_right _ _ (Nat.le_refl _), Nat.sub_self, List.set_cons_zero,
      dropLast_concat, List.eraseIdx_append_of_length_le (Nat.le_refl _), Nat.sub_self,
      List.eraseIdx_cons_zero, append_nil]

theorem swapRemove_key {α β : Type} [DecidableEq β] {l : List α} {f : α → β} {k : β} {i : Nat}
    (hl : (l.map f).Nodup) (hi : l.findIdx? (fun a => f a = k) = some i) :
    ∃ a, l[i]? = some a ∧ f a = k ∧ (∀ b ∈ swapRemove l i, b ∈ l ∧ f b ≠ k) ∧
      ((swapRemove l i).map f).Nodup := by
  obtain ⟨hlt, hkey, -⟩ := List.findIdx?_eq_some_iff_getElem.mp hi
  have ha : l[i]? = some l[i] := List.getElem?_eq_getElem hlt
  have hkey : f l[i] = k := of_decide_eq_true hkey
  have hperm := swapRemove_perm hlt
  refine ⟨l[i], ha, hkey, ?_, ?_⟩
  · intro b hb
    have hb : b ∈ l.eraseIdx i := hperm.subset hb
    refine ⟨(eraseIdx_sublist ..).subset hb, ?_⟩
    rw [← hkey]
    exact erase_ne hl ha hb
  · have hsub : (l.eraseIdx i).Sublist l := eraseIdx_sublist ..
    exact (hperm.map f).nodup_iff.mpr (hl.sublist (hsub.map f))

section
variable {α κ : Type} {l : List α} {f : α → Option κ} {i : Nat} {a b : α}

def KeyOnce (l : List α) (f : α → Option κ) : Prop :=
  ∀ (i j : Nat) (a b : α) (k : κ), l[i]? = some a → l[j]? = some b → f a = some k → f b = some k →
    i = j

theorem KeyOnce.nil : KeyOnce ([] : List α) f := by
  intro i j a b k hi
  cases hi

theorem KeyOnce.snoc (h : KeyOnce l f) (hnew : ∀ k, f a = some k → ∀ b ∈ l, f b ≠ some k) :
    KeyOnce (l ++ [a]) f := by
  intro i j x y k hi hj hx hy
  obtain hix | ⟨rfl, rfl⟩ := get_append hi
  · obtain hjy | ⟨-, rfl⟩ := get_append hj
    · exact h i j x y k hix hjy hx hy
    · exact absurd hx (hnew k hy x (mem_of_getElem? hix))
  · obtain hjy | ⟨rfl, -⟩ := get_append hj
    · exact absurd hy (hnew k hx y (mem_of_getElem? hjy))
    · rfl

theorem KeyOnce.set_same (h : KeyOnce l f) (hi : l[i]? = some a) (hf : f b = f a) :
    KeyOnce (l.set i b) f := by
  have hget : ∀ (j : Nat) x, (l.set i b)[j]? = some x → ∃ y, l[j]? = some y ∧ f y = f x := by
    intro j x hj
    obtain ⟨rfl, rfl⟩ | ⟨-, hj⟩ := get_set hi hj
    · exact ⟨a, hi, hf.symm⟩
    · exact ⟨x, hj, rfl⟩
  intro j j' x y k hj hj' hx hy
  obtain ⟨x', hx', hfx⟩ := hget j x hj
  obtain ⟨y', hy', hfy⟩ := hget j' y hj'
  exact h j j' x' y' k hx' hy' (hfx.trans hx) (hfy.trans hy)

theorem KeyOnce.set_new (h : KeyOnce l f) (hi : l[i]? = some a)
    (hnew : ∀ k, f b = some k → ∀ x ∈ l, f x ≠ some k) : KeyOnce (l.set i b) f := by
  intro j j' x y k hj hj' hx hy
  obtain ⟨rfl, rfl⟩ | ⟨-, hjx⟩ := get_set hi hj
  · obtain ⟨rfl, -⟩ | ⟨-, hjy⟩ := get_set hi hj'
    · rfl
    · exact absurd hy (hnew k hx y (mem_of_getElem? hjy))
  · obtain ⟨-, rfl⟩ | ⟨-, hjy⟩ := get_set hi hj'
    · exact absurd hx (hnew k hy x (mem_of_getElem? hjx))
    · exact h j j' x y k hjx hjy hx hy

end

end Yardsort.Lib
