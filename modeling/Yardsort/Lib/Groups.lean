import Mathlib.Data.List.Induction

/- What is summed up by key as it comes: the first of a key makes its row, and each later one is
   added to it. A row says of the elements with its key whatever holds of the first one alone and is
   kept by adding another. -/
namespace Yardsort.Lib.Groups

section
variable {α κ ρ : Type} [DecidableEq κ] (key : α → κ) (new : α → ρ) (add : ρ → α → ρ)

def put : List (κ × ρ) → α → List (κ × ρ)
  | [], a => [(key a, new a)]
  | (k, r) :: rows, a => if k = key a then (k, add r a) :: rows else (k, r) :: put rows a

def groups (as : List α) : List (κ × ρ) := as.foldl (put key new add) []

variable {key new add}

theorem groups_snoc (as : List α) (a : α) :
    groups key new add (as ++ [a]) = put key new add (groups key new add as) a := by
  rw [groups, List.foldl_append]
  rfl

theorem keys_put (rows : List (κ × ρ)) (a : α) (k : κ) :
    k ∈ (put key new add rows a).map (·.1) ↔ k = key a ∨ k ∈ rows.map (·.1) := by
  induction rows with
  | nil => simp [put]
  | cons row rows ih =>
    rw [put]
    split
    · rename_i heq
      simp [heq]
    · rw [List.map_cons, List.mem_cons, ih, List.map_cons, List.mem_cons]
      exact or_left_comm

theorem nodup_put {rows : List (κ × ρ)} (h : (rows.map (·.1)).Nodup) (a : α) :
    ((put key new add rows a).map (·.1)).Nodup := by
  induction rows with
  | nil => simp [put]
  | cons row rows ih =>
    rw [List.map_cons, List.nodup_cons] at h
    rw [put]
    split
    · rw [List.map_cons, List.nodup_cons]
      exact h
    · rename_i hne
      rw [List.map_cons, List.nodup_cons, keys_put]
      refine ⟨?_, ih h.2⟩
      rintro (heq | hin)
      · exact hne heq
      · exact h.1 hin

theorem mem_put {rows : List (κ × ρ)} (h : (rows.map (·.1)).Nodup) {a : α} {k : κ} {r : ρ}
    (hin : (k, r) ∈ put key new add rows a) :
    (k ≠ key a ∧ (k, r) ∈ rows) ∨ (k = key a ∧ ∃ r', (k, r') ∈ rows ∧ r = add r' a) ∨
      (k = key a ∧ k ∉ rows.map (·.1) ∧ r = new a) := by
  induction rows with
  | nil =>
    cases List.mem_singleton.mp hin
    exact .inr (.inr ⟨rfl, List.not_mem_nil, rfl⟩)
  | cons row rows ih =>
    obtain ⟨k', r'⟩ := row
    rw [List.map_cons, List.nodup_cons] at h
    rw [put] at hin
    split at hin
    · rename_i heq
      obtain hin | hin := List.mem_cons.mp hin
      · cases hin
        exact .inr (.inl ⟨heq, r', List.mem_cons_self .., rfl⟩)
      · refine .inl ⟨?_, List.mem_cons_of_mem _ hin⟩
        intro hk
        exact h.1 (List.mem_map.mpr ⟨(k, r), hin, hk.trans heq.symm⟩)
    · rename_i hne
      obtain hin | hin := List.mem_cons.mp hin
      · cases hin
        exact .inl ⟨hne, List.mem_cons_self ..⟩
      · obtain ⟨hk, hrow⟩ | ⟨hk, r₀, hrow, rfl⟩ | ⟨hk, hnone, rfl⟩ := ih h.2 hin
        · exact .inl ⟨hk, List.mem_cons_of_mem _ hrow⟩
        · exact .inr (.inl ⟨hk, r₀, List.mem_cons_of_mem _ hrow, rfl⟩)
        · refine .inr (.inr ⟨hk, ?_, rfl⟩)
          rw [List.map_cons, List.mem_cons]
          rintro (rfl | hrow)
          · exact hne hk
          · exact hnone hrow

theorem put_of_mem {before after : List (κ × ρ)} {a : α} {r : ρ}
    (h : key a ∉ before.map (·.1)) :
    put key new add (before ++ (key a, r) :: after) a = before ++ (key a, add r a) :: after := by
  induction before with
  | nil => simp [put]
  | cons row before ih =>
    simp only [List.map_cons, List.mem_cons, not_or] at h
    simp [put, Ne.symm h.1, ih h.2]

theorem put_of_notMem {rows : List (κ × ρ)} {a : α} (h : key a ∉ rows.map (·.1)) :
    put key new add rows a = rows ++ [(key a, new a)] := by
  induction rows with
  | nil => rfl
  | cons row rows ih =>
    simp only [List.map_cons, List.mem_cons, not_or] at h
    simp [put, Ne.symm h.1, ih h.2]

theorem keys_groups (as : List α) (k : κ) :
    k ∈ (groups key new add as).map (·.1) ↔ ∃ a ∈ as, key a = k := by
  induction as using List.reverseRecOn with
  | nil => simp [groups]
  | append_singleton as a ih =>
    rw [groups_snoc, keys_put, ih]
    constructor
    · rintro (rfl | ⟨b, hb, rfl⟩)
      · exact ⟨a, List.mem_append_right _ (List.mem_singleton_self a), rfl⟩
      · exact ⟨b, List.mem_append_left _ hb, rfl⟩
    · rintro ⟨b, hb, rfl⟩
      obtain hb | hb := List.mem_append.mp hb
      · exact .inr ⟨b, hb, rfl⟩
      · exact .inl (congrArg key (List.mem_singleton.mp hb))

theorem nodup_groups (as : List α) : ((groups key new add as).map (·.1)).Nodup := by
  induction as using List.reverseRecOn with
  | nil => exact List.nodup_nil
  | append_singleton as a ih =>
    rw [groups_snoc]
    exact nodup_put ih a

theorem groups_rule {P : List α → ρ → Prop} (hnew : ∀ a, P [a] (new a))
    (hadd : ∀ as r a, P as r → P (as ++ [a]) (add r a)) {as : List α} {k : κ} {r : ρ}
    (h : (k, r) ∈ groups key new add as) : P (as.filter fun a => key a = k) r := by
  induction as using List.reverseRecOn generalizing r with
  | nil => cases h
  | append_singleton as a ih =>
    rw [groups_snoc] at h
    rw [List.filter_append]
    obtain ⟨hk, hrow⟩ | ⟨rfl, r', hrow, rfl⟩ | ⟨rfl, hnone, rfl⟩ := mem_put (nodup_groups as) h
    · have hne : key a ≠ k := Ne.symm hk
      simpa [hne] using ih hrow
    · simpa using hadd _ r' a (ih hrow)
    -- No element before had the key.
    · have hempty : (as.filter fun b => key b = key a) = [] := by
        apply List.filter_eq_nil_iff.mpr
        intro b hb heq
        exact hnone ((keys_groups as _).mpr ⟨b, hb, of_decide_eq_true heq⟩)
      simpa [hempty] using hnew a

end

end Yardsort.Lib.Groups
