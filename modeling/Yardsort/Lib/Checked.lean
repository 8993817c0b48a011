import Mathlib.Data.List.Basic

/- Checks that report everything they find: a value and the problems met while
   making it. A check is clean when it reports none, and a check made of others
   is clean exactly when all of them are. -/
namespace Yardsort.Lib

structure Checked (π α : Type) where
  value : α
  problems : List π

namespace Checked
variable {π α β : Type}

instance : Monad (Checked π) where
  pure a := { value := a, problems := [] }
  bind x f := { value := (f x.value).value, problems := x.problems ++ (f x.value).problems }

def Clean (x : Checked π α) : Prop := x.problems = []

def report (p : π) : Checked π Unit := { value := (), problems := [p] }

def reportIf (c : Prop) [Decidable c] (p : π) : Checked π Unit := if c then report p else pure ()

def each (f : α → Checked π β) : List α → Checked π (List β)
  | [] => pure []
  | a :: as => do
    let b ← f a
    let bs ← each f as
    pure (b :: bs)

@[simp] theorem value_pure (a : α) : (pure a : Checked π α).value = a := rfl

@[simp] theorem value_bind (x : Checked π α) (f : α → Checked π β) :
    (x >>= f).value = (f x.value).value := rfl

@[simp] theorem clean_pure (a : α) : (pure a : Checked π α).Clean := rfl

@[simp] theorem clean_bind {x : Checked π α} {f : α → Checked π β} :
    (x >>= f).Clean ↔ x.Clean ∧ (f x.value).Clean := List.append_eq_nil_iff

@[simp] theorem not_clean_report (p : π) : ¬ (report p).Clean := List.cons_ne_nil _ _

@[simp] theorem clean_reportIf {c : Prop} [Decidable c] {p : π} : (reportIf c p).Clean ↔ ¬ c := by
  rw [reportIf]
  split
  · rename_i hc
    exact ⟨fun h => absurd h (not_clean_report p), fun h => absurd hc h⟩
  · rename_i hc
    exact ⟨fun _ => hc, fun _ => rfl⟩

theorem clean_each {f : α → Checked π β} {as : List α} :
    (each f as).Clean ↔ ∀ a ∈ as, (f a).Clean := by
  induction as with
  | nil => simp [each]
  | cons a as ih => simp [each, ih]

theorem value_each (f : α → Checked π β) (as : List α) :
    (each f as).value = as.map (fun a => (f a).value) := by
  induction as with
  | nil => rfl
  | cons a as ih => simp [each, ih]

end Checked

end Yardsort.Lib
