import Mathlib.Data.List.Basic

/- Computations that may fail (`Except`): what a sequence of them did when it succeeded, and
   sequences that agree. -/
namespace Yardsort.Lib.Fallible

section
variable {ε α β : Type}

theorem bind_ok {x : Except ε α} {f : α → Except ε β} {b : β} :
    x >>= f = .ok b ↔ ∃ a, x = .ok a ∧ f a = .ok b := by
  cases x with
  | error e => exact ⟨nofun, fun ⟨_, h, _⟩ => nomatch h⟩
  | ok a =>
    constructor
    · intro h
      exact ⟨a, rfl, h⟩
    · rintro ⟨a', h, hf⟩
      cases h
      exact hf

end

end Yardsort.Lib.Fallible
