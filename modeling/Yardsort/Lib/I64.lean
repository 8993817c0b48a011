import Mathlib.Data.Option.Basic

/- Signed 64-bit arithmetic, stopped where it would overflow. A computation is done in
   `Option`: `none` is where a checked build panics and an unchecked one wraps round. -/
namespace Yardsort.Lib.I64

def MIN : Int := -9223372036854775808
def MAX : Int := 9223372036854775807

def Fits (x : Int) : Prop := MIN ≤ x ∧ x ≤ MAX

instance : DecidablePred Fits := fun x => inferInstanceAs (Decidable (MIN ≤ x ∧ x ≤ MAX))

theorem fits_iff {x : Int} :
    Fits x ↔ -9223372036854775808 ≤ x ∧ x ≤ 9223372036854775807 := Iff.rfl

def checked (x : Int) : Option Int := if Fits x then some x else none

def add (a b : Int) : Option Int := checked (a + b)
def sub (a b : Int) : Option Int := checked (a - b)
def mul (a b : Int) : Option Int := checked (a * b)
def div (a b : Int) : Option Int := checked (a.tdiv b)
def divEuclid (a b : Int) : Option Int := checked (a / b)

theorem checked_of_fits {x : Int} (h : Fits x) : checked x = some x := if_pos h

@[simp] theorem checked_bind {α : Type} {x : Int} {f : Int → Option α} {a : α} :
    (checked x).bind f = some a ↔ Fits x ∧ f x = some a := by
  unfold checked
  split
  · rename_i h
    simp [h]
  · rename_i h
    simp [h]

theorem checked_eq_some {x y : Int} : checked x = some y ↔ Fits x ∧ x = y := by
  unfold checked
  split
  · rename_i h
    simp [h]
  · rename_i h
    simp [h]

end Yardsort.Lib.I64
