/-
Signed integers of a fixed width whose overflow is undefined: an operation has
a value only if its mathematical result fits.
-/
import Mathlib.Algebra.Group.Int.Defs

namespace SignedArithmetic

variable {width : Nat} {value result left right addend : Int}

/-- The value has a two's complement representation of `width` bits. -/
def Fits (width : Nat) (value : Int) : Prop :=
  -2 ^ (width - 1) ≤ value ∧ value < 2 ^ (width - 1)

instance (width : Nat) (value : Int) : Decidable (Fits width value) :=
  inferInstanceAs (Decidable (_ ∧ _))

def checked (width : Nat) (value : Int) : Option Int :=
  if Fits width value then some value else none

def mul (width : Nat) (left right : Int) : Option Int :=
  checked width (left * right)

def add (width : Nat) (left right : Int) : Option Int :=
  checked width (left + right)

theorem checked_of_fits (hfits : Fits width value) : checked width value = some value :=
  if_pos hfits

theorem checked_eq_none : checked width value = none ↔ ¬ Fits width value := by
  unfold checked
  split <;> simp_all

/-- Both the product and the sum have to fit. -/
theorem mul_bind_add_eq_some (hproduct : Fits width (left * right))
    (hsum : Fits width (left * right + addend)) :
    ((mul width left right).bind fun product => add width product addend) =
      some (left * right + addend) := by
  rw [mul, checked_of_fits hproduct, Option.bind_some, add, checked_of_fits hsum]

theorem mul_bind_add_eq_none
    (hnot : ¬ (Fits width (left * right) ∧ Fits width (left * right + addend))) :
    ((mul width left right).bind fun product => add width product addend) = none := by
  by_cases hproduct : Fits width (left * right)
  · rw [mul, checked_of_fits hproduct, Option.bind_some, add, checked_eq_none]
    exact fun hsum => hnot ⟨hproduct, hsum⟩
  · rw [mul, checked_eq_none.mpr hproduct, Option.bind_none]

end SignedArithmetic
