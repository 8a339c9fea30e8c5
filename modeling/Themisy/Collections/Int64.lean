import Mathlib.Algebra.Ring.Int.Defs
import Mathlib.Algebra.Ring.Nat
import Mathlib.Data.Int.Init

/-!
# Integers of 64 bits

A machine integer is an integer between `-2 ^ 63` and `2 ^ 63`. The result of an operation
is the remainder modulo `2 ^ 64` which lies there, and so it is exact wherever the integer
does.
-/

namespace Themisy

variable {number : ℤ}

/-- The numbers which a machine integer can be. -/
def InRange (number : ℤ) : Prop :=
  -2 ^ 63 ≤ number ∧ number < 2 ^ 63

instance (number : ℤ) : Decidable (InRange number) :=
  inferInstanceAs (Decidable (_ ∧ _))

theorem inRange_bmod (number : ℤ) : InRange (Int.bmod number (2 ^ 64)) := by
  simp only [InRange, Int.bmod_def]
  omega

theorem bmod_eq_of_inRange (inRange : InRange number) : Int.bmod number (2 ^ 64) = number := by
  simp only [InRange, Int.bmod_def] at *
  omega

end Themisy
