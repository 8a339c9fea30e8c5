import Mathlib.Algebra.Order.Floor.Semiring
import Mathlib.Data.Int.Log
import Mathlib.Data.Rat.Floor
import Themisy.Encoding.Json

/-!
# Arithmetic of doubles

The values of `float64` are rationals, infinities and NaN. Comparisons with NaN
are false. A quotient of two integers is rounded to 53 binary digits, to the
nearest value and to the even one of two nearest values; the quotients which
occur are neither so large nor so small that their exponent matters.
-/

namespace Themisy.Float64

def le : Float64 → Float64 → Bool
  | finite left, finite right => left ≤ right
  | finite _, infinity negative => !negative
  | infinity negative, finite _ => negative
  | infinity left, infinity right => left || !right
  | _, _ => false

def lt : Float64 → Float64 → Bool
  | finite left, finite right => left < right
  | finite _, infinity negative => !negative
  | infinity negative, finite _ => negative
  | infinity left, infinity right => left && !right
  | _, _ => false

def isNaN : Float64 → Bool
  | nan => true
  | _ => false

def isInf : Float64 → Bool
  | infinity _ => true
  | _ => false

theorem exists_finite {value : Float64} (number : value.isNaN = false)
    (bounded : value.isInf = false) : ∃ rational, value = finite rational := by
  cases value with
  | finite rational => exact ⟨rational, rfl⟩
  | infinity => cases bounded
  | nan => cases number

/-- The nearest integer, and the even one of two nearest ones. -/
def roundEven (value : ℚ) : ℤ :=
  let rest := value - ⌊value⌋
  if rest < 1 / 2 then ⌊value⌋
  else if 1 / 2 < rest then ⌊value⌋ + 1
  else if ⌊value⌋ % 2 = 0 then ⌊value⌋
  else ⌊value⌋ + 1

/-- The nearest value with 53 binary digits. -/
def nearest (value : ℚ) : ℚ :=
  if value = 0 then 0
  else
    let unit : ℚ := 2 ^ (Int.log 2 |value| - 52)
    roundEven (value / unit) * unit

/-- `float64(dividend) / float64(divisor)` for a positive divisor. -/
def quotient (dividend divisor : ℤ) : Float64 :=
  finite (nearest (nearest dividend / nearest divisor))

end Themisy.Float64
