import Mathlib.Data.Nat.Log
import Mathlib.Data.Rat.Defs
import Mathlib.Tactic.Ring

/-!
# Doubles

The values of the type, whose finite ones are exact rationals here, and the conversion of a 64-bit
integer: a significand of 53 bits, rounded to nearest with ties to even. The doubles that come out
of the conversion are integers.
-/

namespace Nblex

/-- A `double`. The infinities and the values that are no number have a sign. -/
inductive Double where
  | finite (value : ℚ)
  | infinity (negative : Bool)
  | nan (negative : Bool)
  deriving DecidableEq

namespace Double

instance (n : Nat) : OfNat Double n := ⟨.finite n⟩

instance : NatCast Double := ⟨fun n => .finite n⟩

/-- The value of a finite double; what has no defined conversion to an integer counts as zero. -/
def value : Double → ℚ
  | finite value => value
  | infinity _ | nan _ => 0

end Double

/-- The quotient rounded to nearest, ties to even. -/
def roundDiv (n unit : Nat) : Nat :=
  if 2 * (n % unit) < unit then n / unit
  else if unit < 2 * (n % unit) then n / unit + 1
  else if n / unit % 2 = 0 then n / unit
  else n / unit + 1

/-- `(double)n`. -/
def doubleOfInt (n : Int) : Int :=
  let unit := 2 ^ (Nat.log2 n.natAbs - 52)
  n.sign * (roundDiv n.natAbs unit * unit : Nat)

theorem roundDiv_one (n : Nat) : roundDiv n 1 = n := by
  simp [roundDiv, Nat.mod_one]

/-- Integers of up to 53 bits are doubles. -/
theorem doubleOfInt_of_lt {n : Int} (small : n.natAbs < 2 ^ 53) : doubleOfInt n = n := by
  have unit : 2 ^ (Nat.log2 n.natAbs - 52) = 1 := by
    by_cases zero : n.natAbs = 0
    · simp [zero]
    · have bits := (Nat.log2_lt zero).mpr small
      rw [Nat.sub_eq_zero_of_le (by omega), pow_zero]
  rw [doubleOfInt]
  simp only [unit, roundDiv_one, Nat.mul_one]
  exact Int.sign_mul_natAbs n

end Nblex
