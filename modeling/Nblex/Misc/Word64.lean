import Mathlib.Tactic.Ring

/-!
# Unsigned 64-bit arithmetic over `Nat`

C's `uint64_t` operations on natural numbers below `2 ^ 64`, with the wrap-around written
out, and the two's-complement reading that a cast to `int64_t` gives. Division is partial:
a zero divisor is undefined in C, and the models that use `u64Div` stop there.
-/

namespace Nblex

/-- `UINT64_MAX`. -/
def u64Max : Nat := 2 ^ 64 - 1

/-- Unsigned addition. -/
def u64Add (a b : Nat) : Nat := (a + b) % 2 ^ 64

/-- Unsigned subtraction: a borrow wraps around. -/
def u64Sub (a b : Nat) : Nat := if b ≤ a then a - b else a + 2 ^ 64 - b

/-- Unsigned multiplication. -/
def u64Mul (a b : Nat) : Nat := (a * b) % 2 ^ 64

/-- Unsigned division; `none` is the division by zero that C leaves undefined. -/
def u64Div (a b : Nat) : Option Nat := if b = 0 then none else some (a / b)

/-- The cast `(int64_t)n` of an unsigned 64-bit value. -/
def toInt64 (n : Nat) : Int := if n < 2 ^ 63 then n else (n : Int) - 2 ^ 64

/-- The cast `(int)n` of a `long`: the low 32 bits, read in two's complement. -/
def toInt32 (n : Int) : Int := (n + 2 ^ 31) % 2 ^ 32 - 2 ^ 31

theorem u64Add_of_lt {a b : Nat} (h : a + b < 2 ^ 64) : u64Add a b = a + b :=
  Nat.mod_eq_of_lt h

theorem u64Add_lt (a b : Nat) : u64Add a b < 2 ^ 64 := Nat.mod_lt _ (by decide)

theorem u64Mul_of_lt {a b : Nat} (h : a * b < 2 ^ 64) : u64Mul a b = a * b :=
  Nat.mod_eq_of_lt h

theorem u64Sub_of_le {a b : Nat} (h : b ≤ a) : u64Sub a b = a - b := if_pos h

theorem u64Sub_add_left (a b : Nat) : u64Sub (a + b) a = b := by
  rw [u64Sub_of_le (Nat.le_add_right a b), Nat.add_sub_cancel_left]

@[simp] theorem u64Div_zero (a : Nat) : u64Div a 0 = none := rfl

theorem u64Div_of_pos {a b : Nat} (h : 0 < b) : u64Div a b = some (a / b) :=
  if_neg (Nat.pos_iff_ne_zero.mp h)

theorem pos_of_u64Div {a b c : Nat} (h : u64Div a b = some c) : 0 < b := by
  apply Nat.pos_of_ne_zero
  intro zero
  rw [zero, u64Div_zero] at h
  cases h

theorem toInt64_of_lt {n : Nat} (h : n < 2 ^ 63) : toInt64 n = n := if_pos h

theorem toInt32_of_mem {n : Int} (hl : -2 ^ 31 ≤ n) (hu : n < 2 ^ 31) : toInt32 n = n := by
  unfold toInt32
  rw [Int.emod_eq_of_lt (by omega) (by omega)]
  omega

/-- `llabs((int64_t)a - (int64_t)b)`, the distance both correlation engines compare with
    their window. The subtraction is C's signed one; below `2 ^ 63` it cannot overflow. -/
def i64Distance (a b : Nat) : Nat := (toInt64 a - toInt64 b).natAbs

theorem i64Distance_of_lt {a b : Nat} (ha : a < 2 ^ 63) (hb : b < 2 ^ 63) :
    i64Distance a b = ((a : Int) - b).natAbs := by
  rw [i64Distance, toInt64_of_lt ha, toInt64_of_lt hb]

theorem i64Distance_comm (a b : Nat) : i64Distance a b = i64Distance b a := by
  unfold i64Distance
  omega

/-- `llabs((int64_t)a - (int64_t)b) <= (int64_t)window`, the window test of both correlation
    engines. -/
def withinWindow (windowNs a b : Nat) : Bool :=
  decide ((i64Distance a b : Int) ≤ toInt64 windowNs)

theorem withinWindow_comm (windowNs a b : Nat) :
    withinWindow windowNs a b = withinWindow windowNs b a := by
  rw [withinWindow, i64Distance_comm, withinWindow]

/-- Below `2 ^ 63` the window test is the distance of the timestamps. -/
theorem withinWindow_iff {windowNs a b : Nat} (window : windowNs < 2 ^ 63) (ha : a < 2 ^ 63)
    (hb : b < 2 ^ 63) :
    withinWindow windowNs a b = true ↔ ((a : Int) - b).natAbs ≤ windowNs := by
  rw [withinWindow, i64Distance_of_lt ha hb, toInt64_of_lt window, decide_eq_true_eq]
  omega

/-- A value is within a window of itself unless the window is negative as a signed number. -/
theorem withinWindow_self_iff {windowNs : Nat} (below : windowNs < 2 ^ 64) (a : Nat) :
    withinWindow windowNs a a = true ↔ windowNs < 2 ^ 63 := by
  rw [withinWindow, decide_eq_true_eq, i64Distance, Int.sub_self, toInt64]
  split
  · simpa using ‹_›
  · constructor
    · intro nonneg
      omega
    · intro small
      omega

/-- A value more than the window later is outside the window, as long as it is not so much later
    that the signed difference comes back from the other side. -/
theorem withinWindow_of_later {windowNs a b : Nat} (later : b + windowNs < a)
    (span : a + windowNs < b + 2 ^ 64) : withinWindow windowNs a b = false := by
  have window : toInt64 windowNs = windowNs := toInt64_of_lt (by omega)
  rw [withinWindow, window, i64Distance, decide_eq_false_iff_not]
  unfold toInt64
  split
  · split
    · omega
    · omega
  · split
    · omega
    · omega

end Nblex
