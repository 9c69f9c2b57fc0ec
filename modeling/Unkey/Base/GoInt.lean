import Mathlib.Tactic.Common

/-!
# Fixed-width integers of Go

A signed integer of Go is an `Int` in its range, and an operation on it is the exact one followed by
a wrap into the range.
-/

namespace Unkey.Base

def int64 (x : Int) : Int :=
  (x + 9223372036854775808) % 18446744073709551616 - 9223372036854775808

def int32 (x : Int) : Int := (x + 2147483648) % 4294967296 - 2147483648

def IsInt64 (x : Int) : Prop := -9223372036854775808 ≤ x ∧ x < 9223372036854775808

instance (x : Int) : Decidable (IsInt64 x) := inferInstanceAs (Decidable (_ ∧ _))

theorem int64_of_isInt64 {x : Int} (h : IsInt64 x) : int64 x = x := by
  rw [IsInt64] at h
  rw [int64]
  omega

theorem int64_congr {x y : Int} (h : x % 18446744073709551616 = y % 18446744073709551616) :
    int64 x = int64 y := by
  rw [int64, int64]
  omega

theorem int64_emod (x : Int) : int64 x % 18446744073709551616 = x % 18446744073709551616 := by
  rw [int64]
  omega

theorem int64_int64_mul (x y : Int) : int64 (int64 x * y) = int64 (x * y) := by
  apply int64_congr
  rw [Int.mul_emod, int64_emod, ← Int.mul_emod]

theorem int64_neg_int64 (x : Int) : int64 (-int64 x) = int64 (-x) := by
  rw [int64, int64, int64]
  omega

def mul64 (x y : Nat) : Nat × Nat :=
  (x * y / 18446744073709551616, x * y % 18446744073709551616)

theorem mul64_le_iff (a b x y : Nat) :
    ((mul64 a b).1 < (mul64 x y).1 ∨
      (mul64 x y).1 = (mul64 a b).1 ∧ (mul64 a b).2 ≤ (mul64 x y).2) ↔ a * b ≤ x * y := by
  rw [mul64, mul64]
  dsimp only
  omega

end Unkey.Base
