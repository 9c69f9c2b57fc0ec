import Mathlib.Data.List.Basic
import Mathlib.Order.Monotone.Basic

/-!
# Slices of a slice

A slice that is cut at increasing places falls into parts that make it up again.
-/

namespace Unkey.Base

variable {α : Type}

def slice (l : List α) (start stop : Nat) : List α := (l.take stop).drop start

theorem flatten_slices (l : List α) (cut : Nat → Nat) (hmono : Monotone cut) (h0 : cut 0 = 0)
    (k : Nat) :
    ((List.range k).map fun i => slice l (cut i) (cut (i + 1))).flatten = l.take (cut k) := by
  induction k with
  | zero => simp [h0]
  | succ k ih =>
    have htake : l.take (cut k) = (l.take (cut (k + 1))).take (cut k) := by
      rw [List.take_take, Nat.min_eq_left (hmono (Nat.le_succ k))]
    rw [List.range_succ, List.map_append, List.flatten_append, ih, List.map_singleton,
      List.flatten_singleton, slice, htake, List.take_append_drop]

end Unkey.Base
