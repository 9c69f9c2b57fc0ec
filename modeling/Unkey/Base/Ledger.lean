import Mathlib.Algebra.BigOperators.Group.Finset.Basic
import Mathlib.Algebra.BigOperators.Intervals
import Mathlib.Algebra.Order.BigOperators.Group.Finset
import Mathlib.Tactic.Linarith
import Mathlib.Tactic.Ring

/-!
# Ledgers over threads

What the threads of a pool contribute to a shared quantity, added up.
-/

namespace Unkey.Base

variable {G : Type*} {f : G → Int} {gs : Nat → G} {t : Int}

theorem sum_update (f : G → Int) (gs : Nat → G) (i : Nat) (g : G) (S : Finset Nat) :
    ∑ j ∈ S, f (Function.update gs i g j)
      = ∑ j ∈ S, f (gs j) + if i ∈ S then f g - f (gs i) else 0 := by
  have hrest : ∀ T : Finset Nat, i ∉ T →
      ∑ j ∈ T, f (Function.update gs i g j) = ∑ j ∈ T, f (gs j) := by
    intro T hT
    apply Finset.sum_congr rfl
    intro j hj
    rw [Function.update_of_ne (ne_of_mem_of_not_mem hj hT)]
  by_cases hi : i ∈ S
  · have hnew := Finset.add_sum_erase S (fun j => f (Function.update gs i g j)) hi
    have hold := Finset.add_sum_erase S (fun j => f (gs j)) hi
    have hsame := hrest (S.erase i) (Finset.notMem_erase i S)
    simp only [Function.update_self] at hnew
    rw [if_pos hi]
    linarith
  · rw [if_neg hi, add_zero, hrest S hi]

def Total (f : G → Int) (gs : Nat → G) (t : Int) : Prop :=
  ∃ n, (∀ j, n ≤ j → f (gs j) = 0) ∧ ∑ j ∈ Finset.range n, f (gs j) = t

namespace Total

theorem of_zero (h : ∀ j, f (gs j) = 0) : Total f gs 0 :=
  ⟨0, fun j _ => h j, Finset.sum_range_zero _⟩

theorem eq_zero (ht : Total f gs t) (h : ∀ j, f (gs j) = 0) : t = 0 := by
  obtain ⟨n, -, rfl⟩ := ht
  exact Finset.sum_eq_zero fun j _ => h j

theorem congr {gs' : Nat → G} (ht : Total f gs t) (h : ∀ j, f (gs' j) = f (gs j)) :
    Total f gs' t := by
  obtain ⟨n, h0, rfl⟩ := ht
  exact ⟨n, (fun j hj => (h j).trans (h0 j hj)), Finset.sum_congr rfl fun j _ => h j⟩

theorem of_le {n m : Nat} (h0 : ∀ j, n ≤ j → f (gs j) = 0)
    (hs : ∑ j ∈ Finset.range n, f (gs j) = t) (hnm : n ≤ m) :
    ∑ j ∈ Finset.range m, f (gs j) = t := by
  rw [← hs]
  symm
  apply Finset.sum_subset (Finset.range_mono hnm)
  intro j _ hj
  exact h0 j (by simpa using hj)

theorem update (ht : Total f gs t) (i : Nat) (g : G) :
    Total f (Function.update gs i g) (t - f (gs i) + f g) := by
  obtain ⟨n, h0, hs⟩ := ht
  have hsum := of_le h0 hs (Nat.le_max_left n (i + 1))
  refine ⟨max n (i + 1), ?_, ?_⟩
  · intro j hj
    rw [Function.update_of_ne (by omega)]
    exact h0 j (by omega)
  · rw [sum_update, if_pos (by simp), hsum]
    ring

theorem update_of_eq (ht : Total f gs t) {i : Nat} {g : G} {t' : Int}
    (h : t' = t - f (gs i) + f g) : Total f (Function.update gs i g) t' := by
  rw [h]
  exact ht.update i g

theorem sum_le (ht : Total f gs t) (hf : ∀ j, 0 ≤ f (gs j)) (S : Finset Nat) :
    ∑ j ∈ S, f (gs j) ≤ t := by
  obtain ⟨n, h0, rfl⟩ := ht
  calc ∑ j ∈ S, f (gs j)
      ≤ ∑ j ∈ S ∪ Finset.range n, f (gs j) :=
        Finset.sum_le_sum_of_subset_of_nonneg Finset.subset_union_left fun j _ _ => hf j
    _ = ∑ j ∈ Finset.range n, f (gs j) := by grind [Finset.sum_subset, Finset.subset_union_right]

theorem le (ht : Total f gs t) (hf : ∀ j, 0 ≤ f (gs j)) (i : Nat) : f (gs i) ≤ t := by
  have := ht.sum_le hf {i}
  rwa [Finset.sum_singleton] at this

theorem mono {f' : G → Int} {t' : Int} (ht : Total f gs t) (ht' : Total f' gs t')
    (h : ∀ j, f (gs j) ≤ f' (gs j)) : t ≤ t' := by
  obtain ⟨n, h0, hs⟩ := ht
  obtain ⟨m, h0', hs'⟩ := ht'
  rw [← of_le h0 hs (Nat.le_max_left n m), ← of_le h0' hs' (Nat.le_max_right n m)]
  exact Finset.sum_le_sum fun j _ => h j

theorem nonneg (ht : Total f gs t) (hf : ∀ j, 0 ≤ f (gs j)) : 0 ≤ t :=
  (hf 0).trans (ht.le hf 0)

theorem eq_sum {α : Type*} (ht : Total f gs t) {xs : List α} {g : α → Int}
    (h : ∀ j, f (gs j) = (xs[j]?).elim 0 g) : t = (xs.map g).sum := by
  have hrange : ∀ (xs : List α) (m : Nat), xs.length ≤ m →
      ∑ j ∈ Finset.range m, (xs[j]?).elim 0 g = (xs.map g).sum := by
    intro xs
    induction xs with
    | nil => intro m _; simp
    | cons x xs ih =>
      intro m hm
      cases m with
      | zero => simp at hm
      | succ m =>
        rw [Finset.sum_range_succ', List.map_cons, List.sum_cons]
        simp only [List.getElem?_cons_succ, List.getElem?_cons_zero, Option.elim_some]
        rw [ih m (by simpa using hm), add_comm]
  obtain ⟨n, h0, hs⟩ := ht
  rw [← of_le h0 hs (Nat.le_max_left n xs.length), Finset.sum_congr rfl fun j _ => h j]
  exact hrange xs _ (Nat.le_max_right n xs.length)

end Total

end Unkey.Base
