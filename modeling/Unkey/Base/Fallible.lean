import Mathlib.Data.List.Basic

/-!
# Computations that may fail

Inversion of a successful run: each part of a sequence has succeeded.
-/

namespace Unkey.Base

variable {ε α β : Type}

theorem ok_bind (x : α) (f : α → Except ε β) : (Except.ok x >>= f) = f x := rfl

theorem bind_eq_ok {a : Except ε α} {f : α → Except ε β} {y : β} (h : (a >>= f) = .ok y) :
    ∃ x, a = .ok x ∧ f x = .ok y := by
  cases a with
  | error e => cases h
  | ok x => exact ⟨x, rfl, h⟩

theorem then_eq_ok (a b : Except ε Unit) :
    (do a; b) = .ok () ↔ a = .ok () ∧ b = .ok () := by
  cases a with
  | error e => simp [bind, Except.bind]
  | ok x => simp [bind, Except.bind]

theorem forM_eq_ok {xs : List α} {check : α → Except ε Unit} (h : xs.forM check = .ok ()) :
    ∀ x ∈ xs, check x = .ok () := by
  induction xs with
  | nil => intro x hx; cases hx
  | cons x xs ih =>
    obtain ⟨_, hx, hxs⟩ := bind_eq_ok h
    exact List.forall_mem_cons.mpr ⟨hx, ih hxs⟩

theorem map_eq_of_mapM {γ : Type} {xs : List α} {f : α → Except ε β} {ys : List β} {g : α → γ}
    {k : β → γ} (h : xs.mapM f = .ok ys) (hkept : ∀ x y, f x = .ok y → g x = k y) :
    xs.map g = ys.map k := by
  induction xs generalizing ys with
  | nil =>
    cases h
    rfl
  | cons x xs ih =>
    rw [List.mapM_cons] at h
    obtain ⟨y, hy, h⟩ := bind_eq_ok h
    obtain ⟨rest, hrest, h⟩ := bind_eq_ok h
    cases h
    rw [List.map_cons, List.map_cons, hkept x y hy, ih hrest]

end Unkey.Base
