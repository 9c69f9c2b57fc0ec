import Mathlib.Data.List.Induction
import Unkey.Base.Prog

/-!
# Programs run alone

A program that no other thread interrupts, against a state that answers its operations.
-/

namespace Unkey.Base

variable {Op : Type} {Ret : Op → Type} {Note σ α β γ : Type}
  {A : (op : Op) → σ → Option (Ret op × σ)}

namespace Prog

def eval (A : (op : Op) → σ → Option (Ret op × σ)) :
    Prog Op Ret Note α → σ → Option (α × σ)
  | .done a, s => some (a, s)
  | .note _ rest, s => eval A rest s
  | .act op k, s => (A op s).bind fun x => eval A (k x.1) x.2

theorem eval_bind (p : Prog Op Ret Note α) (f : α → Prog Op Ret Note β) (s : σ) :
    eval A (p >>= f) s = (eval A p s).bind fun x => eval A (f x.1) x.2 := by
  induction p generalizing s with
  | done a => rfl
  | note n rest ih => exact ih s
  | act op k ih =>
    show (A op s).bind (fun x => eval A (k x.1 >>= f) x.2) = _
    simp only [ih]
    exact (Option.bind_assoc ..).symm

def Returns (A : (op : Op) → σ → Option (Ret op × σ)) (p : Prog Op Ret Note α) (s : σ) (a : α)
    (s' : σ) : Prop :=
  eval A p s = some (a, s')

theorem Returns.bind {p : Prog Op Ret Note α} {f : α → Prog Op Ret Note β} {s s' s'' : σ} {a : α}
    {b : β} (hp : p.Returns A s a s') (hf : (f a).Returns A s' b s'') :
    (p >>= f).Returns A s b s'' := by
  unfold Returns
  rw [eval_bind, hp]
  exact hf

theorem Returns.perform {o : Op} {f : Ret o → Prog Op Ret Note β} {s s' s'' : σ} {r : Ret o} {b : β}
    (ho : A o s = some (r, s')) (hf : (f r).Returns A s' b s'') :
    (Prog.perform o >>= f).Returns A s b s'' := by
  show (A o s).bind _ = _
  rw [ho]
  exact hf

theorem Returns.pure (a : α) (s : σ) :
    (Pure.pure a : Prog Op Ret Note α).Returns A s a s := rfl

theorem Returns.unique {p : Prog Op Ret Note α} {s s' s'' : σ} {a b : α} (h : p.Returns A s a s')
    (h' : p.Returns A s b s'') : a = b ∧ s' = s'' :=
  Prod.mk.inj (Option.some.inj (h.symm.trans h'))

theorem Returns.forM {f : γ → Prog Op Ret Note PUnit} {I : List γ → σ → Prop} (xs : List γ)
    (hstep : ∀ pre x post s, xs = pre ++ x :: post → I pre s →
      ∃ s', (f x).Returns A s ⟨⟩ s' ∧ I (pre ++ [x]) s') {s : σ} (h0 : I [] s) :
    ∃ s', (xs.forM f).Returns A s ⟨⟩ s' ∧ I xs s' := by
  suffices hrest : ∀ post pre s, xs = pre ++ post → I pre s →
      ∃ s', (post.forM f).Returns A s ⟨⟩ s' ∧ I xs s' from hrest xs [] s rfl h0
  intro post
  induction post with
  | nil =>
    intro pre s hxs hI
    rw [List.append_nil] at hxs
    exact ⟨s, rfl, by rw [hxs]; exact hI⟩
  | cons x post ih =>
    intro pre s hxs hI
    obtain ⟨s', hx, hI'⟩ := hstep pre x post s hxs hI
    obtain ⟨s'', hrest, hI''⟩ := ih (pre ++ [x]) s' (by simp [hxs]) hI'
    exact ⟨s'', hx.bind hrest, hI''⟩

theorem Returns.mapM {f : γ → Prog Op Ret Note β} {I : List γ → List β → σ → Prop} (xs : List γ)
    (hstep : ∀ pre x post bs s, xs = pre ++ x :: post → I pre bs s →
      ∃ b s', (f x).Returns A s b s' ∧ I (pre ++ [x]) (bs ++ [b]) s') {s : σ}
    (h0 : I [] [] s) : ∃ bs s', (xs.mapM' f).Returns A s bs s' ∧ I xs bs s' := by
  suffices hrest : ∀ post pre bs s, xs = pre ++ post → I pre bs s →
      ∃ cs s', (post.mapM' f).Returns A s cs s' ∧ I xs (bs ++ cs) s' from
    hrest xs [] [] s rfl h0
  intro post
  induction post with
  | nil =>
    intro pre bs s hxs hI
    rw [List.append_nil] at hxs
    exact ⟨[], s, rfl, by rw [hxs, List.append_nil]; exact hI⟩
  | cons x post ih =>
    intro pre bs s hxs hI
    obtain ⟨b, s', hx, hI'⟩ := hstep pre x post bs s hxs hI
    obtain ⟨cs, s'', hrest, hI''⟩ := ih (pre ++ [x]) (bs ++ [b]) s' (by simp [hxs]) hI'
    refine ⟨b :: cs, s'', hx.bind (hrest.bind (Returns.pure _ _)), ?_⟩
    rwa [List.append_assoc] at hI''

end Prog

/-! ### Results that depend on what came before -/

def withPast (f : List α → α → β) (past : List α) : List α → List β
  | [] => []
  | x :: xs => f past x :: withPast f (past ++ [x]) xs

theorem withPast_concat (f : List α → α → β) (past xs : List α) (x : α) :
    withPast f past (xs ++ [x]) = withPast f past xs ++ [f (past ++ xs) x] := by
  induction xs generalizing past with
  | nil => simp [withPast]
  | cons y ys ih => simp [withPast, ih]

theorem map_withPast (f : List α → α → β) (g : β → γ) (past xs : List α) :
    (withPast f past xs).map g = withPast (fun before x => g (f before x)) past xs := by
  induction xs generalizing past with
  | nil => rfl
  | cons x xs ih => simp [withPast, ih]

theorem withPast_const (g : α → β) (past xs : List α) :
    withPast (fun _ x => g x) past xs = xs.map g := by
  induction xs generalizing past with
  | nil => rfl
  | cons x xs ih => rw [withPast, ih, List.map_cons]

theorem withPast_map (f : List β → β → γ) (g : α → β) (past xs : List α) :
    withPast f (past.map g) (xs.map g) = withPast (fun before x => f (before.map g) (g x)) past xs := by
  induction xs generalizing past with
  | nil => rfl
  | cons x xs ih =>
    have := ih (past ++ [x])
    simp only [List.map_append, List.map_cons, List.map_nil] at this
    simp only [List.map_cons, withPast, this]

theorem mem_withPast {f : List α → α → β} {xs : List α} {b : β} :
    b ∈ withPast f [] xs ↔ ∃ pre x post, xs = pre ++ x :: post ∧ b = f pre x := by
  induction xs using List.reverseRecOn with
  | nil => simp [withPast]
  | append_singleton xs x ih =>
    rw [withPast_concat, List.mem_append, ih, List.mem_singleton, List.nil_append]
    constructor
    · grind
    · rintro ⟨pre, y, post, hxs, rfl⟩
      rcases List.eq_nil_or_concat post with rfl | ⟨post, z, rfl⟩
      · simp_all
      · left
        refine ⟨pre, y, post, ?_, rfl⟩
        rw [List.concat_eq_append, ← List.cons_append, ← List.append_assoc] at hxs
        exact (List.append_inj' hxs rfl).1

theorem withPast_congr {f g : List α → α → β} {past xs : List α}
    (h : ∀ pre x post, xs = pre ++ x :: post → f (past ++ pre) x = g (past ++ pre) x) :
    withPast f past xs = withPast g past xs := by
  induction xs generalizing past with
  | nil => rfl
  | cons x xs ih =>
    have hx := h [] x xs rfl
    rw [List.append_nil] at hx
    have hxs : withPast f (past ++ [x]) xs = withPast g (past ++ [x]) xs := by grind
    rw [withPast, withPast, hx, hxs]

end Unkey.Base
