import Unkey.Base.Prog
import Mathlib.Logic.Function.Basic

/-!
# Invariants of interleaved programs

Every thread carries a ghost value, its contribution to an invariant of the shared state, the notes
and the ghosts of all threads.
-/

namespace Unkey.Base

variable {Op : Type} {Ret : Op → Type} {Note σ Call Choice G α β : Type}

theorem forall_update {ι : Type} [DecidableEq ι] (gs : ι → G) (p : ι → G → Prop) {i : ι} {g : G}
    (hall : ∀ j, p j (gs j)) (hnew : p i g) : ∀ j, p j (Function.update gs i g j) :=
  (Function.forall_update_iff gs p).mpr ⟨hnew, fun j _ => hall j⟩

abbrev Assertion (σ Call Note G : Type) := σ → List (Call × Note) → (Nat → G) → Prop

structure Protocol (σ Call Op : Type) (Ret : Op → Type) (Note Choice G : Type) where
  Inv : Assertion σ Call Note G
  At : Call → G → Op → Prop
  Guard : World σ Call Op Ret Note → Turn Call Choice → Prop
  idle : G

namespace Protocol

variable (P : Protocol σ Call Op Ret Note Choice G)
  (apply : Call → (op : Op) → Choice → σ → Option (Ret op × σ))

structure Describes (w : World σ Call Op Ret Note) (gs : Nat → G) : Prop where
  inv : P.Inv w.shared w.history gs
  pos : ∀ (j : Nat) (c : Call) (op : Op), w.IsAt j c op → P.At c (gs j) op
  busy : ∀ j, gs j ≠ P.idle → ∃ c op, w.IsAt j c op

def Owns (i : Nat) (g : G) : Assertion σ Call Note G :=
  fun s h gs => P.Inv s h (Function.update gs i g)

/-- The rest of a program of thread `i`, from a point between two operations: at the next
operation the invariant holds again for a ghost of the thread's choice, and however the other
threads have gone on in the meantime, the operation leads to a point from which the rest is
right. -/
def wp (c : Call) (i : Nat) :
    Prog Op Ret Note α → (α → Assertion σ Call Note G) → Assertion σ Call Note G
  | .done a, Q => Q a
  | .note n rest, Q => fun s h gs => wp c i rest Q s ((c, n) :: h) gs
  | .act op k, Q => fun s h gs => ∃ g, P.Owns i g s h gs ∧ P.At c g op ∧
      ∀ w gs' ch r s', P.Describes w gs' → gs' i = g → w.IsAt i c op → P.Guard w (.run i ch) →
        apply c op ch w.shared = some (r, s') → wp c i (k r) Q s' w.history gs'

variable {P apply} {c : Call} {i : Nat}

variable {gs : Nat → G} {h : List (Call × Note)} {s : σ}

theorem owns_of_inv {g : G} (hgi : gs i = g) (hinv : P.Inv s h gs) : P.Owns i g s h gs := by
  unfold Owns
  rwa [← hgi, Function.update_eq_self]

theorem Describes.owns {w : World σ Call Op Ret Note} {g : G} (hd : P.Describes w gs)
    (hgi : gs i = g) : P.Owns i g w.shared w.history gs :=
  owns_of_inv hgi hd.inv

/-! ### Structural rules -/

theorem wp_mono {p : Prog Op Ret Note α} {Q R : α → Assertion σ Call Note G}
    (hQR : ∀ a s h gs, Q a s h gs → R a s h gs)
    (hw : P.wp apply c i p Q s h gs) : P.wp apply c i p R s h gs := by
  induction p generalizing s h gs with
  | done a => exact hQR a s h gs hw
  | note n rest ih => exact ih hw
  | act op k ih =>
    obtain ⟨g, hown, hat, hk⟩ := hw
    refine ⟨g, hown, hat, ?_⟩
    intro w gs' ch r s' hd hgi hpos hguard happ
    exact ih r (hk w gs' ch r s' hd hgi hpos hguard happ)

theorem wp_bind (p : Prog Op Ret Note α) (f : α → Prog Op Ret Note β)
    (Q : β → Assertion σ Call Note G) :
    P.wp apply c i (p >>= f) Q = P.wp apply c i p (fun a => P.wp apply c i (f a) Q) := by
  induction p with
  | done a => rfl
  | note n rest ih =>
    funext s h gs
    show P.wp apply c i (rest >>= f) Q s ((c, n) :: h) gs = _
    rw [ih]
    rfl
  | act op k ih =>
    funext s h gs
    show (∃ g, P.Owns i g s h gs ∧ P.At c g op ∧ ∀ w gs' ch r s', P.Describes w gs' → gs' i = g →
      w.IsAt i c op → P.Guard w (.run i ch) → apply c op ch w.shared = some (r, s') →
      P.wp apply c i (k r >>= f) Q s' w.history gs') = _
    simp only [ih]
    rfl

variable (P apply) in
def Triple (c : Call) (i : Nat) (A : Assertion σ Call Note G) (p : Prog Op Ret Note α)
    (Q : α → Assertion σ Call Note G) : Prop :=
  ∀ ⦃s h gs⦄, A s h gs → P.wp apply c i p Q s h gs

variable (P apply) in
abbrev Keeps (c : Call) (i : Nat) (A : Assertion σ Call Note G) (p : Prog Op Ret Note α) : Prop :=
  P.Triple apply c i A p fun _ => A

namespace Triple

variable {A : Assertion σ Call Note G} {p : Prog Op Ret Note α} {Q : α → Assertion σ Call Note G}
  {g : G}

theorem skip {a : α} : P.Keeps apply c i A (.done a) := fun _ _ _ ha => ha

theorem mono {R : α → Assertion σ Call Note G} (hp : P.Triple apply c i A p Q)
    (hQR : ∀ a s h gs, Q a s h gs → R a s h gs) : P.Triple apply c i A p R :=
  fun _ _ _ ha => wp_mono hQR (hp ha)

theorem bind {f : α → Prog Op Ret Note β} {R : β → Assertion σ Call Note G}
    (hp : P.Triple apply c i A p Q) (hf : ∀ a, P.Triple apply c i (Q a) (f a) R) :
    P.Triple apply c i A (p >>= f) R := by
  intro s h gs ha
  rw [wp_bind]
  exact wp_mono (fun a _ _ _ hq => hf a hq) (hp ha)

theorem perform {o : Op} {Q : Ret o → Assertion σ Call Note G} (hat : P.At c g o)
    (hQ : ∀ w gs ch r s', P.Describes w gs → gs i = g → w.IsAt i c o → P.Guard w (.run i ch) →
      apply c o ch w.shared = some (r, s') → Q r s' w.history gs) :
    P.Triple apply c i (P.Owns i g) (Prog.perform o) Q :=
  fun _ _ _ hown => ⟨g, hown, hat, hQ⟩

theorem act {o : Op} {f : Ret o → Prog Op Ret Note α} (hat : P.At c g o)
    (hQ : ∀ w gs ch r s', P.Describes w gs → gs i = g → w.IsAt i c o → P.Guard w (.run i ch) →
      apply c o ch w.shared = some (r, s') → P.wp apply c i (f r) Q s' w.history gs) :
    P.Triple apply c i (P.Owns i g) (Prog.perform o >>= f) Q :=
  fun _ _ _ hown => ⟨g, hown, hat, hQ⟩

theorem of_meets {pre : Op → Prop} {post : (op : Op) → Ret op → Prop} {ok : Note → Prop}
    {Q : α → Prop} (hp : p.Meets pre post ok Q) (hat : ∀ op, pre op → P.At c g op)
    (hop : ∀ op w gs ch r s', pre op → P.Describes w gs → gs i = g → w.IsAt i c op →
      P.Guard w (.run i ch) → apply c op ch w.shared = some (r, s') →
      post op r ∧ P.Inv s' w.history gs)
    (hnote : ∀ n s h gs, ok n → P.Owns i g s h gs → P.Owns i g s ((c, n) :: h) gs) :
    P.Triple apply c i (P.Owns i g) p fun a s h gs => Q a ∧ P.Owns i g s h gs := by
  intro s h gs hown
  induction p generalizing s h gs with
  | done a => exact ⟨hp, hown⟩
  | note n rest ih => exact ih hp.2 (hnote n s h gs hp.1 hown)
  | act op k ih =>
    refine ⟨g, hown, hat op hp.1, ?_⟩
    intro w gs' ch r s' hd hgi hpos hguard happ
    obtain ⟨hr, hinv⟩ := hop op w gs' ch r s' hp.1 hd hgi hpos hguard happ
    exact ih r (hp.2 r hr) (owns_of_inv hgi hinv)

theorem forM {γ : Type} {f : γ → Prog Op Ret Note PUnit} {I : List γ → Assertion σ Call Note G}
    (xs : List γ) (hstep : ∀ pre x post, xs = pre ++ x :: post →
      P.Triple apply c i (I pre) (f x) fun _ => I (pre ++ [x])) :
    P.Triple apply c i (I []) (xs.forM f) fun _ => I xs := by
  -- the induction runs over what is left, for every part already done
  suffices hrest : ∀ post pre, xs = pre ++ post →
      P.Triple apply c i (I pre) (post.forM f) fun _ => I xs from hrest xs [] rfl
  intro post
  induction post with
  | nil =>
    intro pre hxs s h gs hI
    rw [List.append_nil] at hxs
    rw [hxs]
    exact hI
  | cons x post ih =>
    intro pre hxs
    exact (hstep pre x post hxs).bind fun _ => ih (pre ++ [x]) (by simp [hxs])

theorem mapM {γ β : Type} {f : γ → Prog Op Ret Note β}
    {I : List γ → List β → Assertion σ Call Note G} (xs : List γ)
    (hstep : ∀ pre x post bs, xs = pre ++ x :: post →
      P.Triple apply c i (I pre bs) (f x) fun b => I (pre ++ [x]) (bs ++ [b])) :
    P.Triple apply c i (I [] []) (xs.mapM' f) (I xs) := by
  suffices hrest : ∀ post pre bs, xs = pre ++ post →
      P.Triple apply c i (I pre bs) (post.mapM' f) fun cs => I xs (bs ++ cs) from hrest xs [] [] rfl
  intro post
  induction post with
  | nil =>
    intro pre bs hxs s h gs hI
    rw [List.append_nil] at hxs
    rw [hxs]
    show I pre (bs ++ []) s h gs
    rwa [List.append_nil]
  | cons x post ih =>
    intro pre bs hxs
    refine (hstep pre x post bs hxs).bind fun b => ?_
    refine (ih (pre ++ [x]) (bs ++ [b]) (by simp [hxs])).bind fun cs s h gs hcs => ?_
    show I xs (bs ++ b :: cs) s h gs
    rwa [List.append_assoc] at hcs

end Triple

/-! ### Soundness -/

def Stands (P : Protocol σ Call Op Ret Note Choice G)
    (apply : Call → (op : Op) → Choice → σ → Option (Ret op × σ)) (c : Call) (i : Nat) (g : G) :
    Prog Op Ret Note Unit → Prop
  | .done _ => g = P.idle
  | .note _ _ => False
  | .act op k => P.At c g op ∧
      ∀ w gs' ch r s', P.Describes w gs' → gs' i = g → w.IsAt i c op → P.Guard w (.run i ch) →
        apply c op ch w.shared = some (r, s') →
        P.wp apply c i (k r) (fun _ => P.Owns i P.idle) s' w.history gs'

theorem stands_settle {p : Prog Op Ret Note Unit}
    (hw : P.wp apply c i p (fun _ => P.Owns i P.idle) s h gs) :
    ∃ g, P.Owns i g s (settle c p h).2 gs ∧ P.Stands apply c i g (settle c p h).1 := by
  induction p generalizing h with
  | done a => exact ⟨P.idle, hw, rfl⟩
  | note n rest ih => exact ih hw
  | act op k _ =>
    obtain ⟨g, hown, hat, hk⟩ := hw
    exact ⟨g, hown, hat, hk⟩

structure Pool (P : Protocol σ Call Op Ret Note Choice G)
    (apply : Call → (op : Op) → Choice → σ → Option (Ret op × σ)) (w : World σ Call Op Ret Note)
    (gs : Nat → G) : Prop where
  inv : P.Inv w.shared w.history gs
  stands : ∀ (j : Nat) (t : Thread Call Op Ret Note), w.threads[j]? = some t →
    P.Stands apply t.call j (gs j) t.prog
  fresh : ∀ j, w.threads.length ≤ j → gs j = P.idle

variable {w : World σ Call Op Ret Note}

theorem Pool.describes (hp : P.Pool apply w gs) :
    P.Describes w gs := by
  refine ⟨hp.inv, ?_, ?_⟩
  · rintro j c op ⟨t, ht, rfl, hnext⟩
    have hst := hp.stands j t ht
    cases hprog : t.prog with
    | done a => simp [hprog, Prog.next] at hnext
    | note n rest => simp [hprog, Prog.next] at hnext
    | act op' k =>
      simp only [hprog, Prog.next, Option.some.injEq] at hnext
      rw [hprog] at hst
      rw [← hnext]
      exact hst.1
  · intro j hbusy
    have hlt : j < w.threads.length := by
      by_contra hge
      exact hbusy (hp.fresh j (by omega))
    have ht := List.getElem?_eq_getElem hlt
    have hst := hp.stands j _ ht
    cases hprog : w.threads[j].prog with
    | done a =>
      rw [hprog] at hst
      exact absurd hst hbusy
    | note n rest =>
      rw [hprog] at hst
      exact hst.elim
    | act op' k => exact ⟨_, op', _, ht, rfl, by rw [hprog]; rfl⟩

variable (P apply) in
def Obeyed (body : Call → Prog Op Ret Note Unit) : Prop :=
  ∀ w gs c, P.Describes w gs → gs w.threads.length = P.idle → P.Guard w (.spawn c) →
    P.wp apply c w.threads.length (body c) (fun _ => P.Owns w.threads.length P.idle)
      w.shared w.history gs

variable {body : Call → Prog Op Ret Note Unit}

theorem Pool.spawn (hp : P.Pool apply w gs)
    (hbody : P.Obeyed apply body) (hguard : P.Guard w (.spawn c)) {w' : World σ Call Op Ret Note}
    (hs : worldStep apply body w (.spawn c) = some w') : ∃ gs', P.Pool apply w' gs' := by
  cases hs
  obtain ⟨g, hown, hstands⟩ :=
    stands_settle (hbody w gs c hp.describes (hp.fresh _ (Nat.le_refl _)) hguard)
  refine ⟨Function.update gs w.threads.length g, hown, ?_, ?_⟩
  · intro j t ht
    by_cases hj : j = w.threads.length
    · grind
    · have hlt : j < w.threads.length := by
        have := (List.getElem?_eq_some_iff.mp ht).1
        simp only [List.length_append, List.length_singleton] at this
        omega
      rw [List.getElem?_append_left hlt] at ht
      rw [Function.update_of_ne hj]
      exact hp.stands j t ht
  · intro j hj
    simp only [List.length_append, List.length_singleton] at hj
    rw [Function.update_of_ne (by omega)]
    exact hp.fresh j (by omega)

theorem Pool.run (hp : P.Pool apply w gs)
    {ch : Choice} (hguard : P.Guard w (.run i ch)) {w' : World σ Call Op Ret Note}
    (hs : worldStep apply body w (.run i ch) = some w') : ∃ gs', P.Pool apply w' gs' := by
  unfold worldStep at hs
  cases ht : w.threads[i]? with
  | none => simp [ht] at hs
  | some t =>
    have hst := hp.stands i t ht
    cases hprog : t.prog with
    | done a => simp [ht, hprog] at hs
    | note n rest => simp [ht, hprog] at hs
    | act op k =>
      simp only [ht, hprog, Option.map_eq_some_iff, Prod.exists] at hs
      obtain ⟨r, s', happ, rfl⟩ := hs
      rw [hprog] at hst
      have hpos : w.IsAt i t.call op := ⟨t, ht, rfl, by rw [hprog]; rfl⟩
      obtain ⟨g, hown, hstands⟩ :=
        stands_settle (hst.2 w gs ch r s' hp.describes rfl hpos hguard happ)
      refine ⟨Function.update gs i g, hown, ?_, ?_⟩
      · intro j u hu
        by_cases hj : j = i
        · grind
        · simp only [List.getElem?_set_ne (Ne.symm hj)] at hu
          rw [Function.update_of_ne hj]
          exact hp.stands j u hu
      · intro j hj
        have hlt := (List.getElem?_eq_some_iff.mp ht).1
        simp only [List.length_set] at hj
        rw [Function.update_of_ne (by omega)]
        exact hp.fresh j hj

theorem sound {s₀ : σ} (h0 : P.Inv s₀ [] (fun _ => P.idle)) (hbody : P.Obeyed apply body)
    {past : List (World σ Call Op Ret Note × Turn Call Choice)}
    (hrun : Run (worldStep apply body) (World.init s₀) past w)
    (hc : Always (fun _ w l => P.Guard w l) past) : ∃ gs, P.Describes w gs := by
  have hpool : ∃ gs, P.Pool apply w gs := by
    refine hrun.invariant_always (P := fun _ w => ∃ gs, P.Pool apply w gs)
      (C := fun _ w l => P.Guard w l) ?_ ?_ hc
    · exact ⟨fun _ => P.idle, h0, nofun, fun _ _ => rfl⟩
    · rintro past w (c | ⟨i, ch⟩) w' ⟨gs, hp⟩ hguard hs
      · exact hp.spawn hbody hguard hs
      · exact hp.run hguard hs
  obtain ⟨gs, hp⟩ := hpool
  exact ⟨gs, hp.describes⟩

end Protocol

end Unkey.Base
