import Unkey.Base.Prog

/-!
# Interleaved programs over a state that grows

What a program has learnt about a growing state stays true while others go on, so a program is
right if it is right from every state that extends the one it last saw.
-/

namespace Unkey.Base

variable {Op : Type} {Ret : Op → Type} {Note σ Call Choice α β : Type}

/-- An invariant, the order in which states grow, and what a note says from its time on. -/
structure Growing (σ Call Note : Type) where
  Inv : σ → Prop
  Extends : σ → σ → Prop
  Noted : σ → Call → Note → Prop
  refl : ∀ s, Extends s s
  trans : ∀ {s t u}, Extends s t → Extends t u → Extends s u
  noted : ∀ {s t c n}, Extends s t → Noted s c n → Noted t c n

namespace Growing

variable (G : Growing σ Call Note) (apply : Call → (op : Op) → Choice → σ → Option (Ret op × σ))

/-- From `s` on the program keeps the invariant, lets the state grow and notes only what holds;
its result meets `Q`. -/
def Safe (c : Call) (Q : α → σ → Prop) : Prog Op Ret Note α → σ → Prop
  | .done a, s => Q a s
  | .note n rest, s => G.Noted s c n ∧ Safe c Q rest s
  | .act op k, s => ∀ t ch r u, G.Extends s t → G.Inv t → apply c op ch t = some (r, u) →
      G.Extends t u ∧ G.Inv u ∧ Safe c Q (k r) u

variable {G apply} {c : Call} {Q : α → σ → Prop} {s t : σ}

theorem Safe.bind {R : β → σ → Prop} {p : Prog Op Ret Note α} {f : α → Prog Op Ret Note β}
    (hp : G.Safe apply c Q p s) (hf : ∀ a s, Q a s → G.Safe apply c R (f a) s) :
    G.Safe apply c R (p >>= f) s := by
  induction p generalizing s with
  | done a => exact hf a s hp
  | note n rest ih => exact ⟨hp.1, ih hp.2⟩
  | act op k ih =>
    intro t ch r u hle hinv happ
    obtain ⟨hle', hinv', hk⟩ := hp t ch r u hle hinv happ
    exact ⟨hle', hinv', ih r hk⟩

theorem Safe.mono_state {p : Prog Op Ret Note Unit} (hle : G.Extends s t)
    (hp : G.Safe apply c (fun _ _ => True) p s) : G.Safe apply c (fun _ _ => True) p t := by
  induction p with
  | done a => trivial
  | note n rest ih => exact ⟨G.noted hle hp.1, ih hp.2⟩
  | act op k _ =>
    intro t' ch r u hle'
    exact hp t' ch r u (G.trans hle hle')

theorem Safe.settle {p : Prog Op Ret Note Unit} {h : List (Call × Note)}
    (hp : G.Safe apply c (fun _ _ => True) p s) (hh : ∀ x ∈ h, G.Noted s x.1 x.2) :
    G.Safe apply c (fun _ _ => True) (Base.settle c p h).1 s ∧
      ∀ x ∈ (Base.settle c p h).2, G.Noted s x.1 x.2 := by
  induction p generalizing h with
  | done a => exact ⟨hp, hh⟩
  | act op k _ => exact ⟨hp, hh⟩
  | note n rest ih =>
    refine ih hp.2 fun x hx => ?_
    rcases List.mem_cons.mp hx with rfl | hx
    · exact hp.1
    · exact hh x hx

theorem sound {body : Call → Prog Op Ret Note Unit} {s₀ : σ} (h0 : G.Inv s₀)
    (hbody : ∀ c s, G.Inv s → G.Safe apply c (fun _ _ => True) (body c) s)
    {past : List (World σ Call Op Ret Note × Turn Call Choice)} {w : World σ Call Op Ret Note}
    (hrun : Run (worldStep apply body) (World.init s₀) past w) :
    G.Inv w.shared ∧ ∀ x ∈ w.history, G.Noted w.shared x.1 x.2 := by
  have hinv := hrun.invariant (P := fun _ w => G.Inv w.shared ∧
      (∀ x ∈ w.history, G.Noted w.shared x.1 x.2) ∧
      ∀ th ∈ w.threads, G.Safe apply th.call (fun _ _ => True) th.prog w.shared) ?_ ?_
  · exact ⟨hinv.1, hinv.2.1⟩
  · exact ⟨h0, by simp [World.init], by simp [World.init]⟩
  · rintro past w (c | ⟨i, ch⟩) w' ⟨hi, hn, ht⟩ hs
    · cases hs
      obtain ⟨hsafe, hn'⟩ := (hbody c w.shared hi).settle hn
      refine ⟨hi, hn', fun th hth => ?_⟩
      rcases List.mem_append.mp hth with hth | hth
      · exact ht th hth
      · cases List.mem_singleton.mp hth
        exact hsafe
    · unfold worldStep at hs
      cases hth : w.threads[i]? with
      | none => simp [hth] at hs
      | some th =>
        have hmem := List.mem_of_getElem? hth
        cases hprog : th.prog with
        | done a => simp [hth, hprog] at hs
        | note n rest => simp [hth, hprog] at hs
        | act op k =>
          simp only [hth, hprog, Option.map_eq_some_iff, Prod.exists] at hs
          obtain ⟨r, u, happ, rfl⟩ := hs
          have hsafe := ht th hmem
          rw [hprog] at hsafe
          obtain ⟨hle, hi', hk⟩ := hsafe _ ch r u (G.refl _) hi happ
          obtain ⟨hsafe', hn'⟩ := hk.settle fun x hx => G.noted hle (hn x hx)
          refine ⟨hi', hn', fun th' hth' => ?_⟩
          rcases List.mem_or_eq_of_mem_set hth' with hth' | rfl
          · exact (ht th' hth').mono_state hle
          · exact hsafe'

end Growing

end Unkey.Base
