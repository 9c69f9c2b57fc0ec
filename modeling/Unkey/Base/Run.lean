import Mathlib.Data.List.Basic
import Mathlib.Tactic.Common

/-!
# Runs of a labelled step function

A system is a partial step function on states and labels. A run is recorded with its past: every
state it left together with the label it took there, latest first.
-/

namespace Unkey.Base

variable {σ α : Type*}

def exec (step : σ → α → Option σ) : σ → List α → Option σ
  | s, [] => some s
  | s, a :: as => (step s a).bind (fun s' => exec step s' as)

/-- `Run step s₀ past s`: the run that started in `s₀` and left the states of
`past`, latest first, by the labels next to them is now in `s`. -/
inductive Run (step : σ → α → Option σ) (s₀ : σ) : List (σ × α) → σ → Prop
  | start : Run step s₀ [] s₀
  | next {past : List (σ × α)} {s s' : σ} {a : α} :
      Run step s₀ past s → step s a = some s' → Run step s₀ ((s, a) :: past) s'

def record (step : σ → α → Option σ) :
    List (σ × α) → σ → List α → Option (List (σ × α) × σ)
  | past, s, [] => some (past, s)
  | past, s, a :: as => (step s a).bind (fun s' => record step ((s, a) :: past) s' as)

def Always (C : List (σ × α) → σ → α → Prop) : List (σ × α) → Prop
  | [] => True
  | (s, a) :: past => C past s a ∧ Always C past

instance Always.decidable {C : List (σ × α) → σ → α → Prop}
    [∀ past s a, Decidable (C past s a)] : (past : List (σ × α)) → Decidable (Always C past)
  | [] => .isTrue trivial
  | (s, a) :: past =>
    have := Always.decidable (C := C) past
    inferInstanceAs (Decidable (C past s a ∧ Always C past))

variable {C : List (σ × α) → σ → α → Prop}

theorem Always.of_forall (h : ∀ past s a, C past s a) :
    (past : List (σ × α)) → Always C past
  | [] => trivial
  | (s, a) :: past => ⟨h past s a, Always.of_forall h past⟩

theorem Always.of_mem {D : σ → α → Prop} :
    {past : List (σ × α)} → (∀ x ∈ past, D x.1 x.2) → Always (fun _ s a => D s a) past
  | [], _ => trivial
  | _ :: _, h => ⟨h _ List.mem_cons_self, of_mem fun x hx => h x (List.mem_cons_of_mem _ hx)⟩

variable {D : List (σ × α) → σ → α → Prop}

theorem Always.and :
    {past : List (σ × α)} → Always C past → Always D past →
      Always (fun past s a => C past s a ∧ D past s a) past
  | [], _, _ => trivial
  | (_, _) :: _, hc, hd => ⟨⟨hc.1, hd.1⟩, hc.2.and hd.2⟩

theorem Always.congr (h : ∀ past s a, C past s a ↔ D past s a) :
    (past : List (σ × α)) → (Always C past ↔ Always D past)
  | [] => Iff.rfl
  | (s, a) :: past => and_congr (h past s a) (Always.congr h past)

namespace Run

variable {step : σ → α → Option σ} {s₀ : σ}

variable {P : List (σ × α) → σ → Prop} {past : List (σ × α)} {s : σ}

theorem invariant (h0 : P [] s₀)
    (hstep : ∀ past s a s', P past s → step s a = some s' → P ((s, a) :: past) s')
    (h : Run step s₀ past s) : P past s := by
  induction h with
  | start => exact h0
  | next _ hs ih => exact hstep _ _ _ _ ih hs

theorem invariant_always (h0 : P [] s₀)
    (hstep : ∀ past s a s', P past s → C past s a → step s a = some s' → P ((s, a) :: past) s')
    (h : Run step s₀ past s) (hc : Always C past) : P past s := by
  induction h with
  | start => exact h0
  | next _ hs ih => exact hstep _ _ _ _ (ih hc.2) hc.1 hs

/-- A run of another step function that agrees with this one wherever `C` holds. -/
theorem of_agree {step' : σ → α → Option σ} (h : Run step' s₀ past s) (hc : Always C past)
    (hagree : ∀ past s a, C past s a → step' s a = step s a) : Run step s₀ past s := by
  induction h with
  | start => exact .start
  | next _ hs ih => exact (ih hc.2).next (hagree _ _ _ hc.1 ▸ hs)

theorem always (h0 : P [] s₀)
    (hstep : ∀ past s a s', P past s → C past s a → step s a = some s' → P ((s, a) :: past) s')
    (hD : ∀ past s a, P past s → C past s a → D past s a)
    (h : Run step s₀ past s) (hc : Always C past) :
    Always D past := by
  induction h with
  | start => trivial
  | next hr _ ih => exact ⟨hD _ _ _ (hr.invariant_always h0 hstep hc.2) hc.1, ih hc.2⟩

theorem always_iff (h0 : P [] s₀)
    (hstep : ∀ past s a s', Run step s₀ past s → P past s → step s a = some s' →
      (P ((s, a) :: past) s' ↔ C past s a))
    (h : Run step s₀ past s) :
    (Always (fun past s _ => P past s) past ∧ P past s) ↔ Always C past := by
  induction h with
  | start => exact iff_of_true ⟨trivial, h0⟩ trivial
  | next hr hs ih =>
    constructor
    · rintro ⟨⟨hp, hpast⟩, hp'⟩
      exact ⟨(hstep _ _ _ _ hr hp hs).mp hp', ih.mp ⟨hpast, hp⟩⟩
    · rintro ⟨hc, hpast⟩
      obtain ⟨hpast, hp⟩ := ih.mpr hpast
      exact ⟨⟨hp, hpast⟩, (hstep _ _ _ _ hr hp hs).mpr hc⟩

theorem iff_always (h0 : P [] s₀) (hstep : ∀ past s a s', Run step s₀ past s → step s a = some s' →
      (P ((s, a) :: past) s' ↔ C past s a ∧ P past s))
    (h : Run step s₀ past s) : P past s ↔ Always C past := by
  induction h with
  | start => exact iff_of_true h0 trivial
  | next hr hs ih => exact (hstep _ _ _ _ hr hs).trans (and_congr_right' ih)

theorem split {later : List (σ × α)} {t : σ} {a : α} (h : Run step s₀ (later ++ (s, a) :: past) t) :
    ∃ s', Run step s₀ past s ∧ step s a = some s' ∧ Run step s' later t := by
  induction later generalizing t with
  | nil =>
    cases h with
    | next hr hs => exact ⟨_, hr, hs, .start⟩
  | cons x later ih =>
    cases h with
    | next hr hs =>
      obtain ⟨s', hpast, hstep, hlater⟩ := ih hr
      exact ⟨s', hpast, hstep, hlater.next hs⟩

theorem of_record {as : List α} {past' : List (σ × α)} {t : σ} (h : Run step s₀ past s)
    (he : record step past s as = some (past', t)) : Run step s₀ past' t := by
  induction as generalizing past s with
  | nil =>
    cases he
    exact h
  | cons a as ih =>
    obtain ⟨s', hs, he⟩ := Option.bind_eq_some_iff.mp he
    exact ih (h.next hs) he

theorem exists_of_record {Q : List (σ × α) → σ → Prop} [∀ past s, Decidable (P past s)]
    (as : List α) (h : (record step [] s₀ as).any (fun x => P x.1 x.2) = true)
    (hQ : ∀ past s, Run step s₀ past s → P past s → Q past s) :
    ∃ past s, Run step s₀ past s ∧ Q past s := by
  obtain ⟨⟨past, s⟩, hrec, hP⟩ := (Option.any_eq_true _ _).mp h
  have hrun : Run step s₀ past s := Run.start.of_record hrec
  exact ⟨past, s, hrun, hQ past s hrun (of_decide_eq_true hP)⟩

end Run

end Unkey.Base
