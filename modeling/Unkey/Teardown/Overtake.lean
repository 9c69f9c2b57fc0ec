import Unkey.Deploy.Workflow

/-!
# A resume next to a stop of the same deployment

`ChangeDesiredState` runs on the object of the deployment and `Resume` on that of the workspace.
-/

namespace Unkey.Teardown.Overtake

open Unkey.Base Unkey.Deploy

/-- How far a handler is: after its write to the row and before it knows the regions, or with some
of them left. -/
inductive Phase (ρ : Type)
  | start
  | claimed
  | written
  | writing (left : List ρ)
  deriving DecidableEq

inductive Pointer
  | unset | this | other
  deriving DecidableEq

inductive Who
  | change | resume
  deriving DecidableEq

structure State (ρ : Type) where
  pointer : Pointer
  desiredState : DesiredState
  topology : ρ → DesiredState
  change : Phase ρ
  resume : Phase ρ

variable {ρ : Type} [DecidableEq ρ] (regions : List ρ) (target : DesiredState)

/-- `ChangeDesiredState` to `target`, from the transaction with the guard on. -/
def stepChange (s : State ρ) : Option (State ρ) :=
  match s.change with
  | .start =>
    if s.pointer = .this then some { s with change := .writing [] }
    else some { s with desiredState := target, change := .written }
  | .claimed | .writing [] => none
  | .written => some { s with change := .writing regions }
  | .writing (r :: left) =>
    some { s with topology := Function.update s.topology r target, change := .writing left }

/-- `Resume` for the app of the deployment, from the restore of its pointer on. -/
def stepResume (s : State ρ) : Option (State ρ) :=
  match s.resume with
  | .start =>
    match s.pointer with
    | .other => some { s with resume := .writing [] }
    | .unset | .this => some { s with pointer := .this, resume := .claimed }
  | .claimed => some { s with desiredState := .running, resume := .written }
  | .written => some { s with resume := .writing regions }
  | .writing [] => none
  | .writing (r :: left) =>
    some { s with topology := Function.update s.topology r .running, resume := .writing left }

def step (s : State ρ) : Who → Option (State ρ)
  | .change => stepChange regions target s
  | .resume => stepResume regions s

def Phase.left : Phase ρ → List ρ
  | .start | .claimed => []
  | .written => regions
  | .writing left => left

/-- `Resume` does not write the row while the change is between its row and its return. -/
def NotOvertaking (_ : List (State ρ × Who)) (s : State ρ) (who : Who) : Prop :=
  who = .resume → s.resume = .claimed → s.change.left regions = []

def Returned (s : State ρ) : Prop := s.change = .writing [] ∧ s.resume = .writing []

instance (past : List (State ρ × Who)) (s : State ρ) (who : Who) :
    Decidable (NotOvertaking regions past s who) := inferInstanceAs (Decidable (_ → _ → _))

instance (s : State ρ) : Decidable (Returned s) := inferInstanceAs (Decidable (_ ∧ _))

/-- Neither handler has written the row, and one of them still will. -/
def Unwritten (s : State ρ) : Prop :=
  (s.resume = .start ∨ s.resume = .claimed) ∧ (s.change = .start ∨ s.pointer = .this) ∨
    s.pointer = .other ∧ s.change = .start

structure Inv (s : State ρ) : Prop where
  follows : Unwritten s ∨ ∀ r ∈ regions, r ∈ s.change.left regions ∨ r ∈ s.resume.left regions ∨
    s.topology r = s.desiredState
  change : s.change.left regions ≠ [] → s.resume.left regions = [] ∧ s.desiredState = target
  resume : s.resume.left regions ≠ [] → s.desiredState = .running ∧ s.pointer = .this
  claimed : s.resume = .claimed ∨ s.resume = .written → s.pointer = .this

variable {regions target} {s s' : State ρ}

theorem update_follows {topology : ρ → DesiredState} {r : ρ} {left other : List ρ}
    {state : DesiredState} (h : ∀ x ∈ regions, x ∈ r :: left ∨ x ∈ other ∨ topology x = state) :
    ∀ x ∈ regions, x ∈ left ∨ x ∈ other ∨ Function.update topology r state x = state := by
  intro x hx
  by_cases hxr : x = r
  · subst hxr
    simp
  · rw [Function.update_of_ne hxr]
    exact (h x hx).imp_left fun hmem => (List.mem_cons.mp hmem).resolve_left hxr

omit [DecidableEq ρ] in
theorem Unwritten.of_change (h : Unwritten s) (hne : s.change ≠ .start)
    (hpointer : s'.pointer = s.pointer) (hresume : s'.resume = s.resume) : Unwritten s' := by
  obtain ⟨hbefore, hstart | hthis⟩ | ⟨-, hstart⟩ := h
  · exact absurd hstart hne
  · exact .inl ⟨hresume ▸ hbefore, .inr (hpointer.trans hthis)⟩
  · exact absurd hstart hne

omit [DecidableEq ρ] in
theorem Unwritten.of_resume (h : Unwritten s) (hne : ¬ (s.resume = .start ∨ s.resume = .claimed))
    (hpointer : s'.pointer = s.pointer) (hchange : s'.change = s.change) : Unwritten s' := by
  obtain ⟨hbefore, -⟩ | ⟨hother, hstart⟩ := h
  · exact absurd hbefore hne
  · exact .inr ⟨hpointer.trans hother, hchange.trans hstart⟩

theorem Inv.stepChange (hinv : Inv regions target s) (h : stepChange regions target s = some s') :
    Inv regions target s' := by
  obtain ⟨pointer, desired, topology, change, resume⟩ := s
  obtain ⟨hfollows, hchange, hresume, hclaimed⟩ := hinv
  cases change with
  | start =>
    simp only [Overtake.stepChange] at h
    split at h <;> cases h
    · rename_i hpointer
      refine ⟨hfollows.imp_left ?_, hchange, hresume, hclaimed⟩
      rintro (⟨hbefore, -⟩ | ⟨hother, -⟩)
      · exact .inl ⟨hbefore, .inr hpointer⟩
      · exact absurd (hpointer.symm.trans hother) (by decide)
    · rename_i hpointer
      have hleft : resume.left regions = [] := by
        by_contra hne
        exact hpointer (hresume hne).2
      exact ⟨.inr fun r hr => .inl hr, fun _ => ⟨hleft, rfl⟩, fun hne => absurd hleft hne, hclaimed⟩
  | claimed => cases h
  | written =>
    cases h
    exact ⟨hfollows.imp_left (·.of_change (by simp) rfl rfl), hchange, hresume, hclaimed⟩
  | writing left =>
    cases left with
    | nil => cases h
    | cons r left =>
      cases h
      obtain ⟨hleft, rfl⟩ := hchange (by simp [Phase.left])
      exact ⟨hfollows.imp (·.of_change (by simp) rfl rfl) update_follows, fun _ => ⟨hleft, rfl⟩,
        fun hne => absurd hleft hne, hclaimed⟩

theorem Inv.stepResume (hinv : Inv regions target s) (h : stepResume regions s = some s')
    (hfree : s.resume = .claimed → s.change.left regions = []) : Inv regions target s' := by
  obtain ⟨pointer, desired, topology, change, resume⟩ := s
  obtain ⟨hfollows, hchange, hresume, hclaimed⟩ := hinv
  cases resume with
  | start =>
    have hthis : Unwritten ⟨.this, desired, topology, change, .claimed⟩ := .inl ⟨.inr rfl, .inr rfl⟩
    cases pointer <;> cases h
    · exact ⟨.inl hthis, hchange, fun hne => absurd rfl hne, fun _ => rfl⟩
    · exact ⟨.inl hthis, hchange, fun hne => absurd rfl hne, fun _ => rfl⟩
    · refine ⟨hfollows.imp_left ?_, hchange, fun hne => absurd rfl hne, by simp⟩
      rintro (⟨-, hstart | hthis⟩ | hother)
      · exact .inr ⟨rfl, hstart⟩
      · cases hthis
      · exact .inr hother
  | claimed =>
    cases h
    have hpointer := hclaimed (.inl rfl)
    exact ⟨.inr fun r hr => .inr (.inl hr), fun hne => absurd (hfree rfl) hne,
      fun _ => ⟨rfl, hpointer⟩, fun _ => hpointer⟩
  | written =>
    cases h
    exact ⟨hfollows.imp_left (·.of_resume (by simp) rfl rfl), hchange, hresume, by simp⟩
  | writing left =>
    cases left with
    | nil => cases h
    | cons r left =>
      cases h
      obtain ⟨rfl, hpointer⟩ := hresume (by simp [Phase.left])
      refine ⟨hfollows.imp (·.of_resume (by simp) rfl rfl) fun hmem x hx => ?_, fun hne => ?_,
        fun _ => ⟨rfl, hpointer⟩, by simp⟩
      · have hx' := update_follows (fun y hy => or_left_comm.mp (hmem y hy)) x hx
        exact or_left_comm.mp hx'
      · exact absurd (hchange hne).1 (by simp [Phase.left])

/-- Unless the resume writes the row while a change of the deployment is still at its regions, the
topology of every region follows the row once both have returned. -/
theorem topology_follows (regions : List ρ) (target : DesiredState) {s₀ s : State ρ}
    {past : List (State ρ × Who)} (hchange : s₀.change = .start) (hresume : s₀.resume = .start)
    (hrun : Run (step regions target) s₀ past s) (hfree : Always (NotOvertaking regions) past)
    (hreturned : Returned s) : ∀ r ∈ regions, s.topology r = s.desiredState := by
  have hstart : Inv regions target s₀ := by
    refine ⟨.inl (.inl ⟨.inl hresume, .inl hchange⟩), ?_, ?_, ?_⟩ <;>
      simp [hchange, hresume, Phase.left]
  have hinv : Inv regions target s := hrun.invariant_always
    (P := fun _ s => Inv regions target s) (C := NotOvertaking regions) hstart
    (fun _ _ who _ hinv hfree h => by
      cases who with
      | change => exact hinv.stepChange h
      | resume => exact hinv.stepResume h (hfree rfl)) hfree
  have hwritten : ¬ Unwritten s := by simp [Unwritten, hreturned.1, hreturned.2]
  intro r hr
  have hfollows := hinv.follows.resolve_left hwritten r hr
  rw [hreturned.1, hreturned.2] at hfollows
  simpa [Phase.left] using hfollows

def draining : State Unit := ⟨.unset, .running, fun _ => .running, .start, .start⟩

theorem topology_follows_stopped : ∃ past s, Run (step [()] .stopped) draining past s ∧ Returned s ∧
    ∀ r ∈ [()], s.topology r = s.desiredState :=
  Run.exists_of_record (P := fun past s => Always (NotOvertaking [()]) past ∧ Returned s)
    [.change, .resume, .change, .change, .resume, .resume, .resume] (by decide)
    fun _ _ hrun h => ⟨h.2, topology_follows [()] .stopped rfl rfl hrun h.1 h.2⟩

/-- The resume overtakes the stop: the row says running, and the region is stopped. -/
theorem topology_overtaken :
    (exec (step [()] .stopped) draining [.change, .resume, .resume, .resume, .resume, .change,
      .change]).map (fun s => (s.change, s.resume, s.desiredState, s.topology ())) =
      some (.writing [], .writing [], .running, .stopped) := by
  decide

end Unkey.Teardown.Overtake
