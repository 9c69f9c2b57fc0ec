import Unkey.Dedup.World

/-!
# Final statuses

`CancelDeployment` and `CancelOlderSiblings` write a deployment's status first and cancel its
workflow afterwards.
-/

namespace Unkey.Dedup

open Unkey.Base Unkey.Deploy

def isFinal (status : Status) : Bool := status == .cancelled || status == .superseded

variable {status : Status}

theorem isFinal_iff :
    isFinal status = true ↔ status = .cancelled ∨ status = .superseded := by
  simp [isFinal]

theorem isTerminal_of_isFinal (h : isFinal status = true) :
    isTerminal status = true := by
  rcases isFinal_iff.mp h with rfl | rfl <;> rfl

def FinalKept (entries entries' : Entries) : Prop :=
  ∀ (d : Nat) (e : Entry), entries[d]? = some e → isFinal e.status = true →
    ∃ e', entries'[d]? = some e' ∧ e'.status = e.status

theorem FinalKept.trans {x y z : Entries} (hxy : FinalKept x y) (hyz : FinalKept y z) :
    FinalKept x z := by
  intro d e he hfinal
  obtain ⟨e₁, he₁, hs₁⟩ := hxy d e he hfinal
  obtain ⟨e₂, he₂, hs₂⟩ := hyz d e₁ he₁ (hs₁ ▸ hfinal)
  exact ⟨e₂, he₂, hs₂.trans hs₁⟩

/-- No final status of the past has changed. -/
def Settled (past : List (World × Label)) (w : World) : Prop :=
  ∀ x ∈ past, FinalKept x.1.entries w.entries

def Task.InTime (entries : Entries) : Task → Prop
  | .deploy d (.beginning _) false | .deploy d .readying false | .create (.markingFailed d) =>
    ∀ e ∈ entries[d]?, isFinal e.status = false
  | .deploy d .superseding false => ∀ e ∈ entries[d]?, e.status ≠ .cancelled
  | .siblings _ (.updating older) => ∀ x ∈ older, ∀ e ∈ entries[x.1]?, e.status ≠ .cancelled
  | _ => True

instance (entries : Entries) : (task : Task) → Decidable (task.InTime entries)
  | .deploy d (.beginning _) false | .deploy d .readying false | .create (.markingFailed d) =>
    inferInstanceAs (Decidable (∀ e ∈ entries[d]?, isFinal e.status = false))
  | .deploy d .superseding false =>
    inferInstanceAs (Decidable (∀ e ∈ entries[d]?, e.status ≠ .cancelled))
  | .siblings _ (.updating older) =>
    inferInstanceAs (Decidable (∀ x ∈ older, ∀ e ∈ entries[x.1]?, e.status ≠ .cancelled))
  | .deploy _ (.beginning _) true | .deploy _ .readying true | .deploy _ .superseding true
  | .deploy _ .finding _ | .deploy _ (.checking _) _ | .deploy _ .queued _
  | .deploy _ (.inside _) _ | .deploy _ .compensating _
  | .siblings _ .listing | .siblings _ (.stamping _) | .siblings _ (.cancelling _)
  | .create .readingClock | .create (.inserting _) | .create (.sending _ _)
  | .create (.persisting _ _ _) | .push _ | .cancel _ _ | .done => .isTrue trivial

/-- A status is written before the deployment is final, or cancelled for one that supersedes. -/
def StoppedInTime (_ : List (World × Label)) (w : World) : Label → Prop
  | .step t true => (w.task t).InTime w.entries
  | _ => True

instance (past : List (World × Label)) (w : World) : (l : Label) →
    Decidable (StoppedInTime past w l)
  | .step t true => inferInstanceAs (Decidable ((w.task t).InTime w.entries))
  | .step _ false | .tick _ | .start _ | .lose _ => .isTrue trivial

def Task.KeepsFinal (entries : Entries) (ok : Bool) (task : Task) : Prop :=
  ∀ (d : Nat) (e : Entry), entries[d]? = some e → isFinal e.status = true →
    task.statusAfter ok d e.status = e.status

section Keeps

variable {entries : Entries} {ok : Bool} {task : Task}

theorem keepsFinal_of_not_overwrites (h : task.overwrites ok = none) :
    task.KeepsFinal entries ok := by
  intro d e _ hfinal
  simp only [Task.statusAfter, h, Option.elim_none]
  cases task.settles ok with
  | none => rfl
  | some x => simp [isTerminal_of_isFinal hfinal]

theorem keepsFinal_iff_of_overwrites {ids : List Nat}
    (h : task.overwrites ok = some (ids, status)) :
    task.KeepsFinal entries ok ↔
      ∀ d ∈ ids, ∀ e ∈ entries[d]?, isFinal e.status = true → status = e.status := by
  constructor
  · intro hkeep d hd e he hfinal
    have := hkeep d e he hfinal
    simpa only [Task.statusAfter, h, Option.elim_some, if_pos hd] using this
  · intro hkeep d e he hfinal
    simp only [Task.statusAfter, h, Option.elim_some]
    split
    next hd => exact hkeep d hd e he hfinal
    next => rfl

theorem keepsFinal_false : task.KeepsFinal entries false := by
  apply keepsFinal_of_not_overwrites
  cases task with
  | siblings newer stage => cases stage <;> rfl
  | create stage => cases stage <;> rfl
  | deploy id stage cancelled => simp [Task.overwrites]
  | _ => rfl

theorem keepsFinal_iff_of_not_final {d : Nat} (hstatus : isFinal status = false)
    (h : task.overwrites ok = some ([d], status)) :
    task.KeepsFinal entries ok ↔ ∀ e ∈ entries[d]?, isFinal e.status = false := by
  rw [keepsFinal_iff_of_overwrites h]
  constructor
  · grind
  · grind

theorem keepsFinal_iff_of_superseded {ids : List Nat}
    (h : task.overwrites ok = some (ids, .superseded)) :
    task.KeepsFinal entries ok ↔ ∀ d ∈ ids, ∀ e ∈ entries[d]?, e.status ≠ .cancelled := by
  rw [keepsFinal_iff_of_overwrites h]
  refine forall₄_congr fun d _ e _ => ?_
  rw [isFinal_iff]
  constructor
  · intro hkeep hc
    have := hkeep (.inl hc)
    rw [hc] at this
    cases this
  · rintro hne (hc | hs)
    · exact absurd hc hne
    · exact hs.symm

theorem keepsFinal_iff_inTime : task.KeepsFinal entries true ↔ task.InTime entries := by
  cases task with
  | create stage =>
    cases stage with
    | markingFailed d => exact keepsFinal_iff_of_not_final rfl rfl
    | _ => exact iff_of_true (keepsFinal_of_not_overwrites rfl) trivial
  | siblings newer stage =>
    cases stage with
    | updating older =>
      have hover : (Task.siblings newer (.updating older)).overwrites true =
          some (older.map Prod.fst, .superseded) := rfl
      rw [keepsFinal_iff_of_superseded hover]
      exact List.forall_mem_map
    | _ => exact iff_of_true (keepsFinal_of_not_overwrites rfl) trivial
  | deploy d stage cancelled =>
    cases cancelled with
    | true =>
      refine iff_of_true (keepsFinal_of_not_overwrites rfl) ?_
      cases stage <;> trivial
    | false =>
      cases stage with
      | beginning s =>
        refine keepsFinal_iff_of_not_final ?_ rfl
        cases s <;> rfl
      | readying => exact keepsFinal_iff_of_not_final rfl rfl
      | superseding =>
        have hover : (Task.deploy d .superseding false).overwrites true =
            some ([d], .superseded) := rfl
        rw [keepsFinal_iff_of_superseded hover]
        exact List.forall_mem_singleton
      | _ => exact iff_of_true (keepsFinal_of_not_overwrites rfl) trivial
  | _ => exact iff_of_true (keepsFinal_of_not_overwrites rfl) trivial

end Keeps

theorem finalKept_taskEffect_iff {w : World} {ok : Bool} {task : Task} :
    FinalKept w.entries (taskEffect w ok task).entries ↔ task.KeepsFinal w.entries ok := by
  refine forall₄_congr fun d e he _ => ?_
  obtain ⟨e', he', -, hstatus⟩ := rowAfter_taskEffect he ok task
  constructor
  · grind
  · intro hkeep
    exact ⟨e', he', hstatus.trans hkeep⟩

theorem finalKept_step_iff {w w' : World} {l : Label} (past : List (World × Label))
    (hs : w.step l = some w') :
    FinalKept w.entries w'.entries ↔ StoppedInTime past w l := by
  cases l with
  | step t ok =>
    cases hs
    refine finalKept_taskEffect_iff.trans ?_
    cases ok with
    | true => exact keepsFinal_iff_inTime
    | false => exact iff_of_true keepsFinal_false trivial
  | _ =>
    cases hs
    exact iff_of_true (fun d e he _ => ⟨e, he, rfl⟩) trivial

/-- In a run no deployment that is cancelled or superseded ever changes its status again,
exactly when no step comes too late. -/
theorem final_settled_run_iff {w₀ w : World} {past : List (World × Label)}
    (h : Run World.step w₀ past w) :
    (Always (fun past w _ => Settled past w) past ∧ Settled past w) ↔
      Always StoppedInTime past := by
  refine h.always_iff (P := Settled) ?_ ?_
  · intro x hx
    cases hx
  · intro past w l w' _ hset hs
    rw [← finalKept_step_iff past hs]
    constructor
    · intro hset'
      exact hset' (w, l) List.mem_cons_self
    · intro hkeep x hx
      rcases List.mem_cons.mp hx with rfl | hx
      · exact hkeep
      · -- Unchanged until this step, and unchanged by it.
        exact (hset x hx).trans hkeep

def cancelBeforeStart : List Label :=
  [Label.start (.push .deploys)] ++ List.replicate 3 (Label.step 0 true) ++
    List.replicate 3 (Label.step 1 true) ++ [Label.start (.cancel 0)] ++
    List.replicate 3 (Label.step 2 true)

/-- The workflow is told to stop, and compensates. -/
theorem final_settled_run_iff_cancelBeforeStart :
    ∃ past w, Run World.step ⟨1, [], []⟩ past w ∧ w.entries.map Entry.status = [.cancelled] ∧
      w.task 1 = .done ∧ Settled past w := by
  refine Run.exists_of_record (P := fun past w => Always StoppedInTime past ∧
      w.entries.map Entry.status = [.cancelled] ∧ w.task 1 = .done)
    (cancelBeforeStart ++ [.step 2 true, .step 1 true, .step 1 true]) (by decide +kernel) ?_
  intro past w hrun heq
  exact ⟨heq.2.1, heq.2.2, ((final_settled_run_iff hrun).mpr heq.1).2⟩

/-- The workflow begins its first step before it is told to stop, and the cancelled
deployment is starting. -/
theorem cancelBeforeStart_overwritten :
    ∃ past w, Run World.step ⟨1, [], []⟩ past w ∧ ¬ Settled past w := by
  refine Run.exists_of_record (P := fun past w =>
      (past.head?.bind fun y => y.1.entries[0]?.map Entry.status) = some .cancelled ∧
      w.entries[0]?.map Entry.status = some .starting)
    (cancelBeforeStart ++ [.step 1 true]) (by decide +kernel) ?_
  rintro past w hrun ⟨hbefore, hafter⟩
  obtain ⟨y, hy, hrow⟩ := Option.bind_eq_some_iff.mp hbefore
  obtain ⟨e, he, hcancelled⟩ := Option.map_eq_some_iff.mp hrow
  intro hset
  obtain ⟨e', he', hsame⟩ :=
    hset y (List.mem_of_mem_head? hy) 0 e he (isFinal_iff.mpr (.inl hcancelled))
  rw [he', Option.map_some, hsame, hcancelled] at hafter
  cases hafter

end Unkey.Dedup
