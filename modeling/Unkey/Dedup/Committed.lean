import Unkey.Dedup.World

/-!
# Work that has started

A deployment that has left the queue is committed to running.
-/

namespace Unkey.Dedup

open Unkey.Base Unkey.Deploy

def Task.toUpdate : Task → List Nat
  | .siblings _ (.stamping older) | .siblings _ (.updating older) => older.map Prod.fst
  | _ => []

def Task.toCancel : Task → List Nat
  | .siblings _ (.stamping older) | .siblings _ (.updating older)
  | .siblings _ (.cancelling older) => older.map Prod.fst
  | _ => []

def Task.Allows (task : Task) (d : Nat) (status : Status) : Prop :=
  (d ∈ task.toUpdate → isQueued status = true) ∧
    (d ∈ task.toCancel → isQueued status = true ∨ status = .superseded)

instance (task : Task) (d : Nat) (status : Status) : Decidable (task.Allows d status) := by
  unfold Task.Allows
  infer_instance

/-- A step of `CancelOlderSiblings` supersedes only deployments in the queue, and cancels
only invocations of deployments in the queue or superseded. -/
def SparesStarted (_ : List (World × Label)) (w : World) (l : Label) : Prop :=
  ∀ t newer, l = .step t true →
    (∀ older, w.task t = .siblings newer (.updating older) →
      ∀ x ∈ older, ∀ e ∈ w.entries[x.1]?, isQueued e.status = true) ∧
    (∀ d inv rest, w.task t = .siblings newer (.cancelling ((d, some inv) :: rest)) →
      ∀ e ∈ w.entries[d]?, isQueued e.status = true ∨ e.status = .superseded)

def Task.writes (ok : Bool) (task : Task) (d : Nat) (status : Status) : Option Status :=
  (task.overwrites ok).elim
    ((task.settles ok).elim none fun x =>
      if d = x.1 ∧ isTerminal status = false then some x.2 else none)
    fun x => if d ∈ x.1 then some x.2 else none

theorem statusAfter_eq_writes (ok : Bool) (task : Task) (d : Nat) (status : Status) :
    task.statusAfter ok d status = (task.writes ok d status).getD status := by
  unfold Task.statusAfter Task.writes
  cases task.overwrites ok with
  | some x =>
    simp only [Option.elim]
    split <;> rfl
  | none =>
    cases task.settles ok with
    | none => rfl
    | some x =>
      simp only [Option.elim]
      split <;> rfl

def LeavesListed (_ : List (World × Label)) (w : World) : Label → Prop
  | .step t ok => ∀ t' < w.tasks.length, t' ≠ t → ∀ x ∈ w.entries.zipIdx,
      ∀ status ∈ (w.task t).writes ok x.2 x.1.status, (w.task t').Allows x.2 status
  | _ => True

instance (past : List (World × Label)) (w : World) (l : Label) :
    Decidable (LeavesListed past w l) := by
  cases l <;> unfold LeavesListed <;> infer_instance

def Task.Holds (entries : Entries) (task : Task) : Prop :=
  ∀ d ∈ task.toCancel, ∃ e, entries[d]? = some e ∧ task.Allows d e.status

variable {entries : Entries}

theorem Task.Holds.of_nil {task : Task} (h : task.toCancel = []) :
    task.Holds entries := by
  intro d hd
  rw [h] at hd
  cases hd

theorem Task.Holds.like {x y : Task} (h : y.Holds entries)
    (hlike : x.Like y) : x.Holds entries := by
  rcases hlike with rfl | rfl
  · exact h
  · cases y with
    | deploy id stage cancelled => exact .of_nil rfl
    | _ => exact h

theorem queued_of_listed {newer : Newer} :
    ∀ x ∈ listOlder entries newer, ∃ e, entries[x.1]? = some e ∧ isQueued e.status = true := by
  intro y hy
  obtain ⟨x, hx, rfl⟩ := List.mem_map.mp hy
  obtain ⟨hmem, hcond⟩ := List.mem_filter.mp ((List.mem_insertionSort _).mp hx)
  simp only [Bool.and_eq_true] at hcond
  exact ⟨x.1, List.mem_zipIdx_iff_getElem?.mp hmem, hcond.1.1⟩

theorem toCancel_deployEffect (entries : Entries) (id : Nat) (stage : DeployStage)
    (cancelled ok : Bool) : (deployEffect entries id stage cancelled ok).task.toCancel = [] := by
  have hadv : (deployAdvance entries id cancelled stage).task.toCancel = [] := by
    cases stage with
    | finding =>
      simp only [deployAdvance, Effect.quiet]
      cases entries[id]? <;> rfl
    | checking createdAt =>
      simp only [deployAdvance]
      split <;> rfl
    | inside s => cases s <;> rfl
    | _ => rfl
  unfold deployEffect
  split
  · split
    · exact hadv
    · rfl
  · split
    · rfl
    · exact hadv

theorem holds_siblingsEffect {newer : Newer} {stage : DedupStage}
    (ok : Bool) (h : (Task.siblings newer stage).Holds entries) :
    (siblingsEffect entries newer ok stage).task.Holds
      (siblingsEffect entries newer ok stage).entries := by
  cases stage with
  | listing =>
    simp only [siblingsEffect]
    split
    · intro d hd
      obtain ⟨x, hx, rfl⟩ := List.mem_map.mp hd
      obtain ⟨e, he, hq⟩ := queued_of_listed x hx
      exact ⟨e, he, fun _ => hq, fun _ => .inl hq⟩
    · exact .of_nil rfl
  | stamping older => exact h
  | updating older =>
    intro d (hd : d ∈ older.map Prod.fst)
    obtain ⟨e, he, hallow⟩ := h d hd
    cases ok with
    | false => exact ⟨e, he, (absurd · List.not_mem_nil), hallow.2⟩
    | true =>
      obtain ⟨e', he', -, hstatus⟩ := rowAfter_batch he (older.map Prod.fst) .superseded
      rw [if_pos hd] at hstatus
      exact ⟨e', he', (absurd · List.not_mem_nil), fun _ => .inr hstatus⟩
  | cancelling older =>
    cases older with
    | nil => exact .of_nil rfl
    | cons x rest =>
      intro d hd
      obtain ⟨e, he, hallow⟩ := h d (List.mem_cons_of_mem _ hd)
      exact ⟨e, he, (absurd · List.not_mem_nil), fun _ => hallow.2 (List.mem_cons_of_mem _ hd)⟩

theorem holds_taskEffect {w : World} {task : Task} (ok : Bool) (h : task.Holds w.entries) :
    (taskEffect w ok task).task.Holds (taskEffect w ok task).entries := by
  cases task with
  | push stage =>
    cases stage with
    | inserting kind =>
      apply Task.Holds.of_nil
      simp only [taskEffect, pushEffect]
      cases ok with
      | false => rfl
      | true => cases kind <;> rfl
    | _ => exact .of_nil rfl
  | create stage =>
    cases stage with
    | inserting now => cases ok <;> exact .of_nil rfl
    | sending id now => cases ok <;> exact .of_nil rfl
    | _ => exact .of_nil rfl
  | siblings newer stage => exact holds_siblingsEffect ok h
  | deploy id stage cancelled => exact .of_nil (toCancel_deployEffect _ _ _ _ _)
  | cancel id stage =>
    cases stage with
    | finding =>
      apply Task.Holds.of_nil
      simp only [taskEffect, cancelEffect, Effect.quiet]
      cases (w.entries[id]?.bind fun e => if isTerminal e.status then none else e.invocationId) with
      | none => rfl
      | some inv => rfl
    | _ => exact .of_nil rfl
  | done => exact .of_nil rfl

theorem Task.Holds.other {w : World} {ok : Bool} {task other : Task} (h : other.Holds w.entries)
    (hleave : ∀ x ∈ w.entries.zipIdx, ∀ status ∈ task.writes ok x.2 x.1.status,
      other.Allows x.2 status) :
    other.Holds (taskEffect w ok task).entries := by
  intro d hd
  obtain ⟨e, he, hallow⟩ := h d hd
  obtain ⟨e', he', -, hstatus⟩ := rowAfter_taskEffect he ok task
  refine ⟨e', he', ?_⟩
  rw [hstatus, statusAfter_eq_writes]
  cases hw : task.writes ok d e.status with
  | none => exact hallow
  | some status => exact hleave (e, d) (List.mem_zipIdx_iff_getElem?.mpr he) status hw

theorem holds_step {past : List (World × Label)} {w w' : World} {l : Label}
    (h : ∀ t, (w.task t).Holds w.entries) (hc : LeavesListed past w l)
    (hs : w.step l = some w') : ∀ t, (w'.task t).Holds w'.entries := by
  refine tasks_step (P := fun entries task => task.Holds entries) (fun _ => .of_nil rfl) ?_
    (fun _ _ _ hh hlike => hh.like hlike) ?_ ?_ h hs
  · intro entries b
    cases b <;> exact .of_nil rfl
  · rintro t ok rfl
    exact holds_taskEffect ok (h t)
  · rintro t ok t' rfl hne
    by_cases hlt : t' < w.tasks.length
    · exact (h t').other (hc t' hlt hne)
    · rw [task_of_length_le (Nat.le_of_not_lt hlt)]
      exact .of_nil rfl

theorem sparesStarted_of_holds {past : List (World × Label)} {w : World} {l : Label}
    (h : ∀ t, (w.task t).Holds w.entries) : SparesStarted past w l := by
  intro t newer _
  constructor
  · intro older htask x hx e he
    have hmem := List.mem_map_of_mem (f := Prod.fst) hx
    have hold := h t
    rw [htask] at hold
    obtain ⟨e', he', hallow⟩ := hold x.1 hmem
    obtain rfl : e' = e := Option.some.inj (he'.symm.trans he)
    exact hallow.1 hmem
  · intro d inv rest htask e he
    have hold := h t
    rw [htask] at hold
    obtain ⟨e', he', hallow⟩ := hold d List.mem_cons_self
    obtain rfl : e' = e := Option.some.inj (he'.symm.trans he)
    exact hallow.2 List.mem_cons_self

/-- In every run in which nothing else writes to the deployments on the list of a cleanup,
only deployments that have not started are superseded or cancelled. -/
theorem started_spared_run {w₀ w : World} {past : List (World × Label)}
    (h : Run World.step w₀ past w) (hfresh : ∀ task ∈ w₀.tasks, task.toCancel = [])
    (hc : Always LeavesListed past) : Always SparesStarted past := by
  have h0 : ∀ t, (w₀.task t).Holds w₀.entries := by
    intro t
    apply Task.Holds.of_nil
    by_cases hlt : t < w₀.tasks.length
    · apply hfresh
      rw [World.task, List.getD_eq_getElem?_getD, List.getElem?_eq_getElem hlt]
      exact List.getElem_mem hlt
    · rw [task_of_length_le (Nat.le_of_not_lt hlt)]
      rfl
  refine h.always (P := fun _ w => ∀ t, (w.task t).Holds w.entries) h0 ?_ ?_ hc
  · intro past w l w' hh hl hs
    exact holds_step hh hl hs
  · intro past w l hh _
    exact sparesStarted_of_holds hh

def secondPushLists : List Label :=
  [Label.start (.push .deploys)] ++ List.replicate 5 (Label.step 0 true) ++
    List.replicate 3 (Label.step 1 true) ++ [Label.tick 1, Label.start (.push .deploys)] ++
    List.replicate 6 (Label.step 2 true)

/-- The second push goes on with its update, and comes to the cancellation. -/
theorem started_spared_run_secondPush :
    ∃ past w, Run World.step ⟨1, [], []⟩ past w ∧
      w.task 2 = .siblings ⟨1, 2⟩ (.cancelling [(0, some 1)]) ∧ Always SparesStarted past := by
  refine Run.exists_of_record (P := fun past w => Always LeavesListed past ∧
      w.task 2 = .siblings ⟨1, 2⟩ (.cancelling [(0, some 1)]))
    (secondPushLists ++ [.step 2 true]) (by decide +kernel) ?_
  intro past w hrun heq
  exact ⟨heq.2, started_spared_run hrun (by decide) heq.1⟩

/-- The first deployment gets its slot between the list and the update, and is then
superseded although it has started. -/
theorem startAfterList_superseded :
    ∃ past w, Run World.step ⟨1, [], []⟩ past w ∧ ¬ SparesStarted past w (.step 2 true) := by
  refine Run.exists_of_record (P := fun _ w =>
      w.task 2 = .siblings ⟨1, 2⟩ (.updating [(0, some 1)]) ∧
      w.entries[0]?.map Entry.status = some .starting)
    (secondPushLists ++ [.step 1 true]) (by decide +kernel) ?_
  intro past w hrun heq
  obtain ⟨e, he, hstatus⟩ := Option.map_eq_some_iff.mp heq.2
  intro hspares
  have hq := (hspares 2 ⟨1, 2⟩ rfl).1 _ heq.1 (0, some 1) List.mem_cons_self e he
  rw [hstatus] at hq
  cases hq

end Unkey.Dedup
