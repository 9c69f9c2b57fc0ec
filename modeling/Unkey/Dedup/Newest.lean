import Unkey.Dedup.World

/-!
# The newest deployment of a branch

`CancelOlderSiblings` takes for older whatever was created before the time it is given.
-/

namespace Unkey.Dedup

open Unkey.Base Unkey.Deploy

def Outdated (entries : Entries) (d : Nat) : Prop :=
  ∃ e d' e', entries[d]? = some e ∧ entries[d']? = some e' ∧ d' ≠ d ∧ e.createdAt < e'.createdAt

def supersededBy (w : World) : Label → List Nat
  | .step t ok => ((w.task t).overwrites ok).elim [] fun x => if x.2 = .superseded then x.1 else []
  | _ => []

/-- Only deployments that are not the newest are superseded. -/
def KeepsNewest (_ : List (World × Label)) (w : World) (l : Label) : Prop :=
  ∀ d ∈ supersededBy w l, Outdated w.entries d

def Task.lists : Task → Option Newer
  | .siblings newer .listing => some newer
  | _ => none

/-- Nothing newer was queued between the listing and the step. -/
def NoneBetween (_ : List (World × Label)) (w : World) : Label → Prop
  | .step t _ => ∀ newer ∈ (w.task t).lists, ∀ own ∈ w.entries[newer.id]?,
      ∀ x ∈ w.entries.zipIdx, x.2 ≠ newer.id → isQueued x.1.status = true →
        own.createdAt ≤ x.1.createdAt → newer.createdAt ≤ x.1.createdAt
  | _ => True

instance (past : List (World × Label)) (w : World) : (l : Label) → Decidable (NoneBetween past w l)
  | .step t _ => inferInstanceAs (Decidable (∀ newer ∈ (w.task t).lists,
      ∀ own ∈ w.entries[newer.id]?, ∀ x ∈ w.entries.zipIdx, x.2 ≠ newer.id →
        isQueued x.1.status = true → own.createdAt ≤ x.1.createdAt →
          newer.createdAt ≤ x.1.createdAt))
  | .tick _ | .start _ | .lose _ => .isTrue trivial

def Grows (entries entries' : Entries) : Prop :=
  ∀ (d : Nat) (e : Entry), entries[d]? = some e →
    ∃ e', entries'[d]? = some e' ∧ e'.createdAt = e.createdAt

theorem grows_taskEffect (w : World) (ok : Bool) (task : Task) :
    Grows w.entries (taskEffect w ok task).entries := by
  intro d e h
  obtain ⟨e', he', hc, -⟩ := rowAfter_taskEffect h ok task
  exact ⟨e', he', hc⟩

variable {entries : Entries}

theorem Outdated.grow {entries' : Entries} {d : Nat} (h : Outdated entries d)
    (hg : Grows entries entries') : Outdated entries' d := by
  obtain ⟨e, d', e', he, he', hne, hlt⟩ := h
  obtain ⟨x, hx, hxc⟩ := hg d e he
  obtain ⟨x', hx', hxc'⟩ := hg d' e' he'
  exact ⟨x, d', x', hx, hx', hne, by omega⟩

def Task.Knows (entries : Entries) : Task → Prop
  | .push (.sending id) | .push (.persisting id _) | .push (.cleaning id)
  | .create (.sending id _) | .create (.persisting id _ _) => ∃ e, entries[id]? = some e
  | .siblings newer .listing => ∃ e, entries[newer.id]? = some e
  | .siblings _ (.stamping older) | .siblings _ (.updating older) =>
    ∀ x ∈ older, Outdated entries x.1
  | .deploy id (.checking createdAt) _ => ∃ e, entries[id]? = some e ∧ e.createdAt = createdAt
  | .deploy id .superseding _ => Outdated entries id
  | _ => True

theorem Task.Knows.grow {entries' : Entries} {task : Task} (h : task.Knows entries)
    (hg : Grows entries entries') : task.Knows entries' := by
  have hrow : ∀ id : Nat, (∃ e, entries[id]? = some e) → ∃ e, entries'[id]? = some e := by
    rintro id ⟨e, he⟩
    obtain ⟨e', he', -⟩ := hg id e he
    exact ⟨e', he'⟩
  cases task with
  | push stage =>
    cases stage with
    | inserting kind => trivial
    | _ => exact hrow _ h
  | create stage =>
    cases stage with
    | sending id now => exact hrow id h
    | persisting id now inv => exact hrow id h
    | _ => trivial
  | siblings newer stage =>
    cases stage with
    | listing => exact hrow newer.id h
    | cancelling older => trivial
    | _ => exact fun x hx => (h x hx).grow hg
  | deploy id stage cancelled =>
    cases stage with
    | checking createdAt =>
      obtain ⟨e, he, hc⟩ := h
      obtain ⟨e', he', hc'⟩ := hg id e he
      exact ⟨e', he', hc'.trans hc⟩
    | superseding => exact Outdated.grow h hg
    | _ => trivial
  | cancel id stage => trivial
  | done => trivial

theorem Task.Knows.like {x y : Task} (h : y.Knows entries)
    (hlike : x.Like y) : x.Knows entries := by
  rcases hlike with rfl | rfl
  · exact h
  · cases y with
    | deploy id stage cancelled => cases stage <;> exact h
    | _ => exact h

theorem outdated_of_listed {newer : Newer} {own : Entry} (hown : entries[newer.id]? = some own)
    (hnone : ∀ x ∈ entries.zipIdx, x.2 ≠ newer.id → isQueued x.1.status = true →
      own.createdAt ≤ x.1.createdAt → newer.createdAt ≤ x.1.createdAt) :
    ∀ x ∈ listOlder entries newer, Outdated entries x.1 := by
  intro y hy
  obtain ⟨x, hx, rfl⟩ := List.mem_map.mp hy
  obtain ⟨hmem, hcond⟩ := List.mem_filter.mp ((List.mem_insertionSort _).mp hx)
  simp only [Bool.and_eq_true, decide_eq_true_eq, bne_iff_ne] at hcond
  obtain ⟨⟨hq, hlt⟩, hne⟩ := hcond
  refine ⟨x.1, newer.id, own, List.mem_zipIdx_iff_getElem?.mp hmem, hown, hne.symm, ?_⟩
  by_contra hge
  have hle := hnone x hmem hne hq (Nat.le_of_not_lt hge)
  omega

theorem outdated_of_hasNewerActive {id : Nat} {e : Entry}
    (he : entries[id]? = some e) (h : hasNewerActive entries id e.createdAt = true) :
    Outdated entries id := by
  obtain ⟨x, hx, hcond⟩ := List.any_eq_true.mp h
  simp only [Bool.and_eq_true, decide_eq_true_eq, bne_iff_ne] at hcond
  obtain ⟨⟨-, hlt⟩, hne⟩ := hcond
  exact ⟨e, x.2, x.1, he, List.mem_zipIdx_iff_getElem?.mp hx, hne, hlt⟩

theorem knows_deployAdvance {id : Nat} {cancelled : Bool}
    {stage : DeployStage} (h : (Task.deploy id stage cancelled).Knows entries) :
    (deployAdvance entries id cancelled stage).task.Knows entries := by
  cases stage with
  | finding =>
    simp only [deployAdvance, Effect.quiet]
    cases he : entries[id]? with
    | none => trivial
    | some e => exact ⟨e, he, rfl⟩
  | checking createdAt =>
    obtain ⟨e, he, rfl⟩ := h
    simp only [deployAdvance]
    split
    next hnew => exact outdated_of_hasNewerActive he hnew
    next => trivial
  | beginning s =>
    simp only [deployAdvance, Effect.quiet]
    split <;> trivial
  | inside s =>
    cases s <;> trivial
  | _ => trivial

theorem knows_taskEffect {w : World} {ok : Bool} {task : Task} (h : task.Knows w.entries)
    (hnone : ∀ newer ∈ task.lists, ∀ own ∈ w.entries[newer.id]?, ∀ x ∈ w.entries.zipIdx,
      x.2 ≠ newer.id → isQueued x.1.status = true → own.createdAt ≤ x.1.createdAt →
        newer.createdAt ≤ x.1.createdAt) :
    (taskEffect w ok task).task.Knows (taskEffect w ok task).entries := by
  have hgrow := grows_taskEffect w ok task
  cases task with
  | push stage =>
    cases stage with
    | inserting kind =>
      cases ok with
      | false => trivial
      | true =>
        simp only [taskEffect, pushEffect, Effect.quiet, if_true]
        split
        · exact ⟨_, List.getElem?_concat_length⟩
        · trivial
    | sending id => exact h
    | persisting id inv =>
      have hk : (Task.push (.cleaning id)).Knows w.entries := h
      exact hk.grow hgrow
    | cleaning id => exact h
  | create stage =>
    cases stage with
    | readingClock => trivial
    | inserting now =>
      cases ok with
      | false => trivial
      | true => exact ⟨_, List.getElem?_concat_length⟩
    | sending id now =>
      cases ok with
      | false => trivial
      | true => exact h
    | markingFailed id => trivial
    | persisting id now inv =>
      have hk : (Task.siblings ⟨id, now⟩ .listing).Knows w.entries := h
      exact hk.grow hgrow
  | siblings newer stage =>
    cases stage with
    | listing =>
      obtain ⟨own, hown⟩ := h
      simp only [taskEffect, siblingsEffect]
      split
      · exact outdated_of_listed hown (hnone newer rfl own hown)
      · trivial
    | stamping older => exact h
    | updating older => trivial
    | cancelling older =>
      cases older with
      | nil => trivial
      | cons x rest => trivial
  | deploy id stage cancelled =>
    refine Task.Knows.grow ?_ hgrow
    simp only [taskEffect, deployEffect]
    split
    · split
      · exact knows_deployAdvance h
      · trivial
    · split
      · trivial
      · exact knows_deployAdvance h
  | cancel id stage =>
    cases stage with
    | finding =>
      simp only [taskEffect, cancelEffect, Effect.quiet]
      cases (w.entries[id]?.bind fun e => if isTerminal e.status then none else e.invocationId) with
      | none => trivial
      | some inv => trivial
    | _ => trivial
  | done => trivial

theorem knows_step {past : List (World × Label)} {w w' : World} {l : Label}
    (h : ∀ t, (w.task t).Knows w.entries) (hc : NoneBetween past w l)
    (hs : w.step l = some w') : ∀ t, (w'.task t).Knows w'.entries := by
  refine tasks_step (P := fun entries task => task.Knows entries) (fun _ => trivial) ?_
    (fun _ _ _ hk hlike => hk.like hlike) ?_ ?_ h hs
  · intro entries b
    cases b <;> trivial
  · rintro t ok rfl
    exact knows_taskEffect (h t) hc
  · rintro t ok t' rfl -
    exact (h t').grow (grows_taskEffect w ok (w.task t))

theorem keepsNewest_of_knows {past : List (World × Label)} {w : World} {l : Label}
    (h : ∀ t, (w.task t).Knows w.entries) : KeepsNewest past w l := by
  intro d hd
  cases l with
  | step t ok =>
    have hk := h t
    simp only [supersededBy] at hd
    cases htask : w.task t with
    | siblings newer stage =>
      rw [htask] at hk hd
      cases stage with
      | updating older =>
        cases ok with
        | false => cases hd
        | true =>
          obtain ⟨x, hx, rfl⟩ := List.mem_map.mp hd
          exact hk x hx
      | _ => cases hd
    | deploy id stage cancelled =>
      rw [htask] at hk hd
      simp only [Task.overwrites] at hd
      split at hd
      · cases hd
      · cases stage with
        | superseding =>
          rw [List.mem_singleton.mp hd]
          exact hk
        | beginning s => cases s <;> cases hd
        | _ => cases hd
    | create stage =>
      rw [htask] at hd
      cases stage with
      | markingFailed id => cases ok <;> cases hd
      | _ => cases hd
    | push stage =>
      rw [htask] at hd
      cases hd
    | cancel id stage =>
      rw [htask] at hd
      cases hd
    | done =>
      rw [htask] at hd
      cases hd
  | _ => cases hd

/-- In every run in which nothing is created between a pushed deployment and its cleanup,
only deployments with a newer one are superseded. -/
theorem newest_kept_run {clock : Nat} {entries : Entries} {past : List (World × Label)}
    {w : World} (h : Run World.step ⟨clock, entries, []⟩ past w) (hc : Always NoneBetween past) :
    Always KeepsNewest past := by
  refine h.always (P := fun _ w => ∀ t, (w.task t).Knows w.entries) (fun _ => trivial) ?_ ?_ hc
  · intro past w l w' hk hn hs
    exact knows_step hk hn hs
  · intro past w l hk _
    exact keepsNewest_of_knows hk

def twoPushes : List Label :=
  [Label.start (.push .deploys)] ++ List.replicate 5 (Label.step 0 true) ++
    [Label.tick 1, Label.start (.push .deploys)] ++ List.replicate 6 (Label.step 2 true)

theorem newest_kept_run_twoPushes :
    ∃ past w, Run World.step ⟨1, [], []⟩ past w ∧ supersededBy w (.step 2 true) = [0] ∧
      Always KeepsNewest past := by
  refine Run.exists_of_record (P := fun past w => Always NoneBetween past ∧
      supersededBy w (.step 2 true) = [0])
    twoPushes (by decide +kernel) ?_
  intro past w hrun heq
  exact ⟨heq.2, newest_kept_run hrun heq.1⟩

def manualBeforeCleanup : List Label :=
  [Label.start (.push .deploys), Label.step 0 true, Label.tick 1, Label.start .create,
    Label.step 1 true, Label.step 1 true, Label.tick 1] ++ List.replicate 5 (Label.step 0 true)

/-- The cleanup of the push is about to supersede the manual deployment, which is the
newest one. -/
theorem manualBeforeCleanup_supersedes_newest :
    ∃ past w, Run World.step ⟨1, [], []⟩ past w ∧ ¬ KeepsNewest past w (.step 0 true) := by
  refine Run.exists_of_record (P := fun _ w => w.entries.map Entry.createdAt = [1, 2] ∧
      supersededBy w (.step 0 true) = [1])
    manualBeforeCleanup (by decide +kernel) ?_
  rintro past w hrun ⟨hages, hsup⟩
  intro hkeep
  obtain ⟨e, d', e', he, he', -, hlt⟩ := hkeep 1 (by simp [hsup])
  have hage : ∀ d : Nat, w.entries[d]?.map Entry.createdAt = [1, 2][d]? := by
    intro d
    rw [← hages, List.getElem?_map]
  have hown : e.createdAt = 2 := by simpa [he] using hage 1
  have hother : [1, 2][d']? = some e'.createdAt := by rw [← hage d', he']; rfl
  have hle := List.mem_of_getElem? hother
  simp only [List.mem_cons, List.not_mem_nil, or_false] at hle
  omega

end Unkey.Dedup
