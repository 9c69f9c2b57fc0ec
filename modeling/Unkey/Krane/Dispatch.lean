import Mathlib.Logic.Function.Basic
import Unkey.Krane.ChangeStream

/-!
# The dispatch of events

For every event that it receives, `runStream` starts a goroutine, at most ten at a time.
-/

namespace Unkey.Krane

open Unkey.Base

inductive Operation
  | ensureNamespaceExists | ensureRegistryPullSecret | decryptSecrets
  | ensureDeploymentSecret | ensureDeploymentServiceAccount
  | patchReplicaSet (k8sName : String)
  | patchOwnerRef | ensureHPAExists | ensureCiliumNetworkPolicy
  | buildDeploymentStatus | reportDeploymentStatus | ensurePodDisruptionBudget
  | deleteReplicaSet (k8sName : String)
  | removeFingerprint
  deriving DecidableEq

def applyDeployment (k8sName : String) (hasSecrets : Bool) : List Operation :=
  ([.ensureNamespaceExists, .ensureRegistryPullSecret, .decryptSecrets] : List Operation) ++
    (if hasSecrets then [.ensureDeploymentSecret, .ensureDeploymentServiceAccount]
      else [] : List Operation) ++
    ([.patchReplicaSet k8sName] : List Operation) ++
    (if hasSecrets then [.patchOwnerRef] else [] : List Operation) ++
    ([.ensureHPAExists, .ensureCiliumNetworkPolicy, .buildDeploymentStatus,
      .reportDeploymentStatus, .ensurePodDisruptionBudget] : List Operation)

def deleteDeployment (k8sName : String) : List Operation :=
  [.deleteReplicaSet k8sName, .removeFingerprint, .reportDeploymentStatus]

def dispatch (event : Event) : List Operation :=
  match event.deployment with
  | some (.apply k8sName hasSecrets) => applyDeployment k8sName hasSecrets
  | some (.delete k8sName) => deleteDeployment k8sName
  | none => []

def Operation.write : Operation → Option (String × Bool)
  | .patchReplicaSet k8sName => some (k8sName, true)
  | .deleteReplicaSet k8sName => some (k8sName, false)
  | _ => none

def Event.k8sName (event : Event) : Option String :=
  event.deployment.map fun
    | .apply k8sName _ => k8sName
    | .delete k8sName => k8sName

def Event.isApply (event : Event) : Bool :=
  event.deployment.any fun
    | .apply _ _ => true
    | .delete _ => false

def Event.write (event : Event) : Option (String × Bool) :=
  event.k8sName.map fun name => (name, event.isApply)

theorem filterMap_write_dispatch (event : Event) :
    (dispatch event).filterMap Operation.write = event.write.toList := by
  obtain ⟨version, deployment⟩ := event
  cases deployment with
  | none => rfl
  | some state =>
    cases state with
    | apply k8sName hasSecrets => cases hasSecrets <;> rfl
    | delete k8sName => rfl

structure Goroutine where
  event : Event
  todo : List Operation
  suffix : todo <:+ dispatch event

namespace Goroutine

def start (event : Event) : Goroutine := ⟨event, dispatch event, List.suffix_rfl⟩

def next (g : Goroutine) : Goroutine :=
  ⟨g.event, g.todo.tail, (List.tail_suffix _).trans g.suffix⟩

def CarriedOut (g : Goroutine) : Prop := g.todo.filterMap Operation.write = []

instance (g : Goroutine) : Decidable g.CarriedOut := inferInstanceAs (Decidable (_ = []))

variable {g : Goroutine}

theorem write_eq_of_head {x : String × Bool} (h : g.todo.head?.bind Operation.write = some x) :
    g.event.write = some x ∧ ¬ g.CarriedOut ∧ g.next.CarriedOut := by
  obtain ⟨op, hop, hx⟩ := Option.bind_eq_some_iff.mp h
  obtain ⟨rest, htodo⟩ := List.head?_eq_some_iff.mp hop
  have hcons : g.todo.filterMap Operation.write = x :: rest.filterMap Operation.write := by
    rw [htodo, List.filterMap_cons_some hx]
  -- What is still to be written is a suffix of the one write of the dispatch.
  have hsuffix := g.suffix.filterMap Operation.write
  rw [filterMap_write_dispatch, hcons] at hsuffix
  cases hw : g.event.write with
  | none =>
    rw [hw] at hsuffix
    cases List.suffix_nil.mp hsuffix
  | some y =>
    rw [hw, Option.toList_some] at hsuffix
    have heq := hsuffix.eq_of_length_le (by simp)
    obtain ⟨rfl, hrest⟩ := List.cons.inj heq
    refine ⟨rfl, ?_, ?_⟩
    · rw [CarriedOut, hcons]
      exact List.cons_ne_nil _ _
    · show g.todo.tail.filterMap Operation.write = []
      rw [htodo]
      exact hrest

theorem carriedOut_next_iff (h : g.todo.head?.bind Operation.write = none) :
    g.next.CarriedOut ↔ g.CarriedOut := by
  cases htodo : g.todo with
  | nil => simp [CarriedOut, next, htodo]
  | cons op rest =>
    rw [htodo] at h
    have hop : op.write = none := h
    simp only [CarriedOut, next, htodo, List.tail_cons]
    rw [List.filterMap_cons_none hop]

end Goroutine

/-- The messages that are still to be received, the goroutines in the order in which they
were started, and which ReplicaSets exist. -/
structure Agent where
  queue : List Event
  goroutines : List Goroutine
  replicaSets : String → Bool

inductive Move
  | receive
  | operate (i : Nat)
  deriving DecidableEq

def maxConcurrentDispatches : Nat := 10

def Operation.run (op : Operation) (replicaSets : String → Bool) : String → Bool :=
  op.write.elim replicaSets fun x => Function.update replicaSets x.1 x.2

namespace Agent

def start (events : List Event) (replicaSets : String → Bool) : Agent := ⟨events, [], replicaSets⟩

def active (a : Agent) : Nat := (a.goroutines.filter fun g => !g.todo.isEmpty).length

def operate (a : Agent) (i : Nat) (g : Goroutine) (op : Operation) : Agent :=
  { a with goroutines := a.goroutines.set i g.next, replicaSets := op.run a.replicaSets }

def step (a : Agent) : Move → Option Agent
  | .receive =>
    match a.queue with
    | event :: rest =>
      if a.active < maxConcurrentDispatches then
        some { a with queue := rest, goroutines := a.goroutines ++ [.start event] }
      else none
    | [] => none
  | .operate i => a.goroutines[i]?.bind fun g => g.todo.head?.map (a.operate i g)

def Finished (a : Agent) : Prop := a.queue = [] ∧ ∀ g ∈ a.goroutines, g.todo = []

end Agent

structure Newest (events : List Event) (name : String) (event : Event) : Prop where
  mem : event ∈ events
  named : event.k8sName = some name
  highest : ∀ e ∈ events, e.k8sName = some name → e.version ≤ event.version

/-- No write is performed after a different one of a newer event for the same name. -/
def NotOvertaken (_ : List (Agent × Move)) (a : Agent) : Move → Prop
  | .receive => True
  | .operate i => ∀ g ∈ a.goroutines[i]?, ∀ x ∈ g.todo.head?.bind Operation.write,
      ∀ g' ∈ a.goroutines, g'.CarriedOut → ∀ y ∈ g'.event.write, y.1 = x.1 → y.2 ≠ x.2 →
        g'.event.version < g.event.version

instance (past : List (Agent × Move)) (a : Agent) (m : Move) :
    Decidable (NotOvertaken past a m) := by
  cases m <;> unfold NotOvertaken <;> infer_instance

/-- What is written under a name is what the newest event carried out there asks for. -/
def Agent.Current (a : Agent) : Prop :=
  ∀ g ∈ a.goroutines, g.CarriedOut → ∀ x, g.event.write = some x →
    (∀ g' ∈ a.goroutines, g'.CarriedOut → ∀ y, g'.event.write = some y → y.1 = x.1 →
      g'.event.version ≤ g.event.version) →
    a.replicaSets x.1 = x.2

section Steps

variable {a : Agent}

theorem not_carriedOut_start {event : Event} {x : String × Bool} (h : event.write = some x) :
    ¬ (Goroutine.start event).CarriedOut := by
  show (dispatch event).filterMap Operation.write ≠ []
  rw [filterMap_write_dispatch, h]
  exact List.cons_ne_nil _ _

theorem current_receive {event : Event} {rest : List Event} (h : a.Current) :
    ({ a with queue := rest, goroutines := a.goroutines ++ [.start event] } : Agent).Current := by
  intro g hg hout x hx hmax
  rcases List.mem_append.mp hg with hg | hg
  · exact h g hg hout x hx fun g' hg' => hmax g' (List.mem_append_left _ hg')
  · rw [List.mem_singleton.mp hg] at hout hx
    exact absurd hout (not_carriedOut_start hx)

theorem mem_set_or_eq {i : Nat} {g g' new : Goroutine} (hi : a.goroutines[i]? = some g)
    (h : g' ∈ a.goroutines) : g' ∈ a.goroutines.set i new ∨ g' = g := by
  obtain ⟨j, hj⟩ := List.mem_iff_getElem?.mp h
  by_cases hij : i = j
  · subst hij
    exact .inr (Option.some.inj (hj.symm.trans hi))
  · left
    refine List.mem_of_getElem? (i := j) ?_
    rw [List.getElem?_set_ne hij]
    exact hj

theorem mem_set_self {i : Nat} {g new : Goroutine} (hi : a.goroutines[i]? = some g) :
    new ∈ a.goroutines.set i new := by
  obtain ⟨hlt, -⟩ := List.getElem?_eq_some_iff.mp hi
  exact List.mem_of_getElem? (i := i) (List.getElem?_set_self hlt)

theorem current_operate_other {i : Nat} {g : Goroutine} {op : Operation}
    (hi : a.goroutines[i]? = some g) (hop : g.todo.head? = some op) (hw : op.write = none)
    (h : a.Current) : (a.operate i g op).Current := by
  have hout : g.next.CarriedOut ↔ g.CarriedOut :=
    Goroutine.carriedOut_next_iff (by rw [hop]; exact hw)
  have hback : ∀ g' ∈ a.goroutines.set i g.next, g'.CarriedOut →
      ∃ g₀ ∈ a.goroutines, g₀.CarriedOut ∧ g₀.event = g'.event := by
    intro g' hg' hout'
    rcases List.mem_or_eq_of_mem_set hg' with hmem | rfl
    · exact ⟨g', hmem, hout', rfl⟩
    · exact ⟨g, List.mem_of_getElem? hi, hout.mp hout', rfl⟩
  have hforth : ∀ g₀ ∈ a.goroutines, g₀.CarriedOut →
      ∃ g' ∈ a.goroutines.set i g.next, g'.CarriedOut ∧ g'.event = g₀.event := by
    intro g₀ hg₀ hout₀
    rcases mem_set_or_eq hi hg₀ with hmem | rfl
    · exact ⟨g₀, hmem, hout₀, rfl⟩
    · exact ⟨g₀.next, mem_set_self hi, hout.mpr hout₀, rfl⟩
  intro g' hg' hout' x hx hmax
  obtain ⟨g₀, hg₀, hout₀, hev⟩ := hback g' hg' hout'
  have hsame : (a.operate i g op).replicaSets = a.replicaSets := by
    simp only [Agent.operate, Operation.run, hw, Option.elim_none]
  rw [hsame]
  refine h g₀ hg₀ hout₀ x (hev ▸ hx) fun g₁ hg₁ hout₁ y hy hname => ?_
  obtain ⟨g₂, hg₂, hout₂, hev₂⟩ := hforth g₁ hg₁ hout₁
  have hle := hmax g₂ hg₂ hout₂ y (hev₂ ▸ hy) hname
  rwa [hev, ← hev₂]

theorem current_operate_write {i : Nat} {g : Goroutine} {op : Operation} {x : String × Bool}
    (hi : a.goroutines[i]? = some g) (hop : g.todo.head? = some op) (hw : op.write = some x)
    (hc : ∀ g' ∈ a.goroutines, g'.CarriedOut → ∀ y ∈ g'.event.write, y.1 = x.1 → y.2 ≠ x.2 →
      g'.event.version < g.event.version)
    (h : a.Current) : (a.operate i g op).Current := by
  obtain ⟨hwrite, hnot, hnext⟩ :=
    Goroutine.write_eq_of_head (g := g) (x := x) (by rw [hop]; exact hw)
  have hsets : (a.operate i g op).replicaSets = Function.update a.replicaSets x.1 x.2 := by
    simp only [Agent.operate, Operation.run, hw, Option.elim_some]
  intro g' hg' hout' y hy hmax
  rw [hsets]
  rcases List.mem_or_eq_of_mem_set hg' with hmem | rfl
  · by_cases hname : y.1 = x.1
    · -- An older event for the same ReplicaSet: the newer one asks for the same.
      rw [hname, Function.update_self]
      by_contra hne
      have hlt := hc g' hmem hout' y hy hname (Ne.symm hne)
      have hle := hmax g.next (mem_set_self hi) hnext x hwrite hname.symm
      exact absurd (Nat.lt_of_lt_of_le hlt hle) (Nat.lt_irrefl _)
    · rw [Function.update_of_ne hname]
      refine h g' hmem hout' y hy fun g₁ hg₁ hout₁ z hz hzy => ?_
      have hset : g₁ ∈ a.goroutines.set i g.next ∨ g₁ = g := mem_set_or_eq hi hg₁
      rcases hset with hmem₁ | rfl
      · exact hmax g₁ hmem₁ hout₁ z hz hzy
      · exact absurd hout₁ hnot
  · obtain rfl : x = y := Option.some.inj (hwrite.symm.trans hy)
    exact Function.update_self ..

theorem current_step {past : List (Agent × Move)} {a' : Agent} {m : Move} (h : a.Current)
    (hc : NotOvertaken past a m) (hs : a.step m = some a') : a'.Current := by
  cases m with
  | receive =>
    simp only [Agent.step] at hs
    split at hs
    next event rest hqueue =>
      split at hs
      · cases hs
        exact current_receive h
      · cases hs
    next => cases hs
  | operate i =>
    obtain ⟨g, hi, hs⟩ := Option.bind_eq_some_iff.mp hs
    obtain ⟨op, hop, rfl⟩ := Option.map_eq_some_iff.mp hs
    cases hw : op.write with
    | none => exact current_operate_other hi hop hw h
    | some x =>
      refine current_operate_write hi hop hw ?_ h
      exact hc g hi x (by rw [hop]; exact hw)

theorem events_step {a' : Agent} {m : Move} (hs : a.step m = some a') :
    a'.goroutines.map Goroutine.event ++ a'.queue =
      a.goroutines.map Goroutine.event ++ a.queue := by
  cases m with
  | receive =>
    simp only [Agent.step] at hs
    split at hs
    next event rest hqueue =>
      split at hs
      · cases hs
        simp [Goroutine.start, hqueue]
      · cases hs
    next => cases hs
  | operate i =>
    obtain ⟨g, hi, hs⟩ := Option.bind_eq_some_iff.mp hs
    obtain ⟨op, hop, rfl⟩ := Option.map_eq_some_iff.mp hs
    have hmap : (a.goroutines.set i g.next).map Goroutine.event =
        a.goroutines.map Goroutine.event := by
      rw [List.map_set]
      apply List.ext_getElem?
      intro j
      rw [List.getElem?_set]
      split
      next hij =>
        subst hij
        split
        · rw [List.getElem?_map, hi]
          rfl
        next hlen =>
          rw [List.getElem?_eq_none (by simpa using hlen)]
      next => rfl
    show (a.goroutines.set i g.next).map Goroutine.event ++ a.queue = _
    rw [hmap]

end Steps

/-- In every run in which no operation is overtaken by a newer event that asks for the
opposite, the cluster ends in the state of the newest event. -/
theorem newest_wins_run {events : List Event} {replicaSets : String → Bool}
    {past : List (Agent × Move)} {a : Agent}
    (h : Run Agent.step (Agent.start events replicaSets) past a)
    (hc : Always NotOvertaken past) (hdone : a.Finished) {name : String} {event : Event}
    (hnew : Newest events name event) : a.replicaSets name = true ↔ event.isApply = true := by
  have hcur : a.Current := by
    refine h.invariant_always (P := fun _ a => a.Current) ?_ ?_ hc
    · intro g hg
      cases hg
    · intro past a m a' ha hm hs
      exact current_step ha hm hs
  have hevents : a.goroutines.map Goroutine.event = events := by
    have hall : a.goroutines.map Goroutine.event ++ a.queue = events := by
      refine h.invariant (P := fun _ a => a.goroutines.map Goroutine.event ++ a.queue = events) rfl ?_
      intro past a m a' ha hs
      exact (events_step hs).trans ha
    rwa [hdone.1, List.append_nil] at hall
  have hout : ∀ g ∈ a.goroutines, g.CarriedOut := by
    intro g hg
    rw [Goroutine.CarriedOut, hdone.2 g hg]
    rfl
  obtain ⟨g, hg, rfl⟩ : ∃ g ∈ a.goroutines, g.event = event := by
    rw [← List.mem_map, hevents]
    exact hnew.mem
  have hwrite : g.event.write = some (name, g.event.isApply) := by
    rw [Event.write, hnew.named]
    rfl
  have hfinal := hcur g hg (hout g hg) _ hwrite fun g' hg' _ y hy hname => by
    refine hnew.highest g'.event (hevents ▸ List.mem_map_of_mem hg') ?_
    obtain ⟨n, hn, rfl⟩ := Option.map_eq_some_iff.mp hy
    exact hn.trans (congrArg some hname)
  rw [hfinal]

section Stopped

def startAndStop : List Event :=
  [⟨1, some (.apply "d-1" false)⟩, ⟨2, some (.delete "d-1")⟩]

theorem newest_startAndStop : Newest startAndStop "d-1" ⟨2, some (.delete "d-1")⟩ :=
  ⟨by decide, rfl, by decide⟩

instance (a : Agent) : Decidable a.Finished := inferInstanceAs (Decidable (_ ∧ _))

def oneByOne : List Move :=
  Move.receive :: List.replicate 9 (Move.operate 0) ++
    Move.receive :: List.replicate 3 (Move.operate 1)

theorem newest_wins_run_oneByOne :
    ∃ past a, Run Agent.step (Agent.start startAndStop fun _ => false) past a ∧ a.Finished ∧
      ¬ a.replicaSets "d-1" = true := by
  refine Run.exists_of_record (P := fun past a => Always NotOvertaken past ∧ a.Finished)
    oneByOne (by decide +kernel) ?_
  intro past a hrun heq
  refine ⟨heq.2, ?_⟩
  rw [newest_wins_run hrun heq.1 heq.2 newest_startAndStop]
  decide

def deletionFirst : List Move :=
  [Move.receive, Move.receive] ++ List.replicate 3 (Move.operate 1) ++
    List.replicate 9 (Move.operate 0)

/-- All is carried out, the newest event is a deletion, and the ReplicaSet exists. -/
theorem deletionFirst_leaves_running :
    ∃ past a, Run Agent.step (Agent.start startAndStop fun _ => false) past a ∧ a.Finished ∧
      Newest startAndStop "d-1" ⟨2, some (.delete "d-1")⟩ ∧
      ¬ (a.replicaSets "d-1" = true ↔ (⟨2, some (.delete "d-1")⟩ : Event).isApply = true) := by
  refine Run.exists_of_record (P := fun _ a => a.Finished ∧ a.replicaSets "d-1" = true)
    deletionFirst (by decide +kernel) ?_
  intro past a hrun heq
  refine ⟨heq.1, newest_startAndStop, ?_⟩
  rw [heq.2]
  decide

end Stopped

end Unkey.Krane
