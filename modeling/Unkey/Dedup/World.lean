import Mathlib.Data.List.Sort
import Unkey.Deploy.Workflow

/-!
# Deployments of one branch

The rows of `deployments` for one app, environment and branch, and everything that writes their
status: `HandlePush` and `CreateDeployment`, which insert a deployment and then call
`CancelOlderSiblings`, the Deploy workflow of each deployment, and `CancelDeployment`.
-/

namespace Unkey.Dedup

open Unkey.Base Unkey.Deploy

/-- A row of `deployments`. -/
structure Entry where
  status : Status
  createdAt : Nat
  invocationId : Option Nat
  deriving DecidableEq

abbrev Entries := List Entry

def isTerminal : Status → Bool
  | .ready | .failed | .skipped | .stopped | .superseded | .cancelled => true
  | .pending | .starting | .building | .deploying | .network | .finalizing
  | .awaitingApproval => false

def isQueued (status : Status) : Bool := status == .pending || status == .awaitingApproval

def updateStatusBatch (entries : Entries) (ids : List Nat) (status : Status) : Entries :=
  entries.mapIdx fun i e => if ids.contains i then { e with status := status } else e

def updateStatusIfActive (entries : Entries) (id : Nat) (status : Status) : Entries :=
  entries.mapIdx fun i e =>
    if i = id ∧ isTerminal e.status = false then { e with status := status } else e

def updateInvocationId (entries : Entries) (id inv : Nat) : Entries :=
  entries.mapIdx fun i e => if i = id then { e with invocationId := some inv } else e

structure Newer where
  id : Nat
  createdAt : Nat
  deriving DecidableEq

abbrev Older := List (Nat × Option Nat)

def listOlder (entries : Entries) (newer : Newer) : Older :=
  ((entries.zipIdx.filter fun x =>
      isQueued x.1.status && decide (x.1.createdAt < newer.createdAt) && x.2 != newer.id).insertionSort
    fun x y => x.1.createdAt ≤ y.1.createdAt).map fun x => (x.2, x.1.invocationId)

def hasNewerActive (entries : Entries) (id createdAt : Nat) : Bool :=
  entries.zipIdx.any fun x =>
    (!isTerminal x.1.status || x.1.status == .ready) && decide (createdAt < x.1.createdAt) &&
      x.2 != id

inductive Step
  | starting | building | deploying | network | finalizing
  deriving DecidableEq

def Step.status : Step → Status
  | .starting => .starting
  | .building => .building
  | .deploying => .deploying
  | .network => .network
  | .finalizing => .finalizing

def Step.next : Step → Option Step
  | .starting => some .building
  | .building => some .deploying
  | .deploying => some .network
  | .network => some .finalizing
  | .finalizing => none

/-- Where a Deploy workflow stands. -/
inductive DeployStage
  | finding
  | checking (createdAt : Nat)
  | superseding
  | queued
  | beginning (s : Step)
  | inside (s : Step)
  | readying
  | compensating
  deriving DecidableEq

inductive DedupStage
  | listing
  | stamping (older : Older)
  | updating (older : Older)
  | cancelling (older : Older)
  deriving DecidableEq

/-- What `HandlePush` decides about a push before it inserts the deployment. -/
inductive PushKind
  | deploys | needsApproval | skipped
  deriving DecidableEq

def PushKind.status : PushKind → Status
  | .deploys => .pending
  | .needsApproval => .awaitingApproval
  | .skipped => .skipped

inductive PushStage
  | inserting (kind : PushKind)
  | sending (id : Nat)
  | persisting (id inv : Nat)
  | cleaning (id : Nat)
  deriving DecidableEq

inductive CreateStage
  | readingClock
  | inserting (now : Nat)
  | sending (id now : Nat)
  | markingFailed (id : Nat)
  | persisting (id now inv : Nat)
  deriving DecidableEq

inductive CancelStage
  | finding
  | stamping (inv : Nat)
  | updating (inv : Nat)
  | cancelling (inv : Nat)
  deriving DecidableEq

inductive Task
  | push (stage : PushStage)
  | create (stage : CreateStage)
  | siblings (newer : Newer) (stage : DedupStage)
  | deploy (id : Nat) (stage : DeployStage) (cancelled : Bool)
  | cancel (id : Nat) (stage : CancelStage)
  | done
  deriving DecidableEq

structure World where
  clock : Nat
  entries : Entries
  tasks : List Task
  deriving DecidableEq

/-- What one step of a task does: the rows after it, the task after it, a deployment whose
workflow it starts, and a workflow it cancels. -/
structure Effect where
  entries : Entries
  task : Task
  spawn : Option Nat
  cancels : Option Nat

def Effect.quiet (entries : Entries) (task : Task) : Effect := ⟨entries, task, none, none⟩

def deployAdvance (entries : Entries) (id : Nat) (cancelled : Bool) : DeployStage → Effect
  | .finding => .quiet entries (entries[id]?.elim (.deploy id .compensating cancelled)
      fun e => .deploy id (.checking e.createdAt) cancelled)
  | .checking createdAt =>
    if hasNewerActive entries id createdAt then .quiet entries (.deploy id .superseding cancelled)
    else .quiet entries (.deploy id .queued cancelled)
  | .superseding => .quiet (updateStatusBatch entries [id] .superseded) .done
  | .queued => .quiet entries (.deploy id (.beginning .starting) cancelled)
  | .beginning s => .quiet (updateStatusBatch entries [id] s.status)
      (.deploy id (if s = .finalizing then .readying else .inside s) cancelled)
  | .inside s => .quiet entries (s.next.elim .done fun s' => .deploy id (.beginning s') cancelled)
  | .readying =>
    .quiet (updateStatusBatch entries [id] .ready) (.deploy id (.inside .finalizing) cancelled)
  | .compensating => .quiet (updateStatusIfActive entries id .failed) .done

def deployEffect (entries : Entries) (id : Nat) (stage : DeployStage) (cancelled ok : Bool) :
    Effect :=
  if stage = .compensating then
    if ok then deployAdvance entries id cancelled stage else .quiet entries .done
  else if cancelled || !ok then .quiet entries (.deploy id .compensating cancelled)
  else deployAdvance entries id cancelled stage

/-- The next step of `CancelOlderSiblings`. -/
def siblingsEffect (entries : Entries) (newer : Newer) (ok : Bool) : DedupStage → Effect
  | .listing =>
    if ok && !(listOlder entries newer).isEmpty then
      .quiet entries (.siblings newer (.stamping (listOlder entries newer)))
    else .quiet entries .done
  | .stamping older => .quiet entries (.siblings newer (.updating older))
  | .updating older =>
    .quiet (if ok then updateStatusBatch entries (older.map Prod.fst) .superseded else entries)
      (.siblings newer (.cancelling older))
  | .cancelling [] => .quiet entries .done
  | .cancelling ((_, inv) :: rest) =>
    ⟨entries, .siblings newer (.cancelling rest), none, if ok then inv else none⟩

section Effects

variable (w : World) (ok : Bool)

def pushEffect : PushStage → Effect
  | .inserting kind =>
    if ok then
      .quiet (w.entries ++ [⟨kind.status, w.clock, none⟩])
        (if kind = .deploys then .push (.sending w.entries.length) else .done)
    else .quiet w.entries .done
  | .sending id => ⟨w.entries, .push (.persisting id w.tasks.length), some id, none⟩
  | .persisting id inv =>
    .quiet (if ok then updateInvocationId w.entries id inv else w.entries) (.push (.cleaning id))
  | .cleaning id => .quiet w.entries (.siblings ⟨id, w.clock⟩ .listing)

def createEffect : CreateStage → Effect
  | .readingClock => .quiet w.entries (.create (.inserting w.clock))
  | .inserting now =>
    if ok then
      .quiet (w.entries ++ [⟨.pending, now, none⟩]) (.create (.sending w.entries.length now))
    else .quiet w.entries .done
  | .sending id now =>
    if ok then ⟨w.entries, .create (.persisting id now w.tasks.length), some id, none⟩
    else .quiet w.entries (.create (.markingFailed id))
  | .markingFailed id =>
    .quiet (if ok then updateStatusBatch w.entries [id] .failed else w.entries) .done
  | .persisting id now inv =>
    .quiet (if ok then updateInvocationId w.entries id inv else w.entries)
      (.siblings ⟨id, now⟩ .listing)

def cancelEffect (id : Nat) : CancelStage → Effect
  | .finding =>
    .quiet w.entries ((w.entries[id]?.bind fun e =>
      if isTerminal e.status then none else e.invocationId).elim .done
        fun inv => .cancel id (.stamping inv))
  | .stamping inv => .quiet w.entries (.cancel id (.updating inv))
  | .updating inv =>
    .quiet (if ok then updateStatusIfActive w.entries id .cancelled else w.entries)
      (.cancel id (.cancelling inv))
  | .cancelling inv => ⟨w.entries, .done, none, if ok then some inv else none⟩

def taskEffect : Task → Effect
  | .push stage => pushEffect w ok stage
  | .create stage => createEffect w ok stage
  | .siblings newer stage => siblingsEffect w.entries newer ok stage
  | .deploy id stage cancelled => deployEffect w.entries id stage cancelled ok
  | .cancel id stage => cancelEffect w ok id stage
  | .done => .quiet w.entries .done

end Effects

def Task.cancelInvocation : Task → Task
  | .deploy id stage _ => .deploy id stage true
  | task => task

inductive Begin
  | push (kind : PushKind)
  | create
  | deploy (id : Nat)
  | cancel (id : Nat)
  deriving DecidableEq

def Begin.task : Begin → Task
  | .push kind => .push (.inserting kind)
  | .create => .create .readingClock
  | .deploy id => .deploy id .finding false
  | .cancel id => .cancel id .finding

/-- What can happen next: the clock advances, a task begins, takes a step that succeeds or
fails, or is lost. -/
inductive Label
  | tick (n : Nat)
  | start (b : Begin)
  | step (t : Nat) (ok : Bool)
  | lose (t : Nat)
  deriving DecidableEq

def withCancelled (tasks : List Task) (cancels : Option Nat) : List Task :=
  cancels.elim tasks fun inv => tasks.modify inv Task.cancelInvocation

def spawned (spawn : Option Nat) : List Task :=
  spawn.elim [] fun id => [Task.deploy id .finding false]

def World.apply (w : World) (t : Nat) (e : Effect) : World where
  clock := w.clock
  entries := e.entries
  tasks := withCancelled (w.tasks.set t e.task) e.cancels ++ spawned e.spawn

def World.task (w : World) (t : Nat) : Task := w.tasks.getD t .done

def World.step (w : World) : Label → Option World
  | .tick n => some { w with clock := w.clock + n }
  | .start b => some { w with tasks := w.tasks ++ [b.task] }
  | .step t ok => some (w.apply t (taskEffect w ok (w.task t)))
  | .lose t => some { w with tasks := w.tasks.set t .done }

section Spec

def Task.overwrites (ok : Bool) : Task → Option (List Nat × Status)
  | .siblings _ (.updating older) => if ok then some (older.map Prod.fst, .superseded) else none
  | .create (.markingFailed id) => if ok then some ([id], .failed) else none
  | .deploy id stage cancelled =>
    if cancelled || !ok then none
    else match stage with
      | .superseding => some ([id], .superseded)
      | .beginning s => some ([id], s.status)
      | .readying => some ([id], .ready)
      | _ => none
  | _ => none

def Task.settles (ok : Bool) : Task → Option (Nat × Status)
  | .deploy id .compensating _ => if ok then some (id, .failed) else none
  | .cancel id (.updating _) => if ok then some (id, .cancelled) else none
  | _ => none

def Task.statusAfter (ok : Bool) (task : Task) (d : Nat) (status : Status) : Status :=
  (task.overwrites ok).elim
    ((task.settles ok).elim status fun x =>
      if d = x.1 ∧ isTerminal status = false then x.2 else status)
    fun x => if d ∈ x.1 then x.2 else status

def RowAfter (entries' : Entries) (d : Nat) (createdAt : Nat) (status : Status) : Prop :=
  ∃ e', entries'[d]? = some e' ∧ e'.createdAt = createdAt ∧ e'.status = status

variable {entries : Entries} {d : Nat} {e : Entry}

theorem rowAfter_same (h : entries[d]? = some e) : RowAfter entries d e.createdAt e.status :=
  ⟨e, h, rfl, rfl⟩

theorem rowAfter_append (h : entries[d]? = some e) (x : Entry) :
    RowAfter (entries ++ [x]) d e.createdAt e.status := by
  refine ⟨e, ?_, rfl, rfl⟩
  rw [List.getElem?_append_left (List.getElem?_eq_some_iff.mp h).1]
  exact h

theorem rowAfter_batch (h : entries[d]? = some e) (ids : List Nat) (status : Status) :
    RowAfter (updateStatusBatch entries ids status) d e.createdAt
      (if d ∈ ids then status else e.status) := by
  unfold RowAfter updateStatusBatch
  rw [List.getElem?_mapIdx, h]
  refine ⟨_, rfl, ?_⟩
  by_cases hd : d ∈ ids
  · simp [hd]
  · simp [hd]

theorem rowAfter_ifActive (h : entries[d]? = some e) (id : Nat) (status : Status) :
    RowAfter (updateStatusIfActive entries id status) d e.createdAt
      (if d = id ∧ isTerminal e.status = false then status else e.status) := by
  unfold RowAfter updateStatusIfActive
  rw [List.getElem?_mapIdx, h]
  refine ⟨_, rfl, ?_⟩
  by_cases hd : d = id ∧ isTerminal e.status = false
  · simp [hd]
  · simp only [if_neg hd, and_self]

theorem rowAfter_invocation (h : entries[d]? = some e) (id inv : Nat) :
    RowAfter (updateInvocationId entries id inv) d e.createdAt e.status := by
  unfold RowAfter updateInvocationId
  rw [List.getElem?_mapIdx, h]
  refine ⟨_, rfl, ?_⟩
  by_cases hd : d = id
  · simp [hd]
  · simp [hd]

theorem rowAfter_deployEffect (h : entries[d]? = some e) (id : Nat) (stage : DeployStage)
    (cancelled ok : Bool) :
    RowAfter (deployEffect entries id stage cancelled ok).entries d e.createdAt
      ((Task.deploy id stage cancelled).statusAfter ok d e.status) := by
  by_cases hcomp : stage = .compensating
  · subst hcomp
    have hover : (Task.deploy id .compensating cancelled).overwrites ok = none := by
      simp only [Task.overwrites]
      split <;> rfl
    cases ok with
    | true =>
      simp only [deployEffect, if_true, deployAdvance, Task.statusAfter, hover, Task.settles,
        Option.elim]
      exact rowAfter_ifActive h id .failed
    | false =>
      simp only [Task.statusAfter, hover, Task.settles, Option.elim]
      exact rowAfter_same h
  · by_cases hfail : (cancelled || !ok) = true
    · have hover : (Task.deploy id stage cancelled).overwrites ok = none := by
        simp only [Task.overwrites, hfail, if_true]
      have hsettle : (Task.deploy id stage cancelled).settles ok = none := by
        cases stage with
        | compensating => exact absurd rfl hcomp
        | _ => rfl
      simp only [deployEffect, if_neg hcomp, hfail, if_true, Task.statusAfter, hover, hsettle,
        Option.elim]
      exact rowAfter_same h
    · simp only [deployEffect, if_neg hcomp, hfail, Bool.false_eq_true, if_false, Task.statusAfter,
        Task.overwrites]
      cases stage with
      | compensating => exact absurd rfl hcomp
      | superseding => exact rowAfter_batch h [id] .superseded
      | beginning s => exact rowAfter_batch h [id] s.status
      | readying => exact rowAfter_batch h [id] .ready
      | checking createdAt =>
        simp only [deployAdvance]
        split <;> exact rowAfter_same h
      | finding => exact rowAfter_same h
      | queued => exact rowAfter_same h
      | inside s => exact rowAfter_same h

theorem rowAfter_taskEffect {w : World} (h : w.entries[d]? = some e) (ok : Bool) (task : Task) :
    RowAfter (taskEffect w ok task).entries d e.createdAt (task.statusAfter ok d e.status) := by
  cases task with
  | push stage =>
    cases stage with
    | inserting kind =>
      simp only [taskEffect, pushEffect]
      split
      · exact rowAfter_append h _
      · exact rowAfter_same h
    | persisting id inv =>
      cases ok with
      | true => exact rowAfter_invocation h id inv
      | false => exact rowAfter_same h
    | _ => exact rowAfter_same h
  | create stage =>
    cases stage with
    | inserting now =>
      simp only [taskEffect, createEffect]
      split
      · exact rowAfter_append h _
      · exact rowAfter_same h
    | sending id now =>
      cases ok <;> exact rowAfter_same h
    | markingFailed id =>
      cases ok with
      | true => exact rowAfter_batch h [id] .failed
      | false => exact rowAfter_same h
    | persisting id now inv =>
      cases ok with
      | true => exact rowAfter_invocation h id inv
      | false => exact rowAfter_same h
    | readingClock => exact rowAfter_same h
  | siblings newer stage =>
    cases stage with
    | listing =>
      simp only [taskEffect, siblingsEffect]
      split <;> exact rowAfter_same h
    | updating older =>
      cases ok with
      | true => exact rowAfter_batch h (older.map Prod.fst) .superseded
      | false => exact rowAfter_same h
    | stamping older => exact rowAfter_same h
    | cancelling older =>
      cases older with
      | nil => exact rowAfter_same h
      | cons x rest => exact rowAfter_same h
  | deploy id stage cancelled => exact rowAfter_deployEffect h id stage cancelled ok
  | cancel id stage =>
    cases stage with
    | updating inv =>
      cases ok with
      | true => exact rowAfter_ifActive h id .cancelled
      | false => exact rowAfter_same h
    | _ => exact rowAfter_same h
  | done => exact rowAfter_same h

end Spec

section Tasks

def Task.Like (x y : Task) : Prop := x = y ∨ x = y.cancelInvocation

theorem getD_append_spawn (tasks : List Task) (spawn : Option Nat) (t : Nat) :
    (tasks ++ spawned spawn).getD t .done = tasks.getD t .done ∨
      ∃ id, spawn = some id ∧
        (tasks ++ spawned spawn).getD t .done = .deploy id .finding false := by
  cases spawn with
  | none => exact .inl (by simp [spawned])
  | some id =>
    simp only [spawned, Option.elim, List.getD_eq_getElem?_getD, List.getElem?_append]
    split
    · exact .inl rfl
    next hle =>
      cases hk : t - tasks.length with
      | zero => exact .inr ⟨id, rfl, by simp⟩
      | succ k =>
        refine .inl ?_
        rw [List.getElem?_eq_none (by simp), List.getElem?_eq_none (by omega)]

theorem getD_cancel (tasks : List Task) (cancels : Option Nat) (t : Nat) :
    Task.Like ((withCancelled tasks cancels).getD t .done) (tasks.getD t .done) := by
  cases cancels with
  | none => exact .inl rfl
  | some inv =>
    simp only [withCancelled, Option.elim, List.getD_eq_getElem?_getD, List.getElem?_modify]
    split
    · cases tasks[t]? with
      | none => exact .inl rfl
      | some x => exact .inr rfl
    · exact .inl (by simp)

theorem task_apply (w : World) (t : Nat) (e : Effect) (t' : Nat) :
    (t' = t ∧ Task.Like ((w.apply t e).task t') e.task) ∨
      (t' ≠ t ∧ Task.Like ((w.apply t e).task t') (w.task t')) ∨
      (w.apply t e).task t' = .done ∨
      ∃ id, e.spawn = some id ∧ (w.apply t e).task t' = .deploy id .finding false := by
  unfold World.apply World.task
  simp only
  rcases getD_append_spawn (withCancelled (w.tasks.set t e.task) e.cancels) e.spawn t' with
    h | ⟨id, hid, h⟩
  · rw [h]
    have hlike := getD_cancel (w.tasks.set t e.task) e.cancels t'
    by_cases ht : t' = t
    · subst ht
      by_cases hlt : t' < w.tasks.length
      · grind
      · right; right; left
        have hset : (w.tasks.set t' e.task).getD t' .done = .done := by
          rw [List.getD_eq_getElem?_getD, List.getElem?_eq_none (by simp; omega)]
          rfl
        rw [hset] at hlike
        rcases hlike with hlike | hlike
        · exact hlike
        · exact hlike
    · grind
  · exact .inr (.inr (.inr ⟨id, hid, h⟩))

theorem task_start (w : World) (b : Begin) (t : Nat) :
    (World.mk w.clock w.entries (w.tasks ++ [b.task])).task t = w.task t ∨
      (World.mk w.clock w.entries (w.tasks ++ [b.task])).task t = b.task := by
  simp only [World.task, List.getD_eq_getElem?_getD, List.getElem?_append]
  split
  · exact .inl rfl
  next hle =>
    cases hk : t - w.tasks.length with
    | zero => exact .inr (by simp)
    | succ k =>
      refine .inl ?_
      rw [List.getElem?_eq_none (by simp), List.getElem?_eq_none (by omega)]

theorem task_lose (w : World) (t t' : Nat) :
    (World.mk w.clock w.entries (w.tasks.set t .done)).task t' = w.task t' ∨
      (World.mk w.clock w.entries (w.tasks.set t .done)).task t' = .done := by
  simp only [World.task, List.getD_eq_getElem?_getD, List.getElem?_set]
  split
  · split
    · exact .inr rfl
    next heq hlt =>
      subst heq
      exact .inr rfl
  · exact .inl rfl

theorem tasks_step {P : Entries → Task → Prop} {w w' : World} {l : Label}
    (hdone : ∀ entries, P entries .done) (hbegin : ∀ entries (b : Begin), P entries b.task)
    (hlike : ∀ entries x y, P entries y → Task.Like x y → P entries x)
    (hown : ∀ t ok, l = .step t ok →
      P (taskEffect w ok (w.task t)).entries (taskEffect w ok (w.task t)).task)
    (hother : ∀ t ok t', l = .step t ok → t' ≠ t →
      P (taskEffect w ok (w.task t)).entries (w.task t'))
    (h : ∀ t, P w.entries (w.task t)) (hs : w.step l = some w') :
    ∀ t, P w'.entries (w'.task t) := by
  intro t'
  cases l with
  | tick n =>
    cases hs
    exact h t'
  | start b =>
    cases hs
    rcases task_start w b t' with ht | ht
    · rw [ht]
      exact h t'
    · rw [ht]
      exact hbegin _ b
  | lose t =>
    cases hs
    rcases task_lose w t t' with ht | ht
    · rw [ht]
      exact h t'
    · rw [ht]
      exact hdone _
  | step t ok =>
    cases hs
    rcases task_apply w t (taskEffect w ok (w.task t)) t' with
      ⟨-, hl⟩ | ⟨hne, hl⟩ | hl | ⟨id, -, hl⟩
    · exact hlike _ _ _ (hown t ok rfl) hl
    · exact hlike _ _ _ (hother t ok t' rfl hne) hl
    · rw [hl]
      exact hdone _
    · rw [hl]
      exact hbegin _ (.deploy id)

theorem task_of_length_le {w : World} {t : Nat} (h : w.tasks.length ≤ t) : w.task t = .done := by
  rw [World.task, List.getD_eq_getElem?_getD, List.getElem?_eq_none h]
  rfl

end Tasks

end Unkey.Dedup
