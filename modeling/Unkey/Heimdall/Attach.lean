import Mathlib
import Unkey.Base.Run

/-!
# Attaching the counting programs of pods

`Attach` queues a pod, workers open its pair of programs without the lock and record it under the
lock, `Detach` and `Reconcile` close recorded pairs.
-/

namespace Unkey.Heimdall

open Unkey.Base

variable {ι κ ω : Type} [DecidableEq ι] [DecidableEq κ] [DecidableEq ω]

/-- A running `Attach` call that has put its pod into `pending`. -/
inductive Caller (ι : Type)
  | idle
  | sending (uid : ι)
  | queueFull (uid : ι)
  deriving DecidableEq

/-- A worker; from `opened` on its programs count, and `attached` is what `attachSync` returned. -/
inductive Worker (ι : Type)
  | idle
  | attaching (uid : ι)
  | opened (uid : ι)
  | attached (uid : ι) (netnsGone : Bool)
  deriving DecidableEq

def Caller.pod : Caller ι → Option ι
  | .idle => none
  | .sending uid | .queueFull uid => some uid

def Worker.pod : Worker ι → Option ι
  | .idle => none
  | .attaching uid | .opened uid | .attached uid _ => some uid

/-- The state of `linuxReader` with its callers and workers. -/
structure Reader (ι κ ω : Type) where
  attached : ι → Bool
  pending : ι → Bool
  terminated : ι → Bool
  attachQ : List ι
  caller : κ → Caller ι
  worker : ω → Worker ι
  /-- Whether the counter map has an entry of the pod. -/
  podCounters : ι → Bool
  /-- Whether the last call for the pod was `Detach`. -/
  detached : ι → Bool

inductive Turn (ι κ ω : Type)
  | attach (k : κ) (uid : ι)
  | send (k : κ)
  | rollBack (k : κ)
  | receive (w : ω)
  | openPair (w : ω)
  | fail (w : ω) (netnsGone : Bool)
  | recheck (w : ω)
  | finish (w : ω)
  | detach (uid : ι)
  | reconcile (active : ι → Bool)
  | count (holder : Option ω) (uid : ι)

open Function in
/-- One lock section, channel operation or call of `attachPodEth0`. An attach can also fail after
its first program is on the interface: the programs are closed then, what they counted stays. -/
def step (attachQueueSize : Nat) (s : Reader ι κ ω) : Turn ι κ ω → Option (Reader ι κ ω)
  | .attach k uid =>
    if s.caller k = .idle then
      let s := { s with detached := update s.detached uid false }
      if s.terminated uid ∨ s.attached uid ∨ s.pending uid then some s
      else some { s with
        pending := update s.pending uid true, caller := update s.caller k (.sending uid) }
    else none
  | .send k =>
    match s.caller k with
    | .sending uid =>
      if s.attachQ.length < attachQueueSize then
        some { s with attachQ := s.attachQ ++ [uid], caller := update s.caller k .idle }
      else some { s with caller := update s.caller k (.queueFull uid) }
    | _ => none
  | .rollBack k =>
    match s.caller k with
    | .queueFull uid =>
      some { s with pending := update s.pending uid false, caller := update s.caller k .idle }
    | _ => none
  | .receive w =>
    match s.worker w, s.attachQ with
    | .idle, uid :: rest =>
      some { s with attachQ := rest, worker := update s.worker w (.attaching uid) }
    | _, _ => none
  | .openPair w =>
    match s.worker w with
    | .attaching uid => some { s with worker := update s.worker w (.opened uid) }
    | _ => none
  | .fail w netnsGone =>
    match s.worker w with
    | .attaching uid | .opened uid =>
      some { s with worker := update s.worker w (.attached uid netnsGone) }
    | _ => none
  | .recheck w =>
    match s.worker w with
    | .opened uid =>
      let s := { s with worker := update s.worker w (.attached uid false) }
      if s.attached uid then some s
      else if !s.pending uid then some s
      else some { s with attached := update s.attached uid true }
    | _ => none
  | .finish w =>
    match s.worker w with
    | .attached uid netnsGone =>
      some { s with
        pending := update s.pending uid false
        terminated := if netnsGone then update s.terminated uid true else s.terminated
        worker := update s.worker w .idle }
    | _ => none
  | .detach uid =>
    let s := { s with
      pending := update s.pending uid false
      terminated := update s.terminated uid false
      detached := update s.detached uid true }
    if s.attached uid then
      some { s with
        attached := update s.attached uid false
        podCounters := update s.podCounters uid false }
    else some s
  | .reconcile active => some { s with
      attached := fun uid => s.attached uid && active uid
      podCounters := fun uid => s.podCounters uid && !(s.attached uid && !active uid)
      terminated := fun uid => s.terminated uid && active uid }
  | .count none uid =>
    if s.attached uid then some { s with podCounters := update s.podCounters uid true } else none
  | .count (some w) uid =>
    if s.worker w = .opened uid then some { s with podCounters := update s.podCounters uid true }
    else none

def newReader : Reader ι κ ω where
  attached _ := false
  pending _ := false
  terminated _ := false
  attachQ := []
  caller _ := .idle
  worker _ := .idle
  podCounters _ := false
  detached _ := false

/-- An open pair of the pod: the recorded one, or one a worker has just opened. -/
def HoldsPair (s : Reader ι κ ω) (uid : ι) : Option ω → Prop
  | none => s.attached uid = true
  | some w => s.worker w = .opened uid

/-- No call is running, the queue is empty and no worker is busy. -/
def Idle (s : Reader ι κ ω) : Prop :=
  (∀ k, s.caller k = .idle) ∧ s.attachQ = [] ∧ ∀ w, s.worker w = .idle

/-- `Detach` is not called while the pod is queued or being attached, and no attach fails whose
first program has counted already. -/
def Settled (_ : List (Reader ι κ ω × Turn ι κ ω)) (s : Reader ι κ ω) (turn : Turn ι κ ω) : Prop :=
  match turn with
  | .detach uid => s.pending uid = false
  | .fail w _ => ∀ uid, s.worker w = .opened uid → s.podCounters uid = false
  | _ => True

/-! ### One place for every pending pod -/

inductive Place (κ ω : Type)
  | caller (k : κ)
  | queue
  | worker (w : ω)

variable {s s' : Reader ι κ ω} {place : ι → Option (Place κ ω)} {attachQueueSize : Nat}

/-- Where the attach of a pod is; it is at one place at most. -/
structure Placed (s : Reader ι κ ω) (place : ι → Option (Place κ ω)) : Prop where
  caller : ∀ k uid, (s.caller k).pod = some uid → place uid = some (.caller k)
  queue : ∀ uid ∈ s.attachQ, place uid = some .queue
  nodup : s.attachQ.Nodup
  worker : ∀ w uid, (s.worker w).pod = some uid → place uid = some (.worker w)
  pending : ∀ uid, place uid ≠ none → s.pending uid = true
  recorded : ∀ uid, s.attached uid = true → place uid ≠ some .queue ∧
    (∀ k, place uid ≠ some (.caller k)) ∧
    ∀ w, s.worker w ≠ .attaching uid ∧ s.worker w ≠ .opened uid
  counted : ∀ uid, s.podCounters uid = true → s.attached uid = false → place uid ≠ none ∧
    place uid ≠ some .queue ∧ (∀ k, place uid ≠ some (.caller k)) ∧
    ∀ w, place uid = some (.worker w) → s.worker w = .opened uid
  detached : ∀ uid, s.detached uid = true → place uid = none ∧ s.attached uid = false

omit [DecidableEq ι] [DecidableEq κ] [DecidableEq ω] in
theorem Placed.of_newReader : Placed (newReader : Reader ι κ ω) fun _ => none where
  caller _ _ h := by cases h
  queue _ h := by cases h
  nodup := List.nodup_nil
  worker _ _ h := by cases h
  pending _ h := absurd rfl h
  recorded _ h := by cases h
  counted _ h := by cases h
  detached _ h := by cases h

theorem Placed.attach {k : κ} {uid : ι} (h : Placed s place)
    (hstep : step attachQueueSize s (.attach k uid) = some s') : ∃ place, Placed s' place := by
  have ⟨hcaller, hqueue, hnodup, hworker, hpending, hrecorded, hcounted, hdetached⟩ := h
  simp only [step] at hstep
  split at hstep
  next hidle =>
    split at hstep
    · cases hstep
      exact ⟨place, { h with detached := by grind [Function.update] }⟩
    · cases hstep
      -- a pod that is not pending is nowhere yet
      have hfresh : place uid = none := by
        by_contra hne
        simp_all
      have hqueued : uid ∉ s.attachQ := fun hmem => by grind
      have hworkers : ∀ w, (s.worker w).pod ≠ some uid := fun w hw => by grind
      exact ⟨Function.update place uid (some (.caller k)),
        { caller := by grind [Function.update, Caller.pod]
          queue := by grind [Function.update]
          nodup := hnodup
          worker := by grind [Function.update]
          pending := by grind [Function.update]
          recorded := by grind [Function.update]
          counted := by grind [Function.update]
          detached := by grind [Function.update] }⟩
  next => cases hstep

theorem Placed.send {k : κ} (h : Placed s place)
    (hstep : step attachQueueSize s (.send k) = some s') : ∃ place, Placed s' place := by
  have ⟨hcaller, hqueue, hnodup, hworker, hpending, hrecorded, hcounted, hdetached⟩ := h
  simp only [step] at hstep
  split at hstep
  next uid hsending =>
    have hplace := hcaller k uid (by rw [hsending]; rfl)
    split at hstep
    · cases hstep
      refine ⟨Function.update place uid (some .queue), ?_⟩
      constructor <;> grind [Function.update, Caller.pod]
    · cases hstep
      exact ⟨place, { h with caller := by grind [Function.update, Caller.pod] }⟩
  next => cases hstep

theorem Placed.rollBack {k : κ} (h : Placed s place)
    (hstep : step attachQueueSize s (.rollBack k) = some s') : ∃ place, Placed s' place := by
  obtain ⟨hcaller, hqueue, hnodup, hworker, hpending, hrecorded, hcounted, hdetached⟩ := h
  simp only [step] at hstep
  split at hstep
  next uid hfull =>
    have hplace := hcaller k uid (by rw [hfull]; rfl)
    cases hstep
    refine ⟨Function.update place uid none, ?_⟩
    constructor <;> grind [Function.update, Caller.pod]
  next => cases hstep

theorem Placed.receive {w : ω} (h : Placed s place)
    (hstep : step attachQueueSize s (.receive w) = some s') : ∃ place, Placed s' place := by
  obtain ⟨hcaller, hqueue, hnodup, hworker, hpending, hrecorded, hcounted, hdetached⟩ := h
  simp only [step] at hstep
  split at hstep
  next uid rest hidle hrest =>
    have hplace := hqueue uid (by rw [hrest]; exact List.mem_cons_self)
    rw [hrest, List.nodup_cons] at hnodup
    cases hstep
    refine ⟨Function.update place uid (some (.worker w)), ?_⟩
    constructor <;> grind [Function.update, Worker.pod]
  next => cases hstep

omit [DecidableEq ι] [DecidableEq κ] in
theorem Placed.leave {w : ω} {uid : ι} {next : Worker ι} (h : Placed s place)
    (hunder : s.worker w = .attaching uid ∨ s.worker w = .opened uid)
    (hclean : s.worker w = .opened uid → s.podCounters uid = false) (hnext : next.pod = some uid) :
    Placed { s with worker := Function.update s.worker w next } place := by
  have hplace := h.worker w uid (by rcases hunder with hw | hw <;> rw [hw] <;> rfl)
  -- a pod that is being attached has no recorded pair and no entry
  have hrecorded : s.attached uid = false :=
    Bool.eq_false_iff.mpr fun hrec =>
      hunder.elim ((h.recorded uid hrec).2.2 w).1 ((h.recorded uid hrec).2.2 w).2
  have hentry : s.podCounters uid = false :=
    Bool.eq_false_iff.mpr fun hentry =>
      have hopened := (h.counted uid hentry hrecorded).2.2.2 w hplace
      absurd (hclean hopened) (by rw [hentry]; decide)
  exact { h with
    worker := by grind [Function.update, h.worker]
    recorded := by grind [Function.update, Worker.pod, h.recorded]
    counted := by grind [Function.update, h.counted] }

theorem Placed.recheck {w : ω} (h : Placed s place)
    (hstep : step attachQueueSize s (.recheck w) = some s') : ∃ place, Placed s' place := by
  have ⟨hcaller, hqueue, hnodup, hworker, hpending, hrecorded, hcounted, hdetached⟩ := h
  simp only [step] at hstep
  split at hstep
  next uid hopened =>
    have hplace := hworker w uid (by rw [hopened]; rfl)
    have hwait := hpending uid (by rw [hplace]; simp)
    split at hstep
    · cases hstep
      exact ⟨place, { h with
        worker := by grind [Function.update, Worker.pod]
        recorded := by grind [Function.update]
        counted := by grind [Function.update] }⟩
    · rw [hwait] at hstep
      cases hstep
      exact ⟨place, { h with
        worker := by grind [Function.update, Worker.pod]
        recorded := by grind [Function.update, Worker.pod]
        counted := by grind [Function.update]
        detached := by grind [Function.update] }⟩
  next => cases hstep

theorem Placed.finish {w : ω} (h : Placed s place)
    (hstep : step attachQueueSize s (.finish w) = some s') : ∃ place, Placed s' place := by
  obtain ⟨hcaller, hqueue, hnodup, hworker, hpending, hrecorded, hcounted, hdetached⟩ := h
  simp only [step] at hstep
  split at hstep
  next uid netnsGone hdone =>
    have hplace := hworker w uid (by rw [hdone]; rfl)
    cases hstep
    refine ⟨Function.update place uid none, ?_⟩
    constructor <;> grind [Function.update, Worker.pod]
  next => cases hstep

theorem exists_placed_of_step {turn : Turn ι κ ω} (h : Placed s place)
    (hsettled : Settled [] s turn) (hstep : step attachQueueSize s turn = some s') :
    ∃ place, Placed s' place := by
  have ⟨hcaller, hqueue, hnodup, hworker, hpending, hrecorded, hcounted, hdetached⟩ := h
  cases turn with
  | attach k uid => exact h.attach hstep
  | send k => exact h.send hstep
  | rollBack k => exact h.rollBack hstep
  | receive w => exact h.receive hstep
  | recheck w => exact h.recheck hstep
  | finish w => exact h.finish hstep
  | openPair w =>
    simp only [step] at hstep
    split at hstep
    next uid hattaching =>
      cases hstep
      exact ⟨place, h.leave (.inl hattaching) (by simp [hattaching]) rfl⟩
    next => cases hstep
  | fail w netnsGone =>
    simp only [step] at hstep
    split at hstep
    next uid hattaching =>
      cases hstep
      exact ⟨place, h.leave (.inl hattaching) (by simp [hattaching]) rfl⟩
    next uid hopened =>
      cases hstep
      exact ⟨place, h.leave (.inr hopened) (hsettled uid) rfl⟩
    next => cases hstep
  | detach uid =>
    have hplace : place uid = none := by
      by_contra hne
      rw [Settled, hpending uid hne] at hsettled
      cases hsettled
    simp only [step] at hstep
    split at hstep
    · cases hstep
      exact ⟨place, { h with
        pending := by grind [Function.update]
        recorded := by grind [Function.update]
        counted := by grind [Function.update]
        detached := by grind [Function.update] }⟩
    · cases hstep
      exact ⟨place, { h with
        pending := by grind [Function.update]
        detached := by grind [Function.update] }⟩
  | reconcile active =>
    cases hstep
    exact ⟨place, { h with recorded := by grind, counted := by grind, detached := by grind }⟩
  | count holder uid =>
    cases holder with
    | none =>
      simp only [step] at hstep
      split at hstep
      · cases hstep
        exact ⟨place, { h with counted := by grind [Function.update] }⟩
      · cases hstep
    | some w =>
      simp only [step] at hstep
      split at hstep
      next hopened =>
        have hplace := hworker w uid (by rw [hopened]; rfl)
        cases hstep
        exact ⟨place, { h with counted := by grind [Function.update] }⟩
      next => cases hstep

theorem exists_placed {past : List (Reader ι κ ω × Turn ι κ ω)}
    (hrun : Run (step attachQueueSize) newReader past s) (hsettled : Always Settled past) :
    ∃ place, Placed s place := by
  refine Run.invariant_always (P := fun _ s => ∃ place, Placed s place) (C := Settled)
    ⟨_, Placed.of_newReader⟩ ?_ hrun hsettled
  rintro past s turn s' ⟨place, hplaced⟩ hturn hstep
  exact exists_placed_of_step hplaced hturn hstep

def start : Reader Unit Bool Bool := newReader

instance (s : Reader Unit Bool Bool) (holder : Option Bool) : Decidable (HoldsPair s () holder) :=
  match holder with
  | none => inferInstanceAs (Decidable (s.attached () = true))
  | some w => inferInstanceAs (Decidable (s.worker w = .opened ()))

instance (s : Reader Unit Bool Bool) : Decidable (Idle s) :=
  inferInstanceAs (Decidable (_ ∧ _ ∧ _))

instance (past : List (Reader Unit Bool Bool × Turn Unit Bool Bool)) (s : Reader Unit Bool Bool)
    (turn : Turn Unit Bool Bool) : Decidable (Settled past s turn) :=
  match turn with
  | .detach uid => inferInstanceAs (Decidable (s.pending uid = false))
  | .fail w _ =>
    inferInstanceAs (Decidable (∀ uid, s.worker w = .opened uid → s.podCounters uid = false))
  | .attach _ _ | .send _ | .rollBack _ | .receive _ | .openPair _ | .recheck _ | .finish _
  | .reconcile _ | .count _ _ => .isTrue trivial

def attachOnce : List (Turn Unit Bool Bool) :=
  [.attach true (), .send true, .receive true, .openPair true, .recheck true, .finish true,
    .count none (), .detach ()]

/-- A second attach begins while the first is under way: both workers open a pair. -/
def attachTwice : List (Turn Unit Bool Bool) :=
  [.attach true (), .send true, .receive true, .detach (), .attach true (), .send true,
    .receive false, .openPair true, .openPair false]

/-- The pair that is closed after a `Detach` has counted before. -/
def countThenDetach : List (Turn Unit Bool Bool) :=
  [.attach true (), .send true, .receive true, .openPair true, .count (some true) (), .detach (),
    .recheck true, .finish true]

end Unkey.Heimdall
