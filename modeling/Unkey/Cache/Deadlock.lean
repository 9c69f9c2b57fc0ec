import Mathlib
import Unkey.Cache.Swr

/-!
# The revalidation pool of the cache

The callers of `SWR`, `SWRMany` and `SWRWithFallback` that found stale entries, the bounded channel
`revalidateC`, the workers that `New` starts, and the mutex `inflightMu` of the keys whose refresh
is under way.
-/

namespace Unkey.Swr

open Unkey.Base

inductive Refresh (K : Type) where
  | revalidate (key : K)
  | revalidateMany (keys : List K)
  | revalidateWithCanonicalKey (dedupeKey : K)
  deriving DecidableEq

inductive Caller (K : Type) where
  | sending (job : Refresh K)
  | locking (key : K)
  | checking (key : K)
  | sendingLocked (key : K)
  | unlocking
  | returned
  deriving DecidableEq

inductive Worker (K : Type) where
  | receiving
  | locking (job : Refresh K)
  | marking (job : Refresh K)
  | refreshing (marked : List K)
  | lockingAgain (marked : List K)
  | clearing (marked : List K)
  deriving DecidableEq

inductive Thread where
  | caller (i : Nat)
  | worker (i : Nat)
  deriving DecidableEq

structure Pool (K : Type) where
  inflightMu : Option Thread
  inflightRefreshes : K → Bool
  revalidateC : List (Refresh K)
  callers : List (Caller K)
  workers : List (Worker K)

section Model

variable {K : Type}

def revalidateWorkers : Nat := 10

def Pool.new (workers : Nat) : Pool K :=
  ⟨none, fun _ => false, [], [], List.replicate workers .receiving⟩

def Pool.setCaller (s : Pool K) (i : Nat) (c : Caller K) : Pool K :=
  { s with callers := s.callers.set i c }

def Pool.setWorker (s : Pool K) (i : Nat) (w : Worker K) : Pool K :=
  { s with workers := s.workers.set i w }

def Pool.lock (s : Pool K) (t : Thread) : Option (Pool K) :=
  if s.inflightMu = none then some { s with inflightMu := some t } else none

def Pool.unlock (s : Pool K) : Pool K := { s with inflightMu := none }

def Pool.send (capacity : Nat) (s : Pool K) (job : Refresh K) : Option (Pool K) :=
  if s.revalidateC.length < capacity then some { s with revalidateC := s.revalidateC ++ [job] }
  else none

def Caller.swr (key : K) : Caller K := .sending (.revalidate key)

def Caller.swrMany (staleKeys : List K) : Caller K :=
  if staleKeys = [] then .returned else .sending (.revalidateMany staleKeys)

def Caller.swrWithFallback (key : K) : Caller K := .locking key

def Worker.start : Refresh K → Worker K
  | .revalidate key => .locking (.revalidate key)
  | .revalidateMany keys => .locking (.revalidateMany keys)
  | .revalidateWithCanonicalKey dedupeKey => .refreshing [dedupeKey]

inductive PoolStep (K : Type) where
  | swr (key : K)
  | swrMany (staleKeys : List K)
  | swrWithFallback (key : K)
  | caller (i : Nat)
  | worker (i : Nat)
  deriving DecidableEq

variable [DecidableEq K]

/-- The loop of `revalidateMany`: the keys without a refresh under way are marked. -/
def markMissing (inflight : K → Bool) : List K → (K → Bool) × List K
  | [] => (inflight, [])
  | key :: keys =>
    if inflight key then markMissing inflight keys
    else
      let r := markMissing (Function.update inflight key true) keys
      (r.1, key :: r.2)

/-- The keys a closure marks under the mutex; those of `revalidateWithCanonicalKey` were marked by
its caller. -/
def Refresh.mark (inflight : K → Bool) : Refresh K → (K → Bool) × List K
  | .revalidate key => markMissing inflight [key]
  | .revalidateMany keys => markMissing inflight keys
  | .revalidateWithCanonicalKey dedupeKey => (inflight, [dedupeKey])

def unmark (inflight : K → Bool) (keys : List K) : K → Bool :=
  keys.foldl (fun m key => Function.update m key false) inflight

/-- One step of a caller: sending a job, or `SWRWithFallback` around `inflightMu`. -/
def callerStep (capacity : Nat) (s : Pool K) (i : Nat) : Caller K → Option (Pool K)
  | .sending job => (s.send capacity job).map fun s => s.setCaller i .returned
  | .locking key => (s.lock (.caller i)).map fun s => s.setCaller i (.checking key)
  | .checking key =>
    if s.inflightRefreshes key then some (s.setCaller i .unlocking)
    else some ({ s with inflightRefreshes := Function.update s.inflightRefreshes key true }.setCaller
      i (.sendingLocked key))
  | .sendingLocked key =>
    (s.send capacity (.revalidateWithCanonicalKey key)).map fun s => s.setCaller i .unlocking
  | .unlocking => some (s.unlock.setCaller i .returned)
  | .returned => none

def workerStep (s : Pool K) (i : Nat) : Worker K → Option (Pool K)
  | .receiving =>
    match s.revalidateC with
    | [] => none
    | job :: rest => some ({ s with revalidateC := rest }.setWorker i (.start job))
  | .locking job => (s.lock (.worker i)).map fun s => s.setWorker i (.marking job)
  | .marking job =>
    let r := job.mark s.inflightRefreshes
    some ({ s with inflightRefreshes := r.1 }.unlock.setWorker i
      (if r.2 = [] then .receiving else .refreshing r.2))
  | .refreshing marked => some (s.setWorker i (.lockingAgain marked))
  | .lockingAgain marked => (s.lock (.worker i)).map fun s => s.setWorker i (.clearing marked)
  | .clearing marked =>
    some ({ s with inflightRefreshes := unmark s.inflightRefreshes marked }.unlock.setWorker i
      .receiving)

def poolStep (capacity : Nat) (s : Pool K) : PoolStep K → Option (Pool K)
  | .swr key => some { s with callers := s.callers ++ [.swr key] }
  | .swrMany staleKeys => some { s with callers := s.callers ++ [.swrMany staleKeys] }
  | .swrWithFallback key => some { s with callers := s.callers ++ [.swrWithFallback key] }
  | .caller i => s.callers[i]?.bind (callerStep capacity s i)
  | .worker i => s.workers[i]?.bind (workerStep s i)

end Model

/-! ### Deadlock -/

section Deadlock

variable {K : Type}

def Worker.waits : Worker K → Bool
  | .locking _ | .lockingAgain _ => true
  | .receiving | .marking _ | .refreshing _ | .clearing _ => false

/-- A caller sends under the mutex into a full channel, and every worker waits for the mutex. -/
def Pool.Deadlocked (capacity : Nat) (s : Pool K) : Prop :=
  (∃ i key, s.inflightMu = some (.caller i) ∧ s.callers[i]? = some (.sendingLocked key)) ∧
    capacity ≤ s.revalidateC.length ∧ ∀ w ∈ s.workers, w.waits

def Caller.inside : Caller K → Bool
  | .checking _ | .sendingLocked _ => true
  | .sending _ | .locking _ | .unlocking | .returned => false

def Caller.isLocking : Caller K → Bool
  | .locking _ => true
  | .sending _ | .checking _ | .sendingLocked _ | .unlocking | .returned => false

def Caller.isSending : Caller K → Bool
  | .sending _ => true
  | .locking _ | .checking _ | .sendingLocked _ | .unlocking | .returned => false

/-- `SWRWithFallback` takes the mutex only while the channel has room, and no call sends into the
last place of the channel while `SWRWithFallback` has the mutex and has not sent yet. -/
def LeavesRoom (capacity : Nat) (s : Pool K) : PoolStep K → Prop
  | .caller i =>
    (s.callers[i]?.any Caller.isLocking → s.revalidateC.length < capacity) ∧
      (s.callers[i]?.any Caller.isSending → s.callers.any Caller.inside →
        s.revalidateC.length + 1 < capacity)
  | .swr _ | .swrMany _ | .swrWithFallback _ | .worker _ => True

instance (capacity : Nat) (s : Pool K) (l : PoolStep K) : Decidable (LeavesRoom capacity s l) := by
  cases l <;> unfold LeavesRoom <;> infer_instance

end Deadlock

/-! ### The holder of the mutex -/

variable {i : Nat}

section Holder

variable {K : Type} {s s' : Pool K}

def Caller.holds : Caller K → Bool
  | .checking _ | .sendingLocked _ | .unlocking => true
  | .sending _ | .locking _ | .returned => false

def Worker.holds : Worker K → Bool
  | .marking _ | .clearing _ => true
  | .receiving | .locking _ | .refreshing _ | .lockingAgain _ => false

def Pool.holds (s : Pool K) : Thread → Bool
  | .caller i => s.callers[i]?.any Caller.holds
  | .worker i => s.workers[i]?.any Worker.holds

/-- Whoever is between lock and unlock is the holder of the mutex. -/
def Pool.Exclusive (s : Pool K) : Prop := ∀ t, s.holds t → s.inflightMu = some t

theorem Pool.holds_setCaller {old : Caller K} (hi : s.callers[i]? = some old)
    (c : Caller K) (t : Thread) :
    (s.setCaller i c).holds t = if t = .caller i then c.holds else s.holds t := by
  obtain ⟨hlt, -⟩ := List.getElem?_eq_some_iff.mp hi
  cases t with
  | caller j => grind [Pool.holds, Pool.setCaller, List.getElem?_set_ne]
  | worker j => rfl

theorem Pool.holds_setWorker {old : Worker K} (hi : s.workers[i]? = some old)
    (w : Worker K) (t : Thread) :
    (s.setWorker i w).holds t = if t = .worker i then w.holds else s.holds t := by
  obtain ⟨hlt, -⟩ := List.getElem?_eq_some_iff.mp hi
  cases t with
  | worker j => grind [Pool.holds, Pool.setWorker, List.getElem?_set_ne]
  | caller j => rfl

theorem Pool.lock_eq_some {t : Thread} (hlock : s.lock t = some s') :
    s.inflightMu = none ∧ s' = { s with inflightMu := some t } := by
  rw [Pool.lock] at hlock
  split at hlock
  · rename_i hfree
    exact ⟨hfree, (Option.some.inj hlock).symm⟩
  · cases hlock

theorem Pool.send_eq_some {capacity : Nat} {job : Refresh K}
    (hsend : s.send capacity job = some s') :
    s.revalidateC.length < capacity ∧ s' = { s with revalidateC := s.revalidateC ++ [job] } := by
  rw [Pool.send] at hsend
  split at hsend
  · rename_i hroom
    exact ⟨hroom, (Option.some.inj hsend).symm⟩
  · cases hsend

theorem Pool.Exclusive.keep (hs : s.Exclusive) {u : Thread} {b : Bool}
    (hmu : s'.inflightMu = s.inflightMu)
    (hholds : ∀ t, s'.holds t = if t = u then b else s.holds t) (hb : b → s.holds u) :
    s'.Exclusive := by
  intro t ht
  rw [hmu]
  apply hs
  rw [hholds] at ht
  split at ht
  · rename_i htu
    rw [htu]
    exact hb ht
  · exact ht

theorem Pool.Exclusive.acquire (hs : s.Exclusive) {u : Thread} {b : Bool}
    (hfree : s.inflightMu = none) (hmu : s'.inflightMu = some u)
    (hholds : ∀ t, s'.holds t = if t = u then b else s.holds t) : s'.Exclusive := by
  intro t ht
  rw [hholds] at ht
  split at ht
  · rename_i htu
    rw [hmu, htu]
  · have hheld := hs t ht
    rw [hfree] at hheld
    cases hheld

theorem Pool.Exclusive.release (hs : s.Exclusive) {u : Thread} {b : Bool} (hu : s.holds u)
    (hholds : ∀ t, s'.holds t = if t = u then b else s.holds t) (hb : b = false) :
    s'.Exclusive := by
  intro t ht
  rw [hholds, hb] at ht
  split at ht
  · cases ht
  · rename_i hne
    -- Another thread would have the mutex too.
    have heq : some t = some u := (hs t ht).symm.trans (hs u hu)
    exact absurd (Option.some.inj heq) hne

theorem Pool.Exclusive.call (hs : s.Exclusive) {c : Caller K} (hc : c.holds = false) :
    Pool.Exclusive { s with callers := s.callers ++ [c] } := by
  intro t ht
  apply hs
  cases t with
  | worker i => exact ht
  | caller i =>
    simp only [Pool.holds] at ht ⊢
    rcases Nat.lt_trichotomy i s.callers.length with hlt | heq | hgt
    · rwa [List.getElem?_append_left hlt] at ht
    · rw [heq, List.getElem?_concat_length, Option.any_some, hc] at ht
      cases ht
    · rw [List.getElem?_eq_none (by simp; omega)] at ht
      cases ht

theorem Pool.Exclusive.new (workers : Nat) : (Pool.new workers : Pool K).Exclusive := by
  intro t ht
  cases t with
  | caller i => simp [Pool.holds, Pool.new] at ht
  | worker i =>
    simp only [Pool.holds, Pool.new, List.getElem?_replicate] at ht
    split at ht <;> cases ht

variable [DecidableEq K]

theorem Pool.Exclusive.callerStep (hs : s.Exclusive) {capacity : Nat} {c : Caller K}
    (hi : s.callers[i]? = some c) (hstep : callerStep capacity s i c = some s') :
    s'.Exclusive := by
  have hown : c.holds → s.holds (.caller i) := fun h => by
    rw [Pool.holds, hi]
    exact h
  cases c with
  | sending job =>
    obtain ⟨t, hsend, rfl⟩ := Option.map_eq_some_iff.mp hstep
    obtain ⟨-, rfl⟩ := Pool.send_eq_some hsend
    exact hs.keep rfl (Pool.holds_setCaller hi _) nofun
  | locking key =>
    obtain ⟨t, hlock, rfl⟩ := Option.map_eq_some_iff.mp hstep
    obtain ⟨hfree, rfl⟩ := Pool.lock_eq_some hlock
    exact hs.acquire hfree rfl (Pool.holds_setCaller hi _)
  | checking key =>
    rw [Swr.callerStep] at hstep
    split at hstep
    · cases hstep
      exact hs.keep rfl (Pool.holds_setCaller hi _) (fun _ => hown rfl)
    · cases hstep
      exact hs.keep rfl (Pool.holds_setCaller hi _) (fun _ => hown rfl)
  | sendingLocked key =>
    obtain ⟨t, hsend, rfl⟩ := Option.map_eq_some_iff.mp hstep
    obtain ⟨-, rfl⟩ := Pool.send_eq_some hsend
    exact hs.keep rfl (Pool.holds_setCaller hi _) (fun _ => hown rfl)
  | unlocking =>
    cases hstep
    exact hs.release (hown rfl) (Pool.holds_setCaller hi _) rfl
  | returned => cases hstep

theorem Pool.Exclusive.workerStep (hs : s.Exclusive) {w : Worker K}
    (hi : s.workers[i]? = some w) (hstep : workerStep s i w = some s') : s'.Exclusive := by
  have hown : w.holds → s.holds (.worker i) := fun h => by
    rw [Pool.holds, hi]
    exact h
  cases w with
  | receiving =>
    rw [Swr.workerStep] at hstep
    split at hstep
    · cases hstep
    · rename_i job rest hqueue
      cases hstep
      refine hs.keep rfl (Pool.holds_setWorker hi _) (fun h => ?_)
      cases job <;> cases h
  | locking job =>
    obtain ⟨t, hlock, rfl⟩ := Option.map_eq_some_iff.mp hstep
    obtain ⟨hfree, rfl⟩ := Pool.lock_eq_some hlock
    exact hs.acquire hfree rfl (Pool.holds_setWorker hi _)
  | marking job =>
    cases hstep
    refine hs.release (hown rfl) (Pool.holds_setWorker hi _) ?_
    split <;> rfl
  | refreshing marked =>
    cases hstep
    exact hs.keep rfl (Pool.holds_setWorker hi _) nofun
  | lockingAgain marked =>
    obtain ⟨t, hlock, rfl⟩ := Option.map_eq_some_iff.mp hstep
    obtain ⟨hfree, rfl⟩ := Pool.lock_eq_some hlock
    exact hs.acquire hfree rfl (Pool.holds_setWorker hi _)
  | clearing marked =>
    cases hstep
    exact hs.release (hown rfl) (Pool.holds_setWorker hi _) rfl

theorem poolStep_cases {capacity : Nat} {l : PoolStep K} (hstep : poolStep capacity s l = some s') :
    (∃ c : Caller K, c.holds = false ∧ s' = { s with callers := s.callers ++ [c] }) ∨
    (∃ i c, l = .caller i ∧ s.callers[i]? = some c ∧ callerStep capacity s i c = some s') ∨
    ∃ i w, l = .worker i ∧ s.workers[i]? = some w ∧ workerStep s i w = some s' := by
  cases l with
  | swr key | swrWithFallback key => exact .inl ⟨_, rfl, (Option.some.inj hstep).symm⟩
  | swrMany staleKeys =>
    refine .inl ⟨Caller.swrMany staleKeys, ?_, (Option.some.inj hstep).symm⟩
    rw [Caller.swrMany]
    split <;> rfl
  | caller i =>
    obtain ⟨c, hi, hstep⟩ := Option.bind_eq_some_iff.mp hstep
    exact .inr (.inl ⟨i, c, rfl, hi, hstep⟩)
  | worker i =>
    obtain ⟨w, hi, hstep⟩ := Option.bind_eq_some_iff.mp hstep
    exact .inr (.inr ⟨i, w, rfl, hi, hstep⟩)

theorem Pool.Exclusive.poolStep (hs : s.Exclusive) {capacity : Nat} {l : PoolStep K}
    (hstep : poolStep capacity s l = some s') : s'.Exclusive := by
  obtain ⟨c, hc, rfl⟩ | ⟨i, c, -, hi, hstep⟩ | ⟨i, w, -, hi, hstep⟩ := poolStep_cases hstep
  · exact hs.call hc
  · exact hs.callerStep hi hstep
  · exact hs.workerStep hi hstep

end Holder

/-! ### A deadlock is for good -/

section Forever

variable {K : Type} {s s' : Pool K} {capacity : Nat}

theorem Pool.Deadlocked.call (hdead : s.Deadlocked capacity) (c : Caller K) :
    Pool.Deadlocked capacity { s with callers := s.callers ++ [c] } := by
  obtain ⟨⟨i, key, hmu, hi⟩, hfull, hwait⟩ := hdead
  obtain ⟨hlt, -⟩ := List.getElem?_eq_some_iff.mp hi
  exact ⟨⟨i, key, hmu, (List.getElem?_append_left hlt).trans hi⟩, hfull, hwait⟩

variable [DecidableEq K]

theorem Pool.Deadlocked.callerStep (hdead : s.Deadlocked capacity) (hex : s.Exclusive) {j : Nat}
    {c : Caller K} (hj : s.callers[j]? = some c) : callerStep capacity s j c = none := by
  obtain ⟨⟨i, key, hmu, hi⟩, hfull, -⟩ := hdead
  have hnosend (job : Refresh K) : s.send capacity job = none := if_neg (Nat.not_lt.mpr hfull)
  have hnolock (t : Thread) : s.lock t = none := if_neg (by rw [hmu]; exact Option.some_ne_none _)
  -- Only the caller that waits for the channel is between `Lock` and `Unlock`.
  have hother : c.holds → c = .sendingLocked key := by
    intro hholds
    have hmine : s.inflightMu = some (.caller j) := hex _ (by rw [Pool.holds, hj]; exact hholds)
    rw [hmu] at hmine
    cases hmine
    exact Option.some.inj (hj.symm.trans hi)
  cases c with
  | sending job => rw [Swr.callerStep, hnosend, Option.map_none]
  | locking key' => rw [Swr.callerStep, hnolock, Option.map_none]
  | sendingLocked key' => rw [Swr.callerStep, hnosend, Option.map_none]
  | checking key' => cases hother rfl
  | unlocking => cases hother rfl
  | returned => rfl

theorem Pool.Deadlocked.workerStep (hdead : s.Deadlocked capacity) {j : Nat} {w : Worker K}
    (hj : s.workers[j]? = some w) : workerStep s j w = none := by
  obtain ⟨⟨i, key, hmu, -⟩, -, hwait⟩ := hdead
  have hnolock (t : Thread) : s.lock t = none := if_neg (by rw [hmu]; exact Option.some_ne_none _)
  have hw := hwait w (List.mem_of_getElem? hj)
  cases w with
  | locking job => rw [Swr.workerStep, hnolock, Option.map_none]
  | lockingAgain marked => rw [Swr.workerStep, hnolock, Option.map_none]
  | receiving | marking _ | refreshing _ | clearing _ => cases hw

theorem Pool.Deadlocked.poolStep (hdead : s.Deadlocked capacity) (hex : s.Exclusive)
    {l : PoolStep K} (hstep : poolStep capacity s l = some s') : s'.Deadlocked capacity := by
  obtain ⟨c, -, rfl⟩ | ⟨j, c, -, hj, hstep⟩ | ⟨j, w, -, hj, hstep⟩ := poolStep_cases hstep
  · exact hdead.call c
  · rw [hdead.callerStep hex hj] at hstep
    cases hstep
  · rw [hdead.workerStep hj] at hstep
    cases hstep

/-- Nothing frees a pool that has deadlocked, new calls included. -/
theorem deadlocked_forever {workers : Nat} {past later : List (Pool K × PoolStep K)}
    (hrun : Run (Swr.poolStep capacity) (Pool.new workers) past s) (hdead : s.Deadlocked capacity)
    (hlater : Run (Swr.poolStep capacity) s later s') : s'.Deadlocked capacity := by
  have hex : s.Exclusive := hrun.invariant (P := fun _ s => s.Exclusive) (.new workers)
    (fun _ _ _ _ hs hstep => hs.poolStep hstep)
  exact (hlater.invariant (P := fun _ s => s.Exclusive ∧ s.Deadlocked capacity) ⟨hex, hdead⟩
    (fun _ _ _ _ h hstep => ⟨h.1.poolStep hstep, h.2.poolStep h.1 hstep⟩)).2

end Forever

/-! ### Room in the channel -/

section Room

variable {K : Type} {s s' : Pool K} {capacity : Nat}

/-- While a caller holds the mutex before its send, the channel has room. -/
def Pool.Roomy (capacity : Nat) (s : Pool K) : Prop :=
  ∀ (i : Nat) (c : Caller K), s.callers[i]? = some c → c.inside → s.revalidateC.length < capacity

theorem Caller.holds_of_inside {c : Caller K} (hc : c.inside) : c.holds := by
  cases c <;> first | rfl | cases hc

theorem Pool.Roomy.not_deadlocked (hs : s.Roomy capacity) : ¬ s.Deadlocked capacity := by
  rintro ⟨⟨i, key, -, hi⟩, hfull, -⟩
  have hroom := hs i _ hi rfl
  omega

theorem Pool.Roomy.call (hs : s.Roomy capacity) {c : Caller K} (hc : c.holds = false) :
    Pool.Roomy capacity { s with callers := s.callers ++ [c] } := by
  intro i d hi hd
  rcases Nat.lt_trichotomy i s.callers.length with hlt | heq | hgt
  · rw [List.getElem?_append_left hlt] at hi
    exact hs i d hi hd
  · grind [List.getElem?_concat_length, Caller.holds_of_inside]
  · rw [List.getElem?_eq_none (by simp; omega)] at hi
    cases hi

theorem Pool.Roomy.setCaller {c : Caller K}
    (hother : ∀ j d, j ≠ i → s.callers[j]? = some d → d.inside → s.revalidateC.length < capacity)
    (hself : c.inside → s.revalidateC.length < capacity) : (s.setCaller i c).Roomy capacity := by
  intro j d hj hd
  by_cases hji : j = i
  · grind [Pool.setCaller]
  · rw [Pool.setCaller, List.getElem?_set_ne (Ne.symm hji)] at hj
    exact hother j d hji hj hd

theorem Pool.Roomy.new (workers : Nat) : (Pool.new workers : Pool K).Roomy capacity := by
  intro i c hi
  simp [Pool.new] at hi

variable [DecidableEq K]

theorem Pool.Roomy.callerStep (hs : s.Roomy capacity) (hex : s.Exclusive) {c : Caller K}
    (hi : s.callers[i]? = some c) (hroom : LeavesRoom capacity s (.caller i))
    (hstep : callerStep capacity s i c = some s') : s'.Roomy capacity := by
  rw [LeavesRoom, hi] at hroom
  cases c with
  | sending job =>
    obtain ⟨t, hsend, rfl⟩ := Option.map_eq_some_iff.mp hstep
    obtain ⟨-, rfl⟩ := Pool.send_eq_some hsend
    refine Pool.Roomy.setCaller (fun j d _ hj hd => ?_) nofun
    have hany : s.callers.any Caller.inside :=
      List.any_eq_true.mpr ⟨d, List.mem_of_getElem? hj, hd⟩
    rw [List.length_append, List.length_singleton]
    exact hroom.2 rfl hany
  | locking key =>
    obtain ⟨t, hlock, rfl⟩ := Option.map_eq_some_iff.mp hstep
    obtain ⟨-, rfl⟩ := Pool.lock_eq_some hlock
    exact Pool.Roomy.setCaller (fun _ _ _ _ _ => hroom.1 rfl) (fun _ => hroom.1 rfl)
  | checking key =>
    have hlt : s.revalidateC.length < capacity := hs i _ hi rfl
    rw [Swr.callerStep] at hstep
    split at hstep
    · cases hstep
      exact Pool.Roomy.setCaller (fun _ _ _ _ _ => hlt) (fun _ => hlt)
    · cases hstep
      exact Pool.Roomy.setCaller (fun _ _ _ _ _ => hlt) (fun _ => hlt)
  | sendingLocked key =>
    obtain ⟨t, hsend, rfl⟩ := Option.map_eq_some_iff.mp hstep
    obtain ⟨-, rfl⟩ := Pool.send_eq_some hsend
    refine Pool.Roomy.setCaller (fun j d hji hj hd => ?_) nofun
    -- Nobody else is inside: it would have the mutex too.
    have hmine : s.inflightMu = some (.caller i) := hex _ (by rw [Pool.holds, hi]; rfl)
    have htheirs : s.inflightMu = some (.caller j) :=
      hex _ (by rw [Pool.holds, show s.callers[j]? = some d from hj]; exact Caller.holds_of_inside hd)
    rw [hmine] at htheirs
    cases htheirs
    exact absurd rfl hji
  | unlocking =>
    cases hstep
    exact Pool.Roomy.setCaller (fun j d _ hj hd => hs j d hj hd) nofun
  | returned => cases hstep

theorem workerStep_frame {w : Worker K} (hstep : workerStep s i w = some s') :
    s'.callers = s.callers ∧ s'.revalidateC.length ≤ s.revalidateC.length := by
  cases w with
  | receiving =>
    rw [Swr.workerStep] at hstep
    split at hstep
    · cases hstep
    · rename_i job rest hqueue
      cases hstep
      refine ⟨rfl, ?_⟩
      rw [hqueue, List.length_cons]
      exact Nat.le_succ _
  | locking _ | lockingAgain _ =>
    obtain ⟨t, hlock, rfl⟩ := Option.map_eq_some_iff.mp hstep
    obtain ⟨-, rfl⟩ := Pool.lock_eq_some hlock
    exact ⟨rfl, Nat.le_refl _⟩
  | marking _ | refreshing _ | clearing _ =>
    cases hstep
    exact ⟨rfl, Nat.le_refl _⟩

theorem Pool.Roomy.poolStep (hs : s.Roomy capacity) (hex : s.Exclusive) {l : PoolStep K}
    (hroom : LeavesRoom capacity s l) (hstep : poolStep capacity s l = some s') :
    s'.Roomy capacity := by
  obtain ⟨c, hc, rfl⟩ | ⟨i, c, rfl, hi, hstep⟩ | ⟨i, w, rfl, hi, hstep⟩ := poolStep_cases hstep
  · exact hs.call hc
  · exact hs.callerStep hex hi hroom hstep
  · obtain ⟨hcallers, hle⟩ := workerStep_frame hstep
    intro j d hj hd
    rw [hcallers] at hj
    exact Nat.lt_of_le_of_lt hle (hs j d hj hd)

/-- In a run that leaves room for `SWRWithFallback`, the revalidations do not deadlock. -/
theorem not_deadlocked_of_leavesRoom (capacity workers : Nat) {past : List (Pool K × PoolStep K)}
    {s : Pool K} (hrun : Run (poolStep capacity) (Pool.new workers) past s)
    (hroom : Always (fun _ s l => LeavesRoom capacity s l) past) : ¬ s.Deadlocked capacity := by
  have hkept : s.Exclusive ∧ s.Roomy capacity :=
    hrun.invariant_always (P := fun _ s => s.Exclusive ∧ s.Roomy capacity)
      ⟨.new workers, .new workers⟩
      (fun _ _ _ _ h hroom hstep => ⟨h.1.poolStep hstep, h.2.poolStep h.1 hroom hstep⟩) hroom
  exact hkept.2.not_deadlocked

end Room

def queuedRefresh : List (PoolStep Nat) :=
  [.swrWithFallback 7, .caller 0, .swr 8, .caller 0, .caller 0, .caller 1, .caller 0, .worker 3]

theorem not_deadlocked_of_leavesRoom_queuedRefresh :
    ∃ past s, Run (poolStep revalidateCapacity) (Pool.new revalidateWorkers) past s ∧
      ¬ s.Deadlocked revalidateCapacity ∧
      s.revalidateC = [Refresh.revalidate 8] ∧ s.workers[3]? = some (.refreshing [7]) := by
  refine Run.exists_of_record (P := fun past s =>
      Always (fun _ s l => LeavesRoom revalidateCapacity s l) past ∧
      s.revalidateC = [.revalidate 8] ∧ s.workers[3]? = some (.refreshing [7]))
    queuedRefresh (by decide +kernel) ?_
  rintro past s hrun ⟨hroom, hqueue, hworker⟩
  exact ⟨not_deadlocked_of_leavesRoom _ _ hrun hroom, hqueue, hworker⟩

/-! ### How the pool gets stuck -/

section Stuck

def Reachable {K : Type} [DecidableEq K] (capacity workers : Nat) (s : Pool K) : Prop :=
  ∃ past, Run (poolStep capacity) (Pool.new workers) past s

variable {capacity workers : Nat} {s s' : Pool Nat}

theorem Reachable.next {l : PoolStep Nat} (hs : Reachable capacity workers s)
    (hstep : poolStep capacity s l = some s') : Reachable capacity workers s' := by
  obtain ⟨past, hrun⟩ := hs
  exact ⟨_, hrun.next hstep⟩

theorem Reachable.swr (hs : Reachable capacity workers s) (key : Nat)
    (hroom : s.revalidateC.length < capacity) :
    Reachable capacity workers { s with
      revalidateC := s.revalidateC ++ [.revalidate key], callers := s.callers ++ [.returned] } := by
  have hcall : Reachable capacity workers { s with callers := s.callers ++ [.swr key] } :=
    hs.next (l := .swr key) rfl
  refine hcall.next (l := .caller s.callers.length) ?_
  simp [poolStep, Caller.swr, callerStep, Pool.send, hroom, Pool.setCaller]

theorem exists_locking (hcap : 0 < capacity) (n m : Nat) :
    ∃ callers, Reachable capacity (n + m) (Pool.mk none (fun _ => false) [] callers
      (List.replicate n (.locking (.revalidate 0)) ++ List.replicate m .receiving)) := by
  induction n generalizing m with
  | zero => exact ⟨[], [], by rw [Nat.zero_add]; exact .start⟩
  | succ n ih =>
    obtain ⟨callers, hs⟩ := ih (m + 1)
    rw [show n + 1 + m = n + (m + 1) by omega]
    refine ⟨callers ++ [.returned], (hs.swr 0 hcap).next (l := .worker n) ?_⟩
    rw [List.replicate_succ' (n := n), List.append_assoc]
    simp [poolStep, workerStep, Worker.start, Pool.setWorker, List.replicate_succ (n := m)]

theorem Reachable.fill (hs : Reachable capacity workers s) (n : Nat)
    (hn : s.revalidateC.length + n ≤ capacity) :
    ∃ queue callers, queue.length = s.revalidateC.length + n ∧
      Reachable capacity workers { s with revalidateC := queue, callers := callers } := by
  induction n with
  | zero => exact ⟨s.revalidateC, s.callers, rfl, hs⟩
  | succ n ih =>
    obtain ⟨queue, callers, hlen, hreach⟩ := ih (by omega)
    refine ⟨queue ++ [.revalidate 0], callers ++ [.returned], ?_, hreach.swr 0 ?_⟩
    · rw [List.length_append, hlen]
      rfl
    · show queue.length < capacity
      omega

theorem Reachable.block (hs : Reachable capacity workers s) (key : Nat)
    (hfree : s.inflightMu = none) (hnew : s.inflightRefreshes key = false) :
    Reachable capacity workers { s with
      inflightMu := some (.caller s.callers.length)
      inflightRefreshes := Function.update s.inflightRefreshes key true
      callers := s.callers ++ [.sendingLocked key] } := by
  have hcall := hs.next (l := .swrWithFallback key) rfl
  have hlock : Reachable capacity workers { s with
      inflightMu := some (.caller s.callers.length), callers := s.callers ++ [.checking key] } := by
    refine hcall.next (l := .caller s.callers.length) ?_
    simp [poolStep, Caller.swrWithFallback, callerStep, Pool.lock, hfree, Pool.setCaller]
  refine hlock.next (l := .caller s.callers.length) ?_
  simp [poolStep, callerStep, hnew, Pool.setCaller]

theorem exists_deadlocked (capacity workers : Nat) (hcap : 0 < capacity) :
    ∃ s : Pool Nat, Reachable capacity workers s ∧ s.Deadlocked capacity := by
  obtain ⟨callers, hs⟩ := exists_locking hcap workers 0
  obtain ⟨queue, callers, hqueue, hfull⟩ := hs.fill capacity (by simp)
  refine ⟨_, hfull.block 0 rfl rfl, ⟨callers.length, 0, rfl, List.getElem?_concat_length⟩, ?_, ?_⟩
  · show capacity ≤ queue.length
    simp [hqueue]
  · intro w hw
    rw [List.replicate_zero, List.append_nil] at hw
    rw [List.eq_of_mem_replicate hw]
    rfl

/-- With the channel and the workers of `New`, a state is reached in which a caller with the mutex
waits for room in the channel and every worker for the mutex. -/
theorem deadlocked_reachable :
    ∃ past s, Run (poolStep revalidateCapacity) (Pool.new revalidateWorkers : Pool Nat) past s ∧
      s.Deadlocked revalidateCapacity := by
  obtain ⟨s, ⟨past, hrun⟩, hdead⟩ :=
    exists_deadlocked revalidateCapacity revalidateWorkers (by decide)
  exact ⟨past, s, hrun, hdead⟩

theorem deadlocked_forever_full :
    ∃ s : Pool Nat, s.Deadlocked revalidateCapacity ∧ ∀ later s',
      Run (poolStep revalidateCapacity) s later s' → s'.Deadlocked revalidateCapacity := by
  obtain ⟨s, ⟨past, hrun⟩, hdead⟩ :=
    exists_deadlocked revalidateCapacity revalidateWorkers (by decide)
  exact ⟨s, hdead, fun _ _ hlater => deadlocked_forever hrun hdead hlater⟩

end Stuck

end Unkey.Swr
