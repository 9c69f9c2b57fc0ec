import Unkey.Base.Protocol
import Unkey.Ratelimit.Service

/-!
# Rules for the parts of a call that touch no count

Most of a call only moves freshness deadlines, strict-mode deadlines and push thresholds, or reads.
-/

namespace Unkey.Ratelimit

open Unkey.Base

def Target.quiet : Target → Bool
  | .entry _ .val | .entry _ .speculative | .entry _ .globalCount => false
  | .entry _ .originFreshUntilMs | .entry _ .globalPushThreshold | .entry _ .lastPushed
  | .strict _ => true

/-- Operations that write no count, other than the two loads that matter for a later write: the
load of a merge into a count, and the load of `speculative`. -/
def Op.Quiet : Op → Prop
  | .now | .hydrated _ | .setHydrated _ | .onceEnter _ | .onceLeave _ | .lockStale _
  | .unlockStale _ | .range => True
  | .load t merging => (∀ k, t ≠ .entry k .speculative) ∧ (merging = true → t.quiet = true)
  | .cas t _ _ => t.quiet = true
  | .add t _ => t.quiet = true
  | .fetchOrigin _ | .increment _ _ | .buffer _ | .consume | .upsert _ | .imported _ => False

variable {t : Target}

theorem Target.quiet_ne_speculative (ht : t.quiet = true) (k : CounterKey) :
    t ≠ .entry k .speculative := by
  rintro rfl
  cases ht

theorem Op.quiet_load_entry (k : CounterKey) {f : Field} (hf : f ≠ .speculative) :
    Op.Quiet (.load (.entry k f) false) := by
  refine ⟨?_, nofun⟩
  rintro l heq
  cases heq
  exact hf rfl

theorem Op.quiet_load_strict (k : StrictKey) : Op.Quiet (.load (.strict k) false) :=
  ⟨nofun, nofun⟩

theorem Op.Quiet.ne_upsert {o : Op} (ho : o.Quiet) (rows : List GlobalRow) : o ≠ .upsert rows := by
  rintro rfl
  exact ho

theorem Op.Quiet.writes_ne {o : Op} (ho : o.Quiet) (ht : t.quiet = false) :
    o.writes ≠ some t := by
  intro heq
  cases o with
  | cas u old new =>
    cases heq
    rw [show t.quiet = true from ho] at ht
    cases ht
  | add u delta =>
    cases heq
    rw [show t.quiet = true from ho] at ht
    cases ht
  | now | load _ _ | hydrated _ | setHydrated _ | onceEnter _ | onceLeave _ | lockStale _
  | unlockStale _ | fetchOrigin _ | increment _ _ | buffer _ | consume | range | upsert _
  | imported _ => cases heq

structure CheckState.For (req : RatelimitRequest) (cs : CheckState) : Prop where
  cur : cs.cur = req.curKey
  prev : cs.prev = req.prevKey
  strictKey : cs.strictKey = req.strictKey
  elapsedMs : cs.elapsedMs = unixMilli req.time - req.curKey.sequence * req.curKey.durationMs
  durationMs : cs.durationMs = req.curKey.durationMs
  reset : cs.reset = req.curKey.sequence * req.curKey.durationMs * 1000000 + req.duration

section Rules

variable {σ Call Choice G : Type} {P : Protocol σ Call Op Op.Ret Note Choice G}
  {apply : Call → (op : Op) → Choice → σ → Option (op.Ret × σ)} {c : Call} {i : Nat}
  {A : Assertion σ Call Note G} {Good : (op : Op) → op.Ret → Prop}

def Steady (P : Protocol σ Call Op Op.Ret Note Choice G)
    (apply : Call → (op : Op) → Choice → σ → Option (op.Ret × σ)) (c : Call) (i : Nat)
    (A : Assertion σ Call Note G) (Good : (op : Op) → op.Ret → Prop) : Prop :=
  ∀ op : Op, op.Quiet → P.Triple apply c i A (Prog.perform op) fun r s h gs => Good op r ∧ A s h gs

def Fetches (P : Protocol σ Call Op Op.Ret Note Choice G)
    (apply : Call → (op : Op) → Choice → σ → Option (op.Ret × σ)) (c : Call) (i : Nat)
    (A : Assertion σ Call Note G) : Prop :=
  ∀ k, P.Keeps apply c i A (fetchInto k)

theorem noteMerged_of_quiet (ht : t.quiet = true) (v : Int) :
    noteMerged t v = pure () := by
  match t, ht with
  | .entry _ .originFreshUntilMs, _ => rfl
  | .entry _ .globalPushThreshold, _ => rfl
  | .entry _ .lastPushed, _ => rfl
  | .strict _, _ => rfl

theorem keeps_atomicMax {v : Int}
    (hload : P.Triple apply c i A (loadMerging t) fun cur =>
      if v ≤ cur then P.wp apply c i (noteMerged t v) fun _ => A else A)
    (hswap : ∀ cur, cur < v → P.Triple apply c i A (compareAndSwap t cur v) fun swapped =>
      if swapped then P.wp apply c i (noteMerged t v) fun _ => A else A) :
    P.Keeps apply c i A (atomicMax t v) := by
  unfold atomicMax
  -- the assertion is the invariant of the loop, whatever is left of the retries
  generalize maxCASRetries = retries
  induction retries with
  | zero => exact .skip
  | succ retries ih =>
    refine hload.bind fun cur => ?_
    by_cases hle : v ≤ cur
    · simp only [if_pos hle]
      exact fun _ _ _ hnote => hnote
    · simp only [if_neg hle]
      refine (hswap cur (not_le.mp hle)).bind ?_
      rintro (_ | _)
      · exact ih
      · exact fun _ _ _ hnote => hnote

namespace Steady

variable (hA : Steady P apply c i A Good)

include hA

theorem bind {o : Op} (hop : o.Quiet) {α : Type} {f : o.Ret → Code α}
    {Q : α → Assertion σ Call Note G} (hf : ∀ r, Good o r → P.Triple apply c i A (f r) Q) :
    P.Triple apply c i A (Prog.perform o >>= f) Q :=
  (hA o hop).bind fun r _ _ _ hr => hf r hr.1 hr.2

theorem perform {o : Op} (hop : o.Quiet) : P.Keeps apply c i A (Prog.perform o) :=
  (hA o hop).mono fun _ _ _ _ hr => hr.2

theorem atomicMax (ht : t.quiet = true) (v : Int) : P.Keeps apply c i A (atomicMax t v) := by
  have hnote : P.Keeps apply c i A (noteMerged t v) := by
    rw [noteMerged_of_quiet ht]
    exact .skip
  refine keeps_atomicMax ?_ fun cur _ => ?_
  · refine (hA.perform (o := .load t true)
      ⟨Target.quiet_ne_speculative ht, fun _ => ht⟩).mono fun cur s h gs h0 => ?_
    split
    · exact hnote h0
    · exact h0
  · refine (hA.perform (o := .cas t cur v) ht).mono fun swapped s h gs h0 => ?_
    split
    · exact hnote h0
    · exact h0

theorem observe (F : Floats) (k : CounterKey) (limit : Int) :
    P.Keeps apply c i A (observeGlobalPushLimit F k limit) := by
  unfold observeGlobalPushLimit
  generalize maxCASRetries = n
  induction n with
  | zero => exact .skip
  | succ n ih =>
    refine hA.bind (o := .load (.entry k .globalPushThreshold) false)
      (Op.quiet_load_entry k (by decide)) fun cur _ => ?_
    split
    · exact .skip
    · refine hA.bind (o := .cas (.entry k .globalPushThreshold) cur _) rfl ?_
      rintro (_ | _) -
      · exact ih
      · exact .skip

theorem refresh (hfetch : Fetches P apply c i A) (k : CounterKey) (time : Int) :
    P.Keeps apply c i A (refresh k time) := by
  refine (hfetch k).bind ?_
  rintro (_ | _)
  · exact hA.atomicMax rfl _
  · exact hA.atomicMax rfl _

theorem ensureFreshFromOrigin (hfetch : Fetches P apply c i A) (k : CounterKey) (time : Int) :
    P.Keeps apply c i A (ensureFreshFromOrigin k time) := by
  have hfresh : Op.Quiet (.load (.entry k .originFreshUntilMs) false) :=
    Op.quiet_load_entry k (by decide)
  refine hA.bind (o := .hydrated k) trivial ?_
  rintro (_ | _) -
  · -- a cold entry
    refine hA.bind (o := .onceEnter k) trivial ?_
    rintro (_ | _) -
    · exact .skip
    · refine (hA.refresh hfetch k time).bind fun _ => ?_
      exact hA.bind (o := .setHydrated k) trivial fun _ _ => hA.perform (o := .onceLeave k) trivial
  · -- a warm entry
    refine hA.bind (o := .load (.entry k .originFreshUntilMs) false) hfresh fun freshUntil _ => ?_
    split
    · exact .skip
    · have hunlock := hA.perform (o := .unlockStale k) trivial
      refine hA.bind (o := .lockStale k) trivial fun _ _ => ?_
      refine hA.bind (o := .load (.entry k .originFreshUntilMs) false) hfresh fun freshUntil _ => ?_
      split
      · exact hunlock
      · exact (hA.refresh hfetch k time).bind fun _ => hunlock

theorem strictRefresh (hfetch : Fetches P apply c i A) (req : RatelimitRequest) :
    P.Keeps apply c i A (strictRefresh req) := by
  refine hA.bind (o := .load (.strict req.strictKey) false) (Op.quiet_load_strict _) fun _ _ => ?_
  split
  · refine (hfetch req.curKey).bind ?_
    rintro (_ | _)
    · exact .skip
    · exact hA.atomicMax rfl _
  · exact .skip

theorem shouldPushGlobalCount (k : CounterKey) (val : Int) :
    P.Keeps apply c i A (shouldPushGlobalCount k val) := by
  refine hA.bind (o := .load (.entry k .lastPushed) false)
    (Op.quiet_load_entry k (by decide)) fun (lastPushed : Int) _ => ?_
  split
  · exact .skip
  · refine hA.bind (o := .load (.entry k .globalCount) false)
      (Op.quiet_load_entry k (by decide)) fun (globalCount : Int) _ => ?_
    split
    · exact .skip
    · exact hA.bind (o := .load (.entry k .globalPushThreshold) false)
        (Op.quiet_load_entry k (by decide)) fun _ _ _ _ _ h0 => h0

theorem prepareCheck (hfetch : Fetches P apply c i A) (req : RatelimitRequest) :
    P.Triple apply c i A (prepareCheck req) fun cs s h gs => cs.For req ∧
      Good (.load (.entry req.curKey .globalCount) false) cs.curGlobal ∧
      Good (.load (.entry req.prevKey .globalCount) false) cs.prevGlobal ∧ A s h gs := by
  refine (hA.ensureFreshFromOrigin hfetch req.curKey req.time).bind fun _ => ?_
  refine (hA.ensureFreshFromOrigin hfetch req.prevKey req.time).bind fun _ => ?_
  refine (hA.strictRefresh hfetch req).bind fun _ => ?_
  refine hA.bind (o := .load (.entry req.curKey .globalCount) false)
    (Op.quiet_load_entry _ (by decide)) fun curGlobal hcur => ?_
  refine hA.bind (o := .load (.entry req.prevKey .globalCount) false)
    (Op.quiet_load_entry _ (by decide)) fun prevGlobal hprev s h gs h0 => ?_
  exact ⟨⟨rfl, rfl, rfl, rfl, rfl, rfl⟩, hcur, hprev, h0⟩

end Steady

end Rules

end Unkey.Ratelimit
