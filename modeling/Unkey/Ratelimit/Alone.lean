import Unkey.Base.Alone
import Unkey.Ratelimit.Bookkeeping

/-!
# Parts of a call, run alone

A node in surroundings that answer the same question in the same way every time.
-/

namespace Unkey.Ratelimit

open Unkey.Base

variable (F : Floats) (E : Op → Env)

def answerAlone (op : Op) (n : Node) : Option (op.Ret × Node) := n.apply (E op) op

def originOf (k : CounterKey) : Option Int := (E (.fetchOrigin k)).origin

def fetched (k : CounterKey) (v : Int) : Int :=
  match originOf E k with
  | some count => max v count
  | none => v

def observed (threshold limit : Int) : Int :=
  if threshold ≠ 0 ∧ threshold ≤ max (F.pushThreshold limit) 1 then threshold
  else max (F.pushThreshold limit) 1

def pushBuffer (buffer : List RatelimitRequest) (req : RatelimitRequest) : List RatelimitRequest :=
  if buffer.length < replayCapacity then buffer ++ [req] else buffer

namespace Node

def raise (n : Node) (t : Target) (v : Int) : Node := if v ≤ n.get t then n else n.put t v

def merge (k : CounterKey) (n : Node) : Node :=
  match originOf E k with
  | some count => n.raise (.entry k .val) count
  | none => n

def plus (n : Node) (t : Target) (d : Int) : Node := n.put t (n.get t + d)

def observe (n : Node) (k : CounterKey) (limit : Int) : Node :=
  n.put (.entry k .globalPushThreshold) (observed F (n.get (.entry k .globalPushThreshold)) limit)

def push (n : Node) (req : RatelimitRequest) : Node :=
  { n with replayBuffer := pushBuffer n.replayBuffer req }

def strictRefreshed (n : Node) (req : RatelimitRequest) : Node :=
  if unixMilli req.time < n.get (.strict req.strictKey) then
    if (originOf E req.curKey).isSome then
      (n.merge E req.curKey).raise (.entry req.curKey .originFreshUntilMs)
        (unixMilli (req.time + originFreshDuration))
    else n.merge E req.curKey
  else n

def flags (n : Node) (k : CounterKey) : Bool × Once × Bool :=
  ((n.counters k).hydrated, (n.counters k).once, (n.counters k).staleLocked)

variable {F E} (n : Node) (t u : Target) (k j : CounterKey) (v d limit : Int)
  (req : RatelimitRequest)

/-! ### What is read of the result -/

theorem put_get : n.put t (n.get t) = n := by
  cases t with
  | entry k f =>
    have hentry : (n.counters k).put f ((n.counters k).get f) = n.counters k := by cases f <;> rfl
    simp [Node.put, Node.get, hentry]
  | strict k => simp [Node.put, Node.get]

@[simp] theorem get_raise : (n.raise t v).get u = if u = t then max (n.get t) v else n.get u := by
  unfold Node.raise
  split
  · rename_i hle
    split
    · rename_i heq
      rw [heq, max_eq_left hle]
    · rfl
  · rename_i hlt
    rw [not_le] at hlt
    rw [Node.get_put, max_eq_right hlt.le]

theorem le_get_raise : n.get u ≤ (n.raise t v).get u := by
  rw [get_raise]
  split
  · rename_i heq
    rw [heq]
    exact le_max_left _ _
  · exact le_rfl

@[simp] theorem get_merge : (n.merge E k).get t =
    if t = .entry k .val then fetched E k (n.get (.entry k .val)) else n.get t := by
  unfold Node.merge fetched
  cases originOf E k with
  | none => by_cases ht : t = .entry k .val <;> simp [ht]
  | some count => exact n.get_raise _ t count

@[simp] theorem get_plus : (n.plus t d).get u = n.get u + if t = u then d else 0 := by
  rw [Node.plus, Node.get_put]
  by_cases h : u = t
  · subst h
    rw [if_pos rfl, if_pos rfl]
  · rw [if_neg h, if_neg (Ne.symm h), add_zero]

@[simp] theorem get_observe : (n.observe F k limit).get t = if t = .entry k .globalPushThreshold
    then observed F (n.get (.entry k .globalPushThreshold)) limit else n.get t :=
  n.get_put _ _ _

@[simp] theorem get_push : (n.push req).get t = n.get t := by
  cases t <;> rfl

@[simp] theorem flags_put : (n.put t v).flags k = n.flags k := by
  cases t with
  | strict l => rfl
  | entry l f =>
    unfold Node.flags
    by_cases hk : k = l
    · subst hk
      cases f <;> simp [Node.put, CounterEntry.put]
    · simp [Node.put, Function.update_of_ne hk]

@[simp] theorem flags_raise : (n.raise t v).flags k = n.flags k := by
  unfold Node.raise
  split
  · rfl
  · exact n.flags_put t k v

@[simp] theorem flags_merge : (n.merge E k).flags j = n.flags j := by
  unfold Node.merge
  cases originOf E k with
  | none => rfl
  | some count => exact n.flags_raise _ j _

@[simp] theorem flags_plus : (n.plus t d).flags k = n.flags k := n.flags_put t k _

@[simp] theorem flags_observe : (n.observe F k limit).flags j = n.flags j := n.flags_put _ j _

@[simp] theorem flags_push : (n.push req).flags k = n.flags k := rfl

@[simp] theorem replayBuffer_put : (n.put t v).replayBuffer = n.replayBuffer := by
  cases t <;> rfl

@[simp] theorem replayBuffer_raise : (n.raise t v).replayBuffer = n.replayBuffer := by
  unfold Node.raise
  split
  · rfl
  · exact n.replayBuffer_put t v

@[simp] theorem replayBuffer_merge : (n.merge E k).replayBuffer = n.replayBuffer := by
  unfold Node.merge
  cases originOf E k with
  | none => rfl
  | some count => exact n.replayBuffer_raise _ _

@[simp] theorem replayBuffer_plus : (n.plus t d).replayBuffer = n.replayBuffer :=
  n.replayBuffer_put t _

@[simp] theorem replayBuffer_observe : (n.observe F k limit).replayBuffer = n.replayBuffer :=
  n.replayBuffer_put _ _

@[simp] theorem replayBuffer_push : (n.push req).replayBuffer = pushBuffer n.replayBuffer req := rfl

end Node

/-! ### Operations -/

variable {F E} {n m : Node} {β : Type} {b : β}

theorem returns_load {t : Target} {f : Int → Code β}
    (hf : (f (n.get t)).Returns (answerAlone E) n b m) :
    (load t >>= f).Returns (answerAlone E) n b m :=
  Prog.Returns.perform (o := Op.load t false) rfl hf

theorem returns_add {t : Target} {d : Int} {f : Int → Code β}
    (hf : (f (n.get t + d)).Returns (answerAlone E) (n.plus t d) b m) :
    (add t d >>= f).Returns (answerAlone E) n b m :=
  Prog.Returns.perform (o := Op.add t d) rfl hf

theorem returns_swap {t : Target} {v : Int} {f : Bool → Code β}
    (hf : (f true).Returns (answerAlone E) (n.put t v) b m) :
    (compareAndSwap t (n.get t) v >>= f).Returns (answerAlone E) n b m :=
  Prog.Returns.perform (o := Op.cas t (n.get t) v) (if_pos rfl) hf

theorem returns_bufferReplay (n : Node) (req : RatelimitRequest) :
    (bufferReplay req).Returns (answerAlone E) n () (n.push req) := by
  have hpush : answerAlone E (.buffer req) n = some ((), n.push req) := by
    show some ((), if _ then _ else n) = _
    unfold Node.push pushBuffer
    split <;> rfl
  exact Prog.Returns.perform hpush (f := fun _ => pure ()) rfl

theorem returns_atomicMax (n : Node) (t : Target) (v : Int) :
    (atomicMax t v).Returns (answerAlone E) n () (n.raise t v) := by
  have hnote : ∀ n : Node, (noteMerged t v).Returns (answerAlone E) n () n := by
    intro n
    unfold noteMerged
    split <;> rfl
  show (atomicMaxLoop t v (99 + 1)).Returns _ _ _ _
  refine Prog.Returns.perform (o := Op.load t true) rfl ?_
  unfold Node.raise
  split
  · exact hnote n
  · exact returns_swap (hnote _)

theorem returns_observe (n : Node) (k : CounterKey) (limit : Int) :
    (observeGlobalPushLimit F k limit).Returns (answerAlone E) n () (n.observe F k limit) := by
  unfold Node.observe observed
  refine returns_load ?_
  split
  · rw [n.put_get]
    rfl
  · exact returns_swap rfl

theorem returns_fetchInto (n : Node) (k : CounterKey) :
    (fetchInto k).Returns (answerAlone E) n (originOf E k).isSome (n.merge E k) := by
  unfold Node.merge
  cases horigin : originOf E k with
  | none =>
    have hnone : answerAlone E (.fetchOrigin k) n = some (none, n) := by
      rw [← horigin]
      rfl
    exact Prog.Returns.perform hnone rfl
  | some count =>
    have hsome : answerAlone E (.fetchOrigin k) n = some (some count, n) := by
      rw [← horigin]
      rfl
    exact Prog.Returns.perform hsome ((returns_atomicMax _ _ _).bind rfl)

theorem returns_strictRefresh (n : Node) (req : RatelimitRequest) :
    (strictRefresh req).Returns (answerAlone E) n () (n.strictRefreshed E req) := by
  have hfetch := returns_fetchInto (E := E) n req.curKey
  refine returns_load ?_
  unfold Node.strictRefreshed
  split
  · cases hsome : (originOf E req.curKey).isSome with
    | true =>
      rw [hsome] at hfetch
      exact hfetch.bind (returns_atomicMax _ _ _)
    | false =>
      rw [hsome] at hfetch
      exact hfetch.bind rfl
  · rfl

end Unkey.Ratelimit
