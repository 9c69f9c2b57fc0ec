import Mathlib.Logic.Function.Basic
import Unkey.Base.Prog

/-!
# Counter entries of the rate limiter

The in-memory state of one node of `internal/services/ratelimit`: a counter entry per sliding-window
cell, the strict-mode deadlines and the replay buffer, together with the atomic operations on them.
-/

namespace Unkey.Ratelimit

open Unkey.Base

structure CounterKey where
  workspaceID : String
  nameSpace : String
  identifier : String
  durationMs : Int
  sequence : Int
  deriving DecidableEq

structure StrictKey where
  workspaceID : String
  nameSpace : String
  identifier : String
  durationMs : Int
  deriving DecidableEq

structure RatelimitRequest where
  workspaceID : String
  nameSpace : String
  identifier : String
  limit : Int
  duration : Int
  cost : Int
  time : Int
  deriving DecidableEq

structure RatelimitResponse where
  success : Bool
  remaining : Int
  reset : Int
  limit : Int
  current : Int
  deriving DecidableEq

inductive Field where
  | val
  | originFreshUntilMs
  | speculative
  | globalCount
  | globalPushThreshold
  | lastPushed
  deriving DecidableEq

inductive Once where
  | unused
  | running
  | finished
  deriving DecidableEq

structure CounterEntry where
  val : Int
  originFreshUntilMs : Int
  speculative : Int
  globalCount : Int
  globalPushThreshold : Int
  lastPushed : Int
  hydrated : Bool
  once : Once
  staleLocked : Bool
  deriving DecidableEq

def CounterEntry.zero : CounterEntry := ⟨0, 0, 0, 0, 0, 0, false, .unused, false⟩

def CounterEntry.get (e : CounterEntry) : Field → Int
  | .val => e.val
  | .originFreshUntilMs => e.originFreshUntilMs
  | .speculative => e.speculative
  | .globalCount => e.globalCount
  | .globalPushThreshold => e.globalPushThreshold
  | .lastPushed => e.lastPushed

def CounterEntry.put (e : CounterEntry) (f : Field) (v : Int) : CounterEntry :=
  match f with
  | .val => { e with val := v }
  | .originFreshUntilMs => { e with originFreshUntilMs := v }
  | .speculative => { e with speculative := v }
  | .globalCount => { e with globalCount := v }
  | .globalPushThreshold => { e with globalPushThreshold := v }
  | .lastPushed => { e with lastPushed := v }

@[simp] theorem CounterEntry.get_put_self (e : CounterEntry) (f : Field) (v : Int) :
    (e.put f v).get f = v := by
  cases f <;> rfl

theorem CounterEntry.get_put_of_ne (e : CounterEntry) {f g : Field} (hne : g ≠ f) (v : Int) :
    (e.put f v).get g = e.get g := by
  cases f <;> cases g <;> first | rfl | exact absurd rfl hne

inductive Target where
  | entry (k : CounterKey) (f : Field)
  | strict (k : StrictKey)
  deriving DecidableEq

/-- A row of `ratelimit_global_counters` as it is written, without its region. -/
structure GlobalRow where
  key : CounterKey
  count : Int
  expiresAt : Int
  updatedAt : Int
  deriving DecidableEq

structure ImportedRow where
  key : CounterKey
  regional : Int
  imported : Int
  deriving DecidableEq

/-- `written` is history: the rows handed to the bulk upsert so far, whether or not it reported
success. -/
structure Node where
  counters : CounterKey → CounterEntry
  strictUntils : StrictKey → Int
  replayBuffer : List RatelimitRequest
  written : List GlobalRow

def Node.get (n : Node) : Target → Int
  | .entry k f => (n.counters k).get f
  | .strict k => n.strictUntils k

def Node.put (n : Node) (t : Target) (v : Int) : Node :=
  match t with
  | .entry k f => { n with counters := Function.update n.counters k ((n.counters k).put f v) }
  | .strict k => { n with strictUntils := Function.update n.strictUntils k v }

@[simp] theorem Node.get_put_self (n : Node) (t : Target) (v : Int) : (n.put t v).get t = v := by
  cases t with
  | entry k f => simp [Node.put, Node.get]
  | strict k => simp [Node.put, Node.get]

theorem Node.get_put_of_ne (n : Node) {t u : Target} (hne : u ≠ t) (v : Int) :
    (n.put t v).get u = n.get u := by
  cases t with
  | entry k f =>
    cases u with
    | entry l g =>
      by_cases hkl : l = k
      · subst hkl
        simp only [Node.put, Node.get, Function.update_self]
        exact CounterEntry.get_put_of_ne _ (fun hgf => hne (by rw [hgf])) v
      · simp only [Node.put, Node.get, Function.update_of_ne hkl]
    | strict l => rfl
  | strict k =>
    cases u with
    | entry l g => rfl
    | strict l =>
      have hlk : l ≠ k := fun heq => hne (by rw [heq])
      simp only [Node.put, Node.get, Function.update_of_ne hlk]

theorem Node.get_put (n : Node) (t u : Target) (v : Int) :
    (n.put t v).get u = if u = t then v else n.get u := by
  by_cases heq : u = t
  · rw [if_pos heq, heq, Node.get_put_self]
  · rw [if_neg heq, Node.get_put_of_ne n heq]

theorem Node.get_put_add (n : Node) (j k : CounterKey) (f : Field) (d : Int) :
    (n.put (.entry j f) (n.get (.entry j f) + d)).get (.entry k f)
      = n.get (.entry k f) + if j = k then d else 0 := by
  by_cases hjk : j = k
  · simp [hjk]
  · simp [Node.get_put, hjk, Ne.symm hjk]

inductive Op where
  | now
  | load (t : Target) (merging : Bool)
  | cas (t : Target) (old new : Int)
  | add (t : Target) (delta : Int)
  | hydrated (k : CounterKey)
  | setHydrated (k : CounterKey)
  | onceEnter (k : CounterKey)
  | onceLeave (k : CounterKey)
  | lockStale (k : CounterKey)
  | unlockStale (k : CounterKey)
  | fetchOrigin (k : CounterKey)
  | increment (k : CounterKey) (cost : Int)
  | buffer (req : RatelimitRequest)
  | consume
  | range
  | upsert (rows : List GlobalRow)
  | imported (now : Int)
  deriving DecidableEq

def Op.Ret : Op → Type
  | .now => Int
  | .load _ _ => Int
  | .cas _ _ _ => Bool
  | .add _ _ => Int
  | .hydrated _ => Bool
  | .setHydrated _ => Unit
  | .onceEnter _ => Bool
  | .onceLeave _ => Unit
  | .lockStale _ => Unit
  | .unlockStale _ => Unit
  | .fetchOrigin _ => Option Int
  | .increment _ _ => Option Int
  | .buffer _ => Unit
  | .consume => RatelimitRequest
  | .range => List CounterKey
  | .upsert _ => Bool
  | .imported _ => Option (List ImportedRow)

/-- History: the increments of these requests stay, or a value was merged into `val` of a cell. -/
inductive Note where
  | committed (reqs : List RatelimitRequest)
  | merged (k : CounterKey) (v : Int)
  deriving DecidableEq

def Note.reqs : Note → List RatelimitRequest
  | .committed reqs => reqs
  | .merged _ _ => []

abbrev Code := Prog Op Op.Ret Note

/-- What the surroundings of the node contribute to an answer: the clock, Redis, the entries a
`Range` visits, and the database. -/
structure Env where
  now : Int
  origin : Option Int
  keys : List CounterKey
  pushed : Bool
  rows : Option (List ImportedRow)
  deriving DecidableEq

def replayCapacity : Nat := 10000

/-- One atomic operation on the counters, or one call of the surroundings. -/
def Node.apply (e : Env) : (op : Op) → Node → Option (op.Ret × Node)
  | .now, n => some (e.now, n)
  | .load t _, n => some (n.get t, n)
  | .cas t old new, n => if n.get t = old then some (true, n.put t new) else some (false, n)
  | .add t delta, n => some (n.get t + delta, n.put t (n.get t + delta))
  | .hydrated k, n => some ((n.counters k).hydrated, n)
  | .setHydrated k, n => some ((), { n with
      counters := Function.update n.counters k { n.counters k with hydrated := true } })
  | .onceEnter k, n =>
    if (n.counters k).once = .running then none
    else if (n.counters k).once = .finished then some (false, n)
    else some (true, { n with
      counters := Function.update n.counters k { n.counters k with once := .running } })
  | .onceLeave k, n => some ((), { n with
      counters := Function.update n.counters k { n.counters k with once := .finished } })
  | .lockStale k, n =>
    if (n.counters k).staleLocked then none
    else some ((), { n with
      counters := Function.update n.counters k { n.counters k with staleLocked := true } })
  | .unlockStale k, n => some ((), { n with
      counters := Function.update n.counters k { n.counters k with staleLocked := false } })
  | .fetchOrigin _, n => some (e.origin, n)
  | .increment _ _, n => some (e.origin, n)
  | .buffer req, n => some ((), if n.replayBuffer.length < replayCapacity
      then { n with replayBuffer := n.replayBuffer ++ [req] } else n)
  | .consume, n => n.replayBuffer.head?.map fun req =>
      (req, { n with replayBuffer := n.replayBuffer.tail })
  | .range, n => some (e.keys, n)
  | .upsert rows, n => some (e.pushed, { n with written := n.written ++ rows })
  | .imported _, n => some (e.rows, n)

def Op.writes : Op → Option Target
  | .cas t _ _ => some t
  | .add t _ => some t
  | _ => none

theorem Node.get_update_flags (n : Node) (k : CounterKey) (e : CounterEntry)
    (he : ∀ f, e.get f = (n.counters k).get f) (t : Target) :
    { n with counters := Function.update n.counters k e : Node }.get t = n.get t := by
  cases t with
  | entry l f => grind [Node.get, Function.update_self, Function.update_of_ne]
  | strict l => rfl

inductive Node.Effect (n : Node) (op : Op) : Node → Prop
  | same : Effect n op n
  | put (t : Target) (v : Int) (hop : op.writes = some t) : Effect n op (n.put t v)
  | flags (k : CounterKey) (e : CounterEntry) (he : ∀ f, e.get f = (n.counters k).get f) :
      Effect n op { n with counters := Function.update n.counters k e }
  | buffered (req : RatelimitRequest) (hop : op = .buffer req) :
      Effect n op { n with replayBuffer := n.replayBuffer ++ [req] }
  | consumed (hop : op = .consume) : Effect n op { n with replayBuffer := n.replayBuffer.tail }
  | written (rows : List GlobalRow) (hop : op = .upsert rows) :
      Effect n op { n with written := n.written ++ rows }

variable {n n' : Node}

theorem Node.effect_of_apply {e : Env} {op : Op} {r : op.Ret}
    (happ : n.apply e op = some (r, n')) : n.Effect op n' := by
  cases op with
  | cas u old new =>
    unfold Node.apply at happ
    by_cases hold : n.get u = old
    · simp only [hold, if_true] at happ
      cases happ
      exact .put u new rfl
    · simp only [hold, if_false] at happ
      cases happ
      exact .same
  | add u delta =>
    cases happ
    exact .put u _ rfl
  | setHydrated k | onceLeave k | unlockStale k =>
    cases happ
    exact .flags k _ (fun f => by cases f <;> rfl)
  | onceEnter k =>
    unfold Node.apply at happ
    by_cases hrun : (n.counters k).once = .running
    · simp [hrun] at happ
    · by_cases hfin : (n.counters k).once = .finished
      · simp only [hfin, reduceCtorEq, if_false, if_true] at happ
        cases happ
        exact .same
      · simp only [hrun, hfin, if_false] at happ
        cases happ
        exact .flags k _ (fun f => by cases f <;> rfl)
  | lockStale k =>
    unfold Node.apply at happ
    by_cases hlock : (n.counters k).staleLocked = true
    · simp [hlock] at happ
    · simp only [hlock, Bool.false_eq_true, if_false] at happ
      cases happ
      exact .flags k _ (fun f => by cases f <;> rfl)
  | buffer req =>
    unfold Node.apply at happ
    by_cases hroom : n.replayBuffer.length < replayCapacity
    · simp only [hroom, if_true] at happ
      cases happ
      exact .buffered req rfl
    · simp only [hroom, if_false] at happ
      cases happ
      exact .same
  | consume =>
    obtain ⟨req, -, heq⟩ := Option.map_eq_some_iff.mp happ
    cases heq
    exact .consumed rfl
  | upsert rows =>
    cases happ
    exact .written rows rfl
  | now | load _ _ | hydrated _ | fetchOrigin _ | increment _ _ | range | imported _ =>
    cases happ
    exact .same

theorem Node.apply_get {e : Env} {op : Op} {r : op.Ret}
    (happ : n.apply e op = some (r, n')) {t : Target} (ht : op.writes ≠ some t) :
    n'.get t = n.get t := by
  cases Node.effect_of_apply happ with
  | same => rfl
  | put u v hop => exact Node.get_put_of_ne n (fun heq => ht (by rw [heq]; exact hop)) v
  | flags k e he => exact Node.get_update_flags n k e he t
  | buffered _ _ | consumed _ | written _ _ => cases t <;> rfl

theorem Node.apply_written {e : Env} {op : Op} {r : op.Ret}
    (happ : n.apply e op = some (r, n')) (hop : ∀ rows, op ≠ .upsert rows) :
    n'.written = n.written := by
  cases Node.effect_of_apply happ with
  | put u _ _ => cases u <;> rfl
  | written rows hrows => exact absurd hrows (hop rows)
  | same | flags _ _ _ | buffered _ _ | consumed _ => rfl

theorem Node.apply_cas {e : Env} {t : Target} {old new : Int} {r : Bool}
    (happ : n.apply e (.cas t old new) = some (r, n')) :
    (n.get t = old ∧ r = true ∧ n' = n.put t new) ∨ (n.get t ≠ old ∧ r = false ∧ n' = n) := by
  unfold Node.apply at happ
  by_cases hold : n.get t = old
  · simp only [hold, if_true] at happ
    cases happ
    exact Or.inl ⟨hold, rfl, rfl⟩
  · simp only [hold, if_false] at happ
    cases happ
    exact Or.inr ⟨hold, rfl, rfl⟩

end Unkey.Ratelimit
