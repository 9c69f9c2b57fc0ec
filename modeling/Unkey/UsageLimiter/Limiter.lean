import Unkey.Base.Prog
import Mathlib.Logic.Function.Basic

/-!
# The usage limiter

`counterService.Limit` of `internal/services/usagelimiter`: a credit counter in Redis per key,
initialised from the `keys` table when it is missing, and a replay buffer per node through which
granted credits reach the table later.
-/

namespace Unkey.UsageLimiter

open Unkey.Base

structure UsageRequest where
  keyID : String
  cost : Int
  deriving DecidableEq

structure UsageResponse where
  valid : Bool
  remaining : Int
  deriving DecidableEq

structure CreditChange where
  keyID : String
  cost : Int
  deriving DecidableEq

inductive Failure where
  | assertion (message : String)
  | database
  deriving DecidableEq

/-- The shared state: the counters in Redis, `remaining_requests` of every row of `keys` (`NULL`
for a key without a limit), and the replay buffers of all nodes, each change with its node. -/
structure Store where
  redis : String → Option Int
  keys : String → Option (Option Int)
  buffer : List (Nat × CreditChange)

inductive Op where
  | decrementIfExists (key : String) (decrement : Int) (again : Bool)
  | setIfNotExists (key : String) (value : Int)
  | delete (key : String)
  | expire (key : String)
  | findKeyCredits (keyID : String)
  | decrementKeyCredits (keyID : String) (cost : Int)
  | buffer (change : CreditChange)
  | consume
  deriving DecidableEq

def Op.Ret : Op → Type
  | .decrementIfExists _ _ _ => Int × Bool × Bool
  | .setIfNotExists _ _ => Bool
  | .delete _ => Unit
  | .expire _ => Unit
  | .findKeyCredits _ => Option (Int × Bool)
  | .decrementKeyCredits _ _ => Bool
  | .buffer _ => Unit
  | .consume => CreditChange

inductive Note where
  | granted (req : UsageRequest)
  deriving DecidableEq

abbrev Code := Prog Op Op.Ret Note

def redisKey (keyID : String) : String := "credits:" ++ keyID

def costMessage : String := "usagelimiter cost must not be negative"

/-! ### The programs -/

def decrementIfExists (key : String) (decrement : Int) (again : Bool) :
    Code (Int × Bool × Bool) := Prog.perform (Op.decrementIfExists key decrement again)

def setIfNotExists (key : String) (value : Int) : Code Bool :=
  Prog.perform (Op.setIfNotExists key value)

def findKeyCredits (keyID : String) : Code (Option (Int × Bool)) :=
  Prog.perform (Op.findKeyCredits keyID)

def decrementKeyCredits (keyID : String) (cost : Int) : Code Bool :=
  Prog.perform (Op.decrementKeyCredits keyID cost)

def bufferChange (change : CreditChange) : Code Unit := Prog.perform (Op.buffer change)

def consumeChange : Code CreditChange := Prog.perform Op.consume

def fallbackLimit (req : UsageRequest) : Code (UsageResponse × Option Failure) :=
  if req.cost < 0 then pure (⟨false, 0⟩, some (.assertion costMessage))
  else do
    match ← findKeyCredits req.keyID with
    | none => pure (⟨false, 0⟩, some .database)
    | some (remaining, hasLimit) =>
      if hasLimit = false then do
        Prog.tell (.granted req)
        pure (⟨true, -1⟩, none)
      else if 0 < req.cost ∧ remaining < req.cost then pure (⟨false, 0⟩, none)
      else do
        match ← decrementKeyCredits req.keyID req.cost with
        | false => pure (⟨false, 0⟩, some .database)
        | true => do
          Prog.tell (.granted req)
          pure (⟨true, max 0 (remaining - req.cost)⟩, none)

def handleResult (req : UsageRequest) (remaining : Int) (success : Bool) : Code UsageResponse :=
  if success then do
    Prog.tell (.granted req)
    bufferChange ⟨req.keyID, req.cost⟩
    pure ⟨true, remaining⟩
  else pure ⟨false, remaining⟩

def initializeFromDatabase (req : UsageRequest) : Code (UsageResponse × Option Failure) := do
  match ← findKeyCredits req.keyID with
  | none => pure (⟨false, 0⟩, some .database)
  | some (currentCredits, hasLimit) =>
    if hasLimit = false then do
      Prog.tell (.granted req)
      pure (⟨true, -1⟩, none)
    else do
      -- Redis never starts from a negative value
      let hasSufficientCredits := decide (req.cost ≤ currentCredits)
      let initValue := if hasSufficientCredits then currentCredits - req.cost else currentCredits
      match ← setIfNotExists (redisKey req.keyID) initValue with
      | true => do
        let resp ← handleResult req initValue hasSufficientCredits
        pure (resp, none)
      | false => do
        match ← decrementIfExists (redisKey req.keyID) req.cost true with
        | (_, false, _) => fallbackLimit req
        | (remaining, true, success) => do
          let resp ← handleResult req remaining success
          pure (resp, none)

def limit (req : UsageRequest) : Code (UsageResponse × Option Failure) :=
  if req.cost < 0 then pure (⟨false, 0⟩, some (.assertion costMessage))
  else do
    match ← decrementIfExists (redisKey req.keyID) req.cost false with
    | (_, false, _) => initializeFromDatabase req
    | (remaining, true, success) => do
      let resp ← handleResult req remaining success
      pure (resp, none)

/-- One round of `replayRequests`: take a change off the node's buffer and write it by `syncWithDB`.
-/
def replayRequest : Code Unit := do
  let change ← consumeChange
  let _ ← decrementKeyCredits change.keyID change.cost
  pure ()

/-! ### The operations -/

def decrementIfExistsScript (current : Option Int) (decrement : Int) :
    (Int × Bool × Bool) × Option Int :=
  match current with
  | none => ((0, false, false), none)
  | some v =>
    if v < decrement then ((v, true, false), some v)
    else ((v - decrement, true, true), some (v - decrement))

/-- `UpdateKeyCreditsDecrement` on the column. -/
def creditsDecrement (remaining : Option Int) (credits : Int) : Option Int :=
  match remaining with
  | none => some 0
  | some r => if credits ≤ r then some (r - credits) else some 0

inductive Call where
  | limit (node : Nat) (req : UsageRequest)
  | invalidate (node : Nat) (keyID : String)
  | expire (keyID : String)
  | replay (node : Nat)
  deriving DecidableEq

def Call.node : Call → Nat
  | .limit node _ => node
  | .invalidate node _ => node
  | .expire _ => 0
  | .replay node => node

def body : Call → Code Unit
  | .limit _ req => do
    let _ ← limit req
    pure ()
  | .invalidate _ keyID => Prog.perform (Op.delete (redisKey keyID))
  | .expire keyID => Prog.perform (Op.expire (redisKey keyID))
  | .replay _ => replayRequest

/-- What `FindKeyCredits` answers: an error, also for a missing row, or the column and whether it
is set. -/
def creditsRow (ok : Bool) (row : Option (Option Int)) : Option (Int × Bool) :=
  if ok then row.map fun remaining => (remaining.getD 0, remaining.isSome) else none

def setNX (s : Store) (key : String) (value : Int) : Bool × Store :=
  if s.redis key = none then
    (true, { s with redis := Function.update s.redis key (some value) })
  else (false, s)

/-- One operation; `ok` says whether a database statement succeeds. -/
def apply (c : Call) : (op : Op) → (ok : Bool) → Store → Option (op.Ret × Store)
  | .decrementIfExists key decrement _, _, s =>
    let q := decrementIfExistsScript (s.redis key) decrement
    some (q.1, { s with redis := Function.update s.redis key q.2 })
  | .setIfNotExists key value, _, s => some (setNX s key value)
  | .delete key, _, s => some ((), { s with redis := Function.update s.redis key none })
  | .expire key, _, s => some ((), { s with redis := Function.update s.redis key none })
  | .findKeyCredits keyID, ok, s => some (creditsRow ok (s.keys keyID), s)
  | .decrementKeyCredits keyID cost, ok, s =>
    some (ok, if ok then { s with
      keys := Function.update s.keys keyID ((s.keys keyID).map (creditsDecrement · cost)) } else s)
  | .buffer change, _, s => some ((), { s with buffer := s.buffer ++ [(c.node, change)] })
  | .consume, _, s => (s.buffer.find? (·.1 == c.node)).map fun x =>
    (x.2, { s with buffer := s.buffer.erase x })

theorem apply_setIfNotExists {c : Call} {key : String} {value : Int} {ok r : Bool} {s s' : Store}
    (happ : apply c (.setIfNotExists key value) ok s = some (r, s')) :
    (s.redis key = none ∧ r = true ∧
        s' = { s with redis := Function.update s.redis key (some value) }) ∨
      (s.redis key ≠ none ∧ r = false ∧ s' = s) := by
  have hset : setNX s key value = (r, s') := Option.some.inj happ
  unfold setNX at hset
  by_cases hnone : s.redis key = none
  · rw [if_pos hnone] at hset
    cases hset
    exact Or.inl ⟨hnone, rfl, rfl⟩
  · rw [if_neg hnone] at hset
    cases hset
    exact Or.inr ⟨hnone, rfl, rfl⟩

theorem apply_consume {c : Call} {ok : Bool} {r : CreditChange} {s s' : Store}
    (happ : apply c .consume ok s = some (r, s')) :
    ∃ x ∈ s.buffer, r = x.2 ∧ s' = { s with buffer := s.buffer.erase x } := by
  obtain ⟨x, hfind, heq⟩ := Option.map_eq_some_iff.mp happ
  cases heq
  exact ⟨x, List.mem_of_find?_eq_some hfind, rfl, rfl⟩

abbrev step := worldStep apply body

/-- Credits of a key granted so far: the costs of the calls answered `Valid`. -/
def granted (keyID : String) : List (Call × Note) → Int
  | [] => 0
  | (_, .granted req) :: h => (if req.keyID = keyID then req.cost else 0) + granted keyID h

end Unkey.UsageLimiter
