import Mathlib.Data.List.Sort
import Unkey.Ratelimit.Entry

/-!
# The rate limiter

`Ratelimit`, `RatelimitMany` and the background work of `internal/services/ratelimit` as programs
over the atomic operations of `Entry`.
-/

namespace Unkey.Ratelimit

open Unkey.Base

/-- The `float64` arithmetic of the package: the weight of a previous-window count after
`elapsedMs` of `durationMs`, and the least count worth sharing for a limit. -/
structure Floats where
  weigh : (prev elapsedMs durationMs : Int) → Int
  pushThreshold : (limit : Int) → Int

def Floats.exact : Floats where
  weigh := fun prev elapsedMs durationMs => prev * (durationMs - elapsedMs) / durationMs
  pushThreshold := fun limit => (limit + 4) / 5

/-! ### Times, keys and validation -/

def zeroTime : Int := -62135596800000000000

def unixMilli (time : Int) : Int := time / 1000000

def milliseconds (duration : Int) : Int := duration.tdiv 1000000

def calculateSequence (time duration : Int) : Int := (unixMilli time).tdiv (milliseconds duration)

def originFreshDuration : Int := 5000000000

def originFetchRetryDuration : Int := 300000000

def maxCASRetries : Nat := 100

def RatelimitRequest.curKey (req : RatelimitRequest) : CounterKey :=
  ⟨req.workspaceID, req.nameSpace, req.identifier, milliseconds req.duration,
    calculateSequence req.time req.duration⟩

def RatelimitRequest.prevKey (req : RatelimitRequest) : CounterKey :=
  ⟨req.workspaceID, req.nameSpace, req.identifier, milliseconds req.duration,
    calculateSequence req.time req.duration - 1⟩

def RatelimitRequest.strictKey (req : RatelimitRequest) : StrictKey :=
  ⟨req.workspaceID, req.nameSpace, req.identifier, milliseconds req.duration⟩

def validate (req : RatelimitRequest) : Option String :=
  if req.workspaceID = "" then some "ratelimit workspace id must not be empty"
  else if req.nameSpace = "" then some "ratelimit namespace must not be empty"
  else if req.identifier = "" then some "ratelimit identifier must not be empty"
  else if req.limit ≤ 0 then some "ratelimit limit must be greater than zero"
  else if req.cost < 0 then some "ratelimit cost must not be negative"
  else if milliseconds req.duration < 1000 then some "ratelimit duration must be at least 1s"
  else if req.time = zeroTime then some "request time must not be zero"
  else none

variable {req : RatelimitRequest}

theorem limit_pos_of_valid (hv : validate req = none) :
    0 < req.limit := by
  unfold validate at hv
  by_contra hneg
  rw [not_lt] at hneg
  simp only [hneg, if_true] at hv
  split_ifs at hv

theorem cost_nonneg_of_valid (hv : validate req = none) :
    0 ≤ req.cost := by
  unfold validate at hv
  by_contra hneg
  rw [not_le] at hneg
  simp only [hneg, if_true] at hv
  split_ifs at hv

theorem durationMs_pos_of_valid (hv : validate req = none) :
    0 < milliseconds req.duration := by
  by_contra hneg
  have hlt : milliseconds req.duration < 1000 := by omega
  unfold validate at hv
  simp only [hlt, if_true] at hv
  split_ifs at hv

def RatelimitRequest.timed (req : RatelimitRequest) (now : Int) : RatelimitRequest :=
  if req.time = zeroTime then { req with time := now } else req

/-! ### Atomic operations -/

def clockNow : Code Int := Prog.perform Op.now

def load (t : Target) : Code Int := Prog.perform (Op.load t false)

def loadMerging (t : Target) : Code Int := Prog.perform (Op.load t true)

def compareAndSwap (t : Target) (old new : Int) : Code Bool := Prog.perform (Op.cas t old new)

def add (t : Target) (delta : Int) : Code Int := Prog.perform (Op.add t delta)

def fetchFromOrigin (k : CounterKey) : Code (Option Int) := Prog.perform (Op.fetchOrigin k)

def isHydrated (k : CounterKey) : Code Bool := Prog.perform (Op.hydrated k)

def onceEnter (k : CounterKey) : Code Bool := Prog.perform (Op.onceEnter k)

def incrementOrigin (k : CounterKey) (cost : Int) : Code (Option Int) :=
  Prog.perform (Op.increment k cost)

def bufferReplay (req : RatelimitRequest) : Code Unit := Prog.perform (Op.buffer req)

def consumeReplay : Code RatelimitRequest := Prog.perform Op.consume

def rangeCounters : Code (List CounterKey) := Prog.perform Op.range

def bulkUpsertGlobalCounters (rows : List GlobalRow) : Code Bool := Prog.perform (Op.upsert rows)

def globalCountersImported (nowMs : Int) : Code (Option (List ImportedRow)) :=
  Prog.perform (Op.imported nowMs)

def noteMerged (t : Target) (v : Int) : Code Unit :=
  match t with
  | .entry k .val => Prog.tell (.merged k v)
  | _ => pure ()

/-- The loop of `atomicMax`. -/
def atomicMaxLoop (t : Target) (v : Int) : Nat → Code Unit
  | 0 => pure ()
  | n + 1 => do
    let cur ← loadMerging t
    if v ≤ cur then noteMerged t v
    else do
      match ← compareAndSwap t cur v with
      | true => noteMerged t v
      | false => atomicMaxLoop t v n

def atomicMax (t : Target) (v : Int) : Code Unit := atomicMaxLoop t v maxCASRetries

def setStrictUntil (k : StrictKey) (untilMs : Int) : Code Unit := atomicMax (.strict k) untilMs

/-! ### Hydration -/

/-- Read the origin and merge what it answers into `val`; whether it answered. -/
def fetchInto (k : CounterKey) : Code Bool := do
  match ← fetchFromOrigin k with
  | some count => do
    atomicMax (.entry k .val) count
    pure true
  | none => pure false

def refresh (k : CounterKey) (time : Int) : Code Unit := do
  match ← fetchInto k with
  | true => atomicMax (.entry k .originFreshUntilMs) (unixMilli time + unixMilli originFreshDuration)
  | false =>
    atomicMax (.entry k .originFreshUntilMs) (unixMilli time + unixMilli originFetchRetryDuration)

def ensureFreshFromOrigin (k : CounterKey) (time : Int) : Code Unit := do
  match ← isHydrated k with
  | false => do
    match ← onceEnter k with
    | true => do
      refresh k time
      let _ ← Prog.perform (Op.setHydrated k)
      let _ ← Prog.perform (Op.onceLeave k)
      pure ()
    | false => pure ()
  | true => do
    let freshUntil ← load (.entry k .originFreshUntilMs)
    if unixMilli time < freshUntil then pure ()
    else do
      let _ ← Prog.perform (Op.lockStale k)
      -- a caller that waited for the lock finds the value another one fetched
      let freshUntil ← load (.entry k .originFreshUntilMs)
      if unixMilli time < freshUntil then pure () else refresh k time
      let _ ← Prog.perform (Op.unlockStale k)
      pure ()

/-! ### One check -/

/-- What `prepareCheck` hands to the decision. -/
structure CheckState where
  cur : CounterKey
  prev : CounterKey
  strictKey : StrictKey
  curGlobal : Int
  prevGlobal : Int
  elapsedMs : Int
  durationMs : Int
  reset : Int
  deriving DecidableEq

def strictRefresh (req : RatelimitRequest) : Code Unit := do
  let strictUntil ← load (.strict req.strictKey)
  if unixMilli req.time < strictUntil then do
    match ← fetchInto req.curKey with
    | true =>
      atomicMax (.entry req.curKey .originFreshUntilMs) (unixMilli (req.time + originFreshDuration))
    | false => pure ()
  else pure ()

def prepareCheck (req : RatelimitRequest) : Code CheckState := do
  ensureFreshFromOrigin req.curKey req.time
  ensureFreshFromOrigin req.prevKey req.time
  strictRefresh req
  let windowStartMs := req.curKey.sequence * req.curKey.durationMs
  let curGlobal ← load (.entry req.curKey .globalCount)
  let prevGlobal ← load (.entry req.prevKey .globalCount)
  pure
    { cur := req.curKey
      prev := req.prevKey
      strictKey := req.strictKey
      curGlobal := curGlobal
      prevGlobal := prevGlobal
      elapsedMs := unixMilli req.time - windowStartMs
      durationMs := req.curKey.durationMs
      reset := windowStartMs * 1000000 + req.duration }

variable (F : Floats)

def CheckState.slidingWindowCount (cs : CheckState) (curCount prevCount : Int) : Int :=
  curCount + cs.curGlobal + F.weigh (prevCount + cs.prevGlobal) cs.elapsedMs cs.durationMs

def observeLoop (k : CounterKey) (threshold : Int) : Nat → Code Unit
  | 0 => pure ()
  | n + 1 => do
    let cur ← load (.entry k .globalPushThreshold)
    if cur ≠ 0 ∧ cur ≤ threshold then pure ()
    else do
      match ← compareAndSwap (.entry k .globalPushThreshold) cur threshold with
      | true => pure ()
      | false => observeLoop k threshold n

def observeGlobalPushLimit (k : CounterKey) (limit : Int) : Code Unit :=
  observeLoop k (max (F.pushThreshold limit) 1) maxCASRetries

/-! ### A single request -/

/-- The check and the increment of `Ratelimit`. -/
def decideLoop (req : RatelimitRequest) (cs : CheckState) : Nat → Code RatelimitResponse
  | 0 => pure ⟨false, 0, cs.reset, req.limit, req.limit⟩
  | n + 1 => do
    let curCount ← load (.entry cs.cur .val)
    let prevCount ← load (.entry cs.prev .val)
    let effectiveCount := cs.slidingWindowCount F curCount prevCount + req.cost
    if req.limit < effectiveCount then do
      setStrictUntil cs.strictKey (unixMilli (req.time + req.duration))
      pure ⟨false, 0, cs.reset, req.limit, effectiveCount⟩
    else do
      match ← compareAndSwap (.entry cs.cur .val) curCount (curCount + req.cost) with
      | true => do
        Prog.tell (.committed [req])
        bufferReplay req
        observeGlobalPushLimit F cs.cur req.limit
        pure ⟨true, max 0 (req.limit - effectiveCount), cs.reset, req.limit, effectiveCount⟩
      | false => decideLoop req cs n

def ratelimitTimed (req : RatelimitRequest) : Code (Except String RatelimitResponse) :=
  match validate req with
  | some message => pure (.error message)
  | none => do
    let cs ← prepareCheck req
    let resp ← decideLoop F req cs maxCASRetries
    pure (.ok resp)

def ratelimit (req : RatelimitRequest) : Code (Except String RatelimitResponse) :=
  if req.time = zeroTime then do
    let now ← clockNow
    ratelimitTimed F (req.timed now)
  else ratelimitTimed F req

/-! ### A batch -/

structure Item where
  req : RatelimitRequest
  cs : CheckState
  newCount : Int
  effective : Int
  deriving DecidableEq

def prepareItem (req : RatelimitRequest) : Code Item := do
  let cs ← prepareCheck req
  pure ⟨req, cs, 0, 0⟩

def incrementItem (it : Item) : Code Item := do
  let _ ← add (.entry it.cs.cur .speculative) it.req.cost
  let newCount ← add (.entry it.cs.cur .val) it.req.cost
  pure { it with newCount := newCount }

def checkItem (it : Item) : Code Item := do
  let prevCount ← load (.entry it.cs.prev .val)
  pure { it with effective := it.cs.slidingWindowCount F it.newCount prevCount }

def Item.passed (it : Item) : Bool := it.effective ≤ it.req.limit

def rollbackItem (it : Item) : Code Unit := do
  let _ ← add (.entry it.cs.cur .val) (-it.req.cost)
  let _ ← add (.entry it.cs.cur .speculative) (-it.req.cost)
  if it.passed then pure ()
  else setStrictUntil it.cs.strictKey (unixMilli (it.req.time + it.req.duration))

def commitItem (it : Item) : Code Unit := do
  observeGlobalPushLimit F it.cs.cur it.req.limit
  let _ ← add (.entry it.cs.cur .speculative) (-it.req.cost)
  pure ()

def Item.response (allPassed : Bool) (it : Item) : RatelimitResponse :=
  let remaining := it.req.limit - it.effective
  let remaining := if allPassed = false ∧ it.passed then remaining + it.req.cost else remaining
  ⟨it.passed, max 0 remaining, it.cs.reset, it.req.limit, it.effective⟩

def finishBatch (items : List Item) : Code Unit :=
  if items.all Item.passed then do
    Prog.tell (.committed (items.map Item.req))
    items.forM (commitItem F)
  else items.forM rollbackItem

def replayBatch (items : List Item) : Code Unit :=
  if items.all Item.passed then items.forM fun it => bufferReplay it.req else pure ()

def ratelimitManyTimed (reqs : List RatelimitRequest) :
    Code (Except String (List RatelimitResponse)) :=
  match reqs.findSome? validate with
  | some message => pure (.error message)
  | none => do
    let prepared ← reqs.mapM' prepareItem
    let incremented ← prepared.mapM' incrementItem
    let items ← incremented.mapM' (checkItem F)
    finishBatch F items
    replayBatch items
    pure (.ok (items.map (Item.response (items.all Item.passed))))

def ratelimitMany (reqs : List RatelimitRequest) :
    Code (Except String (List RatelimitResponse)) := do
  let now ← clockNow
  ratelimitManyTimed F (reqs.map (·.timed now))

/-! ### Background work -/

def syncWithOrigin (req : RatelimitRequest) : Code Unit :=
  if req.time = zeroTime then pure ()
  else do
    match ← incrementOrigin req.curKey req.cost with
    | none => pure ()
    | some newCounter => do
      atomicMax (.entry req.curKey .val) newCounter
      let now ← clockNow
      atomicMax (.entry req.curKey .originFreshUntilMs) (unixMilli (now + originFreshDuration))

def replayRequest : Code Unit := do
  let req ← consumeReplay
  syncWithOrigin req

def shouldPushGlobalCount (k : CounterKey) (val : Int) : Code Bool := do
  let lastPushed ← load (.entry k .lastPushed)
  if val ≤ lastPushed then pure false
  else do
    let globalCount ← load (.entry k .globalCount)
    if 0 < globalCount then pure true
    else do
      let threshold ← load (.entry k .globalPushThreshold)
      pure (decide (0 < threshold ∧ threshold ≤ val))

def pendingRow (nowMs : Int) (k : CounterKey) : Code (Option GlobalRow) := do
  let val ← load (.entry k .val)
  let speculative ← load (.entry k .speculative)
  if val - speculative ≤ 0 then pure none
  else do
    match ← shouldPushGlobalCount k (val - speculative) with
    | false => pure none
    | true => pure (some ⟨k, val - speculative, (k.sequence + 2) * k.durationMs, nowMs⟩)

def GlobalRow.precedes (a b : GlobalRow) : Bool :=
  ((compare a.key.workspaceID b.key.workspaceID).then <|
    (compare a.key.nameSpace b.key.nameSpace).then <|
    (compare a.key.identifier b.key.identifier).then <|
    (compare a.key.durationMs b.key.durationMs).then <|
    compare a.key.sequence b.key.sequence) != .gt

def globalPushChunkSize : Nat := 5000

def chunks (size : Nat) {α : Type} : Nat → List α → List (List α)
  | 0, _ => []
  | _ + 1, [] => []
  | n + 1, x :: xs => (x :: xs).take size :: chunks size n ((x :: xs).drop size)

theorem mem_of_mem_chunks {size : Nat} {α : Type} {m : Nat} {xs chunk : List α}
    (hchunk : chunk ∈ chunks size m xs) : ∀ x ∈ chunk, x ∈ xs := by
  induction m generalizing xs with
  | zero => cases hchunk
  | succ m ih =>
    cases xs with
    | nil => cases hchunk
    | cons y ys =>
      rcases List.mem_cons.mp hchunk with rfl | hchunk
      · intro x hx
        exact List.mem_of_mem_take hx
      · intro x hx
        exact List.mem_of_mem_drop (ih hchunk x hx)

def pushChunks : List (List GlobalRow) → Code Unit
  | [] => pure ()
  | chunk :: rest => do
    match ← bulkUpsertGlobalCounters chunk with
    | false => pure ()
    | true => do
      chunk.forM fun row => atomicMax (.entry row.key .lastPushed) row.count
      pushChunks rest

def runGlobalPushOnce : Code Unit := do
  let now ← clockNow
  let keys ← rangeCounters
  let found ← keys.mapM' (pendingRow (unixMilli now))
  let rows := (found.filterMap id).insertionSort (fun a b => a.precedes b = true)
  pushChunks (chunks globalPushChunkSize rows.length rows)

def runGlobalPullOnce : Code Unit := do
  let now ← clockNow
  match ← globalCountersImported (unixMilli now) with
  | none => pure ()
  | some rows => rows.forM fun r => do
    atomicMax (.entry r.key .val) r.regional
    atomicMax (.entry r.key .globalCount) r.imported

inductive Task where
  | ratelimit (req : RatelimitRequest)
  | ratelimitMany (reqs : List RatelimitRequest)
  | replay
  | push
  | pull
  deriving DecidableEq

def Task.body : Task → Code Unit
  | .ratelimit req => do
    let _ ← Unkey.Ratelimit.ratelimit F req
    pure ()
  | .ratelimitMany reqs => do
    let _ ← Unkey.Ratelimit.ratelimitMany F reqs
    pure ()
  | .replay => replayRequest
  | .push => runGlobalPushOnce
  | .pull => runGlobalPullOnce

end Unkey.Ratelimit
