import Mathlib.Algebra.Order.Field.Rat
import Unkey.Base.Run

/-!
# The circuit breaker

`CB` of `pkg/circuitbreaker`: the configuration and its options, `preflight` and `postflight`, and
any number of concurrent `Do` calls around them.
-/

namespace Unkey.CircuitBreaker

open Unkey.Base

inductive State where
  | opened
  | halfOpen
  | closed
  deriving DecidableEq

/-- What `preflight` rejects a call with: `ErrTripped` and `ErrTooManyRequests`. -/
inductive Rejection where
  | tripped
  | tooManyRequests
  deriving DecidableEq

def Rejection.message : Rejection → String
  | .tripped => "circuit breaker is open"
  | .tooManyRequests => "too many requests during half open state"

structure Floats where
  reaches : (failures requests : Int) → (ratio : Rat) → Bool

def Floats.exact : Floats where
  reaches := fun failures requests ratio => decide (ratio ≤ (failures : Rat) / requests)

/-! ### Configuration -/

structure Config (Err : Type) where
  name : String
  maxRequests : Int
  cyclicPeriod : Int
  timeout : Int
  isDownstreamError : Option Err → Bool
  tripThreshold : Int
  failureRatio : Rat
  minRequests : Int

variable {Err : Type}

def Config.withMaxRequests (maxRequests : Int) (c : Config Err) : Config Err :=
  { c with maxRequests := maxRequests }

def Config.withCyclicPeriod (cyclicPeriod : Int) (c : Config Err) : Config Err :=
  { c with cyclicPeriod := cyclicPeriod }

def Config.withIsDownstreamError (isDownstreamError : Option Err → Bool) (c : Config Err) :
    Config Err := { c with isDownstreamError := isDownstreamError }

def Config.withTripThreshold (tripThreshold : Int) (c : Config Err) : Config Err :=
  { c with tripThreshold := tripThreshold }

def Config.withFailureRatio (ratio : Rat) (minRequests : Int) (c : Config Err) : Config Err :=
  { c with failureRatio := if 1 < ratio then 1 else ratio, minRequests := minRequests }

def Config.withTimeout (timeout : Int) (c : Config Err) : Config Err :=
  { c with timeout := timeout }

def Config.default (name : String) : Config Err where
  name := name
  maxRequests := 10
  cyclicPeriod := 5000000000
  timeout := 60000000000
  isDownstreamError := Option.isSome
  tripThreshold := 5
  failureRatio := 0
  minRequests := 0

def Config.apply (name : String) (options : List (Config Err → Config Err)) : Config Err :=
  options.foldl (fun c option => option c) (Config.default name)

/-! ### The breaker -/

structure CB where
  state : State
  resetCountersAt : Int
  resetStateAt : Int
  requests : Int
  successes : Int
  failures : Int
  consecutiveSuccesses : Int
  consecutiveFailures : Int
  deriving DecidableEq

def CB.new (cfg : Config Err) (now now' : Int) : CB where
  state := .closed
  resetCountersAt := now + cfg.cyclicPeriod
  resetStateAt := now' + cfg.timeout
  requests := 0
  successes := 0
  failures := 0
  consecutiveSuccesses := 0
  consecutiveFailures := 0

def CB.resetCounters (cfg : Config Err) (now : Int) (cb : CB) : CB :=
  if cb.resetCountersAt < now then
    { cb with
      requests := 0, successes := 0, failures := 0, consecutiveSuccesses := 0,
      consecutiveFailures := 0, resetCountersAt := now + cfg.cyclicPeriod }
  else cb

def CB.resetState (cfg : Config Err) (now : Int) (cb : CB) : CB :=
  if cb.state = .opened ∧ cb.resetStateAt < now then
    { cb with state := .halfOpen, resetStateAt := now + cfg.timeout }
  else cb

def CB.verdict (cfg : Config Err) (cb : CB) : Option Rejection :=
  if cb.state = .opened then some .tripped
  else if cb.state = .halfOpen ∧ cfg.maxRequests ≤ cb.requests then some .tooManyRequests
  else none

/-- The resets that are due, and whether the call is admitted. -/
def CB.preflight (cfg : Config Err) (now : Int) (cb : CB) : CB × Option Rejection :=
  let cb := (cb.resetCounters cfg now).resetState cfg now
  (cb, cb.verdict cfg)

/-- The failure ratio decides if one is configured, the number of failures otherwise. -/
def CB.shouldTrip (F : Floats) (cfg : Config Err) (cb : CB) : Bool :=
  if 0 < cfg.failureRatio then
    if cb.requests < cfg.minRequests then false
    else F.reaches cb.failures cb.requests cfg.failureRatio
  else decide (cfg.tripThreshold ≤ cb.failures)

def CB.count (cfg : Config Err) (err : Option Err) (cb : CB) : CB :=
  if cfg.isDownstreamError err then
    { cb with
      requests := cb.requests + 1, failures := cb.failures + 1,
      consecutiveFailures := cb.consecutiveFailures + 1, consecutiveSuccesses := 0 }
  else
    { cb with
      requests := cb.requests + 1, successes := cb.successes + 1,
      consecutiveSuccesses := cb.consecutiveSuccesses + 1, consecutiveFailures := 0 }

/-- The counts of a call that ended, and the change of state they cause. -/
def CB.postflight (F : Floats) (cfg : Config Err) (err : Option Err) (cb : CB) : CB :=
  let cb := cb.count cfg err
  match cb.state with
  | .closed => if cb.shouldTrip F cfg then { cb with state := .opened } else cb
  | .halfOpen =>
    if cfg.maxRequests ≤ cb.consecutiveSuccesses then { cb with state := .closed } else cb
  | .opened => cb

/-! ### Concurrent calls -/

/-- A breaker, the number of calls between their `preflight` and their `postflight`, and the
clock. -/
structure World where
  cb : CB
  inFlight : Nat
  now : Int
  deriving DecidableEq

inductive Step (Err : Type) where
  | preflight (time : Int)
  | postflight (time : Int) (err : Option Err)
  deriving DecidableEq

def Step.time : Step Err → Int
  | .preflight time => time
  | .postflight time _ => time

/-- A call begins or ends; time does not run backwards. -/
def step (F : Floats) (cfg : Config Err) (w : World) (l : Step Err) : Option World :=
  if l.time < w.now then none
  else match l with
    | .preflight time =>
      let q := w.cb.preflight cfg time
      some ⟨q.1, if q.2 = none then w.inFlight + 1 else w.inFlight, time⟩
    | .postflight time err =>
      if w.inFlight = 0 then none
      else some ⟨w.cb.postflight F cfg err, w.inFlight - 1, time⟩

def World.new (cfg : Config Err) (now now' : Int) : World := ⟨CB.new cfg now now', 0, now'⟩

variable {F : Floats} {cfg : Config Err} {cb : CB} {w w' : World} {l : Step Err}

theorem step_preflight {time : Int} (hstep : step F cfg w (.preflight time) = some w') :
    w.now ≤ time ∧ w'.cb = (w.cb.preflight cfg time).1 ∧ w'.now = time := by
  unfold step at hstep
  split at hstep
  · cases hstep
  · rename_i hclock
    cases hstep
    exact ⟨not_lt.mp hclock, rfl, rfl⟩

theorem step_postflight {time : Int} {err : Option Err}
    (hstep : step F cfg w (.postflight time err) = some w') :
    w.now ≤ time ∧ w'.cb = w.cb.postflight F cfg err ∧ w'.now = time := by
  unfold step at hstep
  split at hstep
  · cases hstep
  · rename_i hclock
    dsimp only at hstep
    split at hstep
    · cases hstep
    · cases hstep
      exact ⟨not_lt.mp hclock, rfl, rfl⟩

theorem le_now_of_step (hstep : step F cfg w l = some w') : w.now ≤ l.time ∧ w'.now = l.time := by
  cases l with
  | preflight time =>
    obtain ⟨hle, -, hnow⟩ := step_preflight hstep
    exact ⟨hle, hnow⟩
  | postflight time err =>
    obtain ⟨hle, -, hnow⟩ := step_postflight hstep
    exact ⟨hle, hnow⟩

theorem time_le_now {w₀ : World} {past : List (World × Step Err)}
    (hrun : Run (step F cfg) w₀ past w) : ∀ x ∈ past, x.2.time ≤ w.now := by
  refine hrun.invariant (P := fun past w => ∀ x ∈ past, x.2.time ≤ w.now)
    (fun x hx => by cases hx) ?_
  intro past w l w' hpast hstep x hx
  obtain ⟨hle, hnow⟩ := le_now_of_step hstep
  rcases List.mem_cons.mp hx with rfl | hx
  · exact hnow.ge
  · have := hpast x hx
    omega

/-! ### The deadline -/

@[simp] theorem CB.resetCounters_state (now : Int) (cb : CB) :
    (cb.resetCounters cfg now).state = cb.state := by
  unfold CB.resetCounters
  split <;> rfl

@[simp] theorem CB.resetCounters_resetStateAt (now : Int) (cb : CB) :
    (cb.resetCounters cfg now).resetStateAt = cb.resetStateAt := by
  unfold CB.resetCounters
  split <;> rfl

@[simp] theorem CB.count_state (err : Option Err) (cb : CB) :
    (cb.count cfg err).state = cb.state := by
  unfold CB.count
  split <;> rfl

@[simp] theorem CB.count_resetStateAt (err : Option Err) (cb : CB) :
    (cb.count cfg err).resetStateAt = cb.resetStateAt := by
  unfold CB.count
  split <;> rfl

theorem CB.postflight_resetStateAt (err : Option Err) (cb : CB) :
    (cb.postflight F cfg err).resetStateAt = cb.resetStateAt := by
  unfold CB.postflight
  dsimp only
  split
  · split
    · exact CB.count_resetStateAt err cb
    · exact CB.count_resetStateAt err cb
  · split
    · exact CB.count_resetStateAt err cb
    · exact CB.count_resetStateAt err cb
  · exact CB.count_resetStateAt err cb

theorem CB.postflight_opened (hopen : cb.state = .opened) (err : Option Err) :
    (cb.postflight F cfg err).state = .opened := by
  have hcount : (cb.count cfg err).state = .opened := by rw [CB.count_state, hopen]
  unfold CB.postflight
  dsimp only
  split
  · rename_i hstate
    rw [hcount] at hstate
    cases hstate
  · rename_i hstate
    rw [hcount] at hstate
    cases hstate
  · exact hcount

theorem CB.preflight_early {now : Int} (hopen : cb.state = .opened) (hle : now ≤ cb.resetStateAt) :
    (cb.preflight cfg now).1.state = .opened ∧
      (cb.preflight cfg now).1.resetStateAt = cb.resetStateAt ∧
      (cb.preflight cfg now).2 = some .tripped := by
  have hkept : (cb.resetCounters cfg now).resetState cfg now = cb.resetCounters cfg now := by
    grind [CB.resetState, CB.resetCounters_resetStateAt]
  unfold CB.preflight
  dsimp only
  rw [hkept]
  refine ⟨by rw [CB.resetCounters_state, hopen], CB.resetCounters_resetStateAt now cb, ?_⟩
  rw [CB.verdict, CB.resetCounters_state, if_pos hopen]

theorem CB.preflight_late {now : Int} (hopen : cb.state = .opened) (hlt : cb.resetStateAt < now) :
    (cb.preflight cfg now).2 ≠ some .tripped := by
  have hhalf : ((cb.resetCounters cfg now).resetState cfg now).state = .halfOpen := by
    unfold CB.resetState
    rw [CB.resetCounters_state, CB.resetCounters_resetStateAt, if_pos ⟨hopen, hlt⟩]
  unfold CB.preflight CB.verdict
  dsimp only
  rw [hhalf, if_neg (by decide)]
  split <;> decide

theorem CB.preflight_tripped_iff {now : Int} (hopen : cb.state = .opened) :
    (cb.preflight cfg now).2 = some .tripped ↔ now ≤ cb.resetStateAt := by
  constructor
  · intro htripped
    by_contra hlate
    exact CB.preflight_late hopen (not_le.mp hlate) htripped
  · exact fun hle => (CB.preflight_early hopen hle).2.2

/-! ### How long a tripped circuit stays open -/

theorem opened_until {w₀ : World} (hopen : w₀.cb.state = .opened)
    {later : List (World × Step Err)} (hrun : Run (step F cfg) w₀ later w)
    (hearly : ∀ v time, (v, .preflight time) ∈ later → time ≤ w₀.cb.resetStateAt) :
    w.cb.state = .opened ∧ w.cb.resetStateAt = w₀.cb.resetStateAt := by
  induction hrun with
  | start => exact ⟨hopen, rfl⟩
  | @next later v v' l hr hs ih =>
    obtain ⟨hstate, hdeadline⟩ := ih fun u time hu => hearly u time (List.mem_cons_of_mem _ hu)
    cases l with
    | preflight time =>
      obtain ⟨-, hcb, -⟩ := step_preflight hs
      have hle : time ≤ v.cb.resetStateAt := by
        rw [hdeadline]
        exact hearly v time List.mem_cons_self
      have hearly' : (v.cb.preflight cfg time).1.state = .opened ∧
          (v.cb.preflight cfg time).1.resetStateAt = v.cb.resetStateAt ∧
          (v.cb.preflight cfg time).2 = some .tripped := CB.preflight_early hstate hle
      obtain ⟨hstate', hdeadline', -⟩ := hearly'
      rw [hcb]
      exact ⟨hstate', hdeadline'.trans hdeadline⟩
    | postflight time err =>
      obtain ⟨-, hcb, -⟩ := step_postflight hs
      rw [hcb]
      exact ⟨CB.postflight_opened hstate err, (CB.postflight_resetStateAt err v.cb).trans hdeadline⟩

theorem tripped_until_iff {w₀ : World} (hopen : w₀.cb.state = .opened) (limit : Int)
    {later : List (World × Step Err)} (hrun : Run (step F cfg) w₀ later w) :
    (∀ v time, (v, .preflight time) ∈ later → time < limit →
        (v.cb.preflight cfg time).2 = some .tripped) ↔
      ∀ v time, (v, .preflight time) ∈ later → time < limit → time ≤ w₀.cb.resetStateAt := by
  induction hrun with
  | start => exact iff_of_true (fun _ _ h => by cases h) (fun _ _ h => by cases h)
  | @next later v v' l hr hs ih =>
    -- the calls before the latest one were no later than it
    have hlatest : ∀ time, l = .preflight time → time < limit →
        (∀ u time', (u, .preflight time') ∈ later → time' < limit →
          time' ≤ w₀.cb.resetStateAt) →
        ((v.cb.preflight cfg time).2 = some .tripped ↔ time ≤ w₀.cb.resetStateAt) := by
      rintro time rfl hlt hearly
      obtain ⟨hclock, -, -⟩ := step_preflight hs
      obtain ⟨hstate, hdeadline⟩ := opened_until hopen hr fun u time' hu => by
        have hle : time' ≤ v.now := time_le_now hr _ hu
        exact hearly u time' hu (by omega)
      rw [CB.preflight_tripped_iff hstate, hdeadline]
    constructor
    · grind
    · grind

theorem resetStateAt_le {now now' : Int} {past : List (World × Step Err)}
    (hrun : Run (step F cfg) (World.new cfg now now') past w) :
    w.cb.resetStateAt ≤ w.now + cfg.timeout := by
  refine hrun.invariant (P := fun _ w => w.cb.resetStateAt ≤ w.now + cfg.timeout)
    Int.le_rfl ?_
  intro _ w l w' hle hstep
  cases l with
  | preflight time =>
    obtain ⟨hclock, hcb, hnow⟩ := step_preflight hstep
    rw [hcb, hnow]
    show ((w.cb.resetCounters cfg time).resetState cfg time).resetStateAt ≤ time + cfg.timeout
    unfold CB.resetState
    split
    · exact Int.le_rfl
    · rw [CB.resetCounters_resetStateAt]
      omega
  | postflight time err =>
    obtain ⟨hclock, hcb, hnow⟩ := step_postflight hstep
    rw [hcb, hnow, CB.postflight_resetStateAt]
    omega

def Trips (F : Floats) (cfg : Config Err) (w : World) (err : Option Err) : Prop :=
  w.cb.state = .closed ∧ (w.cb.postflight F cfg err).state = .opened

/-- Over all interleavings of calls: after a trip at `t`, every call within the timeout is rejected
as tripped exactly when none of them comes after the deadline that was in force at the trip, and
that deadline never lies beyond the timeout. -/
theorem tripped_for_timeout_iff {now now' t : Int} {past later : List (World × Step Err)}
    {w₁ : World} {err : Option Err} (htrips : Trips F cfg w₁ err)
    (hrun : Run (step F cfg) (World.new cfg now now') (later ++ (w₁, .postflight t err) :: past) w) :
    ((∀ v t', (v, .preflight t') ∈ later → t' < t + cfg.timeout →
        (v.cb.preflight cfg t').2 = some .tripped) ↔
      ∀ v t', (v, .preflight t') ∈ later → t' < t + cfg.timeout → t' ≤ w₁.cb.resetStateAt) ∧
    w₁.cb.resetStateAt ≤ t + cfg.timeout := by
  obtain ⟨w₂, hpast, hstep, hlater⟩ := hrun.split
  obtain ⟨hclock, hcb, -⟩ := step_postflight hstep
  have hopen : w₂.cb.state = .opened := by
    rw [hcb]
    exact htrips.2
  have hdeadline : w₂.cb.resetStateAt = w₁.cb.resetStateAt := by
    rw [hcb, CB.postflight_resetStateAt]
  constructor
  · rw [← hdeadline]
    exact tripped_until_iff hopen (t + cfg.timeout) hlater
  · have := resetStateAt_le hpast
    omega

def defaults : Config Unit := Config.apply "breaker" []

def failing (time : Int) : List (Step Unit) :=
  (List.replicate 4 [Step.preflight time, Step.postflight time (some ())]).flatten ++
    [Step.preflight time]

/-- A breaker that trips one second after its construction still rejects half a minute later. -/
theorem tripped_for_timeout_iff_young :
    ∃ past w₁ v w, Trips Floats.exact defaults w₁ (some ()) ∧
      Run (step Floats.exact defaults) (World.new defaults 0 0)
        ([(v, .preflight 30000000000)] ++ (w₁, .postflight 1000000000 (some ())) :: past) w ∧
      (v.cb.preflight defaults 30000000000).2 = some .tripped := by
  obtain ⟨past, w, hrun, hpast⟩ : ∃ past w,
      Run (step Floats.exact defaults) (World.new defaults 0 0) past w ∧
      past.take 2 = [(⟨⟨.opened, 5000000000, 60000000000, 5, 0, 5, 0, 5⟩, 0, 1000000000⟩,
          .preflight 30000000000),
        (⟨⟨.closed, 5000000000, 60000000000, 4, 0, 4, 0, 4⟩, 1, 1000000000⟩,
          .postflight 1000000000 (some ()))] :=
    Run.exists_of_record (failing 1000000000 ++ [.postflight 1000000000 (some ()),
      .preflight 30000000000]) (by decide +kernel) fun _ _ _ h => h
  rw [← List.take_append_drop 2 past, hpast] at hrun
  have hrun : Run _ _ ([_] ++ _ :: past.drop 2) w := hrun
  have htrips : Trips Floats.exact defaults
      ⟨⟨.closed, 5000000000, 60000000000, 4, 0, 4, 0, 4⟩, 1, 1000000000⟩ (some ()) :=
    ⟨rfl, by decide +kernel⟩
  refine ⟨past.drop 2, _, _, w, htrips, hrun, ?_⟩
  refine (tripped_for_timeout_iff htrips hrun).1.mpr ?_ _ _ List.mem_cons_self (by decide +kernel)
  intro v t' hmem _
  cases List.mem_singleton.mp hmem
  decide +kernel

/-- A breaker that trips a second after its first minute admits the next call at once: the deadline
in force is the one that was written at construction. -/
theorem admitted_after_trip :
    0 < defaults.timeout ∧ ∃ past w₁ v w, Trips Floats.exact defaults w₁ (some ()) ∧
      Run (step Floats.exact defaults) (World.new defaults 0 0)
        ([(v, .preflight 61000000000)] ++ (w₁, .postflight 61000000000 (some ())) :: past) w ∧
      (v.cb.preflight defaults 61000000000).2 = none := by
  obtain ⟨past, w, hrun, hpast⟩ : ∃ past w,
      Run (step Floats.exact defaults) (World.new defaults 0 0) past w ∧
      past.take 2 = [(⟨⟨.opened, 66000000000, 60000000000, 5, 0, 5, 0, 5⟩, 0, 61000000000⟩,
          .preflight 61000000000),
        (⟨⟨.closed, 66000000000, 60000000000, 4, 0, 4, 0, 4⟩, 1, 61000000000⟩,
          .postflight 61000000000 (some ()))] :=
    Run.exists_of_record (failing 61000000000 ++ [.postflight 61000000000 (some ()),
      .preflight 61000000000]) (by decide +kernel) fun _ _ _ h => h
  rw [← List.take_append_drop 2 past, hpast] at hrun
  exact ⟨by decide, past.drop 2, _, _, w, ⟨rfl, by decide +kernel⟩, hrun, by decide +kernel⟩

end Unkey.CircuitBreaker
