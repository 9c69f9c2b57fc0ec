import Mathlib.Data.List.Perm.Basic
import Unkey.CircuitBreaker.Breaker

/-!
# Probes of a half-open circuit

The calls of `Do` again, now with what the circuit was when each of them was admitted.
-/

namespace Unkey.CircuitBreaker

open Unkey.Base

variable {Err : Type}

/-! ### Calls and the state they were admitted in -/

/-- A breaker, the states in which the calls in flight were admitted, and the clock. -/
structure Calls where
  cb : CB
  inFlight : List State
  now : Int
  deriving DecidableEq

inductive CallStep (Err : Type) where
  | preflight (time : Int)
  | postflight (time : Int) (call : Nat) (err : Option Err)

def callStep (F : Floats) (cfg : Config Err) (w : Calls) : CallStep Err → Option Calls
  | .preflight time =>
    if time < w.now then none
    else
      let q := w.cb.preflight cfg time
      some ⟨q.1, if q.2 = none then q.1.state :: w.inFlight else w.inFlight, time⟩
  | .postflight time call err =>
    if time < w.now ∨ w.inFlight.length ≤ call then none
    else some ⟨w.cb.postflight F cfg err, w.inFlight.eraseIdx call, time⟩

def Calls.new (cfg : Config Err) (now now' : Int) : Calls := ⟨CB.new cfg now now', [], now'⟩

variable {F : Floats} {cfg : Config Err} {w w' : Calls}

variable {time : Int}

theorem callStep_preflight (hstep : callStep F cfg w (.preflight time) = some w') :
    w.now ≤ time ∧ w'.cb = (w.cb.preflight cfg time).1 ∧
      w'.inFlight = (if (w.cb.preflight cfg time).2 = none
        then (w.cb.preflight cfg time).1.state :: w.inFlight else w.inFlight) ∧
      w'.now = time := by
  rw [callStep] at hstep
  split at hstep
  · cases hstep
  · rename_i hclock
    cases hstep
    exact ⟨not_lt.mp hclock, rfl, rfl, rfl⟩

variable {err : Option Err}

theorem callStep_postflight {call : Nat}
    (hstep : callStep F cfg w (.postflight time call err) = some w') :
    w.now ≤ time ∧ call < w.inFlight.length ∧ w'.cb = w.cb.postflight F cfg err ∧
      w'.inFlight = w.inFlight.eraseIdx call ∧ w'.now = time := by
  rw [callStep] at hstep
  split at hstep
  · cases hstep
  · grind

variable {l : CallStep Err}

/-! ### What is counted -/

def ResetsCounters (w : Calls) : CallStep Err → Prop
  | .preflight time => w.cb.resetCountersAt < time
  | .postflight _ _ _ => False

instance (w : Calls) (l : CallStep Err) : Decidable (ResetsCounters w l) := by
  cases l <;> unfold ResetsCounters <;> infer_instance

def AdmitsHalfOpen (cfg : Config Err) (w : Calls) : CallStep Err → Prop
  | .preflight time =>
    (w.cb.preflight cfg time).2 = none ∧ (w.cb.preflight cfg time).1.state = .halfOpen
  | .postflight _ _ _ => False

instance (w : Calls) (l : CallStep Err) : Decidable (AdmitsHalfOpen cfg w l) := by
  cases l <;> unfold AdmitsHalfOpen <;> infer_instance

def halfOpenAdmissions (cfg : Config Err) : List (Calls × CallStep Err) → Nat
  | [] => 0
  | (w, l) :: past =>
    (if ResetsCounters w l then 0 else halfOpenAdmissions cfg past) +
      (if AdmitsHalfOpen cfg w l then 1 else 0)

structure Completion where
  admitted : State
  success : Bool
  deriving DecidableEq

def completions (cfg : Config Err) : List (Calls × CallStep Err) → List Completion
  | [] => []
  | (_, .preflight _) :: past => completions cfg past
  | (w, .postflight _ call err) :: past =>
    (w.inFlight[call]?.map fun admitted => ⟨admitted, !cfg.isDownstreamError err⟩).toList ++
      completions cfg past

def Completion.goodProbe : Completion := ⟨.halfOpen, true⟩

/-- Since the counters were last reset no more than `maxRequests` calls were admitted while half
open; and if the latest step closed a half-open circuit, it was the end of a call, and the last
`maxRequests` calls to end were probes that succeeded. -/
structure HalfOpenDiscipline (cfg : Config Err) (past : List (Calls × CallStep Err)) (w : Calls) :
    Prop where
  admitted : (halfOpenAdmissions cfg past : Int) ≤ cfg.maxRequests
  closes : ∀ v l earlier, past = (v, l) :: earlier → v.cb.state = .halfOpen →
    w.cb.state = .closed →
    (∃ time call err, l = .postflight time call err) ∧ ∃ older, completions cfg past =
      List.replicate cfg.maxRequests.toNat Completion.goodProbe ++ older

/-! ### When the discipline holds -/

def CB.countedAt (time : Int) (cb : CB) : Int :=
  if cb.resetCountersAt < time then 0 else cb.requests

def CB.Probing (time : Int) (cb : CB) : Prop :=
  cb.state = .halfOpen ∨ cb.state = .opened ∧ cb.resetStateAt < time

instance (time : Int) (cb : CB) : Decidable (cb.Probing time) :=
  inferInstanceAs (Decidable (_ ∨ _))

/-- Probes in flight count against `maxRequests`, a probe finds no successes left from before, and
no call from before succeeds while the circuit is half open. -/
def ProbesAlone (cfg : Config Err) (w : Calls) : CallStep Err → Prop
  | .preflight time =>
    (w.cb.Probing time → w.cb.countedAt time < cfg.maxRequests →
      w.cb.countedAt time + w.inFlight.count .halfOpen < cfg.maxRequests) ∧
    (w.cb.state = .opened → w.cb.resetStateAt < time → w.cb.resetCountersAt < time ∨
      w.cb.consecutiveSuccesses = 0)
  | .postflight _ call err =>
    w.cb.state = .halfOpen → cfg.isDownstreamError err = false →
      w.inFlight[call]? = some .halfOpen

instance (w : Calls) (l : CallStep Err) : Decidable (ProbesAlone cfg w l) := by
  cases l <;> unfold ProbesAlone <;> infer_instance

@[simp] theorem CB.resetCounters_requests (time : Int) (cb : CB) :
    (cb.resetCounters cfg time).requests = cb.countedAt time := by
  rw [CB.resetCounters, CB.countedAt]
  split <;> rfl

@[simp] theorem CB.resetState_requests (time : Int) (cb : CB) :
    (cb.resetState cfg time).requests = cb.requests := by
  rw [CB.resetState]
  split <;> rfl

@[simp] theorem CB.resetState_consecutiveSuccesses (time : Int) (cb : CB) :
    (cb.resetState cfg time).consecutiveSuccesses = cb.consecutiveSuccesses := by
  rw [CB.resetState]
  split <;> rfl

theorem CB.preflight_requests (time : Int) (cb : CB) :
    (cb.preflight cfg time).1.requests = cb.countedAt time := by
  simp [CB.preflight]

theorem CB.preflight_state (time : Int) (cb : CB) :
    (cb.preflight cfg time).1.state = if cb.state = .opened ∧ cb.resetStateAt < time
      then .halfOpen else cb.state := by
  simp only [CB.preflight, CB.resetState, CB.resetCounters_state, CB.resetCounters_resetStateAt]
  split
  · rfl
  · exact CB.resetCounters_state time cb

theorem CB.preflight_consecutiveSuccesses (time : Int) (cb : CB) :
    (cb.preflight cfg time).1.consecutiveSuccesses =
      if cb.resetCountersAt < time then 0 else cb.consecutiveSuccesses := by
  simp only [CB.preflight, CB.resetState_consecutiveSuccesses, CB.resetCounters]
  split <;> rfl

theorem CB.preflight_halfOpen_iff {cb : CB} :
    (cb.preflight cfg time).1.state = .halfOpen ↔ cb.Probing time := by
  rw [CB.preflight_state, CB.Probing]
  split
  · rename_i hlate
    exact iff_of_true rfl (.inr hlate)
  · rename_i hearly
    exact ⟨.inl, fun h => h.resolve_right hearly⟩

theorem CB.countedAt_lt_of_admitted {cb : CB} (hadmitted : (cb.preflight cfg time).2 = none)
    (hhalf : (cb.preflight cfg time).1.state = .halfOpen) :
    cb.countedAt time < cfg.maxRequests := by
  have hverdict : (cb.preflight cfg time).1.verdict cfg = none := hadmitted
  rw [CB.verdict, hhalf, CB.preflight_requests] at hverdict
  by_contra hge
  rw [if_neg (by decide), if_pos ⟨rfl, not_lt.mp hge⟩] at hverdict
  cases hverdict

@[simp] theorem CB.count_requests (err : Option Err) (cb : CB) :
    (cb.count cfg err).requests = cb.requests + 1 := by
  rw [CB.count]
  split <;> rfl

theorem CB.count_consecutiveSuccesses (err : Option Err) (cb : CB) :
    (cb.count cfg err).consecutiveSuccesses =
      if cfg.isDownstreamError err then 0 else cb.consecutiveSuccesses + 1 := by
  rw [CB.count]
  split <;> rfl

theorem CB.postflight_eq (F : Floats) (cfg : Config Err) (err : Option Err) (cb : CB) :
    ∃ state, cb.postflight F cfg err = { cb.count cfg err with state := state } := by
  simp only [CB.postflight]
  split
  · split
    · exact ⟨_, rfl⟩
    · exact ⟨_, rfl⟩
  · split
    · exact ⟨_, rfl⟩
    · exact ⟨_, rfl⟩
  · exact ⟨_, rfl⟩

theorem CB.postflight_requests (err : Option Err) (cb : CB) :
    (cb.postflight F cfg err).requests = cb.requests + 1 := by
  obtain ⟨state, heq⟩ := CB.postflight_eq F cfg err cb
  rw [heq]
  exact CB.count_requests err cb

theorem CB.postflight_consecutiveSuccesses (err : Option Err) (cb : CB) :
    (cb.postflight F cfg err).consecutiveSuccesses =
      if cfg.isDownstreamError err then 0 else cb.consecutiveSuccesses + 1 := by
  obtain ⟨state, heq⟩ := CB.postflight_eq F cfg err cb
  rw [heq]
  exact CB.count_consecutiveSuccesses err cb

theorem CB.halfOpen_of_postflight {cb : CB}
    (hhalf : (cb.postflight F cfg err).state = .halfOpen) : cb.state = .halfOpen := by
  simp only [CB.postflight, CB.count_state] at hhalf
  cases hstate : cb.state with
  | halfOpen => rfl
  | closed => grind [CB.count_state]
  | opened =>
    simp only [hstate] at hhalf
    rw [CB.count_state, hstate] at hhalf
    cases hhalf

theorem CB.streak_of_closes {cb : CB} (hhalf : cb.state = .halfOpen)
    (hclosed : (cb.postflight F cfg err).state = .closed) :
    cfg.maxRequests ≤ (cb.postflight F cfg err).consecutiveSuccesses := by
  rw [CB.postflight] at hclosed ⊢
  simp only [CB.count_state, hhalf] at hclosed ⊢
  split at hclosed
  · rename_i hle
    rw [if_pos hle]
    exact hle
  · rw [CB.count_state, hhalf] at hclosed
    cases hclosed

/-! ### The two invariants -/

variable {past : List (Calls × CallStep Err)}

theorem halfOpenAdmissions_le
    (hpast : (halfOpenAdmissions cfg past : Int) ≤ w.cb.requests + w.inFlight.count .halfOpen)
    (hstep : callStep F cfg w l = some w') :
    (halfOpenAdmissions cfg ((w, l) :: past) : Int) ≤
      w'.cb.requests + w'.inFlight.count .halfOpen := by
  cases l with
  | preflight time =>
    obtain ⟨-, hcb, hflight, -⟩ := callStep_preflight hstep
    have hbase : ((if ResetsCounters w (CallStep.preflight time : CallStep Err) then 0
        else halfOpenAdmissions cfg past : Nat) : Int) ≤
        w.cb.countedAt time + w.inFlight.count .halfOpen := by
      rw [CB.countedAt]
      by_cases hdue : w.cb.resetCountersAt < time
      · simp only [ResetsCounters, hdue, if_true]
        omega
      · simp only [ResetsCounters, hdue, if_false]
        exact hpast
    rw [halfOpenAdmissions, hcb, hflight, CB.preflight_requests]
    by_cases hq : (w.cb.preflight cfg time).2 = none
    · rw [if_pos hq, List.count_cons]
      by_cases hhalf : (w.cb.preflight cfg time).1.state = .halfOpen
      · grind
      · rw [if_neg (show ¬ AdmitsHalfOpen cfg w (.preflight time) from fun h => hhalf h.2)]
        simp only [beq_iff_eq, if_neg hhalf]
        omega
    · rw [if_neg hq, if_neg (show ¬ AdmitsHalfOpen cfg w (.preflight time) from fun h => hq h.1)]
      omega
  | postflight time call err =>
    obtain ⟨-, hlt, hcb, hflight, -⟩ := callStep_postflight hstep
    -- The call that ends is counted, whether or not it was a probe.
    have herase : w.inFlight.count .halfOpen ≤ (w.inFlight.eraseIdx call).count .halfOpen + 1 := by
      have hperm := (List.getElem_cons_eraseIdx_perm hlt).count_eq State.halfOpen
      rw [List.count_cons] at hperm
      split at hperm <;> omega
    have hreset : ¬ ResetsCounters w (CallStep.postflight time call err) := id
    have hadmits : ¬ AdmitsHalfOpen cfg w (CallStep.postflight time call err) := id
    rw [halfOpenAdmissions, hcb, hflight, CB.postflight_requests, if_neg hreset, if_neg hadmits]
    omega

def ProbeStreak (cfg : Config Err) (past : List (Calls × CallStep Err)) (w : Calls) : Prop :=
  0 ≤ w.cb.consecutiveSuccesses ∧ (w.cb.state = .halfOpen →
    ∃ older, completions cfg past =
      List.replicate w.cb.consecutiveSuccesses.toNat Completion.goodProbe ++ older)

theorem ProbeStreak.postflight {call : Nat} (hstreak : ProbeStreak cfg past w)
    (halone : ProbesAlone cfg w (.postflight time call err)) :
    0 ≤ (w.cb.postflight F cfg err).consecutiveSuccesses ∧ (w.cb.state = .halfOpen →
      ∃ older, completions cfg ((w, .postflight time call err) :: past) =
        List.replicate (w.cb.postflight F cfg err).consecutiveSuccesses.toNat
          Completion.goodProbe ++ older) := by
  obtain ⟨hnonneg, hprobes⟩ := hstreak
  rw [CB.postflight_consecutiveSuccesses]
  cases herr : cfg.isDownstreamError err with
  | true => exact ⟨le_rfl, fun _ => ⟨_, rfl⟩⟩
  | false =>
    rw [if_neg Bool.false_ne_true]
    refine ⟨by omega, fun hhalf => ?_⟩
    obtain ⟨older, holder⟩ := hprobes hhalf
    have hsucc : (w.cb.consecutiveSuccesses + 1).toNat = w.cb.consecutiveSuccesses.toNat + 1 := by
      omega
    refine ⟨older, ?_⟩
    rw [completions, halone hhalf herr, holder, hsucc, List.replicate_succ, herr]
    rfl

theorem ProbeStreak.next (hstreak : ProbeStreak cfg past w) (halone : ProbesAlone cfg w l)
    (hstep : callStep F cfg w l = some w') : ProbeStreak cfg ((w, l) :: past) w' := by
  cases l with
  | preflight time =>
    obtain ⟨-, hcb, -, -⟩ := callStep_preflight hstep
    obtain ⟨hnonneg, hprobes⟩ := hstreak
    rw [ProbeStreak, hcb, CB.preflight_consecutiveSuccesses, completions]
    by_cases hdue : w.cb.resetCountersAt < time
    · rw [if_pos hdue]
      exact ⟨le_rfl, fun _ => ⟨_, rfl⟩⟩
    · rw [if_neg hdue]
      refine ⟨hnonneg, fun hhalf => ?_⟩
      rcases CB.preflight_halfOpen_iff.mp hhalf with hstate | ⟨hstate, hlate⟩
      · exact hprobes hstate
      · -- The circuit has just gone half open, and its streak is empty.
        rw [(halone.2 hstate hlate).resolve_left hdue]
        exact ⟨_, rfl⟩
  | postflight time call err =>
    obtain ⟨-, -, hcb, -, -⟩ := callStep_postflight hstep
    obtain ⟨hnonneg, hprobes⟩ := hstreak.postflight (F := F) halone
    rw [ProbeStreak, hcb]
    exact ⟨hnonneg, fun hhalf => hprobes (CB.halfOpen_of_postflight hhalf)⟩

theorem halfOpenAdmissions_le_maxRequests
    (hpast : (halfOpenAdmissions cfg past : Int) ≤ w.cb.requests + w.inFlight.count .halfOpen)
    (hmax : (halfOpenAdmissions cfg past : Int) ≤ cfg.maxRequests) (hpos : 0 ≤ cfg.maxRequests)
    (halone : ProbesAlone cfg w l) :
    (halfOpenAdmissions cfg ((w, l) :: past) : Int) ≤ cfg.maxRequests := by
  rw [halfOpenAdmissions]
  by_cases hadmits : AdmitsHalfOpen cfg w l
  · cases l with
    | preflight time =>
      have hroom := halone.1 (CB.preflight_halfOpen_iff.mp hadmits.2)
        (CB.countedAt_lt_of_admitted hadmits.1 hadmits.2)
      rw [if_pos hadmits]
      rw [CB.countedAt] at hroom
      by_cases hdue : w.cb.resetCountersAt < time
      · simp only [ResetsCounters, hdue, if_true] at hroom ⊢
        omega
      · simp only [ResetsCounters, hdue, if_false] at hroom ⊢
        omega
    | postflight time call err => cases hadmits
  · rw [if_neg hadmits]
    split
    · omega
    · exact hmax

/-- The half-open admissions are counted or in flight, and the streak of successes is that of
probes. -/
structure ProbesKept (cfg : Config Err) (past : List (Calls × CallStep Err)) (w : Calls) :
    Prop where
  counted : (halfOpenAdmissions cfg past : Int) ≤ w.cb.requests + w.inFlight.count .halfOpen
  streak : ProbeStreak cfg past w
  discipline : HalfOpenDiscipline cfg past w

theorem ProbesKept.new (hmax : 1 ≤ cfg.maxRequests) (now now' : Int) :
    ProbesKept cfg [] (Calls.new cfg now now') where
  counted := le_rfl
  streak := ⟨le_rfl, fun hhalf => by cases hhalf⟩
  discipline := ⟨(by omega : (0 : Int) ≤ cfg.maxRequests), fun _ _ _ hpast => by cases hpast⟩

theorem ProbeStreak.closes {call : Nat} (hstreak : ProbeStreak cfg past w)
    (halone : ProbesAlone cfg w (.postflight time call err)) (hhalf : w.cb.state = .halfOpen)
    (hclosed : (w.cb.postflight F cfg err).state = .closed) :
    ∃ older, completions cfg ((w, .postflight time call err) :: past) =
      List.replicate cfg.maxRequests.toNat Completion.goodProbe ++ older := by
  have hlong := CB.streak_of_closes hhalf hclosed
  obtain ⟨older, holder⟩ := (hstreak.postflight (F := F) halone).2 hhalf
  generalize (w.cb.postflight F cfg err).consecutiveSuccesses = streak at hlong holder
  have hsplit : streak.toNat = cfg.maxRequests.toNat + (streak.toNat - cfg.maxRequests.toNat) := by
    omega
  rw [hsplit, List.replicate_add, List.append_assoc] at holder
  exact ⟨_, holder⟩

theorem ProbesKept.next (hmax : 1 ≤ cfg.maxRequests)
    (hkept : ProbesKept cfg past w) (halone : ProbesAlone cfg w l)
    (hstep : callStep F cfg w l = some w') : ProbesKept cfg ((w, l) :: past) w' := by
  refine ⟨halfOpenAdmissions_le hkept.counted hstep, hkept.streak.next halone hstep, ?_, ?_⟩
  · exact halfOpenAdmissions_le_maxRequests hkept.counted hkept.discipline.admitted (by omega)
      halone
  · rintro _ _ _ ⟨⟩ hhalf hclosed
    cases l with
    | preflight time =>
      -- `preflight` never closes the circuit.
      obtain ⟨-, hcb, -, -⟩ := callStep_preflight hstep
      have hstill : (w.cb.preflight cfg time).1.state = .halfOpen :=
        CB.preflight_halfOpen_iff.mpr (.inl hhalf)
      rw [hcb, hstill] at hclosed
      cases hclosed
    | postflight time call err =>
      obtain ⟨-, -, hcb, -, -⟩ := callStep_postflight hstep
      rw [hcb] at hclosed
      exact ⟨⟨time, call, err, rfl⟩, hkept.streak.closes halone hhalf hclosed⟩

/-- As long as probes run alone, a half-open circuit lets no more than `maxRequests` of them
through between two resets, and closes only after that many succeeded in a row. -/
theorem halfOpenDiscipline_of_probesAlone (F : Floats) (cfg : Config Err)
    (hmax : 1 ≤ cfg.maxRequests) (now now' : Int) {past : List (Calls × CallStep Err)} {w : Calls}
    (hrun : Run (callStep F cfg) (Calls.new cfg now now') past w)
    (halone : Always (fun _ w l => ProbesAlone cfg w l) past) : HalfOpenDiscipline cfg past w :=
  (hrun.invariant_always (P := ProbesKept cfg) (ProbesKept.new hmax now now')
    (fun _ _ _ _ hkept halone hstep => hkept.next hmax halone hstep) halone).discipline

/-! ### One probe at a time -/

def oneProbe : Config Unit :=
  Config.apply "one probe" [Config.withMaxRequests 1, Config.withTripThreshold 1]

def soundProbe : List (CallStep Unit) :=
  [.preflight 1, .postflight 2 0 (some ()), .preflight 60000000001, .postflight 60000000002 0 none]

theorem halfOpenDiscipline_soundProbe :
    ∃ past w, Run (callStep Floats.exact oneProbe) (Calls.new oneProbe 0 0) past w ∧
      HalfOpenDiscipline oneProbe past w ∧ w.cb.state = .closed ∧
      completions oneProbe past = [⟨.halfOpen, true⟩, ⟨.closed, false⟩] := by
  refine Run.exists_of_record (P := fun past w => Always (fun _ w l => ProbesAlone oneProbe w l)
      past ∧ w.cb.state = .closed ∧ completions oneProbe past = [⟨.halfOpen, true⟩, ⟨.closed,
      false⟩])
    soundProbe (by decide +kernel) ?_
  rintro past w hrun ⟨halone, hstate, hcompleted⟩
  exact ⟨halfOpenDiscipline_of_probesAlone _ _ (by decide) 0 0 hrun halone, hstate,
    hcompleted⟩

def twoProbes : List (CallStep Unit) :=
  [.preflight 1, .postflight 2 0 (some ()), .preflight 60000000001, .preflight 60000000001]

def slowCall : List (CallStep Unit) :=
  [.preflight 1, .preflight 1, .postflight 2 0 (some ()), .preflight 60000000001,
    .postflight 60000000002 1 none]

/-- With `maxRequests` 1 two probes are let through at once; and a call admitted before the trip
closes the circuit while its only probe is still in flight. -/
theorem halfOpen_undisciplined :
    (∃ past w, Run (callStep Floats.exact oneProbe) (Calls.new oneProbe 0 0) past w ∧
      halfOpenAdmissions oneProbe past = 2 ∧ ¬ HalfOpenDiscipline oneProbe past w) ∧
    ∃ past w, Run (callStep Floats.exact oneProbe) (Calls.new oneProbe 0 0) past w ∧
      completions oneProbe past = [⟨.closed, true⟩, ⟨.closed, false⟩] ∧
      ¬ HalfOpenDiscipline oneProbe past w := by
  constructor
  · refine Run.exists_of_record (P := fun past _ => halfOpenAdmissions oneProbe past = 2)
      twoProbes (by decide +kernel) fun past w hrun htwo => ⟨htwo, fun hdiscipline => ?_⟩
    have hle := hdiscipline.admitted
    rw [htwo] at hle
    exact absurd hle (by decide)
  · refine Run.exists_of_record (P := fun past w => (past.head?.map fun x => x.1.cb.state)
        = some .halfOpen ∧ w.cb.state = .closed ∧
        completions oneProbe past = [⟨.closed, true⟩, ⟨.closed, false⟩])
      slowCall (by decide +kernel) ?_
    rintro past w hrun ⟨hhead, hclosed, hcompleted⟩
    refine ⟨hcompleted, fun hdiscipline => ?_⟩
    obtain ⟨⟨v, l⟩, hv, hhalf⟩ := Option.map_eq_some_iff.mp hhead
    obtain ⟨earlier, rfl⟩ := List.head?_eq_some_iff.mp hv
    obtain ⟨-, older, holder⟩ := hdiscipline.closes v l earlier rfl hhalf hclosed
    rw [hcompleted] at holder
    exact absurd (List.cons.inj holder).1 (by decide)

end Unkey.CircuitBreaker
