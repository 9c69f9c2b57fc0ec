import Unkey.SpendCheck.Alerts

/-!
# Enforcement of the budget

Compute is stopped when the spend reaches the budget and resumed after two ticks under it.
-/

namespace Unkey.SpendCheck

open Unkey.Base

/-! ### What enforcement changes -/

structure Standing where
  underBudgetStreak : String → Option Int
  deploySpendSuspended : Bool
  messages : List Message

def World.standing (w : World) : Standing :=
  ⟨w.underBudgetStreak, w.deploySpendSuspended, w.messages⟩

@[simp] theorem World.standing_setMark (w : World) (period : String) (spend : Int) :
    (w.setMark period spend).standing = w.standing := rfl

theorem World.standing_sendToAdmins (w : World) (admins : List String) (a : BudgetAlert)
    (templateID idempotencyKey : String) (templateVars : List (String × String)) :
    (w.sendToAdmins admins a templateID idempotencyKey templateVars).standing = w.standing := by
  rw [World.sendToAdmins]
  split <;> rfl

variable {cfg : Config} {req : Request} {env : Surroundings} {w w' : World} {t : Tick}

theorem World.standing_warnThreshold (w : World) :
    (w.warnThreshold cfg req env).standing = w.standing := by
  rw [World.warnThreshold]
  split
  · rw [World.standing_setMark]
    exact w.standing_sendToAdmins _ _ _ _ _
  · rfl

inductive Enforced (req : Request) (env : Surroundings) (s : Standing) : Standing → Prop
  | suspended : req.willSuspend = true → env.entitled = true →
      Enforced req env s ⟨Function.update s.underBudgetStreak req.period none, true,
        s.messages ++ [.suspend]⟩
  | noPlan : req.willSuspend = true → env.entitled = false → Enforced req env s s
  | running : req.willSuspend = false → req.currentlySuspended = false → Enforced req env s s
  | stopOff : req.currentlySuspended = true → req.stop = false →
      Enforced req env s ⟨Function.update s.underBudgetStreak req.period none, false,
        s.messages ++ [.resume]⟩
  | again : req.currentlySuspended = true → req.budgetMicroCents ≤ req.spendMicroCents →
      Enforced req env s ⟨Function.update s.underBudgetStreak req.period none,
        s.deploySpendSuspended, s.messages ++ [.suspend]⟩
  | counted (streak : Int) : req.currentlySuspended = true →
      req.spendMicroCents < req.budgetMicroCents →
      streak = int32 ((s.underBudgetStreak req.period).getD 0 + 1) → streak < resumeConfirmations →
      Enforced req env s ⟨Function.update s.underBudgetStreak req.period (some streak),
        s.deploySpendSuspended, s.messages⟩
  | confirmed : req.currentlySuspended = true → req.spendMicroCents < req.budgetMicroCents →
      resumeConfirmations ≤ int32 ((s.underBudgetStreak req.period).getD 0 + 1) →
      Enforced req env s ⟨Function.update s.underBudgetStreak req.period none, false,
        s.messages ++ [.resume]⟩

theorem World.enforce_enforced (w : World) (alerted : Int) (sentAlert : Bool) :
    Enforced req env w.standing (w.enforce cfg req env alerted sentAlert).1.standing := by
  rw [World.enforce]
  split
  · rename_i hwill
    split
    · rename_i hplan
      dsimp only
      rw [World.suspendCompute, World.standing_setMark, World.stoppedAlert,
        World.standing_sendToAdmins]
      exact .suspended hwill hplan
    · rename_i hplan
      exact .noPlan hwill (Bool.eq_false_iff.mpr hplan)
  · rename_i hwill
    split
    · rename_i hsuspended
      split
      · rename_i hstop
        exact .stopOff hsuspended (by simpa using hstop)
      · split
        · rename_i hover
          exact .again hsuspended hover
        · rename_i hunder
          rw [World.underBudget]
          dsimp only
          split
          · rename_i hstreak
            exact .counted _ hsuspended (not_le.mp hunder) rfl hstreak
          · rename_i hstreak
            exact .confirmed hsuspended (not_le.mp hunder) (not_lt.mp hstreak)
    · rename_i hsuspended
      exact .running (Bool.eq_false_iff.mpr hwill) (Bool.eq_false_iff.mpr hsuspended)

def World.found (w : World) (env : Surroundings) : Standing :=
  (w.clearPeriod env.now.prev.key).standing

theorem World.check_enforced (hcurrent : Period.parse req.period = .ok env.now)
    (hbudget : 0 < req.budgetCents) (w : World) :
    Enforced req env (w.found env) (w.checkWorkspaceSpend cfg req env).1.standing := by
  rw [World.checkWorkspaceSpend, hcurrent]
  dsimp only
  rw [if_neg (not_not.mpr rfl), World.checkCurrent, if_neg (by omega)]
  rw [World.found, ← @World.standing_warnThreshold cfg req env]
  exact World.enforce_enforced _ _ _

/-! ### Exact enforcement -/

def highestReached (spend budget : Int) : Int :=
  (thresholds.filter fun t => t * budget ≤ 100 * spend).foldl max 0

theorem crossedThreshold_eq_highestReached {spend budget : Int} (hspend : 0 ≤ spend)
    (hbudget : 0 < budget) : crossedThreshold spend budget = highestReached spend budget := by
  rw [crossedThreshold_eq hspend hbudget]
  simp only [highestReached, thresholds, List.filter_cons, List.filter_nil, decide_eq_true_eq]
  -- a threshold is reached only with those below it
  split_ifs <;> first | omega | decide

def Suspends (w w' : World) : Prop :=
  w'.deploySpendSuspended = true ∧ w'.messages = w.messages ++ [Message.suspend]

/-- A call for a workspace that runs, may be stopped and has a plan, in the current period. -/
structure Stoppable (req : Request) (env : Surroundings) : Prop where
  stop : req.stop = true
  running : req.currentlySuspended = false
  entitled : env.entitled = true
  current : Period.parse req.period = .ok env.now

theorem Stoppable.suspends_iff (h : Stoppable req env) (hbudget : 0 < req.budgetCents) :
    Suspends w (w.checkWorkspaceSpend cfg req env).1 ↔
      req.budgetMicroCents ≤ req.spendMicroCents := by
  have hwill : req.willSuspend = true ↔ req.budgetMicroCents ≤ req.spendMicroCents := by
    simp [Request.willSuspend, h.stop, h.running]
  have hsuspends (w' : World) : Suspends w w' ↔ w'.standing.deploySpendSuspended = true ∧
      w'.standing.messages = (w.found env).messages ++ [Message.suspend] := Iff.rfl
  rw [hsuspends, ← hwill]
  have henforced := @World.check_enforced cfg req env h.current hbudget w
  generalize (w.checkWorkspaceSpend cfg req env).1.standing = s' at henforced ⊢
  cases henforced with
  | suspended hyes _ => exact iff_of_true ⟨rfl, rfl⟩ hyes
  | noPlan _ hplan => exact absurd (h.entitled.symm.trans hplan) (by decide)
  | running hno _ => simp [hno]
  | stopOff hflag | again hflag | counted _ hflag | confirmed hflag =>
    exact absurd (h.running.symm.trans hflag) (by decide)

/-- At this budget suspension and alerts follow the exact comparison. -/
structure ExactAt (budgetCents : Int) : Prop where
  suspension : ∀ (cfg : Config) (req : Request) (env : Surroundings) (w : World),
    Stoppable req env → req.budgetCents = budgetCents → 0 ≤ req.spendMicroCents →
      IsInt64 req.spendMicroCents →
      (Suspends w (w.checkWorkspaceSpend cfg req env).1 ↔
        budgetCents * 1000000 ≤ req.spendMicroCents)
  threshold : ∀ spend : Int, 0 ≤ spend → IsInt64 spend →
    crossedThreshold spend (int64 (budgetCents * microCentsPerCent)) =
      highestReached spend (budgetCents * 1000000)

theorem int64_le_self {x : Int} (hx : 0 ≤ x) : int64 x ≤ x := by
  rw [int64]
  omega

def mayTick (budgetCents spendMicroCents : Int) (suspended : Bool) : Tick where
  req := ⟨"2026-05", budgetCents, spendMicroCents, true, suspended, "org_acme", "Acme", "acme"⟩
  env := ⟨⟨2026, 5⟩, 2026, true, []⟩

theorem parse_may : Period.parse "2026-05" = .ok ⟨2026, 5⟩ := by decide +kernel

theorem stoppable_mayTick (budgetCents spendMicroCents : Int) :
    Stoppable (mayTick budgetCents spendMicroCents false).req
      (mayTick budgetCents spendMicroCents false).env :=
  ⟨rfl, rfl, rfl, parse_may⟩

theorem exists_spend_of_not_isInt64 {budget : Int} (hpos : 0 < budget) (hbig : ¬ IsInt64 budget) :
    ∃ spend, 0 ≤ spend ∧ IsInt64 spend ∧ int64 budget ≤ spend ∧ spend < budget := by
  refine ⟨max 0 (int64 budget), le_max_left _ _, ?_, le_max_right _ _, ?_⟩
  all_goals
    rw [IsInt64] at *
    rw [int64]
    omega

/-- Enforcement is exact for the budgets that fit in 64 bits as micro-cents and for no others. -/
theorem exactAt_iff (budgetCents : Int) (hbudget : 0 < budgetCents) :
    ExactAt budgetCents ↔ IsInt64 (budgetCents * 1000000) := by
  constructor
  · intro hexact
    by_contra hbig
    obtain ⟨spend, hspend, hint, hle, hlt⟩ := exists_spend_of_not_isInt64 (by omega) hbig
    have hiff := hexact.suspension acme (mayTick budgetCents spend false).req
      (mayTick budgetCents spend false).env (World.new false) (stoppable_mayTick _ _) rfl hspend hint
    rw [(stoppable_mayTick budgetCents spend).suspends_iff hbudget] at hiff
    exact absurd (hiff.mp hle) (not_le.mpr hlt)
  · intro hfits
    have hscaled : int64 (budgetCents * microCentsPerCent) = budgetCents * 1000000 :=
      int64_of_isInt64 hfits
    constructor
    · rintro cfg req env w h rfl - -
      rw [h.suspends_iff hbudget, Request.budgetMicroCents, hscaled]
    · grind [crossedThreshold_eq_highestReached]

/-- A budget of a hundred dollars: a cent below it compute runs on, at it compute stops. -/
theorem exactAt_hundred_dollars :
    IsInt64 (10000 * 1000000) ∧ ExactAt 10000 ∧
      ¬ Suspends (World.new false) ((World.new false).checkWorkspaceSpend acme
        (mayTick 10000 9999000000 false).req (mayTick 10000 9999000000 false).env).1 ∧
      Suspends (World.new false) ((World.new false).checkWorkspaceSpend acme
        (mayTick 10000 10000000000 false).req (mayTick 10000 10000000000 false).env).1 := by
  have hexact : ExactAt 10000 := (exactAt_iff 10000 (by decide)).mpr (by decide)
  refine ⟨by decide, hexact, ?_, ?_⟩
  · rw [hexact.suspension _ _ _ _ (stoppable_mayTick _ _) rfl (by decide) (by decide)]
    decide
  · rw [hexact.suspension _ _ _ _ (stoppable_mayTick _ _) rfl (by decide) (by decide)]
    decide

/-- A budget of 184,467,440,737.10 dollars becomes less than one cent: compute stops at less than a
cent, and the comparison in 128 bits reports the whole budget as spent. -/
theorem huge_budget_suspends_early :
    Suspends (World.new false) ((World.new false).checkWorkspaceSpend acme
        (mayTick 18446744073710 448384 false).req (mayTick 18446744073710 448384 false).env).1 ∧
      ¬ 18446744073710 * 1000000 ≤ (mayTick 18446744073710 448384 false).req.spendMicroCents ∧
      (mayTick 18446744073710 448384 false).req.crossed = 100 := by
  refine ⟨((stoppable_mayTick _ _).suspends_iff (by decide)).mpr (by decide), by decide, by decide⟩

/-! ### Hysteresis -/

/-- The calls of one period for a workspace with a budget that may be stopped. -/
structure InSequence (key : String) (past : List (World × Tick)) (w : World) (t : Tick) :
    Prop where
  period : t.req.period = key
  current : Period.parse key = .ok t.env.now
  stop : t.req.stop = true
  budget : 0 < t.req.budgetCents
  flag : past ≠ [] → t.req.currentlySuspended = w.deploySpendSuspended

instance (key : String) (past : List (World × Tick)) (w : World) (t : Tick) :
    Decidable (InSequence key past w t) :=
  decidable_of_iff (t.req.period = key ∧ Period.parse key = .ok t.env.now ∧ t.req.stop = true ∧
      0 < t.req.budgetCents ∧ (past ≠ [] → t.req.currentlySuspended = w.deploySpendSuspended))
    ⟨fun ⟨hp, hc, hs, hb, hf⟩ => ⟨hp, hc, hs, hb, hf⟩,
      fun h => ⟨h.period, h.current, h.stop, h.budget, h.flag⟩⟩

def Resumes (cfg : Config) (w : World) (t : Tick) : Prop :=
  (w.checkWorkspaceSpend cfg t.req t.env).1.messages = w.messages ++ [Message.resume]

def FoundUnder (t : Tick) : Prop :=
  t.req.currentlySuspended = true ∧ t.req.spendMicroCents < t.req.budgetCents * 1000000

def LastFoundUnder (past : List (World × Tick)) : Prop :=
  ∃ x earlier, past = x :: earlier ∧ FoundUnder x.2

/-- A stored streak is one, and a workspace that is suspended with a streak owes it to the last
call. -/
structure StreakKept (key : String) (past : List (World × Tick)) (s : Standing) : Prop where
  one : ∀ streak, s.underBudgetStreak key = some streak → streak = 1
  recent : s.deploySpendSuspended = true → s.underBudgetStreak key ≠ none → LastFoundUnder past
  first : past = [] → s.underBudgetStreak key = none

section Sequence

variable {key : String} {past : List (World × Tick)} {s s' : Standing}

theorem foundUnder_of_lt (hbudget : 0 < t.req.budgetCents)
    (hflag : t.req.currentlySuspended = true)
    (hunder : t.req.spendMicroCents < t.req.budgetMicroCents) : FoundUnder t := by
  have hle : int64 (t.req.budgetCents * 1000000) ≤ t.req.budgetCents * 1000000 :=
    int64_le_self (by omega)
  exact ⟨hflag, hunder.trans_le hle⟩

theorem Request.flag_of_willSuspend {req : Request} (h : req.willSuspend = true) :
    req.currentlySuspended = false := by
  simp only [Request.willSuspend, Bool.and_eq_true, Bool.not_eq_true'] at h
  exact h.1.2

theorem StreakKept.counts (hs : StreakKept key past s) :
    int32 ((s.underBudgetStreak key).getD 0 + 1) =
      if s.underBudgetStreak key = none then 1 else 2 := by
  cases hstreak : s.underBudgetStreak key with
  | none => rfl
  | some streak =>
    rw [hs.one streak hstreak]
    rfl

theorem StreakKept.cleared (past : List (World × Tick)) (streaks : String → Option Int)
    (flag : Bool) (messages : List Message) :
    StreakKept key past ⟨Function.update streaks key none, flag, messages⟩ := by
  constructor <;> simp

theorem StreakKept.running (hs : StreakKept key past s) (hflag : past ≠ [] → s.deploySpendSuspended = false)
    (x : World × Tick) : StreakKept key (x :: past) s := by
  refine ⟨hs.one, fun hsuspended hstreak => ?_, nofun⟩
  have hpast : past ≠ [] := fun hnil => hstreak (hs.first hnil)
  exact absurd (hsuspended.symm.trans (hflag hpast)) (by decide)

theorem StreakKept.next (hs : StreakKept key past s) (hbudget : 0 < t.req.budgetCents)
    (hstop : t.req.stop = true) (hkey : t.req.period = key)
    (hflag : past ≠ [] → t.req.currentlySuspended = s.deploySpendSuspended)
    (henforced : Enforced t.req t.env s s') : StreakKept key ((w, t) :: past) s' := by
  subst hkey
  cases henforced with
  | suspended | again | confirmed => exact .cleared _ _ _ _
  | noPlan hwill =>
    exact hs.running (fun h => (hflag h).symm.trans (Request.flag_of_willSuspend hwill)) _
  | running _ hoff => exact hs.running (fun h => (hflag h).symm.trans hoff) _
  | stopOff _ hno => exact absurd (hstop.symm.trans hno) (by decide)
  | counted streak hon hunder hcount hlt =>
    rw [hs.counts] at hcount
    have hone : streak = 1 := by
      rw [resumeConfirmations] at hlt
      split at hcount <;> omega
    refine ⟨?_, fun _ _ => ⟨_, _, rfl, foundUnder_of_lt hbudget hon hunder⟩, nofun⟩
    intro other hother
    dsimp only at hother
    rw [Function.update_self, Option.some.injEq] at hother
    exact hother.symm.trans hone

theorem StreakKept.of_resumed (hs : StreakKept key past s) (hbudget : 0 < t.req.budgetCents)
    (hstop : t.req.stop = true) (hkey : t.req.period = key)
    (hflag : past ≠ [] → t.req.currentlySuspended = s.deploySpendSuspended)
    (henforced : Enforced t.req t.env s s')
    (hresumes : s'.messages = s.messages ++ [Message.resume]) :
    FoundUnder t ∧ LastFoundUnder past := by
  subst hkey
  cases henforced with
  | noPlan | running | counted | suspended | again => simp at hresumes
  | stopOff _ hno => exact absurd (hstop.symm.trans hno) (by decide)
  | confirmed hon hunder hcount =>
    rw [hs.counts] at hcount
    have hstreak : s.underBudgetStreak t.req.period ≠ none := by
      intro hnone
      rw [if_pos hnone] at hcount
      exact absurd hcount (by decide)
    have hpast : past ≠ [] := fun hnil => hstreak (hs.first hnil)
    exact ⟨foundUnder_of_lt hbudget hon hunder, hs.recent ((hflag hpast).symm.trans hon) hstreak⟩

theorem StreakKept.found (hs : StreakKept key past w.standing)
    (hcurrent : Period.parse key = .ok env.now) : StreakKept key past (w.found env) := by
  have hstreak : (w.found env).underBudgetStreak key = w.underBudgetStreak key :=
    Function.update_of_ne (Period.prev_key_ne hcurrent) _ _
  constructor
  · rw [hstreak]
    exact hs.one
  · rw [hstreak]
    exact hs.recent
  · rw [hstreak]
    exact hs.first

theorem Enforced.other_streak (henforced : Enforced req env s s') {other : String}
    (hother : other ≠ req.period) : s'.underBudgetStreak other = s.underBudgetStreak other := by
  cases henforced with
  | noPlan | running => rfl
  | suspended | stopOff | again | counted | confirmed => exact Function.update_of_ne hother _ _

theorem World.found_streak_of_none {other : String} (hnone : w.underBudgetStreak other = none) :
    (w.found env).underBudgetStreak other = none := by
  show Function.update w.underBudgetStreak env.now.prev.key none other = none
  by_cases hprev : other = env.now.prev.key
  · rw [hprev, Function.update_self]
  · rw [Function.update_of_ne hprev, hnone]

def OnlyStreak (key : String) (w₀ w : World) : Prop :=
  ∀ other, other ≠ key → w₀.underBudgetStreak other = none → w.underBudgetStreak other = none

theorem InSequence.enforced (cfg : Config) (hin : InSequence key past w t) :
    Enforced t.req t.env (w.found t.env) (w.checkWorkspaceSpend cfg t.req t.env).1.standing :=
  World.check_enforced (by rw [hin.period, hin.current]) hin.budget w

theorem InSequence.next {w₀ : World} (hin : InSequence key past w t)
    (h : StreakKept key past w.standing ∧ OnlyStreak key w₀ w) :
    StreakKept key ((w, t) :: past) (w.checkWorkspaceSpend cfg t.req t.env).1.standing ∧
      OnlyStreak key w₀ (w.checkWorkspaceSpend cfg t.req t.env).1 := by
  refine ⟨(h.1.found hin.current).next hin.budget hin.stop hin.period hin.flag (hin.enforced cfg), ?_⟩
  intro other hother hnone
  have hsame := (hin.enforced cfg).other_streak (hin.period ▸ hother)
  exact hsame.trans (World.found_streak_of_none (h.2 other hother hnone))

end Sequence

/-- Compute is resumed only at the second of two calls in a row that found the workspace suspended
and its spend below its budget, and no stored streak reaches the number of confirmations. -/
theorem resumed_after_two_under_budget (cfg : Config) (key : String) {w₀ : World}
    (hstart : w₀.underBudgetStreak key = none) {past : List (World × Tick)} {w : World}
    (hrun : Run (step cfg) w₀ past w) (hcalls : Always (InSequence key) past) :
    Always (fun past w t => Resumes cfg w t → FoundUnder t ∧ LastFoundUnder past) past ∧
      ∀ period streak, w₀.underBudgetStreak period = none →
        w.underBudgetStreak period = some streak → streak < resumeConfirmations := by
  have h0 : StreakKept key [] w₀.standing ∧ OnlyStreak key w₀ w₀ := by
    refine ⟨⟨fun streak h => ?_, fun _ h => absurd hstart h, fun _ => hstart⟩, fun _ _ h => h⟩
    exact absurd (hstart.symm.trans h) (by simp)
  have hnext : ∀ past w t w', StreakKept key past w.standing ∧ OnlyStreak key w₀ w →
      InSequence key past w t → step cfg w t = some w' →
        StreakKept key ((w, t) :: past) w'.standing ∧ OnlyStreak key w₀ w' := by
    intro past w t w' h hin hstep
    cases hstep
    exact hin.next h
  constructor
  · refine hrun.always h0 hnext ?_ hcalls
    intro past w t h hin hresumes
    exact (h.1.found hin.current).of_resumed hin.budget hin.stop hin.period hin.flag
      (hin.enforced cfg) hresumes
  · obtain ⟨hs, honly⟩ := hrun.invariant_always h0 hnext hcalls
    intro period streak hnone hstored
    have hkey : period = key := by
      by_contra hother
      exact absurd ((honly period hother hnone).symm.trans hstored) (by simp)
    rw [hs.one streak (hkey ▸ hstored)]
    decide

def budgetRaised : List Tick :=
  [mayTick 10000 10000000000 false, mayTick 20000 10000000000 true, mayTick 10000 10000000000 true,
    mayTick 20000 10000000000 true, mayTick 20000 10000000000 true]

theorem resumed_after_two_budgetRaised :
    ∃ past w, Run (step acme) (World.new false) past w ∧
      Always (fun past w t => Resumes acme w t → FoundUnder t ∧ LastFoundUnder past) past ∧
      w.messages = [.suspend, .suspend, .resume] ∧ w.underBudgetStreak "2026-05" = none := by
  refine Run.exists_of_record (P := fun past w => Always (InSequence "2026-05") past ∧
      w.messages = [Message.suspend, Message.suspend, Message.resume] ∧
      w.underBudgetStreak "2026-05" = none)
    budgetRaised (by decide +kernel) ?_
  rintro past w hrun ⟨hcalls, hmessages, hstreak⟩
  exact ⟨(resumed_after_two_under_budget acme "2026-05" rfl hrun hcalls).1,
    hmessages, hstreak⟩

end Unkey.SpendCheck
