import Mathlib.Tactic.IntervalCases
import Unkey.SpendCheck.Check

/-!
# No alert twice

What was already alerted is not stored as a threshold: the object keeps the spend at which it last
alerted and asks which threshold of today's budget that spend reaches.
-/

namespace Unkey.SpendCheck

open Unkey.Base

/-! ### Thresholds grow with the spend -/

theorem reaches_iff (spend budget threshold : Int) :
    reaches spend budget threshold = true ↔
      budget.toNat * threshold.toNat ≤ spend.toNat * 100 := by
  rw [reaches, decide_eq_true_iff]
  exact mul64_le_iff _ _ _ _

theorem crossedThreshold_eq {spend budget : Int} (hspend : 0 ≤ spend) (hbudget : 0 < budget) :
    crossedThreshold spend budget =
      if budget * 100 ≤ spend * 100 then 100
      else if budget * 75 ≤ spend * 100 then 75
      else if budget * 50 ≤ spend * 100 then 50 else 0 := by
  have hexact (t : Nat) : reaches spend budget t = true ↔ budget * t ≤ spend * 100 := by
    rw [reaches_iff, Int.toNat_natCast, ← Int.ofNat_le]
    push_cast
    rw [Int.toNat_of_nonneg hspend, Int.toNat_of_nonneg hbudget.le]
  have h50 := hexact 50
  have h75 := hexact 75
  have h100 := hexact 100
  simp only [Nat.cast_ofNat] at h50 h75 h100
  rw [crossedThreshold, if_neg (by omega)]
  simp only [thresholds, List.foldl_cons, List.foldl_nil, h50, h75, h100]

theorem crossedThreshold_mono {spend spend' : Int} (hspend : 0 ≤ spend) (hle : spend ≤ spend')
    (budget : Int) : crossedThreshold spend budget ≤ crossedThreshold spend' budget := by
  by_cases hbudget : 0 < budget
  · rw [crossedThreshold_eq hspend hbudget, crossedThreshold_eq (by omega) hbudget]
    split_ifs <;> omega
  · have hzero (x : Int) : crossedThreshold x budget = 0 := if_pos (.inl (not_lt.mp hbudget))
    rw [hzero, hzero]

/-! ### The key of the previous period -/

theorem Period.prev_month_ne (p : Period) : p.prev.month ≠ p.month := by
  rw [Period.prev]
  split
  · rename_i hjanuary
    rw [hjanuary]
    exact (by decide : (12 : Int) ≠ 1)
  · dsimp only
    omega

theorem Period.prev_month_mem {p : Period} (hp : 1 ≤ p.month ∧ p.month ≤ 12) :
    1 ≤ p.prev.month ∧ p.prev.month ≤ 12 := by
  rw [Period.prev]
  split
  · exact (by decide : (1 : Int) ≤ 12 ∧ (12 : Int) ≤ 12)
  · dsimp only
    omega

theorem atoi_padInt_month {m : Int} (hm : 1 ≤ m ∧ m ≤ 12) :
    atoi (padInt 2 m) = some m ∧ '-' ∉ (padInt 2 m).toList := by
  obtain ⟨hlo, hhi⟩ := hm
  interval_cases m <;> decide +kernel

theorem Period.parse_eq_ok {key : String} {p : Period} (hparse : Period.parse key = .ok p) :
    (1 ≤ p.month ∧ p.month ≤ 12) ∧ ∃ year month, key = year ++ "-" ++ month ∧
      '-' ∉ month.toList ∧ atoi month = some p.month := by
  rw [Period.parse] at hparse
  split at hparse
  · rename_i year month hsplit
    split at hparse
    · cases hparse
    · split at hparse
      · cases hparse
      · split at hparse
        · cases hparse
        · rename_i m hm
          split at hparse
          · cases hparse
          · rename_i hrange
            cases hparse
            have hkey : join '-' [year, month] = key := by rw [← hsplit, join_split]
            refine ⟨by dsimp only; omega, year, month, ?_, ?_, hm⟩
            · rw [← hkey, ← String.toList_inj]
              simp [join]
            · exact not_mem_of_mem_split (by rw [hsplit]; simp)
  · cases hparse

theorem Period.prev_key_ne {key : String} {p : Period} (hparse : Period.parse key = .ok p) :
    key ≠ p.prev.key := by
  obtain ⟨hrange, year, month, hkey, hfree, hmonth⟩ := Period.parse_eq_ok hparse
  obtain ⟨hatoi, hpad⟩ := atoi_padInt_month (Period.prev_month_mem hrange)
  intro heq
  rw [hkey, Period.key] at heq
  obtain ⟨-, hsame⟩ := glue_inj "-" rfl hfree hpad heq
  rw [hsame, hatoi, Option.some.injEq] at hmonth
  exact p.prev_month_ne hmonth

/-! ### What one call does -/

def World.warnings (w : World) : List (Int × Int) :=
  (w.sent.filter fun x => x.email.templateID = budgetAlertTemplate).map fun x =>
    (x.alert.budgetCents, x.alert.threshold)

section Call

variable {cfg : Config} {req : Request} {env : Surroundings} {w : World}

@[simp] theorem World.mark_setMark (w : World) (period : String) (spend : Int) :
    (w.setMark period spend).mark period = spend := by
  simp [World.mark, World.setMark]

theorem World.mark_clearPeriod {period other : String} (hne : period ≠ other) (w : World) :
    (w.clearPeriod other).mark period = w.mark period := by
  have hkept : (w.clearPeriod other).alertHighWater period = w.alertHighWater period :=
    Function.update_of_ne hne _ _
  rw [World.mark, World.mark, hkept]

theorem World.warnings_stoppedAlert (w : World) (cfg : Config) (admins : List String)
    (a : BudgetAlert) : (w.stoppedAlert cfg admins a).warnings = w.warnings := by
  have hother : ¬ budgetStoppedTemplate = budgetAlertTemplate := by decide
  rw [World.stoppedAlert, World.sendToAdmins]
  split
  · rfl
  · simp [World.warnings, List.filter_append, hother]

theorem World.warnings_alert (w : World) (cfg : Config) (admins : List String) (a : BudgetAlert) :
    (w.alert cfg admins a).warnings = w.warnings ∨
      (w.alert cfg admins a).warnings = w.warnings ++ [(a.budgetCents, a.threshold)] := by
  rw [World.alert, World.sendToAdmins]
  split
  · exact .inl rfl
  · exact .inr (by simp [World.warnings, List.filter_append])

theorem World.enforce_spec (cfg : Config) (req : Request) (env : Surroundings) (w : World)
    (alerted : Int) (sentAlert : Bool) :
    (w.enforce cfg req env alerted sentAlert).1.warnings = w.warnings ∧
    ((w.enforce cfg req env alerted sentAlert).1.mark req.period = w.mark req.period ∨
      (w.enforce cfg req env alerted sentAlert).1.mark req.period = req.spendMicroCents) := by
  rw [World.enforce]
  split
  · split
    · exact ⟨World.warnings_stoppedAlert _ _ _ _, .inr (World.mark_setMark _ _ _)⟩
    · exact ⟨rfl, .inl rfl⟩
  · split
    · split
      · exact ⟨rfl, .inl rfl⟩
      · split
        · exact ⟨rfl, .inl rfl⟩
        · rw [World.underBudget]
          dsimp only
          split <;> exact ⟨rfl, .inl rfl⟩
    · exact ⟨rfl, .inl rfl⟩

theorem World.warnThreshold_spec (cfg : Config) (req : Request) (env : Surroundings) (w : World) :
    (w.warnThreshold cfg req env = w) ∨
    (w.alerted req < req.crossed ∧
      (w.warnThreshold cfg req env).mark req.period = req.spendMicroCents ∧
      ((w.warnThreshold cfg req env).warnings = w.warnings ∨
        (w.warnThreshold cfg req env).warnings = w.warnings ++ [(req.budgetCents, req.crossed)])) := by
  rw [World.warnThreshold]
  split
  · rename_i hwarns
    rw [World.warns, Bool.and_eq_true, Bool.and_eq_true, decide_eq_true_eq] at hwarns
    exact .inr ⟨hwarns.1.1, World.mark_setMark _ _ _, World.warnings_alert w cfg env.admins _⟩
  · exact .inl rfl

/-- What a call does to the mark of its period and to the warnings: the mark stays or becomes the
spend, and a warning is sent only if the spend reaches a higher threshold than the mark, which
then becomes the spend. -/
structure World.Checked (req : Request) (w w' : World) : Prop where
  mark : w'.mark req.period = w.mark req.period ∨ w'.mark req.period = req.spendMicroCents
  warnings : w'.warnings = w.warnings ∨
    w'.warnings = w.warnings ++ [(req.budgetCents, req.crossed)] ∧
      w'.mark req.period = req.spendMicroCents ∧ w.alerted req < req.crossed

theorem World.checkCurrent_spec (w : World) : World.Checked req w (w.checkCurrent cfg req env).1 := by
  rw [World.checkCurrent]
  split
  · dsimp only
    split <;> exact ⟨.inl rfl, .inl rfl⟩
  · obtain ⟨hwarnings, hmark⟩ := (w.warnThreshold cfg req env).enforce_spec cfg req env
      (if w.warns req then req.crossed else w.alerted req) (w.warns req)
    rcases w.warnThreshold_spec cfg req env with hsame | ⟨hlt, hmarked, hsent⟩
    · rw [hsame] at hwarnings hmark ⊢
      exact ⟨hmark, .inl hwarnings⟩
    · rw [hmarked, or_self] at hmark
      refine ⟨.inr hmark, ?_⟩
      rw [hwarnings]
      exact hsent.imp_right fun h => ⟨h, hmark, hlt⟩

theorem World.checked_of_mark_eq {w₀ w' : World} (hmark : w₀.mark req.period = w.mark req.period)
    (hwarnings : w₀.warnings = w.warnings) (h : World.Checked req w₀ w') :
    World.Checked req w w' := by
  obtain ⟨hm, hw⟩ := h
  rw [World.alerted, hmark, hwarnings] at hw
  rw [hmark] at hm
  exact ⟨hm, hw⟩

theorem World.checkWorkspaceSpend_spec (cfg : Config) (t : Tick) (w : World) :
    World.Checked t.req w (w.checkWorkspaceSpend cfg t.req t.env).1 := by
  rw [World.checkWorkspaceSpend]
  split
  · exact ⟨.inl rfl, .inl rfl⟩
  · rename_i p hparse
    split
    · exact ⟨.inl rfl, .inl rfl⟩
    · exact World.checked_of_mark_eq (World.mark_clearPeriod (Period.prev_key_ne hparse) w) rfl
        (World.checkCurrent_spec _)

end Call

/-! ### Whole periods -/

def InPeriod (period : String) (past : List (World × Tick)) (t : Tick) : Prop :=
  t.req.period = period ∧ 0 ≤ t.req.spendMicroCents ∧
    ∀ x ∈ past, x.2.req.spendMicroCents ≤ t.req.spendMicroCents

instance (period : String) (past : List (World × Tick)) (t : Tick) :
    Decidable (InPeriod period past t) := inferInstanceAs (Decidable (_ ∧ _))

/-- The marked spend is one that was seen, and what it reaches of a budget is all that was warned
of for that budget. -/
structure Warned (period : String) (past : List (World × Tick)) (w : World) : Prop where
  nonneg : 0 ≤ w.mark period
  seen : w.mark period = 0 ∨ ∃ x ∈ past, w.mark period = x.2.req.spendMicroCents
  below : ∀ x ∈ w.warnings,
    x.2 ≤ crossedThreshold (w.mark period) (int64 (x.1 * microCentsPerCent))
  nodup : w.warnings.Nodup

variable {cfg : Config} {period : String} {past : List (World × Tick)} {w w' : World} {t : Tick}

theorem Warned.mark_le (hw : Warned period past w) (ht : InPeriod period past t) :
    w.mark period ≤ t.req.spendMicroCents := by
  obtain ⟨-, hnonneg, hgrows⟩ := ht
  rcases hw.seen with hzero | ⟨x, hx, hmark⟩
  · omega
  · rw [hmark]
    exact hgrows x hx

theorem Warned.next (hw : Warned period past w) (ht : InPeriod period past t)
    (hchecked : World.Checked t.req w w') : Warned period ((w, t) :: past) w' := by
  have hle := hw.mark_le ht
  obtain ⟨rfl, -, -⟩ := ht
  obtain ⟨hmark, hwarnings⟩ := hchecked
  have hgrows : w.mark t.req.period ≤ w'.mark t.req.period := by
    rcases hmark with hmark | hmark <;> omega
  -- What was warned of before stays below what the mark reaches.
  have hbelow : ∀ x ∈ w.warnings,
      x.2 ≤ crossedThreshold (w'.mark t.req.period) (int64 (x.1 * microCentsPerCent)) :=
    fun x hx => (hw.below x hx).trans (crossedThreshold_mono hw.nonneg hgrows _)
  refine ⟨hw.nonneg.trans hgrows, ?_, ?_, ?_⟩
  · rcases hmark with hmark | hmark
    · rw [hmark]
      exact hw.seen.imp_right fun ⟨x, hx, heq⟩ => ⟨x, List.mem_cons_of_mem _ hx, heq⟩
    · exact .inr ⟨(w, t), List.mem_cons_self, hmark⟩
  · rcases hwarnings with hsame | ⟨hsent, hmarked, -⟩
    · rw [hsame]
      exact hbelow
    · intro x hx
      rw [hsent] at hx
      rcases List.mem_append.mp hx with hx | hx
      · exact hbelow x hx
      · obtain rfl := List.mem_singleton.mp hx
        rw [hmarked]
        exact le_rfl
  · rcases hwarnings with hsame | ⟨hsent, -, hlt⟩
    · rw [hsame]
      exact hw.nodup
    · rw [hsent]
      refine List.nodup_append.mpr ⟨hw.nodup, by simp, ?_⟩
      rintro x hx y hy rfl
      obtain rfl := List.mem_singleton.mp hy
      have hold := hw.below _ hx
      exact absurd hold (not_le.mpr hlt)

theorem Warned.new (period : String) (suspended : Bool) : Warned period [] (World.new suspended) where
  nonneg := le_rfl
  seen := .inl rfl
  below := nofun
  nodup := List.nodup_nil

/-- The mark does not fall at this call, and if the spend is the mark no warning is sent. -/
structure QuietAtMark (cfg : Config) (period : String) (w : World) (t : Tick) : Prop where
  grows : w.mark period ≤ (w.checkWorkspaceSpend cfg t.req t.env).1.mark period
  quiet : t.req.spendMicroCents = w.mark period →
    (w.checkWorkspaceSpend cfg t.req t.env).1.warnings = w.warnings

theorem Warned.quietAtMark (hw : Warned period past w) (ht : InPeriod period past t) :
    QuietAtMark cfg period w t := by
  have hle := hw.mark_le ht
  obtain ⟨rfl, -, -⟩ := ht
  obtain ⟨hmark, hwarnings⟩ := World.checkWorkspaceSpend_spec cfg t w
  constructor
  · rcases hmark with hmark | hmark <;> omega
  · intro heq
    rcases hwarnings with hsame | ⟨-, -, hlt⟩
    · exact hsame
    · -- The spend reaches the threshold that the mark reaches.
      rw [World.alerted, Request.crossed, heq] at hlt
      exact absurd hlt (lt_irrefl _)

/-- Within a period the mark never falls, no two warnings have the same budget and threshold, and
a call whose spend is the mark sends none. -/
theorem no_alert_twice (cfg : Config) (period : String) (suspended : Bool)
    {past : List (World × Tick)} {w : World}
    (hrun : Run (step cfg) (World.new suspended) past w)
    (hperiod : Always (fun past _ t => InPeriod period past t) past) :
    Always (fun _ w t => QuietAtMark cfg period w t) past ∧ w.warnings.Nodup := by
  have hnext : ∀ past w t w', Warned period past w → InPeriod period past t →
      step cfg w t = some w' → Warned period ((w, t) :: past) w' := by
    intro past w t w' hw ht hstep
    cases hstep
    exact hw.next ht (World.checkWorkspaceSpend_spec cfg t w)
  constructor
  · exact hrun.always (P := Warned period) (Warned.new period suspended) hnext
      (fun _ _ _ hw ht => hw.quietAtMark ht) hperiod
  · exact (hrun.invariant_always (P := Warned period) (Warned.new period suspended) hnext
      hperiod).nodup

def acme : Config := ⟨"ws_acme", "https://app.unkey.com"⟩

def tick (spendCents budgetCents : Int) (stop suspended : Bool) : Tick where
  req := ⟨"2026-05", budgetCents, spendCents * 1000000, stop, suspended, "org_acme", "Acme", "acme"⟩
  env := ⟨⟨2026, 5⟩, 2026, true, ["admin@acme.com"]⟩

def budgetEdits : List Tick :=
  [tick 5000 10000 false false, tick 5000 20000 false false, tick 8000 10000 false false,
    tick 8000 10000 false false]

theorem no_alert_twice_budgetEdits :
    ∃ past w, Run (step acme) (World.new false) past w ∧
      Always (fun _ w t => QuietAtMark acme "2026-05" w t) past ∧ w.warnings.Nodup ∧
      w.warnings = [(10000, 50), (10000, 75)] ∧ w.mark "2026-05" = 8000000000 := by
  refine Run.exists_of_record (P := fun past w =>
      Always (fun past _ t => InPeriod "2026-05" past t) past ∧
      w.warnings = [(10000, 50), (10000, 75)] ∧ w.mark "2026-05" = 8000000000)
    budgetEdits (by decide +kernel) ?_
  rintro past w hrun ⟨hperiod, hwarnings, hmark⟩
  obtain ⟨hquiet, hnodup⟩ := no_alert_twice acme "2026-05" false hrun hperiod
  exact ⟨hquiet, hnodup, hwarnings, hmark⟩

end Unkey.SpendCheck
