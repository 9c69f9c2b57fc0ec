import Mathlib.Algebra.Ring.Int.Defs
import Unkey.Analytics.Isolation
import Unkey.Analytics.TimeRange

/-!
# Lower bounds and the instants they denote

A bound is a literal in milliseconds, the current time, the start of a period, or another bound
moved by an interval.
-/

namespace Unkey.Analytics

open Unkey.Base

/-! ## Bounds -/

inductive Period
  | second | minute | hour | day | week | month | quarter | year
  deriving DecidableEq

structure Calendar where
  start : Period → Int → Int
  start_le : ∀ p t, start p t ≤ t

inductive TimeValue
  | millis (n : Int)
  | now
  | startOf (period : Period) (v : TimeValue)
  | shift (v : TimeValue) (amount : Int)
  deriving DecidableEq

namespace TimeValue

def instant (calendar : Calendar) (now : Int) : TimeValue → Int
  | .millis n => n * 1000000
  | .now => now
  | .startOf p v => calendar.start p (v.instant calendar now)
  | .shift v amount => v.instant calendar now + amount

/-- What the validator makes of a bound: a rounding is its argument, an interval wraps. -/
def read (now : Int) : TimeValue → Option Int
  | .millis n => if IsInt64 n then some (n * 1000000) else none
  | .now => some now
  | .startOf _ v => v.read now
  | .shift v amount => (v.read now).map fun t => t + int64 amount

/-- What a bound starts from: its literal, or the current time. -/
def origin (now : Int) : TimeValue → Int
  | .millis n => n * 1000000
  | .now => now
  | .startOf _ v | .shift v _ => v.origin now

def intervals : TimeValue → List Int
  | .millis _ | .now => []
  | .startOf _ v => v.intervals
  | .shift v amount => amount :: v.intervals

/-- The literal, if there is one, has 64 bits. -/
def LiteralFits : TimeValue → Prop
  | .millis n => IsInt64 n
  | .now => True
  | .startOf _ v | .shift v _ => v.LiteralFits

def Fits : TimeValue → Prop
  | .millis n => IsInt64 n
  | .now => True
  | .startOf _ v => v.Fits
  | .shift v amount => v.Fits ∧ IsInt64 amount

/-- No rounding moves the instant it is applied to. -/
def Aligned (calendar : Calendar) (now : Int) : TimeValue → Prop
  | .millis _ => True
  | .now => True
  | .startOf p v =>
    v.Aligned calendar now ∧ calendar.start p (v.instant calendar now) = v.instant calendar now
  | .shift v _ => v.Aligned calendar now

variable {calendar : Calendar} {now : Int} {v : TimeValue}

theorem read_eq_some_iff (x : Int) : v.read now = some x ↔
    v.LiteralFits ∧ v.origin now + (v.intervals.map int64).sum = x := by
  induction v generalizing x with
  | millis n =>
    rw [TimeValue.read, LiteralFits]
    split <;> simp [*, origin, intervals]
  | now => simp [TimeValue.read, LiteralFits, origin, intervals]
  | startOf p v ih => exact ih x
  | shift v amount ih =>
    have hx : ∀ y, y + int64 amount = x ↔ y = x - int64 amount := by omega
    simp only [TimeValue.read, Option.map_eq_some_iff, hx, exists_eq_right, ih, LiteralFits, origin,
      intervals, List.map_cons, List.sum_cons]
    refine and_congr_right fun _ => ?_
    omega

theorem Fits.read (h : v.Fits) (ha : v.Aligned calendar now) :
    v.read now = some (v.instant calendar now) := by
  induction v with
  | millis n => exact if_pos h
  | now => rfl
  | startOf p v ih => rw [TimeValue.read, TimeValue.instant, ih h ha.1, ha.2]
  | shift v amount ih =>
    rw [TimeValue.read, ih h.1 ha, int64_of_isInt64 h.2]
    rfl

end TimeValue

/-! ## The expressions that are bounds -/

section Syntax

variable (u : Casing)

def startFunctions : List (String × Period) :=
  [("tostartofminute", .minute), ("tostartofhour", .hour), ("tostartofday", .day),
    ("tostartofweek", .week), ("tostartofmonth", .month), ("tostartofquarter", .quarter),
    ("tostartofyear", .year)]

def truncUnits : List (String × Period) :=
  [("second", .second), ("minute", .minute), ("hour", .hour), ("day", .day), ("week", .week),
    ("month", .month), ("quarter", .quarter), ("year", .year)]

def truncUnit : Expr → Option Period
  | .stringLiteral s => truncUnits.lookup (u.lower s)
  | .columnExpr (.stringLiteral s) => truncUnits.lookup (u.lower s)
  | _ => none

/-- The length of `INTERVAL n unit`, with months of 30 and years of 365 days. -/
def intervalLength : Expr → Option Int
  | .intervalExpr (.numberLiteral literal) unit => do
    let n ← atoi literal
    let factors ← intervalUnits.lookup (u.upper unit.string)
    return factors.foldl (fun d k => d * k) n
  | _ => none

mutual

def Expr.timeValue : Expr → Option TimeValue
  | .numberLiteral literal => (integer literal.toList).map .millis
  | .functionExpr name params =>
    if u.lower name.name = "now" then some .now
    else
      match startFunctions.lookup (u.lower name.name) with
      | some p => (Expr.firstTimeValue params).map (.startOf p)
      | none => if u.lower name.name = "date_trunc" then Expr.truncTimeValue params else none
  | .binaryOperation left op right => do
    let v ← left.timeValue
    let amount ← intervalLength u right
    if u.upper op = "-" then some (.shift v (-amount))
    else if u.upper op = "+" then some (.shift v amount)
    else none
  | .columnExpr e => e.timeValue
  | _ => none

def Expr.firstTimeValue : List Expr → Option TimeValue
  | e :: _ => e.timeValue
  | [] => none

def Expr.truncTimeValue : List Expr → Option TimeValue
  | unit :: e :: _ => do
    let p ← truncUnit u unit
    let v ← e.timeValue
    return .startOf p v
  | _ => none

end

def comparisonBounds (left : Expr) (op : String) (right : Expr) : Option (List TimeValue) :=
  if isTimeColumn left then do
    let v ← right.timeValue u
    if u.upper op ∈ [">=", ">", "="] then some [v]
    else if u.upper op ∈ ["<=", "<"] then some []
    else none
  else if isTimeColumn right then do
    let v ← left.timeValue u
    if u.upper op ∈ ["<=", "<", "="] then some [v]
    else if u.upper op ∈ [">=", ">"] then some []
    else none
  else none

mutual

/-- The lower bounds in a condition on the `time` column; none for any other expression. -/
def Expr.lowerBounds : Expr → Option (List TimeValue)
  | .binaryOperation left op right =>
    if u.upper op ∈ ["AND", "OR"] then do
      let ls ← left.lowerBounds
      let rs ← right.lowerBounds
      return ls ++ rs
    else comparisonBounds u left op right
  | .betweenClause e lower upper =>
    if isTimeColumn e then do
      let v ← lower.timeValue u
      let _ ← upper.timeValue u
      return [v]
    else none
  | .paramExprList items => Expr.lowerBoundsList items
  | .columnExpr e => e.lowerBounds
  | _ => none

def Expr.lowerBoundsList : List Expr → Option (List TimeValue)
  | [] => some []
  | e :: es => do
    let bs ← e.lowerBounds
    let rest ← Expr.lowerBoundsList es
    return bs ++ rest

end

end Syntax

/-! ## How the validator reads a bound -/

variable {e : Expr} {bs : List TimeValue}

section Reading

variable {u : Casing} {clock : Clock}

theorem duration_int64 (x : Int) (factors : List Int) :
    duration (int64 x) factors = int64 (factors.foldl (fun d k => d * k) x) := by
  induction factors generalizing x with
  | nil => rfl
  | cons k ks ih =>
    rw [duration, List.foldl_cons, int64_int64_mul, List.foldl_cons]
    exact ih (x * k)

theorem duration_eq {unit : String} {factors : List Int}
    (h : intervalUnits.lookup unit = some factors) (value : Int) :
    duration value factors = int64 (factors.foldl (fun d k => d * k) value) := by
  obtain ⟨l, r, heq, -⟩ := List.lookup_eq_some_iff.mp h
  have hall : ∀ x ∈ intervalUnits, x.2 ≠ [] := by decide
  have hne : factors ≠ [] := hall (unit, factors) (by rw [heq]; simp)
  cases factors with
  | nil => exact absurd rfl hne
  | cons k ks => exact duration_int64 (value * k) ks

theorem parseIntervalExpression_eq {amount : Int} (h : intervalLength u e = some amount) :
    parseIntervalExpression u e = some (int64 amount) := by
  rw [intervalLength.eq_def] at h
  split at h
  · rename_i literal unit
    obtain ⟨n, hn, h⟩ := Option.bind_eq_some_iff.mp h
    obtain ⟨factors, hfactors, h⟩ := Option.bind_eq_some_iff.mp h
    cases h
    simp [parseIntervalExpression, hn, hfactors, duration_eq hfactors]
  · cases h

theorem lookup_startFunctions {name : String} {p : Period}
    (h : startFunctions.lookup name = some p) :
    name ∉ nowFunctions ∧ name ∈ timeWrappers := by
  obtain ⟨l, r, heq, -⟩ := List.lookup_eq_some_iff.mp h
  have hall : ∀ x ∈ startFunctions, x.1 ∉ nowFunctions ∧ x.1 ∈ timeWrappers := by decide
  exact hall (name, p) (by rw [heq]; simp)

mutual

theorem extractTimestampFromExpr_eq {v : TimeValue} (e : Expr) (h : e.timeValue u = some v) :
    extractTimestampFromExpr u clock e = v.read clock.now := by
  cases e with
  | numberLiteral literal =>
    obtain ⟨n, hn, rfl⟩ := Option.map_eq_some_iff.mp h
    rw [extractTimestampFromExpr, atoi_integer hn, TimeValue.read]
    split <;> rfl
  | functionExpr name params =>
    rw [Expr.timeValue] at h
    rw [extractTimestampFromExpr]
    split at h
    · rename_i hname
      cases h
      rw [hname, if_pos (by decide)]
      rfl
    · split at h
      · rename_i p hstart
        obtain ⟨w, hw, rfl⟩ := Option.map_eq_some_iff.mp h
        obtain ⟨hnow, hwrapper⟩ := lookup_startFunctions hstart
        rw [if_neg hnow, if_pos hwrapper, TimeValue.read]
        exact extractFirst_eq params hw
      · split at h
        · rename_i hname
          rw [hname, if_neg (by decide), if_neg (by decide), if_pos rfl]
          exact extractSecond_eq params h
        · cases h
  | binaryOperation left op right =>
    rw [Expr.timeValue] at h
    obtain ⟨w, hw, h⟩ := Option.bind_eq_some_iff.mp h
    obtain ⟨amount, hamount, h⟩ := Option.bind_eq_some_iff.mp h
    have hbase := extractTimestampFromExpr_eq left hw
    rw [extractTimestampFromExpr, hbase, evaluateIntervalExpression,
      parseIntervalExpression_eq hamount]
    split at h
    · rename_i hop
      cases h
      cases hread : w.read clock.now <;> simp [hop, TimeValue.read, hread, int64_neg_int64]
    · split at h
      · rename_i hminus hplus
        cases h
        cases hread : w.read clock.now <;> simp [hplus, TimeValue.read, hread]
      · cases h
  | columnExpr e => exact extractTimestampFromExpr_eq e h
  | _ => cases h

theorem extractFirst_eq {v : TimeValue} (es : List Expr) (h : Expr.firstTimeValue u es = some v) :
    extractFirst u clock es = v.read clock.now := by
  cases es with
  | nil => cases h
  | cons e es => exact extractTimestampFromExpr_eq e h

theorem extractSecond_eq {v : TimeValue} (es : List Expr) (h : Expr.truncTimeValue u es = some v) :
    extractSecond u clock es = v.read clock.now := by
  match es with
  | [] => cases h
  | [_] => cases h
  | unit :: e :: es =>
    obtain ⟨p, -, h⟩ := Option.bind_eq_some_iff.mp h
    obtain ⟨w, hw, h⟩ := Option.bind_eq_some_iff.mp h
    cases h
    rw [extractSecond, TimeValue.read]
    exact extractTimestampFromExpr_eq e hw

end

theorem isTimeColumn_of_timeValue {v : TimeValue} (h : e.timeValue u = some v) :
    isTimeColumn e = false := by
  cases e with
  | ident i => cases h
  | nestedIdentifier i d => cases h
  | path fs => cases h
  | _ => rfl

theorem isTimeColumn_of_lowerBounds (h : e.lowerBounds u = some bs) : isTimeColumn e = false := by
  cases e with
  | ident i => cases h
  | nestedIdentifier i d => cases h
  | path fs => cases h
  | _ => rfl

end Reading

/-! ## What the validator accepts -/

section Accepted

variable {u : Casing} {clock : Clock} {days earliestAllowed : Int}

def ReadFrom (clock : Clock) (earliestAllowed : Int) (bs : List TimeValue) : Prop :=
  ∀ v ∈ bs, ∀ x, v.read clock.now = some x → earliestAllowed ≤ x

theorem readFrom_append (bs cs : List TimeValue) :
    ReadFrom clock earliestAllowed (bs ++ cs) ↔
      ReadFrom clock earliestAllowed bs ∧ ReadFrom clock earliestAllowed cs :=
  List.forall_mem_append

theorem readFrom_singleton (v : TimeValue) :
    ReadFrom clock earliestAllowed [v] ↔
      ∀ x, v.read clock.now = some x → earliestAllowed ≤ x :=
  List.forall_mem_singleton

theorem checkBound_eq_ok (timestamp : Int) :
    checkBound clock days earliestAllowed timestamp = .ok () ↔ earliestAllowed ≤ timestamp := by
  rw [checkBound]
  split
  · rename_i h
    exact iff_of_false (by simp [throw, throwThe, MonadExceptOf.throw]) (by omega)
  · rename_i h
    exact iff_of_true rfl (by omega)

theorem validateWhereClause_binaryOperation (left : Expr) (op : String) (right : Expr) :
    validateWhereClause u clock days earliestAllowed (.binaryOperation left op right) = .ok () ↔
      (isTimeColumn left = true ∨ isTimeColumn right = true →
        validateTimeComparison u clock days earliestAllowed left op right
          (analyzeTimeComparison left right) = .ok ()) ∧
      validateWhereClause u clock days earliestAllowed left = .ok () ∧
      validateWhereClause u clock days earliestAllowed right = .ok () := by
  have hinfo : (analyzeTimeComparison left right).isTimeComparison = true ↔
      isTimeColumn left = true ∨ isTimeColumn right = true := by
    rw [analyzeTimeComparison]
    split
    · simp [*]
    · split <;> simp [*]
  rw [validateWhereClause]
  split
  · rename_i h
    rw [then_eq_ok, then_eq_ok]
    simp [hinfo.mp h]
  · rename_i h
    rw [then_eq_ok]
    simp [mt hinfo.mpr h]

theorem validateWhereClause_column (h : isTimeColumn e = true) :
    validateWhereClause u clock days earliestAllowed e = .ok () := by
  cases e with
  | ident i => rfl
  | nestedIdentifier i d => rfl
  | path fs => rfl
  | _ => cases h

theorem validateWhereClause_intervalLength {amount : Int} (h : intervalLength u e = some amount) :
    validateWhereClause u clock days earliestAllowed e = .ok () := by
  cases e with
  | intervalExpr e unit => rfl
  | _ => cases h

theorem isTimeColumn_of_intervalLength {amount : Int}
    (h : intervalLength u e = some amount) : isTimeColumn e = false := by
  cases e with
  | intervalExpr e unit => rfl
  | _ => cases h

theorem validateWhereClause_timeValue {v : TimeValue} (e : Expr) (h : e.timeValue u = some v) :
    validateWhereClause u clock days earliestAllowed e = .ok () := by
  cases e with
  | numberLiteral literal => rfl
  | functionExpr name params => rfl
  | binaryOperation left op right =>
    rw [Expr.timeValue] at h
    obtain ⟨w, hw, h⟩ := Option.bind_eq_some_iff.mp h
    obtain ⟨amount, hamount, h⟩ := Option.bind_eq_some_iff.mp h
    rw [validateWhereClause_binaryOperation]
    refine ⟨?_, validateWhereClause_timeValue left hw, validateWhereClause_intervalLength hamount⟩
    simp [isTimeColumn_of_timeValue hw, isTimeColumn_of_intervalLength hamount]
  | columnExpr e => exact validateWhereClause_timeValue e h
  | _ => cases h

theorem validateTimeComparison_eq_ok {left right : Expr} {op : String} {info : TimeComparisonInfo}
    {v : TimeValue} (hvalue : extractTimestamp u clock left right = v.read clock.now) :
    validateTimeComparison u clock days earliestAllowed left op right info = .ok () ↔
      ((if info.timeOnLeft then u.upper op else flipOperator (u.upper op)) ∈ [">=", ">", "="] →
        ∀ x, v.read clock.now = some x → earliestAllowed ≤ x) := by
  rw [validateTimeComparison, hvalue]
  cases hread : v.read clock.now with
  | none => exact iff_of_true rfl (by simp)
  | some x =>
    dsimp only
    generalize (if info.timeOnLeft then u.upper op else flipOperator (u.upper op)) = operation
    split
    · rename_i h
      rw [checkBound_eq_ok]
      rcases h with rfl | rfl <;> simp
    · split
      · rename_i h
        rw [checkBound_eq_ok, h]
        simp
      · rename_i hstrict heq
        rw [not_or] at hstrict
        exact iff_of_true rfl (by simp [hstrict, heq])

theorem flipOperator_mem (op : String) :
    flipOperator op ∈ [">=", ">", "="] ↔ op ∈ ["<=", "<", "="] := by
  rw [flipOperator]
  split_ifs <;> simp [*]

theorem readFrom_of_operator {v : TimeValue} {lower upper : Prop}
    [Decidable lower] [Decidable upper]
    (h : (if lower then some [v] else if upper then some [] else none) = some bs) :
    ReadFrom clock earliestAllowed bs ↔
      (lower → ∀ x, v.read clock.now = some x → earliestAllowed ≤ x) := by
  split at h
  · rename_i hlower
    cases h
    simp [readFrom_singleton, hlower]
  · grind [ReadFrom]

theorem validateWhereClause_comparison {left right : Expr} {op : String}
    (h : comparisonBounds u left op right = some bs) :
    validateWhereClause u clock days earliestAllowed (.binaryOperation left op right) = .ok () ↔
      ReadFrom clock earliestAllowed bs := by
  rw [comparisonBounds] at h
  rw [validateWhereClause_binaryOperation]
  split at h
  · rename_i hleft
    obtain ⟨v, hv, h⟩ := Option.bind_eq_some_iff.mp h
    have hvalue : extractTimestamp u clock left right = v.read clock.now := by
      rw [extractTimestamp, if_pos hleft, extractTimestampFromExpr_eq right hv]
    rw [readFrom_of_operator h, validateTimeComparison_eq_ok hvalue, analyzeTimeComparison,
      if_pos hleft]
    simp [hleft, validateWhereClause_column hleft, validateWhereClause_timeValue right hv]
  · rename_i hleft
    split at h
    · rename_i hright
      obtain ⟨v, hv, h⟩ := Option.bind_eq_some_iff.mp h
      have hvalue : extractTimestamp u clock left right = v.read clock.now := by
        rw [extractTimestamp, if_neg hleft, extractTimestampFromExpr_eq left hv]
      rw [readFrom_of_operator h, validateTimeComparison_eq_ok hvalue, analyzeTimeComparison,
        if_neg hleft, if_pos hright, if_neg Bool.false_ne_true, flipOperator_mem]
      simp [hright, validateWhereClause_column hright, validateWhereClause_timeValue left hv]
    · cases h

mutual

theorem validateWhereClause_eq_ok {bs : List TimeValue} (e : Expr)
    (h : e.lowerBounds u = some bs) :
    validateWhereClause u clock days earliestAllowed e = .ok () ↔
      ReadFrom clock earliestAllowed bs := by
  cases e with
  | binaryOperation left op right =>
    rw [Expr.lowerBounds] at h
    split at h
    · obtain ⟨ls, hls, h⟩ := Option.bind_eq_some_iff.mp h
      obtain ⟨rs, hrs, h⟩ := Option.bind_eq_some_iff.mp h
      cases h
      rw [validateWhereClause_binaryOperation, readFrom_append, validateWhereClause_eq_ok left hls,
        validateWhereClause_eq_ok right hrs]
      simp [isTimeColumn_of_lowerBounds hls, isTimeColumn_of_lowerBounds hrs]
    · exact validateWhereClause_comparison h
  | betweenClause e lower upper =>
    rw [Expr.lowerBounds] at h
    split at h
    · rename_i hcolumn
      obtain ⟨v, hv, h⟩ := Option.bind_eq_some_iff.mp h
      obtain ⟨_, -, h⟩ := Option.bind_eq_some_iff.mp h
      cases h
      rw [validateWhereClause, if_pos hcolumn, validateBetweenClause,
        extractTimestampFromExpr_eq lower hv]
      rw [readFrom_singleton]
      cases hread : v.read clock.now with
      | none => exact iff_of_true rfl (by simp)
      | some x => simpa using checkBound_eq_ok x
    · cases h
  | paramExprList items => exact validateItems_eq_ok items h
  | columnExpr e => exact validateWhereClause_eq_ok e h
  | _ => cases h

theorem validateItems_eq_ok {bs : List TimeValue} (es : List Expr)
    (h : Expr.lowerBoundsList u es = some bs) :
    validateItems u clock days earliestAllowed es = .ok () ↔ ReadFrom clock earliestAllowed bs := by
  cases es with
  | nil =>
    cases h
    exact iff_of_true rfl (by simp [ReadFrom])
  | cons e es =>
    obtain ⟨cs, hcs, h⟩ := Option.bind_eq_some_iff.mp h
    obtain ⟨rest, hrest, h⟩ := Option.bind_eq_some_iff.mp h
    cases h
    rw [validateItems, then_eq_ok, readFrom_append, validateWhereClause_eq_ok e hcs,
      validateItems_eq_ok es hrest]

end

mutual

theorem validateWhereClause_conjunct {c : Expr} (e : Expr)
    (h : validateWhereClause u clock days earliestAllowed e = .ok ()) (hc : c ∈ e.conjuncts) :
    validateWhereClause u clock days earliestAllowed c = .ok () := by
  cases e with
  | binaryOperation left op right =>
    rw [Expr.conjuncts] at hc
    split at hc
    · obtain ⟨-, hleft, hright⟩ := (validateWhereClause_binaryOperation left op right).mp h
      rcases List.mem_append.mp hc with hc | hc
      · exact validateWhereClause_conjunct left hleft hc
      · exact validateWhereClause_conjunct right hright hc
    · rw [List.mem_singleton.mp hc]
      exact h
  | paramExprList items => exact validateItems_conjunct items h hc
  | _ =>
    rw [Expr.conjuncts, List.mem_singleton] at hc <;> simp [hc, h]

theorem validateItems_conjunct {c : Expr} (es : List Expr)
    (h : validateItems u clock days earliestAllowed es = .ok ())
    (hc : c ∈ Expr.conjunctsGroup es) :
    validateWhereClause u clock days earliestAllowed c = .ok () := by
  match es with
  | [] =>
    rw [List.mem_singleton.mp hc]
    exact h
  | [e] =>
    rw [validateItems, then_eq_ok] at h
    exact validateWhereClause_conjunct e h.1 hc
  | e :: f :: es =>
    rw [List.mem_singleton.mp hc]
    exact h

end

end Accepted

/-! ## Enforcement -/

section Enforcement

variable (u : Casing) (clock : Clock) (calendar : Calendar) (days : Int)

/-- What is accepted has no lower bound before the earliest instant of the retention. -/
def Enforced (condition : Expr) (bs : List TimeValue) : Prop :=
  validateWhereClause u clock days (clock.addDate (-days)) condition = .ok () →
    ∀ v ∈ bs, clock.addDate (-days) ≤ v.instant calendar clock.now

/-- The retention is enforced on a condition if and only if, when a lower bound denotes an instant
that is too early, some lower bound has a literal of 64 bits and is too early without its roundings
and with its intervals reduced to 64 bits. -/
theorem enforced_iff {condition : Expr} {bs : List TimeValue}
    (h : condition.lowerBounds u = some bs) :
    Enforced u clock calendar days condition bs ↔
      ∀ v ∈ bs, v.instant calendar clock.now < clock.addDate (-days) →
        ∃ w ∈ bs, w.LiteralFits ∧
          w.origin clock.now + (w.intervals.map int64).sum < clock.addDate (-days) := by
  rw [Enforced, validateWhereClause_eq_ok condition h]
  simp only [ReadFrom, TimeValue.read_eq_some_iff]
  constructor
  · intro henforced v hv hearly
    by_contra hnone
    -- otherwise every bound that is read passes
    refine absurd (henforced ?_ v hv) (Int.not_le.mpr hearly)
    rintro w hw _ ⟨hfits, rfl⟩
    exact Int.not_lt.mp fun hlt => hnone ⟨w, hw, hfits, hlt⟩
  · intro hcaught hread v hv
    refine Int.not_lt.mp fun hearly => ?_
    obtain ⟨w, hw, hfits, hlt⟩ := hcaught v hv hearly
    exact absurd (hread w hw _ ⟨hfits, rfl⟩) (Int.not_le.mpr hlt)

theorem enforced_of_fits {condition : Expr} (h : condition.lowerBounds u = some bs)
    (hbs : ∀ v ∈ bs, v.Fits ∧ v.Aligned calendar clock.now) :
    Enforced u clock calendar days condition bs := by
  intro hok v hv
  obtain ⟨hfits, haligned⟩ := hbs v hv
  exact (validateWhereClause_eq_ok condition h).mp hok v hv _ (hfits.read haligned)

/-- In an accepted query, however nested, lower bounds that fit are within the retention. -/
theorem validateTimeRange_bounds {u clock days} {q s : SelectQuery} {c : Expr}
    (hdays : 0 < days) (hok : validateTimeRange u clock days q = .ok ())
    (hs : .select s ∈ q.nodes) (hc : c ∈ Expr.conjunctsOption s.whereExpr)
    (h : c.lowerBounds u = some bs) (hbs : ∀ v ∈ bs, v.Fits ∧ v.Aligned calendar clock.now) :
    ∀ v ∈ bs, clock.addDate (-days) ≤ v.instant calendar clock.now := by
  rw [validateTimeRange, if_neg (by omega)] at hok
  have hselect := forM_eq_ok hok _ hs
  dsimp only at hselect
  cases hwhere : s.whereExpr with
  | none =>
    rw [hwhere] at hc
    cases hc
  | some e =>
    rw [hwhere] at hc hselect
    exact enforced_of_fits u clock calendar days h hbs (validateWhereClause_conjunct e hselect hc)

end Enforcement

/-! ## Two conditions -/

def since (n unit : String) : Expr :=
  .binaryOperation (.ident (.plain "time")) ">="
    (.binaryOperation (.functionExpr (.plain "now") []) "-"
      (.intervalExpr (.numberLiteral n) (.plain unit)))

def autumn : Clock where
  now := 1790000000000000000
  addDate days := 1790000000000000000 + days * (24 * hour)
  parse _ _ := none
  formatDate _ := ""

theorem enforced_iff_fiveDays :
    validateWhereClause .ascii autumn 7 (autumn.addDate (-7)) (since "5" "DAY") = .ok () ∧
      ∀ calendar, Enforced .ascii autumn calendar 7 (since "5" "DAY")
        [.shift .now (-(5 * 24 * hour))] := by
  refine ⟨rfl, fun calendar => (enforced_iff .ascii autumn calendar 7 rfl).mpr ?_⟩
  intro v hv hearly
  rw [List.mem_singleton.mp hv] at hearly
  exact absurd hearly (show ¬ autumn.now + _ < _ by decide)

theorem validateTimeRange_bounds_fiveDays :
    ∃ q, validateTimeRange .ascii autumn 7 q = .ok () ∧ .select q ∈ q.nodes ∧
      ∀ calendar, autumn.addDate (-7) ≤
        TimeValue.instant calendar autumn.now (.shift .now (-(5 * 24 * hour))) := by
  let q := { selectFrom [] "" (keysTable "") with whereExpr := some (since "5" "DAY") }
  have hq : .select q ∈ q.nodes := List.mem_cons_self
  exact ⟨q, rfl, hq, fun calendar => validateTimeRange_bounds (u := .ascii) calendar (by decide)
    rfl hq List.mem_cons_self rfl (List.forall_mem_singleton.mpr ⟨⟨trivial, by decide⟩, trivial⟩) _
    (List.mem_singleton_self _)⟩

/-- Four hundred years are read as a date in the future. -/
theorem fourCenturies_accepted :
    (since "400" "YEAR").lowerBounds .ascii = some [.shift .now (-(400 * 365 * 24 * hour))] ∧
      validateWhereClause .ascii autumn 7 (autumn.addDate (-7)) (since "400" "YEAR") = .ok () ∧
      ∀ calendar, TimeValue.instant calendar autumn.now
        (.shift .now (-(400 * 365 * 24 * hour))) < autumn.addDate (-7) :=
  ⟨rfl, rfl, fun _ => show autumn.now + _ < _ by decide⟩

end Unkey.Analytics
