import Unkey.Analytics.Accepted
import Unkey.Analytics.Literal

/-!
# Row caps

`enforceLimit` visits every `SELECT` of the statement.
-/

namespace Unkey.Analytics

open Unkey.Base

/-! ## The queries that are visited -/

mutual

def Expr.visited : Expr → List SelectQuery
  | .binaryOperation l _ r => l.visited ++ r.visited
  | .betweenClause e l u => e.visited ++ l.visited ++ u.visited
  | .intervalExpr e _ => e.visited
  | .columnExpr e => e.visited
  | .paramExprList es => Expr.visitedList es
  | .arrayParamList es => Expr.visitedList es
  | .functionExpr _ es => Expr.visitedList es
  | .subQuery q => q.visited
  | .other es => Expr.visitedList es
  | _ => []

def Expr.visitedList : List Expr → List SelectQuery
  | [] => []
  | e :: es => e.visited ++ Expr.visitedList es

def Expr.visitedOption : Option Expr → List SelectQuery
  | none => []
  | some e => e.visited

/-- The query itself and those below it. -/
def SelectQuery.visited : SelectQuery → List SelectQuery
  | ⟨cs, is, s, w, xs, l, o, t, ua, ud, ex⟩ =>
    ⟨cs, is, s, w, xs, l, o, t, ua, ud, ex⟩ ::
      (SelectQuery.visitedOption ex ++ Cte.visitedList cs ++ Expr.visitedList is ++
        Source.visitedOption s ++ Expr.visitedOption w ++ Expr.visitedList xs ++
        (if l.isNone then [] else Expr.visitedOption o) ++
        SelectQuery.visitedOption ua ++ SelectQuery.visitedOption ud)

def SelectQuery.visitedOption : Option SelectQuery → List SelectQuery
  | none => []
  | some q => q.visited

def Cte.visited : Cte → List SelectQuery
  | .query e q => e.visited ++ q.visited
  | .scalar e _ => e.visited

def Cte.visitedList : List Cte → List SelectQuery
  | [] => []
  | c :: cs => c.visited ++ Cte.visitedList cs

def Source.visited : Source → List SelectQuery
  | .joinExpr l r cs => l.visited ++ Source.visitedOption r ++ Expr.visitedList cs
  | .joinTableExpr s es => s.visited ++ Expr.visitedList es
  | .table _ _ => []
  | .subQuery q _ => q.visited
  | .tableFunction _ _ es _ => Expr.visitedList es

def Source.visitedOption : Option Source → List SelectQuery
  | none => []
  | some s => s.visited

end

namespace Pass

/-- A pass that caps the rows and changes no `WHERE`. -/
structure Caps (P : Pass) (n : Int) : Prop where
  cap : P.cap = some n
  filters : P.filters = fun _ => []

variable {P : Pass} {n : Int}

theorem Caps.filter (h : P.Caps n) (s : Option Source) (w : Option Expr) : P.filter s w = w := by
  cases s <;> simp [Pass.filter, h.filters]

theorem Caps.limit (h : P.Caps n) (l o : Option Expr) :
    ∃ t, P.limit (P.onExpr? l) (P.onExpr? o) =
      (some (.numberLiteral t), if l.isNone then none else P.onExpr? o) := by
  have hnone : (P.onExpr? l).isNone = l.isNone := by cases l <;> simp [onExpr?]
  obtain ⟨t, ht⟩ := enforceLimitOnSelect_isSome n (P.onExpr? l) (P.onExpr? o)
  refine ⟨t, ?_⟩
  rw [hnone] at ht
  simpa [Pass.limit, h.cap] using ht

mutual

theorem Caps.select_mem_expr (h : P.Caps n) (s : SelectQuery) (e : Expr) :
    .select s ∈ (P.onExpr e).walk.all ↔ s ∈ e.visited.map P.onSelect := by
  cases e with
  | binaryOperation l op r =>
    simp [onExpr, Expr.walk, Expr.visited, h.select_mem_expr s l, h.select_mem_expr s r]
  | betweenClause e l u =>
    simp [onExpr, Expr.walk, Expr.visited, h.select_mem_expr s e, h.select_mem_expr s l,
      h.select_mem_expr s u, or_assoc]
  | intervalExpr e u => simp [onExpr, Expr.walk, Expr.visited, h.select_mem_expr s e]
  | columnExpr e => simp [onExpr, Expr.walk, Expr.visited, h.select_mem_expr s e]
  | paramExprList es => simp [onExpr, Expr.walk, Expr.visited, h.select_mem_exprs s es]
  | arrayParamList es => simp [onExpr, Expr.walk, Expr.visited, h.select_mem_exprs s es]
  | functionExpr f es => simp [onExpr, Expr.walk, Expr.visited, h.select_mem_exprs s es]
  | subQuery q => simp [onExpr, Expr.walk, Expr.visited, h.select_mem_select s q]
  | other es => simp [onExpr, Expr.walk, Expr.visited, h.select_mem_exprs s es]
  | _ => simp [onExpr, Expr.walk, Expr.visited]

theorem Caps.select_mem_exprs (h : P.Caps n) (s : SelectQuery) (es : List Expr) :
    .select s ∈ (Expr.walkList (P.onExprs es)).all ↔ s ∈ (Expr.visitedList es).map P.onSelect := by
  cases es with
  | nil => simp [onExprs, Expr.walkList, Expr.visitedList]
  | cons e es =>
    simp [onExprs, Expr.walkList, Expr.visitedList, h.select_mem_expr s e, h.select_mem_exprs s es]

theorem Caps.select_mem_expr? (h : P.Caps n) (s : SelectQuery) (e : Option Expr) :
    .select s ∈ (Expr.walkOption (P.onExpr? e)).all ↔
      s ∈ (Expr.visitedOption e).map P.onSelect := by
  cases e with
  | none => simp [onExpr?, Expr.walkOption, Expr.visitedOption]
  | some e => simp [onExpr?, Expr.walkOption, Expr.visitedOption, h.select_mem_expr s e]

theorem Caps.select_mem_select (h : P.Caps n) (s : SelectQuery) (q : SelectQuery) :
    .select s ∈ (P.onSelect q).walk.all ↔ s ∈ q.visited.map P.onSelect := by
  cases q with
  | mk cs is src w xs l o t ua ud ex =>
    obtain ⟨k, hk⟩ := h.limit l o
    have hoffset : .select s ∈ (Expr.walkOption (if l.isNone then none else P.onExpr? o)).all ↔
        s ∈ (if l.isNone then [] else Expr.visitedOption o).map P.onSelect := by
      split
      · simp [Expr.walkOption]
      · exact h.select_mem_expr? s o
    simp only [onSelect, h.filter, hk, SelectQuery.walk, SelectQuery.visited, Expr.walkOption,
      Expr.walk, Walked.mem_all_append, Walked.mem_all_visit, Walked.mem_all_defer, hoffset,
      h.select_mem_select? s ex, h.select_mem_ctes s cs, h.select_mem_exprs s is,
      h.select_mem_source? s src, h.select_mem_expr? s w, h.select_mem_exprs s xs,
      h.select_mem_select? s ua, h.select_mem_select? s ud, List.map_cons, List.map_append,
      List.mem_cons, List.mem_append, Node.select.injEq, reduceCtorEq, or_false, or_assoc]

theorem Caps.select_mem_select? (h : P.Caps n) (s : SelectQuery) (q : Option SelectQuery) :
    .select s ∈ (SelectQuery.walkOption (P.onSelect? q)).all ↔
      s ∈ (SelectQuery.visitedOption q).map P.onSelect := by
  cases q with
  | none => simp [onSelect?, SelectQuery.walkOption, SelectQuery.visitedOption]
  | some q =>
    simp [onSelect?, SelectQuery.walkOption, SelectQuery.visitedOption, h.select_mem_select s q]

theorem Caps.select_mem_cte (h : P.Caps n) (s : SelectQuery) (c : Cte) :
    .select s ∈ (P.onCte c).walk.all ↔ s ∈ c.visited.map P.onSelect := by
  cases c with
  | query e q =>
    simp [onCte, Cte.walk, Cte.visited, h.select_mem_expr s e, h.select_mem_select s q]
  | scalar e n => simp [onCte, Cte.walk, Cte.visited, h.select_mem_expr s e]

theorem Caps.select_mem_ctes (h : P.Caps n) (s : SelectQuery) (cs : List Cte) :
    .select s ∈ (Cte.walkList (P.onCtes cs)).all ↔ s ∈ (Cte.visitedList cs).map P.onSelect := by
  cases cs with
  | nil => simp [onCtes, Cte.walkList, Cte.visitedList]
  | cons c cs =>
    simp [onCtes, Cte.walkList, Cte.visitedList, h.select_mem_cte s c, h.select_mem_ctes s cs]

theorem Caps.select_mem_source (h : P.Caps n) (s : SelectQuery) (x : Source) :
    .select s ∈ (P.onSource x).walk.all ↔ s ∈ x.visited.map P.onSelect := by
  cases x with
  | joinExpr l r cs =>
    simp [onSource, Source.walk, Source.visited, h.select_mem_source s l, h.select_mem_source? s r,
      h.select_mem_exprs s cs, or_assoc]
  | joinTableExpr x es =>
    simp [onSource, Source.walk, Source.visited, h.select_mem_source s x, h.select_mem_exprs s es]
  | table t a => simp [onSource, Source.walk, Source.visited]
  | subQuery q a => simp [onSource, Source.walk, Source.visited, h.select_mem_select s q]
  | tableFunction f ts es a =>
    simp [onSource, Source.walk, Source.visited, h.select_mem_exprs s es]

theorem Caps.select_mem_source? (h : P.Caps n) (s : SelectQuery) (x : Option Source) :
    .select s ∈ (Source.walkOption (P.onSource? x)).all ↔
      s ∈ (Source.visitedOption x).map P.onSelect := by
  cases x with
  | none => simp [onSource?, Source.walkOption, Source.visitedOption]
  | some x => simp [onSource?, Source.walkOption, Source.visitedOption, h.select_mem_source s x]

end

end Pass

/-! ## Caps as ClickHouse reads them -/

section Reading

variable (float64 : Rat → Rat)

def InRange (limit : Int) (literal : String) : Prop :=
  ∃ v, literalValue float64 literal = some v ∧ 0 ≤ v ∧ v ≤ limit

def SelectQuery.Capped (limit : Int) (s : SelectQuery) : Prop :=
  ∃ literal, s.limit = some (.numberLiteral literal) ∧ InRange float64 limit literal

def SelectQuery.ScansFaithfully (limit : Int) (s : SelectQuery) : Prop :=
  ∀ literal n, s.limit = some (.numberLiteral literal) → scanInt literal = some n → 0 ≤ n →
    n ≤ limit → InRange float64 limit literal

variable {limit : Int}

theorem inRange_of_integer {z : Int} {literal : String}
    (h : integer literal.toList = some z) (hz : 0 ≤ z) (hlimit : z ≤ limit) :
    InRange float64 limit literal :=
  ⟨z, literalValue_integer float64 h, Rat.intCast_nonneg.mpr hz, Rat.intCast_le_intCast.mpr hlimit⟩

theorem inRange_itoa (h : 0 ≤ limit) : InRange float64 limit (itoa limit) :=
  inRange_of_integer float64 (integer_itoa h) h (Int.le_rfl)

theorem scansFaithfully_of_integer {z : Int} {literal : String} {s : SelectQuery}
    (hs : s.limit = some (.numberLiteral literal)) (hz : integer literal.toList = some z) :
    s.ScansFaithfully float64 limit := by
  intro literal' n hs' hscan hn hlimit
  rw [hs, Option.some_inj, Expr.numberLiteral.injEq] at hs'
  subst hs'
  rw [scanInt_integer hz] at hscan
  split at hscan
  · cases hscan
    exact inRange_of_integer float64 hz hn hlimit
  · cases hscan

theorem enforceLimitOnSelect_inRange (h : 0 ≤ limit) (l o : Option Expr) :
    (∃ literal, (enforceLimitOnSelect limit l o).1 = some (.numberLiteral literal) ∧
        InRange float64 limit literal) ↔
      ∀ literal n, l = some (.numberLiteral literal) → scanInt literal = some n → 0 ≤ n →
        n ≤ limit → InRange float64 limit literal := by
  have hreplaced : ∃ literal, some (Expr.numberLiteral (itoa limit)) =
      some (.numberLiteral literal) ∧ InRange float64 limit literal :=
    ⟨_, rfl, inRange_itoa float64 h⟩
  cases l with
  | none => exact iff_of_true hreplaced (by simp)
  | some e =>
    cases e with
    | numberLiteral t =>
      rw [enforceLimitOnSelect]
      cases hscan : scanInt t with
      | none => grind
      | some n => grind
    | _ => exact iff_of_true hreplaced (by simp)

theorem Pass.onExpr?_eq_numberLiteral (P : Pass) (l : Option Expr) (literal : String) :
    P.onExpr? l = some (.numberLiteral literal) ↔ l = some (.numberLiteral literal) := by
  cases l with
  | none => simp [Pass.onExpr?]
  | some e => cases e <;> simp [Pass.onExpr?, Pass.onExpr]

theorem limitPass_caps {cfg : Config} (h : cfg.limit ≠ 0) : (limitPass cfg).Caps cfg.limit :=
  ⟨by simp [limitPass, h], rfl⟩

theorem capped_onSelect_iff {P : Pass} (hP : P.Caps limit) (h : 0 ≤ limit) (s : SelectQuery) :
    (P.onSelect s).Capped float64 limit ↔ s.ScansFaithfully float64 limit := by
  obtain ⟨cs, is, src, w, xs, l, o, t, ua, ud, ex⟩ := s
  have hlimit := enforceLimitOnSelect_inRange float64 h (P.onExpr? l) (P.onExpr? o)
  simp only [P.onExpr?_eq_numberLiteral] at hlimit
  simpa [SelectQuery.Capped, SelectQuery.ScansFaithfully, Pass.onSelect, Pass.limit, hP.cap]
    using hlimit

theorem select_mem_enforceLimit {cfg : Config} (h : cfg.limit ≠ 0) (s q : SelectQuery) :
    .select s ∈ (enforceLimit cfg q).nodes ↔ ∃ s' ∈ q.visited, (limitPass cfg).onSelect s' = s := by
  rw [← List.mem_map]
  exact (limitPass_caps h).select_mem_select s q

/-- Every query of the capped statement has a limit within the cap if and only if no visited
query has one that scans within it while ClickHouse reads something else. -/
theorem enforceLimit_capped_iff (cfg : Config) (q : SelectQuery) (h : 0 < cfg.limit) :
    (∀ s, .select s ∈ (enforceLimit cfg q).nodes → s.Capped float64 cfg.limit) ↔
      ∀ s ∈ q.visited, s.ScansFaithfully float64 cfg.limit := by
  have hlimit : cfg.limit ≠ 0 := by omega
  have hcapped := capped_onSelect_iff float64 (limitPass_caps hlimit) (by omega)
  constructor
  · grind [select_mem_enforceLimit]
  · grind [select_mem_enforceLimit]

end Reading

/-- `SELECT key_id FROM source LIMIT literal`. -/
def limited (source : Source) (literal : String) : SelectQuery :=
  { selectFrom [] "key_id" source with limit := some (.numberLiteral literal) }

/-- `SELECT key_id FROM (SELECT key_id FROM keys_v1 LIMIT inner) LIMIT outer`. -/
def limitedTwice (inner outer : String) : SelectQuery :=
  limited (.subQuery (limited (keysTable "keys_v1") inner) none) outer

def cappedConfig : Config := { keysConfig with limit := 10 }

theorem enforceLimit_capped_iff_nested :
    0 < cappedConfig.limit ∧
      ∀ s, .select s ∈ (enforceLimit cappedConfig (limitedTwice "10000" "5")).nodes →
        s.Capped id 10 := by
  refine ⟨by decide, (enforceLimit_capped_iff id cappedConfig _ (by decide)).mpr ?_⟩
  intro s hs
  have hs : s = limitedTwice "10000" "5" ∨ s = limited (keysTable "keys_v1") "10000" := by
    simpa [limitedTwice, limited, selectFrom, keysTable, SelectQuery.visited,
      SelectQuery.visitedOption, Cte.visitedList, Expr.visitedList, Expr.visited,
      Source.visitedOption, Source.visited, Expr.visitedOption] using hs
  rcases hs with rfl | rfl
  · exact scansFaithfully_of_integer id rfl rfl
  · exact scansFaithfully_of_integer id rfl rfl

/-- Under a cap of ten rows both limits stay as they are: they scan as `0` and as `1`. -/
theorem enforceLimit_keeps_hex_and_exponent :
    enforceLimit cappedConfig (limitedTwice "0x10000" "1e6") = limitedTwice "0x10000" "1e6" ∧
      ∀ float64 : Rat → Rat,
        literalValue float64 "0x10000" = some 65536 ∧
        literalValue float64 "1e6" = some (float64 1000000) ∧
        ¬ ∀ s, .select s ∈ (enforceLimit cappedConfig (limitedTwice "0x10000" "1e6")).nodes →
          s.Capped float64 10 := by
  have hkept : enforceLimit cappedConfig (limitedTwice "0x10000" "1e6") =
      limitedTwice "0x10000" "1e6" := rfl
  refine ⟨hkept, fun float64 => ?_⟩
  have hhex : literalValue float64 "0x10000" = some 65536 := rfl
  refine ⟨hhex, rfl, fun hall => ?_⟩
  have hmem : .select (limited (keysTable "keys_v1") "0x10000") ∈
      (enforceLimit cappedConfig (limitedTwice "0x10000" "1e6")).nodes := by
    rw [hkept]
    simp [limitedTwice, limited, selectFrom, keysTable, SelectQuery.nodes, SelectQuery.walk,
      Source.walkOption, Source.walk]
  obtain ⟨literal, hliteral, v, hv, -, hle⟩ := hall _ hmem
  cases hliteral
  rw [hhex] at hv
  cases hv
  exact absurd hle (by decide)

end Unkey.Analytics
