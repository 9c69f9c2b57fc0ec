import Unkey.Analytics.Accepted

/-!
# Tenant isolation of rewritten queries

A reference that ClickHouse resolves to a physical table must be filtered by workspace.
-/

namespace Unkey.Analytics

/-! ## Conjuncts -/

mutual

def Expr.conjuncts : Expr → List Expr
  | .binaryOperation l op r =>
    if op = "AND" then l.conjuncts ++ r.conjuncts else [.binaryOperation l op r]
  | .paramExprList es => Expr.conjunctsGroup es
  | e => [e]

def Expr.conjunctsGroup : List Expr → List Expr
  | [e] => e.conjuncts
  | es => [.paramExprList es]

end

def Expr.conjunctsOption : Option Expr → List Expr
  | none => []
  | some e => e.conjuncts

def Site.conjuncts (x : Site) : List Expr := Expr.conjunctsOption x.whereExpr

mutual

def Expr.rigid : Expr → Bool
  | .ident _ => true
  | .nestedIdentifier _ _ => true
  | .path _ => true
  | .numberLiteral _ => true
  | .stringLiteral _ => true
  | .binaryOperation l _ r => l.rigid && r.rigid
  | .columnExpr e => e.rigid
  | .paramExprList es => Expr.rigidList es
  | _ => false

def Expr.rigidList : List Expr → Bool
  | [] => true
  | e :: es => e.rigid && Expr.rigidList es

end

variable {p : Expr}

namespace Pass

variable (P : Pass)

mutual

theorem onExpr_eq_rigid {p : Expr} (hp : p.rigid = true) (e : Expr) :
    P.onExpr e = p ↔ e = p := by
  cases p with
  | binaryOperation l op r =>
    simp only [Expr.rigid, Bool.and_eq_true] at hp
    cases e <;> simp [onExpr, onExpr_eq_rigid hp.1, onExpr_eq_rigid hp.2]
  | columnExpr p =>
    have hp : p.rigid = true := hp
    cases e <;> simp [onExpr, onExpr_eq_rigid hp]
  | paramExprList ps =>
    have hp : Expr.rigidList ps = true := hp
    cases e <;> simp [onExpr, onExprs_eq_rigid hp]
  | betweenClause _ _ _ => simp [Expr.rigid] at hp
  | intervalExpr _ _ => simp [Expr.rigid] at hp
  | arrayParamList _ => simp [Expr.rigid] at hp
  | functionExpr _ _ => simp [Expr.rigid] at hp
  | subQuery _ => simp [Expr.rigid] at hp
  | other _ => simp [Expr.rigid] at hp
  | _ => cases e <;> simp [onExpr]

theorem onExprs_eq_rigid {ps : List Expr} (hp : Expr.rigidList ps = true) (es : List Expr) :
    P.onExprs es = ps ↔ es = ps := by
  cases ps with
  | nil => cases es <;> simp [onExprs]
  | cons p ps =>
    simp only [Expr.rigidList, Bool.and_eq_true] at hp
    cases es <;> simp [onExprs, onExpr_eq_rigid hp.1, onExprs_eq_rigid hp.2]

end

mutual

theorem conjuncts_onExpr (e : Expr) : (P.onExpr e).conjuncts = e.conjuncts.map P.onExpr := by
  cases e with
  | binaryOperation l op r =>
    by_cases h : op = "AND"
    · simp [onExpr, Expr.conjuncts, h, conjuncts_onExpr l, conjuncts_onExpr r]
    · simp [onExpr, Expr.conjuncts, h]
  | paramExprList es => simpa [onExpr, Expr.conjuncts] using conjunctsGroup_onExprs es
  | _ => simp [onExpr, Expr.conjuncts]

theorem conjunctsGroup_onExprs (es : List Expr) :
    Expr.conjunctsGroup (P.onExprs es) = (Expr.conjunctsGroup es).map P.onExpr := by
  match es with
  | [] => simp [onExprs, Expr.conjunctsGroup, onExpr]
  | [e] => simpa [onExprs, Expr.conjunctsGroup] using conjuncts_onExpr e
  | e :: f :: es => simp [onExprs, Expr.conjunctsGroup, onExpr]

end

theorem mem_conjuncts_onExpr (hp : p.rigid = true) (e : Expr) :
    p ∈ (P.onExpr e).conjuncts ↔ p ∈ e.conjuncts := by
  rw [conjuncts_onExpr, List.mem_map]
  simp [onExpr_eq_rigid P hp]

theorem mem_conjuncts_onExpr? (hp : p.rigid = true) (w : Option Expr) :
    p ∈ Expr.conjunctsOption (P.onExpr? w) ↔ p ∈ Expr.conjunctsOption w := by
  cases w with
  | none => rfl
  | some e => exact mem_conjuncts_onExpr P hp e

theorem mem_conjuncts_inject {f : Expr} (hf : f.conjuncts = [f]) (w : Option Expr) :
    p ∈ Expr.conjunctsOption (inject w f) ↔ p ∈ Expr.conjunctsOption w ∨ p = f := by
  cases w with
  | none => simp [Expr.conjunctsOption, inject, hf]
  | some e =>
    simp [Expr.conjunctsOption, inject, parenthesize, Expr.conjuncts, Expr.conjunctsGroup, hf,
      or_comm]

theorem mem_conjuncts_foldl {fs : List Expr} (hf : ∀ f ∈ fs, f.conjuncts = [f]) (w : Option Expr) :
    p ∈ Expr.conjunctsOption (fs.foldl inject w) ↔ p ∈ Expr.conjunctsOption w ∨ p ∈ fs := by
  induction fs generalizing w with
  | nil => simp
  | cons f fs ih =>
    rw [List.foldl_cons, ih fun g hg => hf g (List.mem_cons_of_mem _ hg),
      mem_conjuncts_inject (hf f List.mem_cons_self), List.mem_cons, or_assoc]

theorem mem_conjuncts_onSite (hP : ∀ s, ∀ f ∈ P.filters s, f.conjuncts = [f])
    (hp : p.rigid = true) (x : Site) :
    p ∈ (P.onSite x).conjuncts ↔
      p ∈ x.conjuncts ∨ ∃ s, x.source = some s ∧ p ∈ P.filters s := by
  obtain ⟨s, w⟩ := x
  cases s with
  | none => simpa [Site.conjuncts, onSite, filter] using mem_conjuncts_onExpr? P hp w
  | some s =>
    show p ∈ Expr.conjunctsOption ((P.filters s).foldl inject (P.onExpr? w)) ↔ _
    rw [mem_conjuncts_foldl (hP s), mem_conjuncts_onExpr? P hp]
    simp [Site.conjuncts]

end Pass

/-! ## The conjuncts that the passes leave at a reference -/

variable (u : Casing) (cfg : Config) (cteNames : List String)

def Site.sources (x : Site) : List Ident :=
  (x.tables.filter fun y => !readsCTE u cteNames y.1).map fun y => qualifier y.1 y.2

theorem Pass.sources_onSite {P : Pass} (hP : P.table = id) (x : Site) :
    (P.onSite x).sources u cteNames = x.sources u cteNames := by
  simp [Site.sources, Pass.tables_onSite, hP]

theorem Pass.conjuncts_onSite {P : Pass} (hP : P.filters = fun _ => [])
    (hp : p.rigid = true) (x : Site) : p ∈ (P.onSite x).conjuncts ↔ p ∈ x.conjuncts := by
  rw [P.mem_conjuncts_onSite (by simp [hP]) hp]
  simp [hP]

theorem filterPass_conjuncts {predicate : Ident → Expr}
    (hpred : ∀ source, (predicate source).conjuncts = [predicate source])
    (hp : p.rigid = true) (x : Site) :
    p ∈ ((filterPass u cteNames predicate).onSite x).conjuncts ↔
      p ∈ x.conjuncts ∨ p ∈ (x.sources u cteNames).map predicate := by
  have hatomic : ∀ s, ∀ f ∈ (filterPass u cteNames predicate).filters s, f.conjuncts = [f] := by
    intro s f hf
    obtain ⟨source, -, rfl⟩ := List.mem_map.mp hf
    exact hpred source
  rw [Pass.mem_conjuncts_onSite _ hatomic hp]
  obtain ⟨s, w⟩ := x
  cases s with
  | none => simp [Site.sources, Site.tables]
  | some s => simp [Site.sources, Site.tables, filterPass, directTableSources]

def required (source : Ident) : List Expr :=
  workspaceFilter cfg source :: cfg.securityFilters.map fun f => securityFilter f source

theorem workspaceFilter_conjuncts (source : Ident) :
    (workspaceFilter cfg source).conjuncts = [workspaceFilter cfg source] := by
  simp [workspaceFilter, Expr.conjuncts]

theorem securityFilter_conjuncts (f : SecurityFilter) (source : Ident) :
    (securityFilter f source).conjuncts = [securityFilter f source] := by
  simp only [securityFilter]
  split <;> simp [Expr.conjuncts]

theorem rigidList_literals (vs : List String) :
    Expr.rigidList (vs.map fun v => .columnExpr (.stringLiteral v)) = true := by
  induction vs with
  | nil => rfl
  | cons v vs ih => simp [Expr.rigidList, Expr.rigid, ih]

theorem required_rigid {source : Ident} (hp : p ∈ required cfg source) :
    p.rigid = true := by
  rcases List.mem_cons.mp hp with rfl | hp
  · simp [workspaceFilter, Expr.rigid]
  · obtain ⟨f, -, rfl⟩ := List.mem_map.mp hp
    simp only [securityFilter]
    split <;> simp [Expr.rigid, rigidList_literals]

theorem securitySite_sources (x : Site) :
    (securitySite u cfg cteNames x).sources u cteNames = x.sources u cteNames := by
  simp only [securitySite]
  induction cfg.securityFilters generalizing x with
  | nil => rfl
  | cons f fs ih => rw [List.foldl_cons, ih, Pass.sources_onSite u cteNames rfl]

theorem securitySite_conjuncts (hp : p.rigid = true) (x : Site) :
    p ∈ (securitySite u cfg cteNames x).conjuncts ↔
      p ∈ x.conjuncts ∨
        ∃ f ∈ cfg.securityFilters, p ∈ (x.sources u cteNames).map (securityFilter f) := by
  simp only [securitySite]
  induction cfg.securityFilters generalizing x with
  | nil => simp
  | cons f fs ih =>
    rw [List.foldl_cons, ih, Pass.sources_onSite u cteNames rfl, List.exists_mem_cons_iff,
      filterPass_conjuncts u cteNames (securityFilter_conjuncts f) hp, or_assoc]

theorem filteredSite_conjuncts (hp : p.rigid = true) (x : Site) :
    p ∈ (filteredSite u cfg cteNames x).conjuncts ↔
      p ∈ x.conjuncts ∨ ∃ source ∈ x.sources u cteNames, p ∈ required cfg source := by
  rw [filteredSite, Pass.conjuncts_onSite rfl hp,
    filterPass_conjuncts u cteNames (workspaceFilter_conjuncts cfg) hp, securitySite_sources,
    securitySite_conjuncts u cfg cteNames hp]
  constructor
  · rintro ((h | ⟨f, hf, h⟩) | h)
    · exact .inl h
    · obtain ⟨source, hs, rfl⟩ := List.mem_map.mp h
      exact .inr ⟨source, hs, List.mem_cons_of_mem _ (List.mem_map_of_mem hf)⟩
    · obtain ⟨source, hs, rfl⟩ := List.mem_map.mp h
      exact .inr ⟨source, hs, List.mem_cons_self⟩
  · rintro (h | ⟨source, hs, h⟩)
    · exact .inl (.inl h)
    · rcases List.mem_cons.mp h with rfl | h
      · exact .inr (List.mem_map_of_mem hs)
      · obtain ⟨f, hf, rfl⟩ := List.mem_map.mp h
        exact .inl (.inr ⟨f, hf, List.mem_map_of_mem hs⟩)

/-! ## Isolation -/

/-- ClickHouse reads a physical table here: the name is qualified, or no `WITH` entry in scope
carries it. -/
def Use.Physical (x : Use) : Prop := x.table.database.isSome = true ∨ x.table.table.name ∉ x.scope

/-- Every physical table of the tree stands in a `FROM` whose `WHERE` requires the
workspace and all row filters of that source. -/
def Isolated (q : SelectQuery) : Prop :=
  ∀ x ∈ q.uses false [], x.Physical →
    x.Direct ∧ ∀ p ∈ required cfg (qualifier x.table x.rename), p ∈ x.site.conjuncts

/-- A reference that the rewriter takes for a `WITH` name although no entry in scope
carries it must get its predicates from elsewhere: the caller has written them, or they are
those of another source of the same `FROM`. -/
def CTEsInScope (stmt : SelectQuery) : Prop :=
  ∀ x ∈ stmt.uses cfg.capped [],
    readsCTE u (buildCTERegistry u stmt) (rewriteTable cfg x.table) = true →
    (rewriteTable cfg x.table).table.name ∉ x.scope →
    ∀ p ∈ required cfg (qualifier (rewriteTable cfg x.table) x.rename),
      p ∈ x.site.conjuncts ∨
        ∃ source ∈ ((tablePass cfg).onSite x.site).sources u (buildCTERegistry u stmt),
          p ∈ required cfg source

theorem filteredSite_tables (x : Site) : (filteredSite u cfg cteNames x).tables = x.tables := by
  have hpass : ∀ {P : Pass}, P.table = id → ∀ x, (P.onSite x).tables = x.tables := by
    intro P hP x
    simp [Pass.tables_onSite, hP]
  have hsecurity : (securitySite u cfg cteNames x).tables = x.tables := by
    simp only [securitySite]
    induction cfg.securityFilters generalizing x with
    | nil => rfl
    | cons f fs ih => rw [List.foldl_cons, ih, hpass rfl]
  rw [filteredSite, hpass rfl, hpass rfl, hsecurity]

theorem rewrite_direct {stmt : SelectQuery}
    (hfunctions : ∀ f, .tableFunction f ∉
      (filtered u cfg cteNames ((tablePass cfg).onSelect stmt)).nodes) :
    ∀ x ∈ stmt.uses cfg.capped [], ((tablePass cfg).onUse x).Direct := by
  intro x hx
  have htable : (tablePass cfg).Silent := silent_of_no_filters rfl
  have hy : { (tablePass cfg).onUse x with
      site := filteredSite u cfg cteNames ((tablePass cfg).onSite x.site) } ∈
      (filtered u cfg cteNames ((tablePass cfg).onSelect stmt)).uses false [] := by
    rw [filtered_uses, Pass.uses_onSelect _ htable, List.map_map]
    refine List.mem_map.mpr ⟨x, ?_, rfl⟩
    simpa [tablePass] using hx
  have hmet := SelectQuery.uses_met false [] _ _ hy
  have hdirect := hmet.direct.resolve_right (not_exists.mpr hfunctions)
  rw [Use.Direct, filteredSite_tables] at hdirect
  exact hdirect

theorem rewrittenUse_direct {x : Use} (h : ((tablePass cfg).onUse x).Direct) :
    (rewrittenUse u cfg cteNames x).Direct := by
  show (rewriteTable cfg x.table, x.rename) ∈ ((functionPass u).onSite _).tables
  have hid : (fun y : TableIdentifier × Option Ident => ((functionPass u).table y.1, y.2)) = id :=
    rfl
  rw [Pass.tables_onSite, filteredSite_tables, hid, List.map_id]
  exact h

theorem rewrittenUse_conjuncts (hp : p.rigid = true) (x : Use) :
    p ∈ (rewrittenUse u cfg cteNames x).site.conjuncts ↔
      p ∈ x.site.conjuncts ∨
        ∃ source ∈ ((tablePass cfg).onSite x.site).sources u cteNames, p ∈ required cfg source := by
  show p ∈ ((functionPass u).onSite _).conjuncts ↔ _
  rw [Pass.conjuncts_onSite rfl hp, filteredSite_conjuncts u cfg cteNames hp,
    Pass.conjuncts_onSite rfl hp]

theorem mem_sources_of_direct {x : Use} (hdirect : x.Direct)
    (hreads : readsCTE u cteNames x.table = false) :
    qualifier x.table x.rename ∈ x.site.sources u cteNames :=
  List.mem_map.mpr ⟨(x.table, x.rename), List.mem_filter.mpr ⟨hdirect, by simp [hreads]⟩, rfl⟩

/-- An accepted query is isolated exactly when every reference that the rewriter takes
for a `WITH` name is one in the scope of ClickHouse, or is filtered all the same. -/
theorem parse_isolated_iff (parseStmts : String → Except String (List Stmt))
    (timeRange : SelectQuery → Except Fault Unit) (query : String) (stmt out : SelectQuery)
    (hstmt : parseStmts query = .ok [.select stmt])
    (h : parse parseStmts u timeRange cfg query = .ok out) :
    Isolated cfg out ↔ CTEsInScope u cfg stmt := by
  obtain ⟨-, hfunctions, rfl⟩ := rewrite_ok u cfg (parse_ok u cfg hstmt h)
  have hdirect := rewrite_direct u cfg (buildCTERegistry u stmt) hfunctions
  rw [Isolated, rewritten_uses]
  constructor
  · intro hisolated x hx _ hscope p hp
    have hfiltered := (hisolated _ (List.mem_map_of_mem hx) (.inr hscope)).2 p hp
    exact (rewrittenUse_conjuncts u cfg _ (required_rigid cfg hp) x).mp hfiltered
  · intro hscopes y hy hphysical
    obtain ⟨x, hx, rfl⟩ := List.mem_map.mp hy
    refine ⟨rewrittenUse_direct u cfg _ (hdirect x hx), fun p hp => ?_⟩
    rw [rewrittenUse_conjuncts u cfg _ (required_rigid cfg hp)]
    cases hreads : readsCTE u (buildCTERegistry u stmt) (rewriteTable cfg x.table) with
    | false => exact .inr ⟨_, mem_sources_of_direct u _ (hdirect x hx) hreads, hp⟩
    | true =>
      -- the name is unqualified, so it is physical only when nothing in scope binds it
      have hnone : (rewriteTable cfg x.table).database.isNone = true :=
        (Bool.and_eq_true_iff.mp hreads).1
      have hscope : (rewriteTable cfg x.table).table.name ∉ x.scope := by
        rcases hphysical with hq | hs
        · rw [← Option.not_isNone, Bool.not_eq_true'] at hq
          exact absurd (hnone.symm.trans hq) (by decide)
        · exact hs
      exact hscopes x hx hreads hscope p hp

theorem parse_isolated_iff_recent :
    parse (fun _ => .ok [.select recentKeys]) .ascii (fun _ => pure ()) keysConfig "" =
        .ok (rewritten .ascii keysConfig recentKeys) ∧
      Isolated keysConfig (rewritten .ascii keysConfig recentKeys) := by
  refine ⟨rfl, (parse_isolated_iff .ascii keysConfig (fun _ => .ok [.select recentKeys])
    (fun _ => pure ()) "" recentKeys _ rfl rfl).mpr ?_⟩
  intro x hx hreads hscope
  -- the public table is qualified, and `recent` is in scope where it is read
  rcases List.mem_cons.mp hx with rfl | hx
  · exact absurd hreads (by decide)
  · obtain rfl := List.mem_singleton.mp hx
    exact absurd hscope (by decide)

/-! ## A name that is registered and not in scope -/

/-- `WITH key_verifications_raw_v2 AS (SELECT key_id FROM key_verifications_raw_v2)
SELECT key_id FROM key_verifications_raw_v2`: the entry does not see itself. -/
def selfNamedCTE : SelectQuery :=
  selectFrom
    [.query (.ident (.plain "key_verifications_raw_v2"))
      (selectFrom [] "key_id" (keysTable "key_verifications_raw_v2"))]
    "key_id" (keysTable "key_verifications_raw_v2")

theorem selfNamedCTE_not_isolated :
    ∃ out, parse (fun _ => .ok [.select selfNamedCTE]) .ascii (fun _ => pure ()) keysConfig "" =
        .ok out ∧
      ¬ Isolated keysConfig out := by
  refine ⟨selfNamedCTE, rfl, fun h => ?_⟩
  have hx := h ⟨⟨none, .plain "key_verifications_raw_v2"⟩, none, [],
    ⟨some (keysTable "key_verifications_raw_v2"), none⟩⟩ List.mem_cons_self
    (.inr List.not_mem_nil)
  exact absurd (hx.2 _ List.mem_cons_self) List.not_mem_nil

end Unkey.Analytics
