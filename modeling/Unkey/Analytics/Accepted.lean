import Unkey.Base.Fallible
import Unkey.Analytics.Scope

/-!
# Accepted queries

The walk visits every table reference, so the checks of an accepted statement have passed for all.
-/

namespace Unkey.Analytics

open Unkey.Base

/-! ## Every reference is visited -/

def Use.Direct (x : Use) : Prop := (x.table, x.rename) ∈ x.site.tables

/-- What a walk has met of a reference: its table, and a table function wherever the
table is an argument of one. -/
structure Use.Met (x : Use) (w : Walked) : Prop where
  visited : .table x.table ∈ w.all
  direct : x.Direct ∨ ∃ f, .tableFunction f ∈ w.all

theorem Use.Met.mono {x : Use} {v w : Walked} (h : x.Met v) (hw : ∀ n, n ∈ v.all → n ∈ w.all) :
    x.Met w :=
  ⟨hw _ h.visited, h.direct.imp_right fun ⟨f, hf⟩ => ⟨f, hw _ hf⟩⟩

/-- A reference of a part of a `FROM`: the walk has met it, or it is one of the direct
tables of that part. -/
def Use.MetIn (x : Use) (site : Site) (s : Source) : Prop :=
  x.Met s.walk ∨
    (x.site = site ∧ (x.table, x.rename) ∈ s.directTables ∧ .table x.table ∈ s.walk.all)

theorem Use.MetIn.mono {x : Use} {site : Site} {s t : Source} (h : x.MetIn site s)
    (hd : ∀ y, y ∈ s.directTables → y ∈ t.directTables)
    (hw : ∀ n, n ∈ s.walk.all → n ∈ t.walk.all) : x.MetIn site t :=
  h.imp (·.mono hw) fun ⟨hs, hx, hv⟩ => ⟨hs, hd _ hx, hw _ hv⟩

mutual

theorem Expr.uses_met (capped : Bool) (scope : List String) (e : Expr) :
    ∀ x ∈ e.uses capped scope, x.Met e.walk := by
  intro x hx
  cases e with
  | binaryOperation l op r =>
    rcases List.mem_append.mp hx with h | h
    · exact (Expr.uses_met capped scope l x h).mono (by simp +contextual [Expr.walk])
    · exact (Expr.uses_met capped scope r x h).mono (by simp +contextual [Expr.walk])
  | betweenClause e l u =>
    simp only [Expr.uses, List.mem_append] at hx
    rcases hx with (h | h) | h
    · exact (Expr.uses_met capped scope e x h).mono (by simp +contextual [Expr.walk])
    · exact (Expr.uses_met capped scope l x h).mono (by simp +contextual [Expr.walk])
    · exact (Expr.uses_met capped scope u x h).mono (by simp +contextual [Expr.walk])
  | intervalExpr e u =>
    exact (Expr.uses_met capped scope e x hx).mono (by simp +contextual [Expr.walk])
  | columnExpr e =>
    exact (Expr.uses_met capped scope e x hx).mono (by simp +contextual [Expr.walk])
  | paramExprList es =>
    exact (Expr.usesList_met capped scope es x hx).mono (by simp +contextual [Expr.walk])
  | arrayParamList es =>
    exact (Expr.usesList_met capped scope es x hx).mono (by simp +contextual [Expr.walk])
  | functionExpr f es =>
    exact (Expr.usesList_met capped scope es x hx).mono (by simp +contextual [Expr.walk])
  | subQuery q =>
    exact (SelectQuery.uses_met capped scope q x hx).mono (by simp +contextual [Expr.walk])
  | other es =>
    exact (Expr.usesList_met capped scope es x hx).mono (by simp +contextual [Expr.walk])
  | _ => simp [Expr.uses] at hx

theorem Expr.usesList_met (capped : Bool) (scope : List String) (es : List Expr) :
    ∀ x ∈ Expr.usesList capped scope es, x.Met (Expr.walkList es) := by
  intro x hx
  cases es with
  | nil => simp [Expr.usesList] at hx
  | cons e es =>
    rcases List.mem_append.mp hx with h | h
    · exact (Expr.uses_met capped scope e x h).mono (by simp +contextual [Expr.walkList])
    · exact (Expr.usesList_met capped scope es x h).mono (by simp +contextual [Expr.walkList])

theorem Expr.usesOption_met (capped : Bool) (scope : List String) (e : Option Expr) :
    ∀ x ∈ Expr.usesOption capped scope e, x.Met (Expr.walkOption e) := by
  intro x hx
  cases e with
  | none => simp [Expr.usesOption] at hx
  | some e => exact Expr.uses_met capped scope e x hx

theorem SelectQuery.uses_met (capped : Bool) (scope : List String) (q : SelectQuery) :
    ∀ x ∈ q.uses capped scope, x.Met q.walk := by
  intro x hx
  cases q with
  | mk cs is s w xs l o t ua ud ex =>
    simp only [SelectQuery.uses, List.mem_append] at hx
    rcases hx with (((((((h | h) | h) | h) | h) | (h | h)) | h) | h) | h
    · exact (Cte.usesList_met capped scope cs x h).mono (by simp +contextual [SelectQuery.walk])
    · exact (Expr.usesList_met capped _ is x h).mono (by simp +contextual [SelectQuery.walk])
    · exact (Source.usesOption_met capped _ s w x h).mono (by simp +contextual [SelectQuery.walk])
    · exact (Expr.usesOption_met capped _ w x h).mono (by simp +contextual [SelectQuery.walk])
    · exact (Expr.usesList_met capped _ xs x h).mono (by simp +contextual [SelectQuery.walk])
    · split at h
      · simp at h
      · exact (Expr.usesOption_met capped _ l x h).mono (by simp +contextual [SelectQuery.walk])
    · split at h
      · simp at h
      · exact (Expr.usesOption_met capped _ o x h).mono (by simp +contextual [SelectQuery.walk])
    · exact (SelectQuery.usesOption_met capped _ ua x h).mono
        (by simp +contextual [SelectQuery.walk])
    · exact (SelectQuery.usesOption_met capped _ ud x h).mono
        (by simp +contextual [SelectQuery.walk])
    · exact (SelectQuery.usesOption_met capped _ ex x h).mono
        (by simp +contextual [SelectQuery.walk])

theorem SelectQuery.usesOption_met (capped : Bool) (scope : List String)
    (q : Option SelectQuery) :
    ∀ x ∈ SelectQuery.usesOption capped scope q, x.Met (SelectQuery.walkOption q) := by
  intro x hx
  cases q with
  | none => simp [SelectQuery.usesOption] at hx
  | some q => exact SelectQuery.uses_met capped scope q x hx

theorem Cte.uses_met (capped : Bool) (scope : List String) (c : Cte) :
    ∀ x ∈ c.uses capped scope, x.Met c.walk := by
  intro x hx
  cases c with
  | query e q =>
    rcases List.mem_append.mp hx with h | h
    · exact (Expr.uses_met capped scope e x h).mono (by simp +contextual [Cte.walk])
    · exact (SelectQuery.uses_met capped scope q x h).mono (by simp +contextual [Cte.walk])
  | scalar e n => exact (Expr.uses_met capped scope e x hx).mono (by simp +contextual [Cte.walk])

theorem Cte.usesList_met (capped : Bool) (scope : List String) (cs : List Cte) :
    ∀ x ∈ Cte.usesList capped scope cs, x.Met (Cte.walkList cs) := by
  intro x hx
  cases cs with
  | nil => simp [Cte.usesList] at hx
  | cons c cs =>
    rcases List.mem_append.mp hx with h | h
    · exact (Cte.uses_met capped scope c x h).mono (by simp +contextual [Cte.walkList])
    · exact (Cte.usesList_met capped _ cs x h).mono (by simp +contextual [Cte.walkList])

theorem Source.uses_met (capped : Bool) (scope : List String) (site : Site) (s : Source) :
    ∀ x ∈ s.uses capped scope site, x.MetIn site s := by
  intro x hx
  cases s with
  | joinExpr l r cs =>
    simp only [Source.uses, List.mem_append] at hx
    rcases hx with (h | h) | h
    · refine (Source.uses_met capped scope site l x h).mono ?_ (by simp +contextual [Source.walk])
      cases r <;> simp +contextual [Source.directTables]
    · cases r with
      | none => simp [Source.usesOption] at h
      | some r =>
        exact (Source.uses_met capped scope site r x h).mono
          (by simp +contextual [Source.directTables])
          (by simp +contextual [Source.walk, Source.walkOption])
    · exact .inl ((Expr.usesList_met capped scope cs x h).mono (by simp +contextual [Source.walk]))
  | joinTableExpr s es =>
    rcases List.mem_append.mp hx with h | h
    · exact (Source.uses_met capped scope site s x h).mono
        (by simp +contextual [Source.directTables]) (by simp +contextual [Source.walk])
    · exact .inl ((Expr.usesList_met capped scope es x h).mono (by simp +contextual [Source.walk]))
  | table t a =>
    obtain rfl := List.mem_singleton.mp hx
    exact .inr ⟨rfl, by simp [Source.directTables], by simp [Source.walk]⟩
  | subQuery q a => exact .inl (SelectQuery.uses_met capped scope q x hx)
  | tableFunction f ts es a =>
    rcases List.mem_append.mp hx with h | h
    · obtain ⟨t, ht, rfl⟩ := List.mem_map.mp h
      exact .inl ⟨by simp [Source.walk, ht], .inr ⟨f, by simp [Source.walk]⟩⟩
    · exact .inl ((Expr.usesList_met capped scope es x h).mono (by simp +contextual [Source.walk]))

theorem Source.usesOption_met (capped : Bool) (scope : List String) (s : Option Source)
    (w : Option Expr) :
    ∀ x ∈ Source.usesOption capped scope ⟨s, w⟩ s, x.Met (Source.walkOption s) := by
  intro x hx
  cases s with
  | none => simp [Source.usesOption] at hx
  | some s =>
    rcases Source.uses_met capped scope ⟨some s, w⟩ s x hx with h | ⟨hs, hd, hv⟩
    · exact h
    · exact ⟨hv, .inl (by rw [Use.Direct, hs]; exact hd)⟩

end

/-! ## What the checks of an accepted statement say -/

variable (u : Casing) (cfg : Config)

def filtered (cteNames : List String) (q : SelectQuery) : SelectQuery :=
  enforceLimit cfg (injectWorkspaceFilter u cfg cteNames (injectSecurityFilters u cfg cteNames q))

def rewritten (stmt : SelectQuery) : SelectQuery :=
  (functionPass u).onSelect
    (filtered u cfg (buildCTERegistry u stmt) ((tablePass cfg).onSelect stmt))

variable {out stmt : SelectQuery}

theorem rewriteTables_ok {cteNames : List String}
    (h : rewriteTables u cfg cteNames stmt = .ok out) :
    (∀ t, .table t ∈ stmt.nodes → validateTable u cfg cteNames t = .ok ()) ∧
      out = (tablePass cfg).onSelect stmt := by
  simp only [rewriteTables] at h
  split at h
  · cases h
  · obtain ⟨_, hc, h⟩ := bind_eq_ok h
    exact ⟨fun t ht => forM_eq_ok hc _ ht, (Except.ok.inj h).symm⟩

theorem validateFunctions_ok (h : validateFunctions u stmt = .ok out) :
    (∀ n ∈ stmt.nodes, validateFunction u n = .ok ()) ∧ out = (functionPass u).onSelect stmt := by
  obtain ⟨_, hc, h⟩ := bind_eq_ok h
  exact ⟨forM_eq_ok hc, (Except.ok.inj h).symm⟩

theorem validateFunction_tableFunction (f : TableFunctionName) :
    validateFunction u (.tableFunction f) ≠ .ok () := by
  have hf : u.lower f.text ≠ "" := by
    intro h
    have hl : (u.lower f.text).toList = [] := by rw [h]; rfl
    rw [Casing.lower, String.toList_ofList, List.map_eq_nil_iff] at hl
    exact f.named (String.toList_inj.mp hl)
  simp only [validateFunction, if_neg hf]
  intro h
  cases h

theorem rewrite_ok {timeRange : SelectQuery → Except Fault Unit}
    (h : rewrite u timeRange cfg stmt = .ok out) :
    (∀ t, .table t ∈ stmt.nodes → validateTable u cfg (buildCTERegistry u stmt) t = .ok ()) ∧
      (∀ f, .tableFunction f ∉
        (filtered u cfg (buildCTERegistry u stmt) ((tablePass cfg).onSelect stmt)).nodes) ∧
      out = rewritten u cfg stmt := by
  obtain ⟨_, _, h⟩ := bind_eq_ok h
  obtain ⟨_, _, h⟩ := bind_eq_ok h
  obtain ⟨_, _, h⟩ := bind_eq_ok h
  obtain ⟨_, _, h⟩ := bind_eq_ok h
  obtain ⟨q, hq, h⟩ := bind_eq_ok h
  obtain ⟨r, hr, h⟩ := bind_eq_ok h
  obtain ⟨_, _, h⟩ := bind_eq_ok h
  obtain ⟨htables, rfl⟩ := rewriteTables_ok u cfg hq
  obtain ⟨hfunctions, rfl⟩ := validateFunctions_ok u hr
  exact ⟨htables, fun f hf => validateFunction_tableFunction u f (hfunctions _ hf),
    (Except.ok.inj h).symm⟩

theorem parse_ok {parseStmts : String → Except String (List Stmt)}
    {timeRange : SelectQuery → Except Fault Unit} {query : String}
    (hstmt : parseStmts query = .ok [.select stmt])
    (h : parse parseStmts u timeRange cfg query = .ok out) :
    rewrite u timeRange cfg stmt = .ok out := by
  simp only [parse, hstmt] at h
  split at h
  · cases h
  · exact h

/-! ## The references of the result -/

def Config.capped (cfg : Config) : Bool := cfg.limit != 0

theorem limitPass_cap : (limitPass cfg).cap.isSome = cfg.capped := by
  by_cases h : cfg.limit = 0 <;> simp [limitPass, Config.capped, h]

theorem filterPass_silent {cteNames : List String} {predicate : Ident → Expr}
    (h : ∀ source capped scope, (predicate source).uses capped scope = []) :
    (filterPass u cteNames predicate).Silent := by
  intro s f hf capped scope
  obtain ⟨source, -, rfl⟩ := List.mem_map.mp hf
  exact h source capped scope

theorem silent_of_no_filters {P : Pass} (h : P.filters = fun _ => []) : P.Silent := by
  intro s f hf
  rw [h] at hf
  cases hf

theorem workspaceFilter_uses (source : Ident) (capped : Bool) (scope : List String) :
    (workspaceFilter cfg source).uses capped scope = [] := by
  simp [workspaceFilter, Expr.uses]

theorem usesList_literals (vs : List String) (capped : Bool) (scope : List String) :
    Expr.usesList capped scope (vs.map fun v => .columnExpr (.stringLiteral v)) = [] := by
  induction vs with
  | nil => rfl
  | cons v vs ih => simp [Expr.usesList, Expr.uses, ih]

theorem securityFilter_uses (f : SecurityFilter) (source : Ident) (capped : Bool)
    (scope : List String) : (securityFilter f source).uses capped scope = [] := by
  simp only [securityFilter]
  split
  · simp [Expr.uses]
  · simp [Expr.uses, usesList_literals]

def securitySite (cteNames : List String) (x : Site) : Site :=
  cfg.securityFilters.foldl (fun x f => (filterPass u cteNames (securityFilter f)).onSite x) x

def filteredSite (cteNames : List String) (x : Site) : Site :=
  (limitPass cfg).onSite ((filterPass u cteNames (workspaceFilter cfg)).onSite
    (securitySite u cfg cteNames x))

def rewrittenUse (cteNames : List String) (x : Use) : Use where
  table := rewriteTable cfg x.table
  rename := x.rename
  scope := x.scope
  site := (functionPass u).onSite (filteredSite u cfg cteNames ((tablePass cfg).onSite x.site))

theorem injectSecurityFilters_uses (cteNames : List String) (capped : Bool) (scope : List String)
    (q : SelectQuery) :
    (injectSecurityFilters u cfg cteNames q).uses capped scope =
      (q.uses capped scope).map fun x => { x with site := securitySite u cfg cteNames x.site } := by
  simp only [injectSecurityFilters, securitySite]
  -- one pass for each filter, over the tree the earlier ones have left
  induction cfg.securityFilters generalizing q with
  | nil => simp
  | cons f fs ih =>
    rw [List.foldl_cons, ih, Pass.uses_onSelect _ (filterPass_silent u (securityFilter_uses f)),
      List.map_map]
    simp [filterPass, Function.comp_def, Pass.onUse]

theorem filtered_uses (cteNames : List String) (q : SelectQuery) :
    (filtered u cfg cteNames q).uses false [] =
      (q.uses cfg.capped []).map
        fun x => { x with site := filteredSite u cfg cteNames x.site } := by
  have hl : (limitPass cfg).Silent := silent_of_no_filters rfl
  have hw : (filterPass u cteNames (workspaceFilter cfg)).Silent :=
    filterPass_silent u (workspaceFilter_uses cfg)
  rw [filtered, enforceLimit, Pass.uses_onSelect _ hl, injectWorkspaceFilter,
    Pass.uses_onSelect _ hw, injectSecurityFilters_uses, limitPass_cap, List.map_map, List.map_map]
  simp [filterPass, Function.comp_def, Pass.onUse, filteredSite, limitPass]

theorem rewritten_uses (stmt : SelectQuery) :
    (rewritten u cfg stmt).uses false [] =
      (stmt.uses cfg.capped []).map (rewrittenUse u cfg (buildCTERegistry u stmt)) := by
  have hf : (functionPass u).Silent := silent_of_no_filters rfl
  have ht : (tablePass cfg).Silent := silent_of_no_filters rfl
  have hcap : (false || (functionPass u).cap.isSome) = false := rfl
  rw [rewritten, Pass.uses_onSelect _ hf, hcap, filtered_uses, Pass.uses_onSelect _ ht,
    List.map_map, List.map_map]
  simp [Function.comp_def, Pass.onUse, rewrittenUse, functionPass, tablePass]

/-! ## A configuration with one public table -/

def selectFrom (ctes : List Cte) (column : String) (source : Source) : SelectQuery where
  ctes := ctes
  selectItems := [.ident (.plain column)]
  source := some source
  whereExpr := none
  clauses := []
  limit := none
  offset := none
  settings := false
  unionAll := none
  unionDistinct := none
  except := none

def keysConfig : Config where
  workspaceID := "ws_123"
  tableAliases := AList.insert "keys_v1" "default.key_verifications_raw_v2" ∅
  allowedTables := ["default.key_verifications_raw_v2"]
  securityFilters := []
  limit := 0

def keysTable (name : String) : Source := .table ⟨none, .plain name⟩ none

/-- `WITH recent AS (SELECT key_id FROM keys_v1) SELECT key_id FROM recent`. -/
def recentKeys : SelectQuery :=
  selectFrom [.query (.ident (.plain "recent")) (selectFrom [] "key_id" (keysTable "keys_v1"))]
    "key_id" (keysTable "recent")

end Unkey.Analytics
