import Unkey.Analytics.Parser

/-!
# Table references and the names in scope

Where ClickHouse meets a table name, which `WITH` names it can see there, and the query whose `FROM`
and `WHERE` decide about the rows that are read.
-/

namespace Unkey.Analytics

structure Site where
  source : Option Source
  whereExpr : Option Expr

def Site.tables (x : Site) : List (TableIdentifier × Option Ident) :=
  match x.source with
  | none => []
  | some s => s.directTables

structure Use where
  table : TableIdentifier
  rename : Option Ident
  scope : List String
  site : Site

def Cte.binds : Cte → List String
  | .query (.ident i) _ => [i.name]
  | _ => []

mutual

def Expr.uses (capped : Bool) (scope : List String) : Expr → List Use
  | .ident _ => []
  | .nestedIdentifier _ _ => []
  | .path _ => []
  | .numberLiteral _ => []
  | .stringLiteral _ => []
  | .binaryOperation l _ r => l.uses capped scope ++ r.uses capped scope
  | .betweenClause e l u => e.uses capped scope ++ l.uses capped scope ++ u.uses capped scope
  | .intervalExpr e _ => e.uses capped scope
  | .columnExpr e => e.uses capped scope
  | .paramExprList es => Expr.usesList capped scope es
  | .arrayParamList es => Expr.usesList capped scope es
  | .functionExpr _ es => Expr.usesList capped scope es
  | .subQuery q => q.uses capped scope
  | .other es => Expr.usesList capped scope es

def Expr.usesList (capped : Bool) (scope : List String) : List Expr → List Use
  | [] => []
  | e :: es => e.uses capped scope ++ Expr.usesList capped scope es

def Expr.usesOption (capped : Bool) (scope : List String) : Option Expr → List Use
  | none => []
  | some e => e.uses capped scope

/-- The `WITH` names of a query are visible in all of it, the other operands of a
`UNION` or `EXCEPT` included. -/
def SelectQuery.uses (capped : Bool) (scope : List String) : SelectQuery → List Use
  | ⟨cs, is, s, w, xs, l, o, _, ua, ud, ex⟩ =>
    let inner := scope ++ cs.flatMap Cte.binds
    Cte.usesList capped scope cs ++ Expr.usesList capped inner is ++
      Source.usesOption capped inner ⟨s, w⟩ s ++ Expr.usesOption capped inner w ++
      Expr.usesList capped inner xs ++
      -- the cap replaces a clause without a limit as a whole
      ((if capped then [] else Expr.usesOption capped inner l) ++
        (if capped && l.isNone then [] else Expr.usesOption capped inner o)) ++
      SelectQuery.usesOption capped inner ua ++ SelectQuery.usesOption capped inner ud ++
      SelectQuery.usesOption capped inner ex

def SelectQuery.usesOption (capped : Bool) (scope : List String) :
    Option SelectQuery → List Use
  | none => []
  | some q => q.uses capped scope

def Cte.uses (capped : Bool) (scope : List String) : Cte → List Use
  | .query e q => e.uses capped scope ++ q.uses capped scope
  | .scalar e _ => e.uses capped scope

def Cte.usesList (capped : Bool) (scope : List String) : List Cte → List Use
  | [] => []
  | c :: cs => c.uses capped scope ++ Cte.usesList capped (scope ++ c.binds) cs

def Source.uses (capped : Bool) (scope : List String) (site : Site) : Source → List Use
  | .joinExpr l r cs =>
    l.uses capped scope site ++ Source.usesOption capped scope site r ++
      Expr.usesList capped scope cs
  | .joinTableExpr s es => s.uses capped scope site ++ Expr.usesList capped scope es
  | .table t a => [⟨t, a, scope, site⟩]
  | .subQuery q _ => q.uses capped scope
  | .tableFunction _ ts es a =>
    ts.map (fun t => ⟨t, a, scope, site⟩) ++ Expr.usesList capped scope es

def Source.usesOption (capped : Bool) (scope : List String) (site : Site) :
    Option Source → List Use
  | none => []
  | some s => s.uses capped scope site

end

/-! ## What a pass does to the references -/

namespace Pass

variable (P : Pass)

def Silent : Prop := ∀ s, ∀ f ∈ P.filters s, ∀ capped scope, f.uses capped scope = []

def onSite (x : Site) : Site := ⟨P.onSource? x.source, P.filter x.source (P.onExpr? x.whereExpr)⟩

def onUse (x : Use) : Use := { x with table := P.table x.table, site := P.onSite x.site }

theorem directTables_onSource (s : Source) :
    (P.onSource s).directTables = s.directTables.map fun y => (P.table y.1, y.2) := by
  fun_induction Source.directTables s with
  | case1 l cs ih => simpa [onSource, onSource?, Source.directTables] using ih
  | case2 l r cs ihl ihr => simp [onSource, onSource?, Source.directTables, ihl, ihr]
  | case3 s es ih => simpa [onSource, Source.directTables] using ih
  | case4 t a => simp [onSource, Source.directTables]
  | case5 q a => simp [onSource, Source.directTables]
  | case6 f ts es a => simp [onSource, Source.directTables]

theorem tables_onSite (x : Site) :
    (P.onSite x).tables = x.tables.map fun y => (P.table y.1, y.2) := by
  obtain ⟨s, w⟩ := x
  cases s with
  | none => rfl
  | some s => exact directTables_onSource P s

theorem binds_onCte (c : Cte) : (P.onCte c).binds = c.binds := by
  cases c with
  | query e q => cases e <;> simp [onCte, onExpr, Cte.binds]
  | scalar e n => simp [onCte, Cte.binds]

theorem binds_onCtes (cs : List Cte) : (P.onCtes cs).flatMap Cte.binds = cs.flatMap Cte.binds := by
  induction cs with
  | nil => simp [onCtes]
  | cons c cs ih => simp [onCtes, binds_onCte, ih]

variable {scope : List String}

theorem uses_inject {w : Option Expr} {f : Expr} {capped : Bool} (hf : f.uses capped scope = []) :
    Expr.usesOption capped scope (inject w f) = Expr.usesOption capped scope w := by
  cases w <;> simp [inject, parenthesize, Expr.usesOption, Expr.uses, Expr.usesList, hf]

theorem uses_foldl_inject {fs : List Expr} {capped : Bool}
    (hf : ∀ f ∈ fs, f.uses capped scope = []) (w : Option Expr) :
    Expr.usesOption capped scope (fs.foldl inject w) = Expr.usesOption capped scope w := by
  induction fs generalizing w with
  | nil => rfl
  | cons f fs ih =>
    rw [List.foldl_cons, ih fun g hg => hf g (List.mem_cons_of_mem _ hg),
      uses_inject (hf f List.mem_cons_self)]

theorem uses_filter (hP : P.Silent) (s : Option Source) (w : Option Expr) (capped : Bool)
    (scope : List String) :
    Expr.usesOption capped scope (P.filter s w) = Expr.usesOption capped scope w := by
  cases s with
  | none => rfl
  | some s => exact uses_foldl_inject (fun f hf => hP s f hf capped scope) w

theorem enforceLimitOnSelect_isSome (n : Int) (l o : Option Expr) :
    ∃ k, enforceLimitOnSelect n l o =
      (some (.numberLiteral k), if l.isNone then none else o) := by
  cases l with
  | none => exact ⟨_, rfl⟩
  | some e =>
    cases e with
    | numberLiteral s => grind [enforceLimitOnSelect]
    | _ => exact ⟨_, rfl⟩

def limitUses (capped : Bool) (scope : List String) (l o : Option Expr) : List Use :=
  (if capped then [] else Expr.usesOption capped scope l) ++
    (if capped && l.isNone then [] else Expr.usesOption capped scope o)

theorem limitUses_enforced (n : Int) (capped : Bool) (scope : List String) (l o : Option Expr) :
    limitUses capped scope (enforceLimitOnSelect n l o).1 (enforceLimitOnSelect n l o).2 =
      if l.isNone then [] else Expr.usesOption capped scope o := by
  obtain ⟨k, hk⟩ := enforceLimitOnSelect_isSome n l o
  cases l <;> simp [limitUses, hk, Expr.usesOption, Expr.uses]

theorem uses_limit {capped : Bool} {l o : Option Expr}
    (hl : Expr.usesOption capped scope (P.onExpr? l) =
      (Expr.usesOption (capped || P.cap.isSome) scope l).map P.onUse)
    (ho : Expr.usesOption capped scope (P.onExpr? o) =
      (Expr.usesOption (capped || P.cap.isSome) scope o).map P.onUse) :
    limitUses capped scope (P.limit (P.onExpr? l) (P.onExpr? o)).1
        (P.limit (P.onExpr? l) (P.onExpr? o)).2 =
      (limitUses (capped || P.cap.isSome) scope l o).map P.onUse := by
  have hn : (P.onExpr? l).isNone = l.isNone := by cases l <;> simp [onExpr?]
  cases hc : P.cap with
  | none =>
    rw [hc] at hl ho
    simp only [limit, hc, limitUses, hl, ho, hn]
    cases capped <;> cases l <;> simp
  | some n =>
    rw [hc] at ho
    simp only [limit, hc, limitUses_enforced, hn, ho]
    cases l <;> simp [limitUses]

mutual

theorem uses_onExpr (hP : P.Silent) (capped : Bool) (scope : List String) (e : Expr) :
    (P.onExpr e).uses capped scope = (e.uses (capped || P.cap.isSome) scope).map P.onUse := by
  cases e with
  | binaryOperation l op r =>
    simp [onExpr, Expr.uses, uses_onExpr hP capped scope l, uses_onExpr hP capped scope r]
  | betweenClause e l u =>
    simp [onExpr, Expr.uses, uses_onExpr hP capped scope e, uses_onExpr hP capped scope l,
      uses_onExpr hP capped scope u]
  | intervalExpr e u => simp [onExpr, Expr.uses, uses_onExpr hP capped scope e]
  | columnExpr e => simp [onExpr, Expr.uses, uses_onExpr hP capped scope e]
  | paramExprList es => simp [onExpr, Expr.uses, uses_onExprs hP capped scope es]
  | arrayParamList es => simp [onExpr, Expr.uses, uses_onExprs hP capped scope es]
  | functionExpr f es => simp [onExpr, Expr.uses, uses_onExprs hP capped scope es]
  | subQuery q => simp [onExpr, Expr.uses, uses_onSelect hP capped scope q]
  | other es => simp [onExpr, Expr.uses, uses_onExprs hP capped scope es]
  | _ => simp [onExpr, Expr.uses]

theorem uses_onExprs (hP : P.Silent) (capped : Bool) (scope : List String) (es : List Expr) :
    Expr.usesList capped scope (P.onExprs es) =
      (Expr.usesList (capped || P.cap.isSome) scope es).map P.onUse := by
  cases es with
  | nil => simp [onExprs, Expr.usesList]
  | cons e es =>
    simp [onExprs, Expr.usesList, uses_onExpr hP capped scope e, uses_onExprs hP capped scope es]

theorem uses_onExpr? (hP : P.Silent) (capped : Bool) (scope : List String) (e : Option Expr) :
    Expr.usesOption capped scope (P.onExpr? e) =
      (Expr.usesOption (capped || P.cap.isSome) scope e).map P.onUse := by
  cases e with
  | none => simp [onExpr?, Expr.usesOption]
  | some e => simp [onExpr?, Expr.usesOption, uses_onExpr hP capped scope e]

theorem uses_onSelect (hP : P.Silent) (capped : Bool) (scope : List String) (q : SelectQuery) :
    (P.onSelect q).uses capped scope = (q.uses (capped || P.cap.isSome) scope).map P.onUse := by
  cases q with
  | mk cs is s w xs l o t ua ud ex =>
    have hlimit := uses_limit P (uses_onExpr? hP capped (scope ++ cs.flatMap Cte.binds) l)
      (uses_onExpr? hP capped (scope ++ cs.flatMap Cte.binds) o)
    have hsource := uses_onSource? hP capped (scope ++ cs.flatMap Cte.binds) ⟨s, w⟩ s
    simp only [limitUses] at hlimit
    simp only [onSite] at hsource
    simp only [onSelect, SelectQuery.uses, binds_onCtes, uses_onCtes hP capped scope cs,
      uses_onExprs hP capped _ is, uses_onExprs hP capped _ xs, uses_filter P hP,
      uses_onExpr? hP capped _ w, uses_onSelect? hP capped _ ua, uses_onSelect? hP capped _ ud,
      uses_onSelect? hP capped _ ex, hsource, hlimit, List.map_append]

theorem uses_onSelect? (hP : P.Silent) (capped : Bool) (scope : List String)
    (q : Option SelectQuery) :
    SelectQuery.usesOption capped scope (P.onSelect? q) =
      (SelectQuery.usesOption (capped || P.cap.isSome) scope q).map P.onUse := by
  cases q with
  | none => simp [onSelect?, SelectQuery.usesOption]
  | some q => simp [onSelect?, SelectQuery.usesOption, uses_onSelect hP capped scope q]

theorem uses_onCte (hP : P.Silent) (capped : Bool) (scope : List String) (c : Cte) :
    (P.onCte c).uses capped scope = (c.uses (capped || P.cap.isSome) scope).map P.onUse := by
  cases c with
  | query e q =>
    simp [onCte, Cte.uses, uses_onExpr hP capped scope e, uses_onSelect hP capped scope q]
  | scalar e n => simp [onCte, Cte.uses, uses_onExpr hP capped scope e]

theorem uses_onCtes (hP : P.Silent) (capped : Bool) (scope : List String) (cs : List Cte) :
    Cte.usesList capped scope (P.onCtes cs) =
      (Cte.usesList (capped || P.cap.isSome) scope cs).map P.onUse := by
  cases cs with
  | nil => simp [onCtes, Cte.usesList]
  | cons c cs =>
    simp [onCtes, Cte.usesList, binds_onCte, uses_onCte hP capped scope c,
      uses_onCtes hP capped _ cs]

theorem uses_onSource (hP : P.Silent) (capped : Bool) (scope : List String) (site : Site)
    (s : Source) :
    (P.onSource s).uses capped scope (P.onSite site) =
      (s.uses (capped || P.cap.isSome) scope site).map P.onUse := by
  cases s with
  | joinExpr l r cs =>
    simp [onSource, Source.uses, uses_onSource hP capped scope site l,
      uses_onSource? hP capped scope site r, uses_onExprs hP capped scope cs]
  | joinTableExpr s es =>
    simp [onSource, Source.uses, uses_onSource hP capped scope site s,
      uses_onExprs hP capped scope es]
  | table t a => simp [onSource, Source.uses, onUse]
  | subQuery q a => simp [onSource, Source.uses, uses_onSelect hP capped scope q]
  | tableFunction f ts es a =>
    simp [onSource, Source.uses, onUse, uses_onExprs hP capped scope es]

theorem uses_onSource? (hP : P.Silent) (capped : Bool) (scope : List String) (site : Site)
    (s : Option Source) :
    Source.usesOption capped scope (P.onSite site) (P.onSource? s) =
      (Source.usesOption (capped || P.cap.isSome) scope site s).map P.onUse := by
  cases s with
  | none => simp [onSource?, Source.usesOption]
  | some s => simp [onSource?, Source.usesOption, uses_onSource hP capped scope site s]

end

end Pass

end Unkey.Analytics
