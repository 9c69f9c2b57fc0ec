import Mathlib.Data.List.Basic

/-!
# Query trees of the analytics endpoint

The part of the ClickHouse syntax tree that the rewriter reads or changes.
-/

namespace Unkey.Analytics

inductive QuoteType
  | unquoted | doubleQuote | backTicks
  deriving DecidableEq

structure Ident where
  name : String
  quoteType : QuoteType
  deriving DecidableEq

def Ident.plain (name : String) : Ident := ⟨name, .unquoted⟩

structure TableIdentifier where
  database : Option Ident
  table : Ident
  deriving DecidableEq

structure TableFunctionName where
  text : String
  named : text ≠ ""

mutual

inductive Expr
  | ident (i : Ident)
  | nestedIdentifier (i : Ident) (dotIdent : Option Ident)
  | path (fields : List Ident)
  | numberLiteral (literal : String)
  | stringLiteral (literal : String)
  | binaryOperation (left : Expr) (operation : String) (right : Expr)
  | betweenClause (expr lower upper : Expr)
  | intervalExpr (expr : Expr) (unit : Ident)
  | columnExpr (expr : Expr)
  | paramExprList (items : List Expr)
  | arrayParamList (items : List Expr)
  | functionExpr (name : Ident) (params : List Expr)
  | subQuery (select : SelectQuery)
  | other (operands : List Expr)

structure SelectQuery where
  ctes : List Cte
  selectItems : List Expr
  source : Option Source
  whereExpr : Option Expr
  clauses : List Expr
  limit : Option Expr
  offset : Option Expr
  settings : Bool
  unionAll : Option SelectQuery
  unionDistinct : Option SelectQuery
  except : Option SelectQuery

/-- `WITH name AS (SELECT ...)` keeps the name in `expr`; so does `WITH expr AS name`,
where the name is the alias of a scalar. -/
inductive Cte
  | query (expr : Expr) (body : SelectQuery)
  | scalar (expr : Expr) (name : Ident)

/-- What stands after `FROM`. -/
inductive Source
  | joinExpr (left : Source) (right : Option Source) (constraints : List Expr)
  | joinTableExpr (table : Source) (sample : List Expr)
  | table (table : TableIdentifier) (rename : Option Ident)
  | subQuery (select : SelectQuery) (rename : Option Ident)
  | tableFunction (name : TableFunctionName) (tables : List TableIdentifier)
      (args : List Expr) (rename : Option Ident)

end

/-! ## The walk -/

inductive Node
  | select (query : SelectQuery)
  | table (table : TableIdentifier)
  | tableFunction (name : TableFunctionName)
  | expr (expr : Expr)

/-- The nodes `Walk` visits, in its order, and those below an `EXCEPT`, which
`walkQueryIncludingExcept` visits once the rest of the tree is done. -/
structure Walked where
  now : List Node
  later : List Node

namespace Walked

def nothing : Walked := ⟨[], []⟩

def visit (n : Node) : Walked := ⟨[n], []⟩

def visits (ns : List Node) : Walked := ⟨ns, []⟩

instance : Append Walked := ⟨fun a b => ⟨a.now ++ b.now, a.later ++ b.later⟩⟩

def all (w : Walked) : List Node := w.now ++ w.later

def defer (w : Walked) : Walked := ⟨[], w.all⟩

@[simp] theorem mem_all_nothing (n : Node) : n ∈ nothing.all ↔ False := by simp [all, nothing]

@[simp] theorem mem_all_visit (n m : Node) : n ∈ (visit m).all ↔ n = m := by simp [all, visit]

@[simp] theorem mem_all_visits (n : Node) (ns : List Node) : n ∈ (visits ns).all ↔ n ∈ ns := by
  simp [all, visits]

@[simp] theorem mem_all_append (n : Node) (a b : Walked) :
    n ∈ (a ++ b).all ↔ n ∈ a.all ∨ n ∈ b.all := by
  show n ∈ (a.now ++ b.now) ++ (a.later ++ b.later) ↔ n ∈ a.now ++ a.later ∨ n ∈ b.now ++ b.later
  simp only [List.mem_append]
  tauto

@[simp] theorem mem_all_defer (n : Node) (w : Walked) : n ∈ w.defer.all ↔ n ∈ w.all := by
  simp [all, defer]

end Walked

mutual

def Expr.walk : Expr → Walked
  | .ident i => .visit (.expr (.ident i))
  | .nestedIdentifier i d => .visit (.expr (.nestedIdentifier i d))
  | .path fs => .visit (.expr (.path fs))
  | .numberLiteral s => .visit (.expr (.numberLiteral s))
  | .stringLiteral s => .visit (.expr (.stringLiteral s))
  | .binaryOperation l op r => .visit (.expr (.binaryOperation l op r)) ++ l.walk ++ r.walk
  | .betweenClause e l u => .visit (.expr (.betweenClause e l u)) ++ e.walk ++ l.walk ++ u.walk
  | .intervalExpr e u => .visit (.expr (.intervalExpr e u)) ++ e.walk
  | .columnExpr e => .visit (.expr (.columnExpr e)) ++ e.walk
  | .paramExprList es => .visit (.expr (.paramExprList es)) ++ Expr.walkList es
  | .arrayParamList es => .visit (.expr (.arrayParamList es)) ++ Expr.walkList es
  | .functionExpr f es => .visit (.expr (.functionExpr f es)) ++ Expr.walkList es
  | .subQuery q => .visit (.expr (.subQuery q)) ++ q.walk
  | .other es => .visit (.expr (.other es)) ++ Expr.walkList es

def Expr.walkList : List Expr → Walked
  | [] => .nothing
  | e :: es => e.walk ++ Expr.walkList es

def Expr.walkOption : Option Expr → Walked
  | none => .nothing
  | some e => e.walk

def SelectQuery.walk : SelectQuery → Walked
  | ⟨cs, is, s, w, xs, l, o, t, ua, ud, ex⟩ =>
    -- a branch is queued when its query is visited, before those of nested queries
    .visit (.select ⟨cs, is, s, w, xs, l, o, t, ua, ud, ex⟩) ++
      (SelectQuery.walkOption ex).defer ++ Cte.walkList cs ++ Expr.walkList is ++
      Source.walkOption s ++ Expr.walkOption w ++ Expr.walkList xs ++ Expr.walkOption l ++
      Expr.walkOption o ++ SelectQuery.walkOption ua ++ SelectQuery.walkOption ud

def SelectQuery.walkOption : Option SelectQuery → Walked
  | none => .nothing
  | some q => q.walk

def Cte.walk : Cte → Walked
  | .query e q => e.walk ++ q.walk
  | .scalar e n => e.walk ++ .visit (.expr (.ident n))

def Cte.walkList : List Cte → Walked
  | [] => .nothing
  | c :: cs => c.walk ++ Cte.walkList cs

def Source.walk : Source → Walked
  | .joinExpr l r cs => l.walk ++ Source.walkOption r ++ Expr.walkList cs
  | .joinTableExpr s es => s.walk ++ Expr.walkList es
  | .table t _ => .visit (.table t)
  | .subQuery q _ => q.walk
  | .tableFunction f ts es _ =>
    .visit (.tableFunction f) ++ .visits (ts.map .table) ++ Expr.walkList es

def Source.walkOption : Option Source → Walked
  | none => .nothing
  | some s => s.walk

end

def SelectQuery.nodes (q : SelectQuery) : List Node := q.walk.all

end Unkey.Analytics
