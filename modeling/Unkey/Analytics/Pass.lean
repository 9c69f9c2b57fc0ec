import Unkey.Base.GoString
import Unkey.Analytics.Ast

/-!
# Rewriting passes

Each pass of the rewriter walks the tree and changes the nodes it visits.
-/

namespace Unkey.Analytics

open Unkey.Base

/-- `parenthesize`: one item in a parameter list is how the grammar writes `( ... )`. -/
def parenthesize (e : Expr) : Expr := .paramExprList [e]

def inject (w : Option Expr) (filter : Expr) : Option Expr :=
  match w with
  | none => some filter
  | some e => some (.binaryOperation filter "AND" (parenthesize e))

def enforceLimitOnSelect (cap : Int) (limit offset : Option Expr) :
    Option Expr × Option Expr :=
  match limit with
  -- a clause without a limit is replaced as a whole, its offset included
  | none => (some (.numberLiteral (itoa cap)), none)
  | some (.numberLiteral s) =>
    match scanInt s with
    | none => (some (.numberLiteral (itoa cap)), offset)
    | some n =>
      if n > cap ∨ n < 0 then (some (.numberLiteral (itoa cap)), offset)
      else (some (.numberLiteral s), offset)
  | some _ => (some (.numberLiteral (itoa cap)), offset)

structure Pass where
  table : TableIdentifier → TableIdentifier := id
  function : Ident → Ident := id
  filters : Source → List Expr := fun _ => []
  cap : Option Int := none

namespace Pass

variable (P : Pass)

def filter (s : Option Source) (w : Option Expr) : Option Expr :=
  match s with
  | none => w
  | some s => (P.filters s).foldl inject w

def limit (l o : Option Expr) : Option Expr × Option Expr :=
  match P.cap with
  | none => (l, o)
  | some n => enforceLimitOnSelect n l o

mutual

def onExpr : Expr → Expr
  | .ident i => .ident i
  | .nestedIdentifier i d => .nestedIdentifier i d
  | .path fs => .path fs
  | .numberLiteral s => .numberLiteral s
  | .stringLiteral s => .stringLiteral s
  | .binaryOperation l op r => .binaryOperation (onExpr l) op (onExpr r)
  | .betweenClause e l u => .betweenClause (onExpr e) (onExpr l) (onExpr u)
  | .intervalExpr e u => .intervalExpr (onExpr e) u
  | .columnExpr e => .columnExpr (onExpr e)
  | .paramExprList es => .paramExprList (onExprs es)
  | .arrayParamList es => .arrayParamList (onExprs es)
  | .functionExpr f es => .functionExpr (P.function f) (onExprs es)
  | .subQuery q => .subQuery (onSelect q)
  | .other es => .other (onExprs es)

def onExprs : List Expr → List Expr
  | [] => []
  | e :: es => onExpr e :: onExprs es

def onExpr? : Option Expr → Option Expr
  | none => none
  | some e => some (onExpr e)

def onSelect : SelectQuery → SelectQuery
  | ⟨cs, is, s, w, xs, l, o, t, ua, ud, ex⟩ =>
    let lo := P.limit (onExpr? l) (onExpr? o)
    ⟨onCtes cs, onExprs is, onSource? s, P.filter s (onExpr? w), onExprs xs, lo.1, lo.2, t,
      onSelect? ua, onSelect? ud, onSelect? ex⟩

def onSelect? : Option SelectQuery → Option SelectQuery
  | none => none
  | some q => some (onSelect q)

def onCte : Cte → Cte
  | .query e q => .query (onExpr e) (onSelect q)
  | .scalar e n => .scalar (onExpr e) n

def onCtes : List Cte → List Cte
  | [] => []
  | c :: cs => onCte c :: onCtes cs

def onSource : Source → Source
  | .joinExpr l r cs => .joinExpr (onSource l) (onSource? r) (onExprs cs)
  | .joinTableExpr s es => .joinTableExpr (onSource s) (onExprs es)
  | .table t a => .table (P.table t) a
  | .subQuery q a => .subQuery (onSelect q) a
  | .tableFunction f ts es a => .tableFunction f (ts.map P.table) (onExprs es) a

def onSource? : Option Source → Option Source
  | none => none
  | some s => some (onSource s)

end

end Pass

end Unkey.Analytics
