import Mathlib.Data.List.AList
import Unkey.Analytics.Pass

/-!
# The analytics query parser

`Parse` from the syntax tree on: it validates the tree, resolves public table names, injects the row
filters of the workspace and caps the number of rows.
-/

namespace Unkey.Analytics

open Unkey.Base

structure SecurityFilter where
  column : String
  allowedValues : List String
  deriving DecidableEq

structure Config where
  workspaceID : String
  tableAliases : AList fun _ : String => String
  allowedTables : List String
  securityFilters : List SecurityFilter
  limit : Int

inductive Code
  | invalidAnalyticsQuery | invalidAnalyticsQueryType | invalidAnalyticsTable
  | invalidAnalyticsFunction | queryRangeExceedsRetention
  deriving DecidableEq

structure Fault where
  message : String
  code : Code
  publicMessage : String
  deriving DecidableEq

structure Casing where
  toLower : Char → Char
  toUpper : Char → Char

namespace Casing

def lower (u : Casing) (s : String) : String := String.ofList (s.toList.map u.toLower)

def upper (u : Casing) (s : String) : String := String.ofList (s.toList.map u.toUpper)

def ascii : Casing := ⟨Char.toLower, Char.toUpper⟩

end Casing

def firstFault (q : SelectQuery) (check : Node → Except Fault Unit) : Except Fault Unit :=
  q.nodes.forM check

/-! ## Validation before the rewrite -/

def queryBytesMax : Nat := 16384

def projectedColumnsMax : Nat := 64

def astNodesMax : Nat := 2000

def validateSettings (q : SelectQuery) : Except Fault Unit :=
  firstFault q fun
    | .select s =>
      if s.settings then
        throw ⟨"SETTINGS clauses are not allowed", .invalidAnalyticsQuery,
          "SETTINGS clauses are not allowed"⟩
      else pure ()
    | _ => pure ()

def newQueryLimitError (messageInternal messagePublic : String) : Fault :=
  ⟨messageInternal, .invalidAnalyticsQuery, messagePublic⟩

def countNodes : List Node → Nat → Nat → Except Fault Unit
  | [], _, _ => pure ()
  | n :: ns, astNodes, columns =>
    if astNodes + 1 > astNodesMax then
      throw (newQueryLimitError "query is too complex" "Analytics query is too complex")
    else
      match n with
      | .select s =>
        if columns + s.selectItems.length > projectedColumnsMax then
          throw (newQueryLimitError "too many projected columns"
            "Analytics query projects too many columns")
        else countNodes ns (astNodes + 1) (columns + s.selectItems.length)
      | _ => countNodes ns (astNodes + 1) columns

def validateComplexity (q : SelectQuery) : Except Fault Unit := countNodes q.nodes 0 0

def Cte.name? : Cte → Option String
  | .query (.ident i) _ => some i.name
  | .scalar (.ident i) _ => some i.name
  | _ => none

def buildCTERegistry (u : Casing) (q : SelectQuery) : List String :=
  (q.ctes.filterMap Cte.name?).map u.lower

def isCTE (u : Casing) (cteNames : List String) (tableName : String) : Bool :=
  cteNames.contains (u.lower tableName)

def conflictingAlias (u : Casing) (cfg : Config) (cs : List Cte) : Option String :=
  (cs.filterMap Cte.name?).findSome? fun name =>
    cfg.tableAliases.keys.find? fun publicAlias => u.lower publicAlias = u.lower name

def validateCTEAliases (u : Casing) (cfg : Config) (q : SelectQuery) : Except Fault Unit :=
  match q.nodes.findSome? fun
    | .select s => conflictingAlias u cfg s.ctes
    | _ => none with
  | none => pure ()
  | some publicAlias =>
    -- the walk stops at the first conflict, which goes unreported for the empty name
    if publicAlias = "" then pure ()
    else
      throw ⟨"CTE name conflicts with public table alias '" ++ publicAlias ++ "'",
        .invalidAnalyticsTable,
        "CTE name '" ++ publicAlias ++ "' conflicts with a public table name"⟩

def validateSetOperands (u : Casing) (q : SelectQuery) : Except Fault Unit :=
  firstFault q fun
    | .expr (.binaryOperation _ operation right) =>
      if u.upper operation ∈ ["IN", "NOT IN", "GLOBAL IN", "GLOBAL NOT IN"] then
        match right with
        | .paramExprList _ => pure ()
        | .arrayParamList _ => pure ()
        | .subQuery _ => pure ()
        | _ =>
          throw ⟨"table-backed set expressions are not supported", .invalidAnalyticsQuery,
            "Table-backed IN expressions are not supported; use a literal list or a subquery"⟩
      else pure ()
    | _ => pure ()

/-! ## Tables -/

def TableIdentifier.name (t : TableIdentifier) : String :=
  match t.database with
  | some d => d.name ++ "." ++ t.table.name
  | none => t.table.name

def physicalName (cfg : Config) (t : TableIdentifier) : String :=
  (cfg.tableAliases.lookup t.name).getD t.name

def isSystemTable (u : Casing) (tableName : String) : Bool :=
  hasPrefix (u.lower tableName) "system." || hasPrefix (u.lower tableName) "information_schema."

def isTableAllowed (u : Casing) (cfg : Config) (cteNames : List String) (tableName : String) :
    Bool :=
  if isCTE u cteNames tableName then true
  else if cfg.allowedTables.length = 0 then false
  else if isSystemTable u tableName then false
  else cfg.allowedTables.contains tableName

def validateTable (u : Casing) (cfg : Config) (cteNames : List String) (t : TableIdentifier) :
    Except Fault Unit :=
  if (cfg.tableAliases.lookup t.name).isNone && !isCTE u cteNames t.name then
    throw ⟨"table '" ++ t.name ++ "' not allowed: public alias required", .invalidAnalyticsTable,
      "Access to table '" ++ t.name ++ "' is not allowed"⟩
  else if !isTableAllowed u cfg cteNames (physicalName cfg t) then
    throw ⟨"table '" ++ physicalName cfg t ++ "' not allowed", .invalidAnalyticsTable,
      "Access to table '" ++ physicalName cfg t ++ "' is not allowed"⟩
  else pure ()

def identifierOf (tableName : String) : TableIdentifier :=
  match split '.' tableName with
  | [database, table] => ⟨some (.plain database), .plain table⟩
  | _ => ⟨none, .plain tableName⟩

def rewriteTable (cfg : Config) (t : TableIdentifier) : TableIdentifier :=
  identifierOf (physicalName cfg t)

def tablePass (cfg : Config) : Pass := { table := rewriteTable cfg }

def rewriteTables (u : Casing) (cfg : Config) (cteNames : List String) (q : SelectQuery) :
    Except Fault SelectQuery := do
  if q.source.isNone then
    throw ⟨"query must have FROM clause", .invalidAnalyticsQuery, "Query must have a FROM clause"⟩
  firstFault q fun
    | .table t => validateTable u cfg cteNames t
    | _ => pure ()
  return (tablePass cfg).onSelect q

/-! ## Row filters -/

/-- The tables that stand in a `FROM` themselves, with their aliases; subqueries are
filtered as queries of their own. -/
def Source.directTables : Source → List (TableIdentifier × Option Ident)
  | .joinExpr l none _ => l.directTables
  | .joinExpr l (some r) _ => l.directTables ++ r.directTables
  | .joinTableExpr s _ => s.directTables
  | .table t a => [(t, a)]
  | .subQuery _ _ => []
  | .tableFunction _ _ _ _ => []

def qualifier (t : TableIdentifier) (rename : Option Ident) : Ident := rename.getD t.table

def readsCTE (u : Casing) (cteNames : List String) (t : TableIdentifier) : Bool :=
  t.database.isNone && isCTE u cteNames t.table.name

def directTableSources (u : Casing) (cteNames : List String) (s : Source) : List Ident :=
  (s.directTables.filter fun x => !readsCTE u cteNames x.1).map fun x => qualifier x.1 x.2

def workspaceFilter (cfg : Config) (source : Ident) : Expr :=
  .binaryOperation (.nestedIdentifier source (some (.plain "workspace_id"))) "="
    (.stringLiteral cfg.workspaceID)

/-- No allowed value means no row: an empty `IN` list is not valid SQL. -/
def securityFilter (f : SecurityFilter) (source : Ident) : Expr :=
  if f.allowedValues.length = 0 then .numberLiteral "0"
  else
    .binaryOperation (.nestedIdentifier source (some (.plain f.column))) "IN"
      (.paramExprList (f.allowedValues.map fun v => .columnExpr (.stringLiteral v)))

def filterPass (u : Casing) (cteNames : List String) (predicate : Ident → Expr) : Pass :=
  { filters := fun s => (directTableSources u cteNames s).map predicate }

def injectSecurityFilters (u : Casing) (cfg : Config) (cteNames : List String)
    (q : SelectQuery) : SelectQuery :=
  cfg.securityFilters.foldl (fun q f => (filterPass u cteNames (securityFilter f)).onSelect q) q

def injectWorkspaceFilter (u : Casing) (cfg : Config) (cteNames : List String)
    (q : SelectQuery) : SelectQuery :=
  (filterPass u cteNames (workspaceFilter cfg)).onSelect q

/-! ## Row caps -/

def limitPass (cfg : Config) : Pass :=
  { cap := if cfg.limit = 0 then none else some cfg.limit }

def enforceLimit (cfg : Config) (q : SelectQuery) : SelectQuery := (limitPass cfg).onSelect q

/-! ## Functions -/

def allowedFunctions : List String :=
  ["count", "sum", "avg", "min", "max", "any", "grouparray", "groupuniqarray", "uniq",
    "uniqexact", "quantile", "now", "now64", "today", "todate", "todatetime",
    "todatetime64", "tostartofday", "tostartofweek", "tostartofmonth", "tostartofquarter",
    "tostartofyear", "tostartofhour", "tostartofminute", "date_trunc", "formatdatetime",
    "fromunixtimestamp64milli", "tounixtimestamp64milli", "tointervalday",
    "tointervalweek", "tointervalmonth", "tointervalyear", "tointervalhour",
    "tointervalminute", "tointervalsecond", "tointervalmillisecond",
    "tointervalmicrosecond", "tointervalnanosecond", "tointervalquarter", "lower", "upper",
    "substring", "concat", "length", "trim", "startswith", "endswith", "jsonextractstring",
    "round", "floor", "ceil", "abs", "if", "sumif", "case", "coalesce", "countif",
    "tostring", "toint32", "toint64", "tofloat64", "has", "hasany", "hasall", "arrayjoin",
    "arrayfilter"]

def canonicalFunctionNames : List (String × String) :=
  [("grouparray", "groupArray"), ("groupuniqarray", "groupUniqArray"),
    ("uniqexact", "uniqExact"), ("jsonextractstring", "JSONExtractString"),
    ("now64", "now64"), ("todate", "toDate"), ("todatetime", "toDateTime"),
    ("todatetime64", "toDateTime64"), ("tostartofday", "toStartOfDay"),
    ("tostartofweek", "toStartOfWeek"), ("tostartofmonth", "toStartOfMonth"),
    ("tostartofquarter", "toStartOfQuarter"), ("tostartofyear", "toStartOfYear"),
    ("tostartofhour", "toStartOfHour"), ("tostartofminute", "toStartOfMinute"),
    ("formatdatetime", "formatDateTime"),
    ("fromunixtimestamp64milli", "fromUnixTimestamp64Milli"),
    ("tounixtimestamp64milli", "toUnixTimestamp64Milli"),
    ("tointervalday", "toIntervalDay"), ("tointervalweek", "toIntervalWeek"),
    ("tointervalmonth", "toIntervalMonth"), ("tointervalyear", "toIntervalYear"),
    ("tointervalhour", "toIntervalHour"), ("tointervalminute", "toIntervalMinute"),
    ("tointervalsecond", "toIntervalSecond"),
    ("tointervalmillisecond", "toIntervalMillisecond"),
    ("tointervalmicrosecond", "toIntervalMicrosecond"),
    ("tointervalnanosecond", "toIntervalNanosecond"),
    ("tointervalquarter", "toIntervalQuarter"), ("startswith", "startsWith"),
    ("endswith", "endsWith"), ("sumif", "sumIf"), ("countif", "countIf"),
    ("tostring", "toString"), ("toint32", "toInt32"), ("toint64", "toInt64"),
    ("tofloat64", "toFloat64"), ("hasany", "hasAny"), ("hasall", "hasAll"),
    ("arrayjoin", "arrayJoin"), ("arrayfilter", "arrayFilter")]

def allowedTableFunctions : List String := []

def validateFunction (u : Casing) : Node → Except Fault Unit
  | .expr (.functionExpr name _) =>
    if name.name = "" then pure ()
    else if allowedFunctions.contains (u.lower name.name) then pure ()
    else
      throw ⟨"function '" ++ u.lower name.name ++ "' not allowed", .invalidAnalyticsFunction,
        "Function '" ++ u.lower name.name ++ "' is not allowed"⟩
  | .tableFunction name =>
    if u.lower name.text = "" then pure ()
    else if allowedTableFunctions.contains (u.lower name.text) then pure ()
    else
      throw ⟨"table function '" ++ u.lower name.text ++ "' not allowed",
        .invalidAnalyticsFunction,
        "Table function '" ++ u.lower name.text ++ "' is not allowed for security reasons"⟩
  | _ => pure ()

def canonicalName (u : Casing) (name : Ident) : Ident :=
  if name.name = "" then name
  else { name with name := (canonicalFunctionNames.lookup (u.lower name.name)).getD name.name }

def functionPass (u : Casing) : Pass := { function := canonicalName u }

def validateFunctions (u : Casing) (q : SelectQuery) : Except Fault SelectQuery := do
  firstFault q (validateFunction u)
  return (functionPass u).onSelect q

/-! ## The whole rewrite -/

/-- `Parse` on the one statement of the query. -/
def rewrite (u : Casing) (validateTimeRange : SelectQuery → Except Fault Unit) (cfg : Config)
    (stmt : SelectQuery) : Except Fault SelectQuery := do
  validateSettings stmt
  validateComplexity stmt
  let cteNames := buildCTERegistry u stmt
  validateCTEAliases u cfg stmt
  validateSetOperands u stmt
  let stmt ← rewriteTables u cfg cteNames stmt
  let stmt := injectSecurityFilters u cfg cteNames stmt
  let stmt := injectWorkspaceFilter u cfg cteNames stmt
  let stmt := enforceLimit cfg stmt
  let stmt ← validateFunctions u stmt
  validateTimeRange stmt
  return stmt

inductive Stmt
  | select (query : SelectQuery)
  | other

def parse (parseStmts : String → Except String (List Stmt)) (u : Casing)
    (validateTimeRange : SelectQuery → Except Fault Unit) (cfg : Config) (query : String) :
    Except Fault SelectQuery :=
  if query.utf8ByteSize > queryBytesMax then
    throw (newQueryLimitError "query exceeds maximum length"
      "Analytics query exceeds the maximum length")
  else
    match parseStmts query with
    | .error err => throw ⟨err, .invalidAnalyticsQuery, "Invalid SQL syntax: " ++ err⟩
    | .ok [] =>
      throw ⟨"no statements found", .invalidAnalyticsQuery, "No SQL statements found"⟩
    | .ok [.select stmt] => rewrite u validateTimeRange cfg stmt
    | .ok [.other] =>
      throw ⟨"only SELECT queries allowed", .invalidAnalyticsQueryType,
        "Only SELECT queries are allowed"⟩
    | .ok _ =>
      throw ⟨"multiple statements are not allowed", .invalidAnalyticsQuery,
        "Analytics queries must contain exactly one statement"⟩

end Unkey.Analytics
