import Unkey.Base.Fallible
import Unkey.Analytics.Literal
import Unkey.Analytics.Parser

/-!
# Retention of analytics queries

`validateTimeRange` looks for lower bounds on the `time` column that are older than the retention
allows.
-/

namespace Unkey.Analytics

open Unkey.Base

/-- What the code takes from package `time`. -/
structure Clock where
  now : Int
  addDate : (days : Int) → Int
  parse : (layout value : String) → Option Int
  formatDate : Int → String

def Ident.string (i : Ident) : String :=
  match i.quoteType with
  | .unquoted => i.name
  | .doubleQuote => "\"" ++ i.name ++ "\""
  | .backTicks => "`" ++ i.name ++ "`"

def terminalIdentifier : Expr → Option Ident
  | .ident i => some i
  | .nestedIdentifier i d => some (d.getD i)
  | .path fs => fs.getLast?
  | _ => none

def isTimeColumn (e : Expr) : Bool :=
  match terminalIdentifier e with
  | some i => Casing.ascii.lower i.name == "time"
  | none => false

/-! ## Evaluating a bound -/

def second : Int := 1000000000

def minute : Int := 60 * second

def hour : Int := 60 * minute

/-- The factors that `parseIntervalExpression` multiplies the value of each unit with, in
its order. -/
def intervalUnits : List (String × List Int) :=
  [("SECOND", [second]), ("MINUTE", [minute]), ("HOUR", [hour]), ("DAY", [24, hour]),
    ("WEEK", [7, 24, hour]), ("MONTH", [30, 24, hour]), ("YEAR", [365, 24, hour])]

def duration (value : Int) (factors : List Int) : Int :=
  factors.foldl (fun d k => int64 (d * k)) value

def unixMilli (msec : Int) : Int := msec * 1000000

def timeFormats : List String :=
  ["2006-01-02T15:04:05Z07:00", "2006-01-02 15:04:05", "2006-01-02"]

def nowFunctions : List String := ["now", "now64", "today"]

def timeWrappers : List String :=
  ["tostartofhour", "tostartofday", "tostartofweek", "tostartofmonth", "tostartofquarter",
    "tostartofyear", "tostartofminute", "todate", "todatetime", "todatetime64",
    "formatdatetime", "tounixtimestamp64milli"]

section Validation

variable (u : Casing) (clock : Clock)

def parseIntervalExpression : Expr → Option Int
  | .intervalExpr (.numberLiteral literal) unit => do
    let value ← atoi literal
    let factors ← intervalUnits.lookup (u.upper unit.string)
    return duration value factors
  | _ => none

def evaluateIntervalExpression (baseTime : Option Int) (operation : String) (right : Expr) :
    Option Int := do
  let baseTime ← baseTime
  if u.upper operation = "-" then
    let interval ← parseIntervalExpression u right
    return baseTime + int64 (-interval)
  else if u.upper operation = "+" then
    let interval ← parseIntervalExpression u right
    return baseTime + interval
  else none

mutual

def extractTimestampFromExpr : Expr → Option Int
  | .numberLiteral literal => (atoi literal).map unixMilli
  | .stringLiteral literal => timeFormats.findSome? fun layout => clock.parse layout literal
  | .functionExpr name params =>
    if u.lower name.name ∈ nowFunctions then some clock.now
    else if u.lower name.name ∈ timeWrappers then extractFirst params
    else if u.lower name.name = "date_trunc" then extractSecond params
    -- a number is read here as it is anywhere else
    else if u.lower name.name = "fromunixtimestamp64milli" then extractFirst params
    else some clock.now
  | .binaryOperation left operation right =>
    evaluateIntervalExpression u (extractTimestampFromExpr left) operation right
  | .columnExpr e => extractTimestampFromExpr e
  | _ => some clock.now

def extractFirst : List Expr → Option Int
  | e :: _ => extractTimestampFromExpr e
  | [] => none

def extractSecond : List Expr → Option Int
  | _ :: e :: _ => extractTimestampFromExpr e
  | _ => none

end

/-! ## Validating a condition -/

variable (days earliestAllowed : Int)

def retentionExceededError (queriedTime : Int) : Fault :=
  ⟨"query time range exceeds retention period of " ++ itoa days ++ " days",
    .queryRangeExceedsRetention,
    "Cannot query data older than " ++ itoa days ++
      " days. Your query attempts to access data from " ++ clock.formatDate queriedTime ++
      ", but only data from " ++ clock.formatDate earliestAllowed ++ " onwards is available."⟩

structure TimeComparisonInfo where
  isTimeComparison : Bool
  timeOnLeft : Bool
  deriving DecidableEq

def analyzeTimeComparison (left right : Expr) : TimeComparisonInfo :=
  if isTimeColumn left then ⟨true, true⟩
  else if isTimeColumn right then ⟨true, false⟩
  else ⟨false, false⟩

def extractTimestamp (left right : Expr) : Option Int :=
  extractTimestampFromExpr u clock (if isTimeColumn left then right else left)

def flipOperator (op : String) : String :=
  if op = ">=" then "<="
  else if op = ">" then "<"
  else if op = "<=" then ">="
  else if op = "<" then ">"
  else op

def checkBound (timestamp : Int) : Except Fault Unit :=
  if timestamp < earliestAllowed then
    throw (retentionExceededError clock days earliestAllowed timestamp)
  else pure ()

def validateTimeComparison (left : Expr) (op : String) (right : Expr)
    (info : TimeComparisonInfo) : Except Fault Unit :=
  match extractTimestamp u clock left right with
  | none => pure ()
  | some timestamp =>
    let operation := if info.timeOnLeft then u.upper op else flipOperator (u.upper op)
    if operation = ">=" ∨ operation = ">" then checkBound clock days earliestAllowed timestamp
    else if operation = "=" then checkBound clock days earliestAllowed timestamp
    else pure ()

def validateBetweenClause (lower : Expr) : Except Fault Unit :=
  match extractTimestampFromExpr u clock lower with
  | none => pure ()
  | some lowerBound => checkBound clock days earliestAllowed lowerBound

mutual

def validateWhereClause : Expr → Except Fault Unit
  | .binaryOperation left op right => do
    let info := analyzeTimeComparison left right
    if info.isTimeComparison then
      validateTimeComparison u clock days earliestAllowed left op right info
    validateWhereClause left
    validateWhereClause right
  | .betweenClause e lower _ =>
    if isTimeColumn e then validateBetweenClause u clock days earliestAllowed lower else pure ()
  | .paramExprList items => validateItems items
  | .columnExpr e => validateWhereClause e
  | _ => pure ()

def validateItems : List Expr → Except Fault Unit
  | [] => pure ()
  | e :: es => do
    validateWhereClause e
    validateItems es

end

end Validation

def validateTimeRange (u : Casing) (clock : Clock) (queryRangeDaysMax : Int) (q : SelectQuery) :
    Except Fault Unit :=
  if queryRangeDaysMax ≤ 0 then pure ()
  else
    firstFault q fun
      | .select s =>
        match s.whereExpr with
        | none => pure ()
        | some e =>
          validateWhereClause u clock queryRangeDaysMax (clock.addDate (-queryRangeDaysMax)) e
      | _ => pure ()

end Unkey.Analytics
