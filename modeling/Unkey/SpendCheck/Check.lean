import Mathlib.Logic.Function.Basic
import Unkey.Base.GoInt
import Unkey.Base.GoString
import Unkey.Base.Run

/-!
# The spend check of a workspace

`CheckWorkspaceSpend` of `cron/deployspendcheck`: it compares a workspace's spend of the current
billing period with its budget, mails the admins when the spend has reached another threshold of the
budget, and suspends or resumes compute.
-/

namespace Unkey.SpendCheck

open Unkey.Base

/-! ### Billing periods -/

structure Period where
  year : Int
  month : Int
  deriving DecidableEq

inductive PeriodError where
  | format (key : String)
  | year
  | month
  | range (month : Int)
  deriving DecidableEq

def Period.parse (key : String) : Except PeriodError Period :=
  match split '-' key with
  | [year, month] =>
    if year.utf8ByteSize ≠ 4 ∨ month.utf8ByteSize ≠ 2 then .error (.format key)
    else
      match atoi year with
      | none => .error .year
      | some y =>
        match atoi month with
        | none => .error .month
        | some m => if m < 1 ∨ 12 < m then .error (.range m) else .ok ⟨y, m⟩
  | _ => .error (.format key)

def padInt (width : Nat) (n : Int) : String :=
  let digits := itoa n.natAbs
  let sign := if n < 0 then "-" else ""
  sign ++ String.ofList (List.replicate (width - (sign ++ digits).length) '0') ++ digits

def Period.key (p : Period) : String := padInt 4 p.year ++ "-" ++ padInt 2 p.month

def Period.prev (p : Period) : Period :=
  if p.month = 1 then ⟨p.year - 1, 12⟩ else ⟨p.year, p.month - 1⟩

/-! ### Thresholds -/

def thresholds : List Int := [50, 75, 100]

def reaches (spend budget threshold : Int) : Bool :=
  let s := mul64 spend.toNat 100
  let b := mul64 budget.toNat threshold.toNat
  decide (b.1 < s.1 ∨ s.1 = b.1 ∧ b.2 ≤ s.2)

def crossedThreshold (spendMicroCents budgetMicroCents : Int) : Int :=
  if budgetMicroCents ≤ 0 ∨ spendMicroCents < 0 then 0
  else thresholds.foldl (fun highest t =>
    if reaches spendMicroCents budgetMicroCents t then t else highest) 0

/-! ### Mails -/

def microCentsPerCent : Int := 1000000

def formatDollars (microCents : Int) : String :=
  if microCents.tmod (100 * microCentsPerCent) = 0 then
    "$" ++ itoa (microCents.tdiv (100 * microCentsPerCent))
  else
    let cents := microCents.tdiv microCentsPerCent
    "$" ++ itoa (cents.tdiv 100) ++ "." ++ padInt 2 (cents.tmod 100)

def budgetAlertTemplate : String := "compute-budget-alert"

def budgetStoppedTemplate : String := "compute-budget-stopped"

structure BudgetAlert where
  workspaceID : String
  period : String
  orgID : String
  workspaceName : String
  workspaceSlug : String
  threshold : Int
  spendMicroCents : Int
  budgetCents : Int
  year : Int
  suspension : Int
  deriving DecidableEq

structure Email where
  recipients : List String
  templateID : String
  templateVars : List (String × String)
  idempotencyKey : String
  deriving DecidableEq

def budgetAlertIdempotencyKey (workspaceID period : String) (budgetCents threshold : Int) :
    String :=
  "budget-alert/" ++ workspaceID ++ "/" ++ period ++ "/" ++ itoa budgetCents ++ "/" ++
    itoa threshold

def stoppedAlertIdempotencyKey (workspaceID period : String) (suspension : Int) : String :=
  "budget-stopped/" ++ workspaceID ++ "/" ++ period ++ "/" ++ itoa suspension

def BudgetAlert.templateVars (billingBaseURL : String) (a : BudgetAlert) : List (String × String) :=
  [("USAGE", formatDollars a.spendMicroCents),
    ("BUDGET", formatDollars (int64 (a.budgetCents * microCentsPerCent))),
    ("WORKSPACE_NAME", a.workspaceName),
    ("BILLING_URL", billingBaseURL ++ "/" ++ a.workspaceSlug ++ "/settings/billing"),
    ("YEAR", itoa a.year)]

/-! ### The object -/

structure Config where
  workspaceID : String
  billingBaseURL : String
  deriving DecidableEq

structure Request where
  period : String
  budgetCents : Int
  spendMicroCents : Int
  stop : Bool
  currentlySuspended : Bool
  orgID : String
  workspaceName : String
  workspaceSlug : String
  deriving DecidableEq

/-- What a call finds around it: the time, whether the workspace has a Deploy plan, and the
admins of its organisation. -/
structure Surroundings where
  now : Period
  year : Int
  entitled : Bool
  admins : List String
  deriving DecidableEq

inductive Message where
  | suspend
  | resume
  deriving DecidableEq

structure Sent where
  alert : BudgetAlert
  email : Email
  deriving DecidableEq

/-- The state keys of the object by period, the column `deploy_spend_suspended`, and what was
sent. -/
structure World where
  alertHighWater : String → Option Int
  suspendGeneration : String → Option Int
  underBudgetStreak : String → Option Int
  deploySpendSuspended : Bool
  messages : List Message
  sent : List Sent

def World.new (deploySpendSuspended : Bool) : World :=
  ⟨fun _ => none, fun _ => none, fun _ => none, deploySpendSuspended, [], []⟩

structure Response where
  spendCents : Int
  thresholdCrossed : Int
  alerted : Bool
  suspended : Bool
  deriving DecidableEq

def Response.zero : Response := ⟨0, 0, false, false⟩

namespace World

def mark (w : World) (period : String) : Int := (w.alertHighWater period).getD 0

def setMark (w : World) (period : String) (spend : Int) : World :=
  { w with alertHighWater := Function.update w.alertHighWater period (some spend) }

def clearStreak (w : World) (period : String) : World :=
  { w with underBudgetStreak := Function.update w.underBudgetStreak period none }

def clearPeriod (w : World) (period : String) : World :=
  { w with
    alertHighWater := Function.update w.alertHighWater period none
    suspendGeneration := Function.update w.suspendGeneration period none
    underBudgetStreak := Function.update w.underBudgetStreak period none }

def sendToAdmins (w : World) (admins : List String) (a : BudgetAlert)
    (templateID idempotencyKey : String) (templateVars : List (String × String)) : World :=
  if admins = [] then w
  else { w with sent := w.sent ++ [⟨a, ⟨admins, templateID, templateVars, idempotencyKey⟩⟩] }

def alert (w : World) (cfg : Config) (admins : List String) (a : BudgetAlert) : World :=
  w.sendToAdmins admins a budgetAlertTemplate
    (budgetAlertIdempotencyKey a.workspaceID a.period a.budgetCents a.threshold)
    (("PERCENT", itoa a.threshold) :: a.templateVars cfg.billingBaseURL)

def stoppedAlert (w : World) (cfg : Config) (admins : List String) (a : BudgetAlert) : World :=
  w.sendToAdmins admins a budgetStoppedTemplate
    (stoppedAlertIdempotencyKey a.workspaceID a.period a.suspension)
    (a.templateVars cfg.billingBaseURL)

end World

/-! ### One call -/

/-- The budget scaled in 64 bits, as the handler does. -/
def Request.budgetMicroCents (req : Request) : Int := int64 (req.budgetCents * microCentsPerCent)

def Request.willSuspend (req : Request) : Bool :=
  req.stop && !req.currentlySuspended && decide (req.budgetMicroCents ≤ req.spendMicroCents)

def Request.alertFor (req : Request) (cfg : Config) (env : Surroundings)
    (threshold suspension : Int) : BudgetAlert :=
  ⟨cfg.workspaceID, req.period, req.orgID, req.workspaceName, req.workspaceSlug, threshold,
    req.spendMicroCents, req.budgetCents, env.year, suspension⟩

def Request.crossed (req : Request) : Int :=
  crossedThreshold req.spendMicroCents req.budgetMicroCents

def resumeConfirmations : Int := 2

namespace World

variable (cfg : Config) (req : Request) (env : Surroundings)

def alerted (w : World) : Int := crossedThreshold (w.mark req.period) req.budgetMicroCents

def warns (w : World) : Bool :=
  decide (w.alerted req < req.crossed) && !req.willSuspend && !req.currentlySuspended

def warnThreshold (w : World) : World :=
  if w.warns req then
    (w.alert cfg env.admins (req.alertFor cfg env req.crossed 0)).setMark req.period
      req.spendMicroCents
  else w

def resumeCompute (w : World) : World :=
  { w with deploySpendSuspended := false, messages := w.messages ++ [Message.resume] }.clearStreak
    req.period

def suspendCompute (w : World) : World :=
  let generation := int32 ((w.suspendGeneration req.period).getD 0 + 1)
  let w := { w with
    deploySpendSuspended := true
    messages := w.messages ++ [.suspend]
    suspendGeneration := Function.update w.suspendGeneration req.period (some generation)
    : World }.clearStreak req.period
  (w.stoppedAlert cfg env.admins (req.alertFor cfg env 100 generation)).setMark req.period
    req.spendMicroCents

def underBudget (w : World) : World × Bool :=
  let streak := int32 ((w.underBudgetStreak req.period).getD 0 + 1)
  if streak < resumeConfirmations then
    ({ w with underBudgetStreak := Function.update w.underBudgetStreak req.period (some streak) },
      true)
  else (w.resumeCompute req, false)

/-- The enforcement, after the warning; `alerted` and `sentAlert` are for the response. -/
def enforce (w : World) (alerted : Int) (sentAlert : Bool) : World × Response :=
  let spendCents := req.spendMicroCents.tdiv microCentsPerCent
  if req.willSuspend then
    if env.entitled then
      (w.suspendCompute cfg req env, ⟨spendCents, req.crossed, sentAlert, true⟩)
    else (w, .zero)
  else if req.currentlySuspended then
    if !req.stop then (w.resumeCompute req, ⟨spendCents, alerted, sentAlert, false⟩)
    else if req.budgetMicroCents ≤ req.spendMicroCents then
      ({ w with messages := w.messages ++ [Message.suspend] }.clearStreak req.period,
        ⟨spendCents, alerted, sentAlert, true⟩)
    else
      let r := w.underBudget req
      (r.1, ⟨spendCents, alerted, sentAlert, r.2⟩)
  else (w, ⟨spendCents, alerted, sentAlert, false⟩)

def checkCurrent (w : World) : World × Response :=
  if req.budgetCents ≤ 0 then
    -- The budget was removed: nothing caps the spend any more.
    (if req.currentlySuspended then w.resumeCompute req else w, .zero)
  else
    (w.warnThreshold cfg req env).enforce cfg req env
      (if w.warns req then req.crossed else w.alerted req) (w.warns req)

def checkWorkspaceSpend (w : World) : World × Except PeriodError Response :=
  match Period.parse req.period with
  | .error e => (w, .error e)
  | .ok p =>
    if p ≠ env.now then (w, .ok .zero)
    else
      let r := (w.clearPeriod p.prev.key).checkCurrent cfg req env
      (r.1, .ok r.2)

end World

structure Tick where
  req : Request
  env : Surroundings
  deriving DecidableEq

def step (cfg : Config) (w : World) (t : Tick) : Option World :=
  some (w.checkWorkspaceSpend cfg t.req t.env).1

end Unkey.SpendCheck
