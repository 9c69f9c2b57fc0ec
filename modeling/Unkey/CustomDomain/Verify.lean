import Unkey.Base.Run
import Unkey.Deploy.Domains

/-!
# Verification of a custom domain

`VerifyDomain` as a sequence of atomic steps: one database statement, one DNS lookup or one
`restate.Run` each.
-/

namespace Unkey.CustomDomain

open Unkey.Base Unkey.Deploy

inductive VerificationStatus
  | pending | verifying | verified | failed
  deriving DecidableEq

structure DomainRow where
  id : String
  workspaceId : String
  domain : String
  verificationToken : String
  targetCname : String
  verificationStatus : VerificationStatus
  verificationError : Option String
  ownershipVerified : Bool
  cnameVerified : Bool
  checkAttempts : Nat
  deriving DecidableEq

abbrev Rows := List DomainRow

/-- What the world answers during one step: the lookups, with `none` for one that failed,
and the milliseconds since the first attempt began. -/
structure Answers where
  cname : Option String
  txt : Option (List String)
  host : Option (List String)
  elapsed : Nat
  deriving DecidableEq

def maxVerificationDuration : Nat := 24 * 60 * 60 * 1000

def rowVisibilityGrace : Nat := 2 * 60 * 1000

def normalize (name : String) : List Char :=
  let chars := collate name
  if chars.getLast? = some '.' then chars.dropLast else chars

def checkCNAME (domain expectedCname : String) (answer : Option String) : Bool :=
  match answer with
  | none => false
  | some cname =>
    if normalize cname = normalize domain then false
    else normalize cname == normalize expectedCname

def ownershipTXTValue (token : String) : String := "unkey-domain-verify=" ++ token

def checkTXTRecord (expectedToken : String) (answer : Option (List String)) : Bool :=
  match answer with
  | none => false
  | some records => records.any fun txt => sameName txt (ownershipTXTValue expectedToken)

def hasAddressRecords (answer : Option (List String)) : Bool :=
  match answer with
  | none => false
  | some addrs => !addrs.isEmpty

def findCustomDomainById (rows : Rows) (id : String) : Option DomainRow :=
  rows.find? fun row => row.id == id

def findVerifiedExcludingWorkspace (rows : Rows) (domain workspaceId : String) :
    Option DomainRow :=
  rows.find? fun row => sameName row.domain domain && row.workspaceId != workspaceId &&
    row.verificationStatus == .verified

def updateRow (rows : Rows) (id : String) (u : DomainRow → DomainRow) : Rows :=
  rows.map fun row => if row.id = id then u row else row

def setStatus (status : VerificationStatus) (row : DomainRow) : DomainRow :=
  { row with verificationStatus := status }

def setFailed (error : String) (row : DomainRow) : DomainRow :=
  { row with verificationStatus := .failed, verificationError := some error }

def resetRow (row : DomainRow) : DomainRow :=
  { row with verificationStatus := .pending, checkAttempts := 0, verificationError := none }

structure Checks where
  cnameVerified : Bool
  contested : Bool
  txtVerified : Bool
  deriving DecidableEq

def Checks.requiresTxt (c : Checks) : Bool := !c.cnameVerified || c.contested

def Checks.verified (c : Checks) (isApex apexHasRecords : Bool) : Bool :=
  let verified := if c.contested then c.txtVerified else c.cnameVerified || c.txtVerified
  if isApex then verified && apexHasRecords else verified

inductive Stage
  | resetting
  | fetching
  | markingFailed (dom : DomainRow)
  | markingVerifying (dom : DomainRow)
  | lookingUpCname (dom : DomainRow)
  | checkingContention (dom : DomainRow)
  | lookingUpTxt (dom : DomainRow) (cnameVerified contested : Bool)
  | lookingUpHost (dom : DomainRow) (checks : Checks)
  | countingAttempt (dom : DomainRow) (checks : Checks) (apexHasRecords : Bool)
  | recordingOwnership (dom : DomainRow) (checks : Checks) (apexHasRecords : Bool)
  | markingVerified (dom : DomainRow) (checks : Checks)
  | creatingChallenge (dom : DomainRow) (checks : Checks)
  | revoking (dom : DomainRow) (checks : Checks)
  | creatingRoute (dom : DomainRow)
  | done
  deriving DecidableEq

structure Journal where
  reset : Bool
  failed : Bool
  verified : Bool
  revoked : Bool
  deriving DecidableEq

/-- One invocation of `VerifyDomain`, or of `RetryVerification`, which begins by resetting
the row. -/
structure Verification where
  domainId : String
  stage : Stage
  journal : Journal
  deriving DecidableEq

def Verification.moveTo (v : Verification) (stage : Stage) : Verification := { v with stage := stage }

section Step

variable (isApex : String → Bool)

def afterChecks (dom : DomainRow) (checks : Checks) : Stage :=
  if isApex dom.domain then .lookingUpHost dom checks else .countingAttempt dom checks true

def verifyStep (rows : Rows) (v : Verification) (a : Answers) : Rows × Verification :=
  match v.stage with
  | .resetting =>
    (if v.journal.reset then rows else updateRow rows v.domainId resetRow,
      { v with stage := .fetching, journal := { v.journal with reset := true } })
  | .fetching =>
    match findCustomDomainById rows v.domainId with
    | none =>
      -- within the grace period the attempt fails and is retried
      if a.elapsed < rowVisibilityGrace then (rows, v) else (rows, v.moveTo .done)
    | some dom =>
      if a.elapsed > maxVerificationDuration then (rows, v.moveTo (.markingFailed dom))
      else (rows, v.moveTo (.markingVerifying dom))
  | .markingFailed dom =>
    (if v.journal.failed then rows
      else updateRow rows dom.id (setFailed "domain verification timed out after 24 hours"),
      { v with stage := .done, journal := { v.journal with failed := true } })
  | .markingVerifying dom =>
    (updateRow rows dom.id (setStatus .verifying), v.moveTo (.lookingUpCname dom))
  | .lookingUpCname dom =>
    if checkCNAME dom.domain dom.targetCname a.cname then (rows, v.moveTo (.checkingContention dom))
    else (rows, v.moveTo (.lookingUpTxt dom false false))
  | .checkingContention dom =>
    if (findVerifiedExcludingWorkspace rows dom.domain dom.workspaceId).isSome then
      (rows, v.moveTo (.lookingUpTxt dom true true))
    else (rows, v.moveTo (afterChecks isApex dom ⟨true, false, true⟩))
  | .lookingUpTxt dom cnameVerified contested =>
    (rows, v.moveTo (afterChecks isApex dom
      ⟨cnameVerified, contested, checkTXTRecord dom.verificationToken a.txt⟩))
  | .lookingUpHost dom checks =>
    (rows, v.moveTo (.countingAttempt dom checks (hasAddressRecords a.host)))
  | .countingAttempt dom checks apexHasRecords =>
    (updateRow rows dom.id fun row => { row with checkAttempts := dom.checkAttempts + 1 },
      v.moveTo (.recordingOwnership dom checks apexHasRecords))
  | .recordingOwnership dom checks apexHasRecords =>
    (updateRow rows dom.id fun row =>
        { row with ownershipVerified := checks.txtVerified, cnameVerified := checks.cnameVerified },
      if checks.verified (isApex dom.domain) apexHasRecords then v.moveTo (.markingVerified dom checks)
      else v.moveTo .fetching)
  | .markingVerified dom checks =>
    (if v.journal.verified then rows else updateRow rows dom.id (setStatus .verified),
      { v with stage := .creatingChallenge dom checks
               journal := { v.journal with verified := true } })
  | .creatingChallenge dom checks => (rows, v.moveTo (.revoking dom checks))
  | .revoking dom _ =>
    (if v.journal.revoked then rows
      else match findVerifiedExcludingWorkspace rows dom.domain dom.workspaceId with
        | none => rows
        | some oldDom =>
          updateRow rows oldDom.id (setFailed "domain claimed by another workspace"),
      { v with stage := .creatingRoute dom, journal := { v.journal with revoked := true } })
  | .creatingRoute _ => (rows, v.moveTo .done)
  | .done => (rows, v)

/-- What can happen next: an invocation begins, takes a step, has an attempt fail, or is
killed. -/
inductive Label
  | start (domainId : String) (retry : Bool)
  | step (r : Nat) (a : Answers)
  | retry (r : Nat)
  | kill (r : Nat)
  deriving DecidableEq

structure State where
  rows : Rows
  runs : List Verification
  deriving DecidableEq

def invocation (domainId : String) (retry : Bool) : Verification :=
  ⟨domainId, if retry then .resetting else .fetching, ⟨false, false, false, false⟩⟩

def Verification.again (v : Verification) : Verification :=
  match v.stage with
  | .done => v
  | .resetting => v
  | _ => v.moveTo .fetching

/-- A verification starts, takes a step, is retried from its journal, or is killed. -/
def State.step (s : State) : Label → Option State
  | .start domainId retry => some { s with runs := s.runs ++ [invocation domainId retry] }
  | .step r a =>
    s.runs[r]?.map fun v =>
      let next := verifyStep isApex s.rows v a
      ⟨next.1, s.runs.set r next.2⟩
  | .retry r => s.runs[r]?.map fun v => { s with runs := s.runs.set r v.again }
  | .kill r => s.runs[r]?.map fun v => { s with runs := s.runs.set r (v.moveTo .done) }

end Step

end Unkey.CustomDomain
