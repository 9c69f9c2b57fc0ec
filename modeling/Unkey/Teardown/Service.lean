import Mathlib.Data.List.AList
import Mathlib.Data.List.Sort
import Unkey.Deploy.Workflow

/-!
# Teardown and resume of a workspace

`DeployTeardownService`: one object per workspace, whose only state is the suspension record.
-/

namespace Unkey.Teardown

open Unkey.Base Unkey.Deploy

/-! ### The database -/

structure DeploymentId where
  name : String
  nonempty : name ≠ ""
  deriving DecidableEq

structure Deployment where
  id : DeploymentId
  workspaceID : String
  appID : String
  status : Status
  desiredState : DesiredState
  deriving DecidableEq

structure App where
  currentDeploymentID : Option DeploymentId
  deriving DecidableEq

structure Topology where
  deploymentID : DeploymentId
  regionID : String
  desiredStatus : DesiredState
  deriving DecidableEq

structure Db where
  deployments : List Deployment
  apps : String → Option App
  instances : DeploymentId → Bool
  topology : List Topology
  changes : List (DeploymentId × String)

namespace Db

def findDeploymentById (db : Db) (id : DeploymentId) : Option Deployment :=
  db.deployments.find? fun d => d.id = id

def pointer (db : Db) (appID : String) : Option DeploymentId :=
  (db.apps appID).bind App.currentDeploymentID

end Db

def activeCompute : Status → Bool
  | .pending | .starting | .building | .deploying | .network | .finalizing | .awaitingApproval
  | .ready => true
  | .failed | .skipped | .stopped | .superseded | .cancelled => false

structure RunningRow where
  id : DeploymentId
  appID : String
  currentDeploymentID : Option DeploymentId
  deriving DecidableEq

namespace Db

def isRunning (db : Db) (workspaceID : String) (d : Deployment) : Bool :=
  d.workspaceID = workspaceID && d.desiredState = .running &&
    (activeCompute d.status || db.instances d.id)

def listRunningDeploymentsByWorkspaceId (db : Db) (workspaceID : String) : List RunningRow :=
  db.deployments.filterMap fun d =>
    if db.isRunning workspaceID d then
      (db.apps d.appID).map fun app => ⟨d.id, d.appID, app.currentDeploymentID⟩
    else none

def clearAppCurrentDeployment (db : Db) (appID : String) (id : DeploymentId) : Db :=
  { db with
    apps := Function.update db.apps appID <| (db.apps appID).map fun app =>
      if app.currentDeploymentID = some id then ⟨none⟩ else app }

def setAppCurrentDeployment (db : Db) (appID : String) (id : DeploymentId) : Db :=
  { db with
    apps := Function.update db.apps appID <| (db.apps appID).map fun app =>
      if app.currentDeploymentID = none then ⟨some id⟩ else app }

def updateDeploymentDesiredState (db : Db) (id : DeploymentId) (state : DesiredState) : Db :=
  { db with
    deployments := db.deployments.map fun d =>
      if d.id = id then { d with desiredState := state } else d }

def findDeploymentRegions (db : Db) (id : DeploymentId) : List String :=
  (db.topology.filter fun t => t.deploymentID = id).map Topology.regionID

def updateTopologyDesiredStatus (db : Db) (id : DeploymentId) (region : String)
    (status : DesiredState) : Db :=
  { db with
    topology := db.topology.map fun t =>
      if t.deploymentID = id ∧ t.regionID = region then { t with desiredStatus := status } else t
    changes := db.changes ++ [(id, region)] }

def applyTopologyDesiredStatus (db : Db) (id : DeploymentId) (status : DesiredState) : Db :=
  (db.findDeploymentRegions id).foldl (fun db region =>
    db.updateTopologyDesiredStatus id region status) db

def applyDesiredState (db : Db) (id : DeploymentId) (state : DesiredState) : Db :=
  (db.updateDeploymentDesiredState id state).applyTopologyDesiredStatus id state

end Db

/-! ### The object -/

inductive TeardownMode where
  | unspecified
  | suspend
  | archive
  | unknown (code : Int)
  deriving DecidableEq

abbrev AppCurrent := AList fun _ : String => DeploymentId

abbrev Entry := Sigma fun _ : String => DeploymentId

structure Workspace where
  id : String
  db : Db
  suspension : Option AppCurrent

def Workspace.new (id : String) (db : Db) : Workspace := ⟨id, db, none⟩

def Workspace.recorded (w : Workspace) (appID : String) : Option DeploymentId :=
  w.suspension.bind fun record => record.lookup appID

/-! ### Teardown -/

structure TeardownResponse where
  deploymentsStopped : Nat
  drained : Bool
  deriving DecidableEq

/-- The variables of the loop over the running deployments: the database, the map `appCurrent`,
and the deployments that were sent `ScheduleDesiredStateChange` to stopped. -/
structure Stopping where
  db : Db
  appCurrent : AppCurrent
  sent : List DeploymentId

def Stopping.stop (mode : TeardownMode) (acc : Stopping) (d : RunningRow) : Stopping :=
  if d.currentDeploymentID = some d.id then
    { db := acc.db.clearAppCurrentDeployment d.appID d.id
      appCurrent := if mode = .suspend then acc.appCurrent.insert d.appID d.id else acc.appCurrent
      sent := acc.sent ++ [d.id] }
  else { acc with sent := acc.sent ++ [d.id] }

def recordTeardown (mode : TeardownMode) (appCurrent : AppCurrent)
    (suspension : Option AppCurrent) : Option AppCurrent :=
  match mode with
  | .suspend =>
    -- New entries win over those of an earlier suspension.
    if appCurrent.entries = [] then suspension else some (appCurrent ∪ suspension.getD ∅)
  | .archive => none
  | .unspecified | .unknown _ => suspension

def Workspace.stopAll (mode : TeardownMode) (w : Workspace) : Stopping :=
  (w.db.listRunningDeploymentsByWorkspaceId w.id).foldl (Stopping.stop mode) ⟨w.db, ∅, []⟩

def Workspace.teardown (mode : TeardownMode) (drained : Bool) (w : Workspace) :
    Workspace × TeardownResponse :=
  if w.db.listRunningDeploymentsByWorkspaceId w.id = [] then (w, ⟨0, true⟩)
  else
    let stopped := w.stopAll mode
    ({ w with
        db := stopped.db, suspension := recordTeardown mode stopped.appCurrent w.suspension },
      ⟨stopped.sent.length, drained⟩)

/-! ### Resume -/

structure RestoreCheck where
  eligible : Bool
  reason : String
  deriving DecidableEq

def Db.verifyRestore (db : Db) (workspaceID appID : String) (id : DeploymentId) : RestoreCheck :=
  match db.findDeploymentById id with
  | none => ⟨false, "deployment no longer exists"⟩
  | some d =>
    if d.workspaceID ≠ workspaceID ∨ d.appID ≠ appID then
      ⟨false, "deployment no longer belongs to this workspace/app"⟩
    else
      match db.apps appID with
      | none => ⟨false, "app no longer exists"⟩
      | some app =>
        if app.currentDeploymentID.any fun current => current.name ≠ "" then
          ⟨false, "a newer current deployment was promoted while suspended"⟩
        else ⟨true, ""⟩

/-- The step `restore current`: the guarded update, and whether it claimed the pointer. -/
def Db.restoreCurrent (db : Db) (appID : String) (id : DeploymentId) : Db × Bool :=
  let db := db.setAppCurrentDeployment appID id
  (db, db.pointer appID = some id)

structure Resuming where
  db : Db
  resumed : List (String × DeploymentId)

def Resuming.restore (workspaceID : String) (acc : Resuming) (e : Entry) : Resuming :=
  if (acc.db.verifyRestore workspaceID e.1 e.2).eligible then
    let r := acc.db.restoreCurrent e.1 e.2
    if r.2 then ⟨r.1.applyDesiredState e.2 .running, acc.resumed ++ [(e.1, e.2)]⟩
    else { acc with db := r.1 }
  else acc

def Resuming.restoreAll (workspaceID : String) (db : Db) (record : AppCurrent) : Resuming :=
  (record.entries.insertionSort fun a b => a.1 ≤ b.1).foldl (Resuming.restore workspaceID) ⟨db, []⟩

def Workspace.resume (w : Workspace) : Workspace × List (String × DeploymentId) :=
  match w.suspension with
  | none => (w, [])
  | some record =>
    if record.entries = [] then (w, [])
    else
      let r := Resuming.restoreAll w.id w.db record
      ({ w with db := r.db, suspension := none }, r.resumed)

/-! ### Calls -/

inductive Call where
  | change (db : Db)
  | teardown (mode : TeardownMode) (drained : Bool)
  | resume

def step (w : Workspace) : Call → Option Workspace
  | .change db => some { w with db := db }
  | .teardown mode drained => some (w.teardown mode drained).1
  | .resume => some w.resume.1

def Call.suspends : Call → Bool
  | .teardown .suspend _ => true
  | .change _ | .resume | .teardown .unspecified _ | .teardown .archive _
  | .teardown (.unknown _) _ => false

end Unkey.Teardown
