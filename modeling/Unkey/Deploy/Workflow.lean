import Mathlib.Logic.Function.Basic
import Unkey.Base.Run
import Unkey.Deploy.Routing

/-!
# Deploy, Rollback and Promote on one production app

Each workflow is a sequence of atomic steps: a `restate.Run`, a transaction, or a call of the
routing service.
-/

namespace Unkey.Deploy

/-- The app that the workflows work on: its production environment and the domain
under which it gets its hostnames. -/
structure Setting where
  apex : String
  environment : Environment
  production : environment.kind = .production

inductive Status
  | pending | starting | building | deploying | network | finalizing | ready | failed | skipped
  | awaitingApproval | stopped | superseded | cancelled
  deriving DecidableEq

inductive DesiredState
  | running | stopped
  deriving DecidableEq

structure Row where
  status : Status
  desiredState : DesiredState
  deriving DecidableEq

structure Db where
  currentDeploymentId : Option String
  isRolledBack : Bool
  routes : Table
  rows : String → Option Row

inductive TargetFailureReason
  | ok | notReady | isDraining | notProduction | noCurrentDeployment | isCurrent
  deriving DecidableEq

def targetCore (row : Row) (kind : EnvironmentKind) (currentDeploymentID : String) :
    TargetFailureReason :=
  if row.status ≠ .ready then .notReady
  else if row.desiredState ≠ .running then .isDraining
  else if kind ≠ .production then .notProduction
  else if currentDeploymentID = "" then .noCurrentDeployment
  else .ok

def isCurrent (currentDeploymentID deploymentID : String) : Bool :=
  currentDeploymentID != "" && currentDeploymentID == deploymentID

def checkPromoteTarget (row : Row) (kind : EnvironmentKind)
    (currentDeploymentID deploymentID : String) (isRolledBack : Bool) : TargetFailureReason :=
  match targetCore row kind currentDeploymentID with
  | .ok => if isCurrent currentDeploymentID deploymentID && !isRolledBack then .isCurrent else .ok
  | r => r

def checkRollbackTarget (row : Row) (kind : EnvironmentKind)
    (currentDeploymentID deploymentID : String) : TargetFailureReason :=
  match targetCore row kind currentDeploymentID with
  | .ok => if isCurrent currentDeploymentID deploymentID then .isCurrent else .ok
  | r => r

def swapLiveDeployment (db : Db) (deploymentId : String) (routeIDs : List Nat)
    (setRollbackFlag : Bool) : Db :=
  { db with
    routes := assignFrontlineRoutes db.routes deploymentId routeIDs
    currentDeploymentId := some deploymentId
    isRolledBack := setRollbackFlag }

/-- The local variables of `Deploy`. -/
structure DeployLocals where
  deployment : Deployment
  appIsRolledBack : Bool
  existingRouteIDs : List Nat
  inserted : List Nat
  refreshed : Bool
  stickyTypes : List Sticky
  routeIDs : List Nat

def DeployLocals.note (l : DeployLocals) (found : Option Nat) (newId : Nat) : DeployLocals :=
  match found with
  | some id => { l with existingRouteIDs := l.existingRouteIDs ++ [id] }
  | none => { l with inserted := l.inserted ++ [newId] }

/-- Where `Deploy` stands: before it reads the app, before the transaction of the
first of the hostnames left (or, with none left, before it reads the app again), before
it collects the sticky routes, before `AssignFrontlineRoutes`, before it sets the
deployment's status, and before `swapLiveDeployment`. -/
inductive DeployPc
  | starting
  | network (rest : List NewDomain)
  | findingSticky
  | assigning
  | finalizing
  | swapping

inductive RollbackPc
  | findingSource
  | findingTarget
  | findingApp (target : Row)
  | findingEnvironment (target : Row) (current : String)
  | findingRoutes
  | swapping (routeIDs : List Nat)

inductive PromotePc
  | findingTarget
  | findingApp (target : Row)
  | findingEnvironment (target : Row) (current : String) (isRolledBack : Bool)
  | findingRoutes
  | swapping (confirming : Bool) (routeIDs : List Nat)

inductive Flow
  | deploy (l : DeployLocals) (pc : DeployPc)
  | rollback (source target : String) (pc : RollbackPc)
  | promote (target : String) (pc : PromotePc)
  | done

def deployStep (S : Setting) (db : Db) (l : DeployLocals) : DeployPc → Db × Flow
  | .starting =>
    (db, .deploy { l with appIsRolledBack := db.isRolledBack }
      (.network (domainsOf S.apex l.deployment)))
  | .network (domain :: rest) =>
    let r := upsertRoute db.routes l.deployment domain
    ({ db with routes := r.1 }, .deploy (l.note r.2 db.routes.length) (.network rest))
  | .network [] => (db, .deploy { l with refreshed := db.isRolledBack } .findingSticky)
  | .findingSticky =>
    let types := stickyTypes l.refreshed db.isRolledBack
    let ids := findFrontlineRouteForPromotion db.routes S.environment.id types
    (db, .deploy { l with stickyTypes := types, routeIDs := ids } .assigning)
  | .assigning =>
    let routes := assignFrontlineRoutes db.routes l.deployment.id (l.routeIDs ++ l.existingRouteIDs)
    ({ db with routes := routes }, .deploy l .finalizing)
  | .finalizing =>
    let row := (db.rows l.deployment.id).map fun row => { row with status := .ready }
    ({ db with rows := Function.update db.rows l.deployment.id row }, .deploy l .swapping)
  | .swapping =>
    -- the environment is a production environment, so only the flag is left to test
    if l.appIsRolledBack then (db, .done)
    else (swapLiveDeployment db l.deployment.id [] false, .done)

def liveAndEnvironment : List Sticky := [.live, .environment]

def rollbackStep (S : Setting) (db : Db) (source target : String) : RollbackPc → Db × Flow
  | .findingSource =>
    if source = target then (db, .done)
    else if (db.rows source).isNone then (db, .done)
    else (db, .rollback source target .findingTarget)
  | .findingTarget =>
    match db.rows target with
    | none => (db, .done)
    | some row => (db, .rollback source target (.findingApp row))
  | .findingApp row =>
    if db.currentDeploymentId = some source then
      (db, .rollback source target (.findingEnvironment row source))
    else (db, .done)
  | .findingEnvironment row current =>
    if checkRollbackTarget row S.environment.kind current target = .ok then
      (db, .rollback source target .findingRoutes)
    else (db, .done)
  | .findingRoutes =>
    match findFrontlineRouteForPromotion db.routes S.environment.id liveAndEnvironment with
    | [] => (db, .done)
    | routeIDs => (db, .rollback source target (.swapping routeIDs))
  | .swapping routeIDs => (swapLiveDeployment db target routeIDs true, .done)

def promoteStep (S : Setting) (db : Db) (target : String) : PromotePc → Db × Flow
  | .findingTarget =>
    match db.rows target with
    | none => (db, .done)
    | some row => (db, .promote target (.findingApp row))
  | .findingApp row =>
    (db, .promote target
      (.findingEnvironment row (db.currentDeploymentId.getD "") db.isRolledBack))
  | .findingEnvironment row current isRolledBack =>
    if checkPromoteTarget row S.environment.kind current target isRolledBack ≠ .ok then (db, .done)
    else if isRolledBack && target == current then (db, .promote target (.swapping true []))
    else (db, .promote target .findingRoutes)
  | .findingRoutes =>
    match findFrontlineRouteForPromotion db.routes S.environment.id liveAndEnvironment with
    | [] => (db, .done)
    | routeIDs => (db, .promote target (.swapping false routeIDs))
  | .swapping _ routeIDs => (swapLiveDeployment db target routeIDs false, .done)

def flowStep (S : Setting) (db : Db) : Flow → Db × Flow
  | .deploy l pc => deployStep S db l pc
  | .rollback source target pc => rollbackStep S db source target pc
  | .promote target pc => promoteStep S db target pc
  | .done => (db, .done)

inductive Request
  | deploy (d : Deployment)
  | rollback (source target : String)
  | promote (target : String)

def Request.flow : Request → Flow
  | .deploy d => .deploy ⟨d, false, [], [], false, [], []⟩ .starting
  | .rollback source target => .rollback source target .findingSource
  | .promote target => .promote target .findingTarget

/-- What can happen next: a workflow begins, takes its next step, or ends with an error; or another
part of the system changes a deployment's row. -/
inductive Label
  | start (r : Request)
  | step (w : Nat)
  | fail (w : Nat)
  | external (deploymentId : String) (row : Option Row)

structure World where
  db : Db
  flows : List Flow

def World.fresh : World := ⟨⟨none, false, [], fun _ => none⟩, []⟩

def Request.Valid (S : Setting) : Request → Prop
  | .deploy d => d.environment = S.environment
  | _ => True

instance (S : Setting) (r : Request) : Decidable (r.Valid S) := by
  cases r <;> unfold Request.Valid <;> infer_instance

def World.flow (s : World) (w : Nat) : Flow := s.flows.getD w .done

def World.step (S : Setting) (s : World) : Label → Option World
  | .start r => if r.Valid S then some { s with flows := s.flows ++ [r.flow] } else none
  | .step w =>
    let r := flowStep S s.db (s.flow w)
    some ⟨r.1, s.flows.set w r.2⟩
  | .fail w => some { s with flows := s.flows.set w .done }
  | .external deploymentId row =>
    some { s with db := { s.db with rows := Function.update s.db.rows deploymentId row } }

theorem flow_set (s : World) (db : Db) (w w' : Nat) (f : Flow) :
    (World.mk db (s.flows.set w f)).flow w' =
      if w' = w ∧ w < s.flows.length then f else s.flow w' := by
  simp only [World.flow, List.getD_eq_getElem?_getD, List.getElem?_set]
  by_cases hw : w = w'
  · subst hw
    by_cases hlt : w < s.flows.length
    · simp [hlt]
    · simp [hlt]
  · simp [hw, Ne.symm hw]

theorem flow_append (s : World) (w : Nat) (f : Flow) :
    (World.mk s.db (s.flows ++ [f])).flow w = if w = s.flows.length then f else s.flow w := by
  simp only [World.flow, List.getD_eq_getElem?_getD]
  rcases Nat.lt_trichotomy w s.flows.length with hw | hw | hw
  · simp [List.getElem?_append_left hw, Nat.ne_of_lt hw]
  · simp [hw]
  · rw [List.getElem?_eq_none (by simp; omega), List.getElem?_eq_none (by omega), if_neg (by omega)]

def FrontlineRoute.IsLive (S : Setting) (r : FrontlineRoute) : Prop :=
  r.environmentId = S.environment.id ∧ r.sticky = .live

instance (S : Setting) (r : FrontlineRoute) : Decidable (r.IsLive S) := by
  unfold FrontlineRoute.IsLive
  infer_instance

theorem flowStep_routes (S : Setting) (db : Db) (f : Flow) :
    (flowStep S db f).1.routes = db.routes ∨
    (∃ d domain, (flowStep S db f).1.routes = (upsertRoute db.routes d domain).1) ∨
    ∃ id ids, (flowStep S db f).1.routes = assignFrontlineRoutes db.routes id ids := by
  cases f with
  | done => exact .inl rfl
  | deploy l pc =>
    cases pc with
    | starting => exact .inl rfl
    | network rest =>
      cases rest with
      | nil => exact .inl rfl
      | cons domain rest =>
        exact .inr (.inl ⟨l.deployment, domain, rfl⟩)
    | findingSticky => exact .inl rfl
    | assigning => exact .inr (.inr ⟨_, _, rfl⟩)
    | finalizing => exact .inl rfl
    | swapping =>
      simp only [flowStep, deployStep]
      split
      · exact .inl rfl
      · exact .inr (.inr ⟨_, _, rfl⟩)
  | rollback source target pc =>
    cases pc with
    | swapping routeIDs => exact .inr (.inr ⟨_, _, rfl⟩)
    | _ =>
      left
      simp only [flowStep, rollbackStep]
      repeat' split
      all_goals rfl
  | promote target pc =>
    cases pc with
    | swapping confirming routeIDs => exact .inr (.inr ⟨_, _, rfl⟩)
    | _ =>
      left
      simp only [flowStep, promoteStep]
      repeat' split
      all_goals rfl

theorem flowStep_extends (S : Setting) (db : Db) (f : Flow) :
    Extends db.routes (flowStep S db f).1.routes := by
  rcases flowStep_routes S db f with h | ⟨d, domain, h⟩ | ⟨id, ids, h⟩
  · rw [h]
    exact Extends.refl _
  · rw [h]
    exact extends_upsert _ d domain
  · rw [h]
    exact extends_assign _ id ids

theorem flowStep_numbered {S : Setting} {db : Db} {f : Flow} (hn : Numbered db.routes) :
    Numbered (flowStep S db f).1.routes := by
  rcases flowStep_routes S db f with h | ⟨d, domain, h⟩ | ⟨id, ids, h⟩
  · rwa [h]
  · rw [h]
    exact numbered_upsert hn d domain
  · rw [h]
    exact numbered_assign hn id ids

end Unkey.Deploy
