import Unkey.Approval.Push
import Unkey.Base.Fallible

/-!
# The approval of a deployment

`AuthorizeDeployment` puts the Deploy request together anew, from the stored deployment.
-/

namespace Unkey.Approval

open Unkey.Base
open Unkey.Deploy (Status)

inductive Code
  | invalidArgument | notFound | internal | failedPrecondition
  deriving DecidableEq

structure ConnectError where
  code : Code
  message : String
  deriving DecidableEq

inductive Operation
  | findDeployment | findEntitlement | findBuildSetting | findRepoConnection
  | compareAndSwap | rowsAffected | send
  deriving DecidableEq

/-- What one call of `AuthorizeDeployment` meets: the tables, the order in which the
database goes through the connections, the status at the time of the swap, the calls that
fail and with what text, and whether a failed send can be reverted. -/
structure Attempt where
  tables : Tables
  scan : List GithubRepoConnection
  scan_perm : scan.Perm tables.connections
  deployments : List Deployment
  entitlement : String → Option Entitlement
  enforceDeployGate : Bool
  current : Status
  fails : Operation → Option String
  reverts : Bool

namespace Attempt

variable (a : Attempt)

def attempt (op : Operation) (context : String) : Except ConnectError Unit :=
  (a.fails op).elim (.ok ()) fun e => .error ⟨.internal, context ++ ": " ++ e⟩

def noRows : String := "sql: no rows in result set"

def findDeploymentById (id : String) : Except ConnectError Deployment := do
  a.attempt .findDeployment "failed to find deployment"
  (a.deployments.find? fun d => d.id == id).elim
    (.error ⟨.notFound, s!"deployment {id} not found"⟩) .ok

def checkWorkspacePlan (e : Entitlement) : Except ConnectError Unit :=
  if entitled e || !a.enforceDeployGate then .ok ()
  else .error ⟨.failedPrecondition, "The workspace has no active Compute plan."⟩

def checkWorkspaceSpend (suspended : Bool) : Except ConnectError Unit :=
  if suspended then .error ⟨.failedPrecondition,
    "The workspace is suspended by its Compute spend cap. Raise the spend limit to resume."⟩
  else .ok ()

def ensureWorkspaceCanDeploy (workspaceId : String) : Except ConnectError Unit := do
  a.attempt .findEntitlement "failed to load workspace entitlement"
  let e ← (a.entitlement workspaceId).elim
    (.error ⟨.notFound, s!"workspace \"{workspaceId}\" not found"⟩) .ok
  a.checkWorkspacePlan e
  checkWorkspaceSpend (e.spendSuspended.getD false)

def findAppBuildSettingByAppEnv (appId environmentId : String) :
    Except ConnectError AppBuildSetting := do
  a.attempt .findBuildSetting "failed to find build settings"
  (a.tables.buildSettings.find? fun s => s.appId == appId && s.environmentId == environmentId).elim
    (.error ⟨.internal, "failed to find build settings: " ++ noRows⟩) .ok

def findGithubRepoConnectionByProjectId (projectId : String) :
    Except ConnectError GithubRepoConnection := do
  a.attempt .findRepoConnection "failed to find repo connection"
  (a.scan.find? fun gc => gc.projectId == projectId).elim
    (.error ⟨.internal, "failed to find repo connection: " ++ noRows⟩) .ok

def compareAndSwapDeploymentStatus (id : String) : Except ConnectError Unit := do
  a.attempt .compareAndSwap "failed to update deployment status"
  a.attempt .rowsAffected "failed to check rows affected"
  if a.current = .awaitingApproval then .ok ()
  else .error ⟨.failedPrecondition,
    s!"deployment {id} is no longer awaiting approval (concurrent update)"⟩

end Attempt

def statusText : Status → String
  | .pending => "pending"
  | .starting => "starting"
  | .building => "building"
  | .deploying => "deploying"
  | .network => "network"
  | .finalizing => "finalizing"
  | .ready => "ready"
  | .failed => "failed"
  | .skipped => "skipped"
  | .awaitingApproval => "awaiting_approval"
  | .stopped => "stopped"
  | .superseded => "superseded"
  | .cancelled => "cancelled"

def checkAwaiting (d : Deployment) : Except ConnectError Unit :=
  if d.status = .awaitingApproval then .ok ()
  else .error ⟨.failedPrecondition, "deployment " ++ d.id ++
    " is not awaiting approval (current status: " ++ statusText d.status ++ ")"⟩

def authorizeRequest (d : Deployment) (s : AppBuildSetting) (gc : GithubRepoConnection) :
    DeployRequest where
  deploymentId := d.id
  command := d.command
  git :=
    { installationId := gc.installationId
      repository := gc.repositoryFullName
      commitSha := d.gitCommitSha.getD ""
      contextPath := s.dockerContext
      dockerfilePath := s.dockerfile.getD ""
      buildCommand := s.buildCommand.getD ""
      branch := d.gitBranch.getD ""
      prNumber := d.prNumber.getD 0
      forkRepository := d.forkRepositoryFullName.getD "" }

def Attempt.prepare (a : Attempt) (id : String) : Except ConnectError DeployRequest := do
  if id = "" then .error ⟨.invalidArgument, "deployment_id is required"⟩
  else
    let d ← a.findDeploymentById id
    checkAwaiting d
    a.ensureWorkspaceCanDeploy d.workspaceId
    let s ← a.findAppBuildSettingByAppEnv d.appId d.environmentId
    let gc ← a.findGithubRepoConnectionByProjectId d.projectId
    a.compareAndSwapDeploymentStatus id
    return authorizeRequest d s gc

/-- `AuthorizeDeployment`: the status of the deployment afterwards, and the request that was
sent or the error. -/
def authorizeDeployment (a : Attempt) (id : String) :
    Status × Except ConnectError DeployRequest :=
  match a.prepare id with
  | .error e => (a.current, .error e)
  | .ok r =>
    match a.fails .send with
    | none => (.pending, .ok r)
    | some e => (if a.reverts then .awaitingApproval else .pending,
        .error ⟨.internal, "failed to trigger deploy workflow: " ++ e⟩)

section Lookups

variable {a : Attempt}

theorem elim_eq_ok {α : Type} {x : Option α} {e : ConnectError} {y : α}
    (h : x.elim (.error e) .ok = (.ok y : Except ConnectError α)) : x = some y := by
  cases x with
  | none => cases h
  | some z =>
    cases h
    rfl

theorem found_of_authorized {id : String} {r : DeployRequest}
    (h : (authorizeDeployment a id).2 = .ok r) :
    ∃ d s gc, (a.deployments.find? fun d => d.id == id) = some d ∧
      (a.tables.buildSettings.find? fun s =>
        s.appId == d.appId && s.environmentId == d.environmentId) = some s ∧
      (a.scan.find? fun gc => gc.projectId == d.projectId) = some gc ∧
      r = authorizeRequest d s gc := by
  have hprep : a.prepare id = .ok r := by
    unfold authorizeDeployment at h
    split at h
    next => cases h
    next r' hr =>
      split at h
      · cases h
        exact hr
      · cases h
  unfold Attempt.prepare at hprep
  split at hprep
  next => cases hprep
  next =>
  obtain ⟨d, hd, hprep⟩ := bind_eq_ok hprep
  obtain ⟨-, -, hprep⟩ := bind_eq_ok hprep
  obtain ⟨-, -, hprep⟩ := bind_eq_ok hprep
  obtain ⟨s, hs, hprep⟩ := bind_eq_ok hprep
  obtain ⟨gc, hgc, hprep⟩ := bind_eq_ok hprep
  obtain ⟨-, -, hprep⟩ := bind_eq_ok hprep
  cases hprep
  obtain ⟨-, -, hd⟩ := bind_eq_ok hd
  obtain ⟨-, -, hs⟩ := bind_eq_ok hs
  obtain ⟨-, -, hgc⟩ := bind_eq_ok hgc
  exact ⟨d, s, gc, elim_eq_ok hd, elim_eq_ok hs, elim_eq_ok hgc, rfl⟩

end Lookups

section Agreement

def GitSource.SameBuild (x y : GitSource) : Prop :=
  x.installationId = y.installationId ∧ x.repository = y.repository ∧
    x.commitSha = y.commitSha ∧ x.contextPath = y.contextPath ∧
    x.dockerfilePath = y.dockerfilePath ∧ x.buildCommand = y.buildCommand ∧
    x.prNumber = y.prNumber ∧ x.forkRepository = y.forkRepository

def OneRepository (t : Tables) (d : Deployment) : Prop :=
  ∀ gc ∈ t.connections, ∀ own ∈ t.connections, gc.projectId = d.projectId → own.appId = d.appId →
    gc.installationId = own.installationId ∧ gc.repositoryFullName = own.repositoryFullName

/-- The attempt finds the deployment as it was stored, and the connections and build
settings as they were. -/
structure Attempt.Unchanged (a : Attempt) (t : Tables) (d : Deployment) : Prop where
  connections : a.tables.connections = t.connections
  buildSettings : a.tables.buildSettings = t.buildSettings
  deployment : (a.deployments.find? fun x => x.id == d.id) = some d

variable {t : Tables} {req : HandlePushRequest} {row : DeployContext} {id : String}
  {status : Status}

theorem find_buildSetting (h : row.Joined t) :
    (t.buildSettings.find? fun s =>
      s.appId == row.app.id && s.environmentId == row.environment.id) = some row.buildSetting := by
  obtain ⟨s, hs⟩ : ∃ s, (t.buildSettings.find? fun s =>
      s.appId == row.app.id && s.environmentId == row.environment.id) = some s := by
    rw [← Option.isSome_iff_exists, List.find?_isSome]
    exact ⟨row.buildSetting, h.buildSetting, by simp [h.buildSetting_app, h.buildSetting_env]⟩
  have hkey := List.find?_some hs
  simp only [Bool.and_eq_true, beq_iff_eq] at hkey
  have heq : s = row.buildSetting :=
    List.inj_on_of_nodup_map t.buildSettings_app_env (List.mem_of_find?_eq_some hs) h.buildSetting
      (by rw [hkey.1, hkey.2, h.buildSetting_app, h.buildSetting_env])
  rw [hs, heq]

theorem sameBuild_iff (gc : GithubRepoConnection) :
    (authorizeRequest (insertDeploymentRecord id row req status) row.buildSetting gc).git.SameBuild
        (pushRequest id row req).git ↔
      gc.installationId = row.connection.installationId ∧
        gc.repositoryFullName = row.connection.repositoryFullName := by
  simp [GitSource.SameBuild, authorizeRequest, pushRequest, insertDeploymentRecord]

def attemptFrom (t : Tables) (d : Deployment) (gc : GithubRepoConnection)
    (h : gc ∈ t.connections) : Attempt where
  tables := t
  scan := gc :: t.connections.erase gc
  scan_perm := (List.perm_cons_erase h).symm
  deployments := [d]
  entitlement := fun _ => some ⟨some "pro", none, none⟩
  enforceDeployGate := true
  current := .awaitingApproval
  fails := fun _ => none
  reverts := true

theorem attemptFrom_unchanged (d : Deployment) {gc : GithubRepoConnection}
    (h : gc ∈ t.connections) : (attemptFrom t d gc h).Unchanged t d :=
  ⟨rfl, rfl, by simp [attemptFrom]⟩

theorem authorize_attemptFrom {d : Deployment} {s : AppBuildSetting} {gc : GithubRepoConnection}
    (h : gc ∈ t.connections) (hid : d.id ≠ "") (hstatus : d.status = .awaitingApproval)
    (hs : (t.buildSettings.find? fun s =>
      s.appId == d.appId && s.environmentId == d.environmentId) = some s)
    (hproject : gc.projectId = d.projectId) :
    authorizeDeployment (attemptFrom t d gc h) d.id = (.pending, .ok (authorizeRequest d s gc)) := by
  have hfind : (attemptFrom t d gc h).findDeploymentById d.id = .ok d := by
    simp [attemptFrom, Attempt.findDeploymentById, Attempt.attempt, ok_bind]
  have hsetting : (attemptFrom t d gc h).findAppBuildSettingByAppEnv d.appId d.environmentId =
      .ok s := by
    simp [attemptFrom, Attempt.findAppBuildSettingByAppEnv, Attempt.attempt, hs,
      ok_bind]
  have hconn : (attemptFrom t d gc h).findGithubRepoConnectionByProjectId d.projectId = .ok gc := by
    simp [attemptFrom, Attempt.findGithubRepoConnectionByProjectId, Attempt.attempt, hproject,
      ok_bind]
  have hprep : (attemptFrom t d gc h).prepare d.id = .ok (authorizeRequest d s gc) := by
    unfold Attempt.prepare
    rw [if_neg hid, hfind]
    show (checkAwaiting d >>= _) = _
    rw [checkAwaiting, if_pos hstatus]
    show ((attemptFrom t d gc h).findAppBuildSettingByAppEnv d.appId d.environmentId >>= _) = _
    rw [hsetting]
    show ((attemptFrom t d gc h).findGithubRepoConnectionByProjectId d.projectId >>= _) = _
    rw [hconn]
    rfl
  unfold authorizeDeployment
  rw [hprep]
  rfl

theorem authorized_sameBuild_iff (hrow : row.Joined t) (hid : id ≠ "") {d : Deployment}
    (hd : d = insertDeploymentRecord id row req .awaitingApproval) :
    (∀ a : Attempt, a.Unchanged t d → ∀ r, (authorizeDeployment a d.id).2 = .ok r →
      r.git.SameBuild (pushRequest id row req).git) ↔ OneRepository t d := by
  have hown : ∀ own ∈ t.connections, own.appId = d.appId → own = row.connection := by
    intro own hmem happ
    refine List.inj_on_of_nodup_map t.connections_app hmem hrow.connection ?_
    rw [happ, hrow.app, hd]
    rfl
  subst hd
  constructor
  · intro hall gc hgc own hmem hproject happ
    rw [hown own hmem happ]
    have hauth := authorize_attemptFrom hgc hid rfl (find_buildSetting hrow) hproject
    have hsame := hall _ (attemptFrom_unchanged _ hgc) _ (congrArg Prod.snd hauth)
    exact (sameBuild_iff gc).mp hsame
  · intro hone a hsame r hr
    obtain ⟨d, s, gc, hd, hs, hgc, rfl⟩ := found_of_authorized hr
    obtain rfl : insertDeploymentRecord id row req .awaitingApproval = d :=
      Option.some.inj (hsame.deployment.symm.trans hd)
    rw [hsame.buildSettings] at hs
    obtain rfl : row.buildSetting = s := Option.some.inj ((find_buildSetting hrow).symm.trans hs)
    refine (sameBuild_iff gc).mpr ?_
    have hmem : gc ∈ t.connections := by
      rw [← hsame.connections]
      exact a.scan_perm.mem_iff.mp (List.mem_of_find?_eq_some hgc)
    have hproject := List.find?_some hgc
    exact hone gc hmem row.connection hrow.connection (beq_iff_eq.mp hproject) hrow.app

/-- A deployment that a push stores for approval has exactly one request that the push
would have sent for it without. Every approval of it, with connections and build settings
unchanged, sends a request for the same build, exactly when all connections of its project
name the repository of its app. -/
theorem approved_builds_pushed_iff {w : Worker} {o : Outcomes} {d : Deployment}
    (hd : d ∈ (handlePush w o req t).stored) (hs : d.status = .awaitingApproval) :
    ∃ pushed, (∀ r, (r ∈ (handlePushWith w o req t false).sent ∧ r.deploymentId = d.id) ↔
        r = pushed) ∧
      ((∀ a : Attempt, a.Unchanged t d → ∀ r, (authorizeDeployment a d.id).2 = .ok r →
        r.git.SameBuild pushed.git) ↔ OneRepository t d) := by
  rcases stored_awaiting hd hs with hd | ⟨i, row, hi, hbuilds, hrec⟩
  · cases hd
  have hrow : row.Joined t :=
    joined_of_mem (List.mem_of_mem_filter (List.mem_of_getElem? hi))
  refine ⟨pushRequest (o.newId (0 + i)) row req, fun r => ?_,
    authorized_sameBuild_iff hrow (o.newId_ne _) hrec⟩
  constructor
  · rintro ⟨hmem, hid⟩
    rcases mem_sent_iff.mp hmem with hmem | ⟨j, row', hj, -, rfl⟩
    · cases hmem
    · -- The id tells at which context the request was sent.
      rw [hrec] at hid
      obtain rfl : j = i := by
        have := o.newId_injective hid
        omega
      obtain rfl : row' = row := Option.some.inj (hj.symm.trans hi)
      rfl
  · rintro rfl
    refine ⟨mem_sent_iff.mpr (.inr ⟨i, row, hi, hbuilds, rfl⟩), ?_⟩
    rw [hrec]
    rfl

end Agreement

section Shop

def twoApps (api web : String) : Tables where
  connections := [⟨"prj_1", "app_api", 7, 70, api⟩, ⟨"prj_1", "app_web", 7, 71, web⟩]
  apps := [⟨"app_api", "main"⟩, ⟨"app_web", "main"⟩]
  projects := [⟨"prj_1", "ws_1"⟩]
  environments := [⟨"env_api", "app_api", .preview⟩, ⟨"env_web", "app_web", .preview⟩]
  buildSettings := [⟨"app_api", "env_api", none, ".", none, [], true⟩,
    ⟨"app_web", "env_web", none, ".", none, [], true⟩]
  runtimeSettings := [⟨"app_api", "env_api", []⟩, ⟨"app_web", "env_web", []⟩]
  connections_app := by simp
  buildSettings_app_env := by decide

def forkPush : HandlePushRequest := ⟨7, 71, "patch", "c0ffee", true, 12, "eve/web", ["main.go"]⟩

def worker : Worker where
  enforceDeployGate := true
  forceDeploymentApproval := false
  allowUnauthenticatedDeployments := false
  entitlement := fun _ => some ⟨some "pro", none, none⟩
  listCommitFiles := none
  doublestarMatch := fun _ _ => none

def smooth : Outcomes where
  newId := fun k => String.ofList (List.replicate (k + 1) 'd')
  marshals := fun _ => true
  inserts := fun _ => true
  findsWorkspace := fun _ => true
  newId_ne := by
    intro k h
    have := congrArg String.toList h
    simp at this
  newId_injective := by
    intro i j h
    have := congrArg (fun s => s.toList.length) h
    simpa using this

def forkDeployment : Deployment where
  id := "d"
  workspaceId := "ws_1"
  projectId := "prj_1"
  appId := "app_web"
  environmentId := "env_web"
  command := []
  status := .awaitingApproval
  gitCommitSha := some "c0ffee"
  gitBranch := some "patch"
  prNumber := some 12
  forkRepositoryFullName := some "eve/web"

/-- Both apps are built from one repository. -/
theorem approved_builds_pushed_iff_monorepo :
    ∃ pushed ∈ (handlePushWith worker smooth forkPush (twoApps "acme/mono" "acme/mono") false).sent,
      ∀ a : Attempt, a.Unchanged (twoApps "acme/mono" "acme/mono") forkDeployment →
        ∀ r, (authorizeDeployment a "d").2 = .ok r → r.git.SameBuild pushed.git := by
  have hd : forkDeployment ∈
      (handlePush worker smooth forkPush (twoApps "acme/mono" "acme/mono")).stored := by
    decide +kernel
  obtain ⟨pushed, hpushed, hiff⟩ := approved_builds_pushed_iff hd rfl
  refine ⟨pushed, ((hpushed pushed).mpr rfl).1, hiff.mpr ?_⟩
  have hone : ∀ gc ∈ (twoApps "acme/mono" "acme/mono").connections,
      gc.installationId = 7 ∧ gc.repositoryFullName = "acme/mono" := by
    decide
  intro gc hgc own hown _ _
  rw [(hone gc hgc).1, (hone gc hgc).2, (hone own hown).1, (hone own hown).2]
  exact ⟨rfl, rfl⟩

/-- The apps have repositories of their own. The pull request is for `acme/web`, and the
approval builds `acme/api`. -/
theorem fork_of_web_builds_api :
    forkDeployment ∈
        (handlePush worker smooth forkPush (twoApps "acme/api" "acme/web")).stored ∧
      ∃ a : Attempt, a.Unchanged (twoApps "acme/api" "acme/web") forkDeployment ∧
        ∃ r pushed, (authorizeDeployment a "d").2 = .ok r ∧
          (handlePushWith worker smooth forkPush (twoApps "acme/api" "acme/web") false).sent =
            [pushed] ∧
          pushed.deploymentId = "d" ∧ pushed.git.repository = "acme/web" ∧
          r.git.repository = "acme/api" ∧ ¬ r.git.SameBuild pushed.git := by
  refine ⟨by decide +kernel, attemptFrom _ forkDeployment ⟨"prj_1", "app_api", 7, 70, "acme/api"⟩
    List.mem_cons_self, attemptFrom_unchanged _ _, _, _,
    congrArg Prod.snd (authorize_attemptFrom _ (by decide) rfl rfl rfl), rfl, by decide +kernel,
    rfl, rfl, fun hsame => absurd hsame.2.1 (by decide)⟩

end Shop

end Unkey.Approval
