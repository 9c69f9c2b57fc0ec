import Unkey.Deploy.Workflow

/-!
# A push and the deployments it stores

`HandlePush` looks up every app that is connected to the pushed repository, and stores a deployment
for each.
-/

namespace Unkey.Approval

open Unkey.Deploy (Status EnvironmentKind)

structure GithubRepoConnection where
  projectId : String
  appId : String
  installationId : Int
  repositoryId : Int
  repositoryFullName : String
  deriving DecidableEq

structure App where
  id : String
  defaultBranch : String
  deriving DecidableEq

structure Project where
  id : String
  workspaceId : String
  deriving DecidableEq

structure Environment where
  id : String
  appId : String
  kind : EnvironmentKind
  deriving DecidableEq

structure AppBuildSetting where
  appId : String
  environmentId : String
  dockerfile : Option String
  dockerContext : String
  buildCommand : Option String
  watchPaths : List String
  autoDeploy : Bool
  deriving DecidableEq

structure AppRuntimeSetting where
  appId : String
  environmentId : String
  command : List String
  deriving DecidableEq

/-- The tables that are read, with the unique keys of the schema. -/
structure Tables where
  connections : List GithubRepoConnection
  apps : List App
  projects : List Project
  environments : List Environment
  buildSettings : List AppBuildSetting
  runtimeSettings : List AppRuntimeSetting
  connections_app : (connections.map (·.appId)).Nodup
  buildSettings_app_env : (buildSettings.map fun s => (s.appId, s.environmentId)).Nodup

structure HandlePushRequest where
  installationId : Int
  repositoryId : Int
  branch : String
  after : String
  isForkPr : Bool
  prNumber : Int
  forkRepositoryFullName : String
  changedFiles : List String
  deriving DecidableEq

structure DeployContext where
  connection : GithubRepoConnection
  project : Project
  environment : Environment
  app : App
  buildSetting : AppBuildSetting
  runtimeSetting : AppRuntimeSetting
  deriving DecidableEq

def targetKind (req : HandlePushRequest) (app : App) : EnvironmentKind :=
  if req.isForkPr then .preview
  else if req.branch = (if app.defaultBranch = "" then "main" else app.defaultBranch) then
    .production
  else .preview

def listRepoConnectionDeployContexts (t : Tables) (req : HandlePushRequest) :
    List DeployContext := do
  let gc ← t.connections.filter fun gc =>
    gc.installationId == req.installationId && gc.repositoryId == req.repositoryId
  let a ← t.apps.filter fun a => a.id == gc.appId
  let p ← t.projects.filter fun p => p.id == gc.projectId
  let e ← t.environments.filter fun e => e.appId == a.id && e.kind == targetKind req a
  let abs ← t.buildSettings.filter fun s => s.appId == a.id && s.environmentId == e.id
  let ars ← t.runtimeSettings.filter fun s => s.appId == a.id && s.environmentId == e.id
  return ⟨gc, p, e, a, abs, ars⟩

structure Entitlement where
  plan : Option String
  planOverride : Option String
  spendSuspended : Option Bool
  deriving DecidableEq

def isSet (value : Option String) : Bool := value.any (· != "")

def entitled (e : Entitlement) : Bool := isSet e.plan || isSet e.planOverride

/-- What the worker is configured with and what it is told: by the workspaces, by GitHub
when it is asked for the files of a commit, and by the glob library. -/
structure Worker where
  enforceDeployGate : Bool
  forceDeploymentApproval : Bool
  allowUnauthenticatedDeployments : Bool
  entitlement : String → Option Entitlement
  listCommitFiles : Option (List String)
  doublestarMatch : String → String → Option Bool

def Worker.eligible (w : Worker) (row : DeployContext) : Bool :=
  let e := (w.entitlement row.project.workspaceId).getD ⟨none, none, none⟩
  (entitled e || !w.enforceDeployGate) && !e.spendSuspended.getD false

def Worker.changedFiles (w : Worker) (req : HandlePushRequest) : List String :=
  if req.changedFiles.isEmpty && req.after != "" && !w.allowUnauthenticatedDeployments then
    w.listCommitFiles.getD req.changedFiles
  else req.changedFiles

def Worker.matchWatchPaths (w : Worker) (patterns changedFiles : List String) : Bool :=
  patterns.isEmpty || changedFiles.any fun file =>
    patterns.any fun pattern => (w.doublestarMatch pattern file).getD false

def Worker.requiresApproval (w : Worker) (req : HandlePushRequest) : Bool :=
  w.forceDeploymentApproval || req.isForkPr

structure Deployment where
  id : String
  workspaceId : String
  projectId : String
  appId : String
  environmentId : String
  command : List String
  status : Status
  gitCommitSha : Option String
  gitBranch : Option String
  prNumber : Option Int
  forkRepositoryFullName : Option String
  deriving DecidableEq

def nullString (s : String) : Option String := if s = "" then none else some s

def nullInt64 (n : Int) : Option Int := if n = 0 then none else some n

@[simp] theorem nullString_getD (s : String) : (nullString s).getD "" = s := by
  unfold nullString
  split
  next h => exact h.symm
  next => rfl

@[simp] theorem nullInt64_getD (n : Int) : (nullInt64 n).getD 0 = n := by
  unfold nullInt64
  split
  next h => exact h.symm
  next => rfl

def insertDeploymentRecord (id : String) (row : DeployContext) (req : HandlePushRequest)
    (status : Status) : Deployment where
  id := id
  workspaceId := row.project.workspaceId
  projectId := row.project.id
  appId := row.app.id
  environmentId := row.environment.id
  command := row.runtimeSetting.command
  status := status
  gitCommitSha := nullString req.after
  gitBranch := nullString req.branch
  prNumber := nullInt64 req.prNumber
  forkRepositoryFullName := nullString req.forkRepositoryFullName

structure GitSource where
  installationId : Int
  repository : String
  commitSha : String
  contextPath : String
  dockerfilePath : String
  buildCommand : String
  branch : String
  prNumber : Int
  forkRepository : String
  deriving DecidableEq

structure DeployRequest where
  deploymentId : String
  command : List String
  git : GitSource
  deriving DecidableEq

/-- The request that `HandlePush` sends. -/
def pushRequest (id : String) (row : DeployContext) (req : HandlePushRequest) : DeployRequest where
  deploymentId := id
  command := []
  git :=
    { installationId := row.connection.installationId
      repository := row.connection.repositoryFullName
      commitSha := req.after
      contextPath := row.buildSetting.dockerContext
      dockerfilePath := row.buildSetting.dockerfile.getD ""
      buildCommand := row.buildSetting.buildCommand.getD ""
      branch := ""
      prNumber := req.prNumber
      forkRepository := req.forkRepositoryFullName }

/-- What happens at the `k`-th context: the id that `uid.New` gives, whether the secrets can
be marshalled, whether the deployment can be inserted, and whether the workspace of the
approval link is found. -/
structure Outcomes where
  newId : Nat → String
  marshals : Nat → Bool
  inserts : Nat → Bool
  findsWorkspace : Nat → Bool
  newId_ne : ∀ k, newId k ≠ ""
  newId_injective : Function.Injective newId

structure Pushed where
  stored : List Deployment
  sent : List DeployRequest
  deriving DecidableEq

def Pushed.store (s : Pushed) (d : Deployment) : Pushed := { s with stored := s.stored ++ [d] }

def Pushed.send (s : Pushed) (r : DeployRequest) : Pushed := { s with sent := s.sent ++ [r] }

section Push

variable (w : Worker) (o : Outcomes) (req : HandlePushRequest)

def Worker.builds (row : DeployContext) : Bool :=
  row.buildSetting.autoDeploy &&
    w.matchWatchPaths row.buildSetting.watchPaths (w.changedFiles req)

def pushContexts (needsApproval : Bool) : Nat → List DeployContext → Pushed → Pushed
  | _, [], s => s
  | k, row :: rest, s =>
    if !w.builds req row then
      pushContexts needsApproval (k + 1) rest
        (if o.inserts k then s.store (insertDeploymentRecord (o.newId k) row req .skipped) else s)
    else if !(o.marshals k && o.inserts k) then pushContexts needsApproval (k + 1) rest s
    else if needsApproval then
      if o.findsWorkspace k then
        pushContexts needsApproval (k + 1) rest
          (s.store (insertDeploymentRecord (o.newId k) row req .awaitingApproval))
      else s.store (insertDeploymentRecord (o.newId k) row req .awaitingApproval)
    else
      pushContexts needsApproval (k + 1) rest
        ((s.store (insertDeploymentRecord (o.newId k) row req .pending)).send
          (pushRequest (o.newId k) row req))

def handlePushWith (t : Tables) (needsApproval : Bool) : Pushed :=
  pushContexts w o req needsApproval 0
    ((listRepoConnectionDeployContexts t req).filter w.eligible) ⟨[], []⟩

def handlePush (t : Tables) : Pushed := handlePushWith w o req t (w.requiresApproval req)

end Push

section Contexts

variable {t : Tables} {req : HandlePushRequest} {row : DeployContext}

structure DeployContext.Joined (t : Tables) (row : DeployContext) : Prop where
  connection : row.connection ∈ t.connections
  app : row.connection.appId = row.app.id
  project : row.connection.projectId = row.project.id
  buildSetting : row.buildSetting ∈ t.buildSettings
  buildSetting_app : row.buildSetting.appId = row.app.id
  buildSetting_env : row.buildSetting.environmentId = row.environment.id

theorem joined_of_mem (h : row ∈ listRepoConnectionDeployContexts t req) : row.Joined t := by
  simp only [listRepoConnectionDeployContexts, List.bind_eq_flatMap, List.mem_flatMap,
    List.mem_filter, List.pure_def, List.mem_singleton, Bool.and_eq_true, beq_iff_eq] at h
  obtain ⟨gc, ⟨hgc, -⟩, a, ⟨-, ha⟩, p, ⟨-, hp⟩, e, -, abs, ⟨habs, happ, henv⟩, ars, -, rfl⟩ := h
  exact ⟨hgc, ha.symm, hp.symm, habs, happ, henv⟩

end Contexts

section Loop

variable {w : Worker} {o : Outcomes} {req : HandlePushRequest}

def Outcomes.Builds (w : Worker) (o : Outcomes) (req : HandlePushRequest) (k : Nat)
    (row : DeployContext) : Prop :=
  w.builds req row = true ∧ (o.marshals k && o.inserts k) = true

theorem exists_context_cons {P : Nat → DeployContext → Prop} {k : Nat} {row : DeployContext}
    {rest : List DeployContext} :
    (∃ i row', (row :: rest)[i]? = some row' ∧ P (k + i) row') ↔
      P k row ∨ ∃ i row', rest[i]? = some row' ∧ P (k + 1 + i) row' := by
  have hk : ∀ i, k + (i + 1) = k + 1 + i := by
    intro i
    omega
  constructor
  · grind
  · rintro (hp | ⟨i, row', hi, hp⟩)
    · exact ⟨0, row, rfl, hp⟩
    · exact ⟨i + 1, row', hi, (hk i).symm ▸ hp⟩

theorem stored_awaiting {needsApproval : Bool} {rows : List DeployContext} {k : Nat} {s : Pushed}
    {d : Deployment} (hd : d ∈ (pushContexts w o req needsApproval k rows s).stored)
    (hs : d.status = .awaitingApproval) :
    d ∈ s.stored ∨ ∃ i row, rows[i]? = some row ∧ (o.Builds w req (k + i) row ∧
      d = insertDeploymentRecord (o.newId (k + i)) row req .awaitingApproval) := by
  induction rows generalizing k s with
  | nil => exact .inl hd
  | cons row rest ih =>
    rw [exists_context_cons (P := fun i row => o.Builds w req i row ∧
      d = insertDeploymentRecord (o.newId i) row req .awaitingApproval)]
    have other : ∀ {status : Status}, status ≠ .awaitingApproval →
        d ∈ (s.store (insertDeploymentRecord (o.newId k) row req status)).stored →
          d ∈ s.stored := by
      intro status hne hd'
      rcases List.mem_append.mp hd' with hd' | hd'
      · exact hd'
      · rw [List.mem_singleton.mp hd'] at hs
        exact absurd hs hne
    simp only [pushContexts] at hd
    split at hd
    · grind
    next hbuilds =>
    have hbuilds : w.builds req row = true := by simpa using hbuilds
    split at hd
    · exact (ih hd).imp id .inr
    next hin =>
    have hin : (o.marshals k && o.inserts k) = true := by simpa using hin
    -- What this context stores for approval is in the accumulator.
    have own : d ∈ (s.store (insertDeploymentRecord (o.newId k) row req
        .awaitingApproval)).stored → d ∈ s.stored ∨ (o.Builds w req k row ∧
          d = insertDeploymentRecord (o.newId k) row req .awaitingApproval) := by
      intro hd'
      exact (List.mem_append.mp hd').imp id fun hd' => ⟨⟨hbuilds, hin⟩, List.mem_singleton.mp hd'⟩
    split at hd
    · grind
    · exact (ih hd).imp (other (by decide)) .inr

theorem mem_sent_iff {rows : List DeployContext} {k : Nat} {s : Pushed} {r : DeployRequest} :
    r ∈ (pushContexts w o req false k rows s).sent ↔
      r ∈ s.sent ∨ ∃ i row, rows[i]? = some row ∧ (o.Builds w req (k + i) row ∧
        r = pushRequest (o.newId (k + i)) row req) := by
  induction rows generalizing k s with
  | nil => simp [pushContexts]
  | cons row rest ih =>
    rw [exists_context_cons (P := fun i row => o.Builds w req i row ∧
      r = pushRequest (o.newId i) row req)]
    simp only [pushContexts, Bool.false_eq_true, if_false]
    split
    next hskip =>
      have hno : ¬ o.Builds w req k row := fun hb => by simp [hb.1] at hskip
      rw [ih]
      split <;> simp [hno, Pushed.store]
    next hbuilds =>
    have hbuilds : w.builds req row = true := by simpa using hbuilds
    split
    next hout =>
      have hno : ¬ o.Builds w req k row := fun hb => by simp [hb.2] at hout
      rw [ih]
      simp [hno]
    next hin =>
      have hb : o.Builds w req k row := ⟨hbuilds, by simpa using hin⟩
      rw [ih]
      simp [hb, Pushed.store, Pushed.send, or_assoc]

end Loop

end Unkey.Approval
