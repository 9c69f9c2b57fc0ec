import Unkey.Base.RepeatableRead
import Unkey.Deploy.Workflow

/-!
# The guard of the current deployment under repeatable read

`ChangeDesiredState` checks the app's row and writes the deployment's; `SwapLiveDeployment` checks
the deployment's row and writes the app's.
-/

namespace Unkey.Standby.Guard

open Unkey.Base Unkey.Base.RepeatableRead Unkey.Deploy

structure DeploymentRow (α : Type) where
  appId : α
  desiredState : DesiredState

structure AppRow (δ : Type) where
  currentDeploymentId : Option δ
  isRolledBack : Bool

structure Tables (δ α : Type) where
  deployments : δ → Option (DeploymentRow α)
  apps : α → Option (AppRow δ)

inductive Row (δ α : Type)
  | deployment (id : δ)
  | app (id : α)
  deriving DecidableEq

variable {δ α : Type}

/-- `FindDeploymentById` and `FindAppById`, which every transaction here starts with. -/
def findApp (id : δ) (missing : Txn (Tables δ α) (Row δ α))
    (found : α → AppRow δ → Txn (Tables δ α) (Row δ α)) : Txn (Tables δ α) (Row δ α) :=
  .select fun db => (db.deployments id).elim missing fun deployment =>
    .select fun db => (db.apps deployment.appId).elim missing (found deployment.appId)

theorem findApp_keeps {P : Tables δ α → Prop} {id : δ} {missing : Txn (Tables δ α) (Row δ α)}
    {found : α → AppRow δ → Txn (Tables δ α) (Row δ α)} (hm : missing.Keeps P)
    (hf : ∀ appId app, (found appId app).Keeps P) : (findApp id missing found).Keeps P := by
  intro db
  dsimp only
  cases db.deployments id with
  | none => exact hm
  | some deployment =>
    intro db
    dsimp only
    cases db.apps deployment.appId with
    | none => exact hm
    | some app => exact hf _ app

variable [DecidableEq δ] [DecidableEq α]

def updateDeploymentDesiredState (id : δ) (state : DesiredState) (db : Tables δ α) : Tables δ α :=
  { db with
    deployments := Function.update db.deployments id
      ((db.deployments id).map fun row => { row with desiredState := state }) }

def updateAppDeployments (appId : α) (id : δ) (isRolledBack : Bool) (db : Tables δ α) :
    Tables δ α :=
  { db with
    apps := Function.update db.apps appId
      ((db.apps appId).map fun _ => ⟨some id, isRolledBack⟩) }

/-- The transaction of `ChangeDesiredState`. -/
def changeDesiredState (id : δ) (state : DesiredState) : Txn (Tables δ α) (Row δ α) :=
  findApp id .commit fun _ app =>
    if app.currentDeploymentId = some id then .rollback
    else .write (.deployment id) (updateDeploymentDesiredState id state) .commit

def swapLiveDeployment (id : δ) (setRollbackFlag : Bool) : Txn (Tables δ α) (Row δ α) :=
  findApp id .rollback fun appId _ =>
    .write (.app appId) (updateAppDeployments appId id setRollbackFlag) .commit

inductive Job (δ : Type)
  | change (id : δ) (state : DesiredState)
  | swap (id : δ) (setRollbackFlag : Bool)

def Job.body : Job δ → Txn (Tables δ α) (Row δ α)
  | .change id state => changeDesiredState id state
  | .swap id flag => swapLiveDeployment id flag

def bodies {ι : Type} (job : ι → Job δ) (i : ι) : Txn (Tables δ α) (Row δ α) := (job i).body

def Job.swapsTo (id : δ) : Job δ → Bool
  | .swap id' _ => id' = id
  | .change _ _ => false

def Tables.IsCurrent (db : Tables δ α) (id : δ) : Prop :=
  ((db.deployments id).bind fun row => (db.apps row.appId).bind (·.currentDeploymentId)) = some id

instance Tables.IsCurrent.decidable (db : Tables δ α) (id : δ) : Decidable (db.IsCurrent id) :=
  inferInstanceAs (Decidable (_ = _))

omit [DecidableEq α] in
theorem isCurrent_updateDeploymentDesiredState {db : Tables δ α} {id id' : δ}
    {state : DesiredState} :
    (updateDeploymentDesiredState id' state db).IsCurrent id ↔ db.IsCurrent id := by
  unfold Tables.IsCurrent updateDeploymentDesiredState
  by_cases hid : id = id'
  · subst hid
    cases db.deployments id <;> simp
  · simp [Function.update_of_ne hid]

omit [DecidableEq δ] in
theorem not_isCurrent_updateAppDeployments {db : Tables δ α} {id id' : δ} {appId : α}
    {flag : Bool} (hne : id' ≠ id) (h : ¬ db.IsCurrent id) :
    ¬ (updateAppDeployments appId id' flag db).IsCurrent id := by
  unfold Tables.IsCurrent updateAppDeployments at *
  cases hd : db.deployments id with
  | none => simp
  | some row =>
    simp only [hd, Option.bind_some] at h ⊢
    by_cases happ : row.appId = appId
    · subst happ
      cases db.apps row.appId <;> simp [hne]
    · rwa [Function.update_of_ne happ]

theorem body_keeps {id : δ} {j : Job δ} (h : j.swapsTo id = false) :
    (j.body : Txn (Tables δ α) (Row δ α)).Keeps (fun db => ¬ db.IsCurrent id) := by
  cases j with
  | change id' state =>
    unfold Job.body changeDesiredState
    refine findApp_keeps trivial fun _ app => ?_
    split
    · exact trivial
    · exact ⟨fun db hdb => mt isCurrent_updateDeploymentDesiredState.mp hdb, trivial⟩
  | swap id' flag =>
    have hne : id' ≠ id := by simpa [Job.swapsTo] using h
    unfold Job.body swapLiveDeployment
    exact findApp_keeps trivial fun _ _ =>
      ⟨fun db hdb => not_isCurrent_updateAppDeployments hne hdb, trivial⟩

variable {ι : Type} [DecidableEq ι]

/-- No swap to the deployment commits once request `i` has its snapshot. -/
def Unswapped (job : ι → Job δ) (i : ι) (id : δ)
    (s : Database ι (Tables δ α) (Row δ α)) : Turn ι → Prop
  | .run j => (s.sessions j).rest.commits = true → (job j).swapsTo id = true →
      (s.sessions i).snapshot.isNone = true
  | .abort _ => True

instance Unswapped.decidable (job : ι → Job δ) (i : ι) (id : δ)
    (s : Database ι (Tables δ α) (Row δ α)) : (a : Turn ι) → Decidable (Unswapped job i id s a)
  | .run _ => inferInstanceAs (Decidable (_ = _ → _ = _ → _ = _))
  | .abort _ => .isTrue trivial

def Changes (job : ι → Job δ) (i : ι) (id : δ) (s : Database ι (Tables δ α) (Row δ α)) : Prop :=
  (∃ state, job i = .change id state) ∧ (s.sessions i).rest.commits = true ∧
    s.holder (.deployment id) = some i

/-- When `ChangeDesiredState` commits a change of a deployment, the deployment is not the current
one of its app, provided that no swap to it has committed since the first `SELECT`. -/
theorem changeDesiredState_not_current {job : ι → Job δ} {db : Tables δ α} {i : ι} {id : δ}
    {past : List (Database ι (Tables δ α) (Row δ α) × Turn ι)}
    {s : Database ι (Tables δ α) (Row δ α)}
    (hrun : Run (Database.step (bodies job)) (Database.init (bodies job) db) past s)
    (hswap : Always (fun _ s a => Unswapped job i id s a) past) (hs : Changes job i id s) :
    ¬ s.committed.IsCurrent id := by
  obtain ⟨⟨state, hi⟩, hcommit, hheld⟩ := hs
  have hbody : bodies job i = (changeDesiredState id state : Txn (Tables δ α) (Row δ α)) := by
    rw [bodies, hi]
    rfl
  refine Database.checked (P := fun db => ¬ db.IsCurrent id) hbody ?_ hrun ?_ ?_ hheld
  · intro db
    cases hd : db.deployments id with
    | none => exact trivial
    | some deployment =>
      simp only [Option.elim_some, Txn.Guarded]
      cases happ : db.apps deployment.appId with
      | none => exact trivial
      | some app =>
        simp only [Option.elim_some]
        split
        · exact trivial
        · rename_i hne
          show ¬ db.IsCurrent id
          simpa [Tables.IsCurrent, hd, happ] using hne
  · refine hrun.always (P := fun _ _ => True) trivial (fun _ _ _ _ _ _ _ => trivial) ?_ hswap
    rintro _ s a - hs j rfl hj
    cases hto : (job j).swapsTo id with
    | false => exact .inl (body_keeps hto)
    | true => exact .inr (Option.isNone_iff_eq_none.mp (hs (by rw [hj]; rfl) hto))
  · cases hrest : (s.sessions i).rest <;> simp_all [Txn.commits, Txn.ended]

def sampleTables : Tables Nat Unit where
  deployments id := if id < 2 then some ⟨(), .running⟩ else none
  apps _ := some ⟨some 0, false⟩

inductive Caller
  | change | swap
  deriving DecidableEq

def sampleJobs (target : Nat) : Caller → Job Nat
  | .change => .change 1 .stopped
  | .swap => .swap target false

def overlap : List (Turn Caller) :=
  [.run .change, .run .swap, .run .swap, .run .swap, .run .swap, .run .change, .run .change]

theorem changeDesiredState_not_current_overlap : ∃ past s,
    Run (Database.step (bodies (sampleJobs 0))) (Database.init (bodies (sampleJobs 0)) sampleTables)
      past s ∧
    Always (fun _ s a => Unswapped (sampleJobs 0) .change 1 s a) past ∧
    Changes (sampleJobs 0) .change 1 s ∧ s.log = [.swap] ∧ ¬ s.committed.IsCurrent 1 := by
  refine Run.exists_of_record (P := fun past s =>
    Always (fun _ s a => Unswapped (sampleJobs 0) .change 1 s a) past ∧
    (s.sessions .change).rest.commits = true ∧ s.holder (.deployment 1) = some .change ∧
    s.log = [.swap])
    overlap (by decide) ?_
  rintro past s hrun ⟨hswap, hcommit, hheld, hlog⟩
  have hs : Changes (sampleJobs 0) .change 1 s := ⟨⟨_, rfl⟩, hcommit, hheld⟩
  exact ⟨hswap, hs, hlog, changeDesiredState_not_current hrun hswap hs⟩

/-- The swap to deployment 1 commits between the snapshot and the commit of the change that stops
it. -/
theorem changeDesiredState_stops_current : ∃ past s,
    Run (Database.step (bodies (sampleJobs 1))) (Database.init (bodies (sampleJobs 1)) sampleTables)
      past s ∧
    Changes (sampleJobs 1) .change 1 s ∧ s.committed.IsCurrent 1 := by
  refine Run.exists_of_record (P := fun _ s => (s.sessions .change).rest.commits = true ∧
    s.holder (.deployment 1) = some .change ∧ s.committed.IsCurrent 1) overlap (by decide) ?_
  rintro past s - ⟨hcommit, hheld, hcurrent⟩
  exact ⟨⟨⟨_, rfl⟩, hcommit, hheld⟩, hcurrent⟩

end Unkey.Standby.Guard
