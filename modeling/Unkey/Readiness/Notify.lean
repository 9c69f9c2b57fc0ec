import Mathlib.Data.List.Dedup
import Unkey.Base.Protocol

/-!
# Readiness of a deployment

The wait of `Deploy` for healthy regions, and the reports that end it.
-/

namespace Unkey.Readiness

open Unkey.Base

/-! ### The healthy-region threshold -/

inductive InstanceStatus where
  | inactive
  | pending
  | running
  | failed
  deriving DecidableEq

structure Instance where
  regionID : String
  k8sName : String
  status : InstanceStatus
  deriving DecidableEq

structure TopologyRow where
  regionID : String
  autoscalingReplicasMin : Nat
  deriving DecidableEq

/-- The map `regionMinReplicas`: of two rows of a region the later one counts. -/
def regionMinReplicas (rows : List TopologyRow) : List (String × Nat) :=
  (rows.map (·.regionID)).dedup.map fun regionID =>
    (regionID, ((rows.reverse.find? (·.regionID = regionID)).map (·.autoscalingReplicasMin)).getD 0)

def requiredRegions (rows : List TopologyRow) : Nat := max ((regionMinReplicas rows).length - 1) 1

def runningPerRegion (instances : List Instance) (regionID : String) : Nat :=
  instances.countP fun i => i.status = .running ∧ i.regionID = regionID

def healthyRegions (rows : List TopologyRow) (instances : List Instance) : Nat :=
  (regionMinReplicas rows).countP fun p => p.2 ≤ runningPerRegion instances p.1

/-- The check of `maybeNotifyInstancesReady` and of `checkInstancesHealthy`. -/
def meetsThreshold (rows : List TopologyRow) (instances : List Instance) : Bool :=
  requiredRegions rows ≤ healthyRegions rows instances

/-! ### Reports -/

def upsertInstance (regionID : String) (instances : List Instance)
    (reported : String × InstanceStatus) : List Instance :=
  if instances.any (fun i => i.regionID = regionID ∧ i.k8sName = reported.1) then
    instances.map fun i =>
      if i.regionID = regionID ∧ i.k8sName = reported.1 then { i with status := reported.2 } else i
  else instances ++ [⟨regionID, reported.1, reported.2⟩]

/-- The transaction of an `Update`: instances of the region that are not reported are deleted,
the reported ones are upserted. -/
def updateInstances (regionID : String) (reported : List (String × InstanceStatus))
    (instances : List Instance) : List Instance :=
  reported.foldl (upsertInstance regionID)
    (instances.filter fun i => i.regionID ≠ regionID ∨ i.k8sName ∈ reported.map (·.1))

def deleteInstances (regionID : String) (instances : List Instance) : List Instance :=
  instances.filter (·.regionID ≠ regionID)

inductive DeploymentStatus where
  | pending
  | starting
  | building
  | deploying
  | network
  | finalizing
  | ready
  | failed
  | skipped
  | awaitingApproval
  | stopped
  | superseded
  | cancelled
  deriving DecidableEq

def deploymentActiveStatuses : DeploymentStatus → Bool
  | .starting | .building | .deploying | .network | .finalizing => true
  | .pending | .ready | .failed | .skipped | .awaitingApproval | .stopped | .superseded
  | .cancelled => false

/-! ### The shared state -/

inductive Awakeable where
  | absent
  | pending
  | resolved
  deriving DecidableEq

/-- The stored instances, whether the expiring set has the deployment, the messages that are sent
and not delivered, the awakeable, and whether the object's state names it. -/
structure State where
  instances : List Instance
  notifiedReady : Bool
  sent : Nat
  awakeable : Awakeable
  stored : Bool
  deriving DecidableEq

structure Deployment where
  topologies : List TopologyRow
  status : DeploymentStatus
  deriving DecidableEq

inductive Op where
  | updateTx (regionID : String) (reported : List (String × InstanceStatus))
  | deleteTx (regionID : String)
  | findTopologyMinReplicas
  | findInstances
  | addIfAbsent
  | send
  | storeAwakeable
  | resolve
  | await
  | clear
  | deliver
  | sweep
  deriving DecidableEq

abbrev Op.Ret : Op → Type
  | .updateTx _ _ => Option DeploymentStatus
  | .findTopologyMinReplicas => Option (List TopologyRow)
  | .findInstances => Option (List Instance)
  | .addIfAbsent => Bool
  | .deleteTx _ | .send | .storeAwakeable | .resolve | .await | .clear | .deliver | .sweep => Unit

/-- Whether a statement fails, whether the timeout of the wait has elapsed, and whether the entry
is old enough to be swept. -/
structure Env where
  fails : Bool
  timeout : Bool
  old : Bool
  deriving DecidableEq

def apply (d : Deployment) : (op : Op) → Env → State → Option (op.Ret × State)
  | .updateTx regionID reported, e, s =>
    if e.fails then some (none, s)
    else some (some d.status, { s with instances := updateInstances regionID reported s.instances })
  | .deleteTx regionID, e, s =>
    if e.fails then some ((), s)
    else some ((), { s with instances := deleteInstances regionID s.instances })
  | .findTopologyMinReplicas, e, s => some (if e.fails then none else some d.topologies, s)
  | .findInstances, e, s => some (if e.fails then none else some s.instances, s)
  | .addIfAbsent, _, s => some (!s.notifiedReady, { s with notifiedReady := true })
  | .send, _, s => some ((), { s with sent := s.sent + 1 })
  | .storeAwakeable, _, s =>
    if s.awakeable = .absent then some ((), { s with awakeable := .pending, stored := true })
    else none
  | .resolve, _, s => some ((), { s with awakeable := .resolved })
  | .await, e, s => if s.awakeable = .resolved ∨ e.timeout then some ((), s) else none
  | .clear, _, s => some ((), { s with stored := false })
  | .deliver, _, s =>
    match s.sent with
    | 0 => none
    | n + 1 =>
      some ((), if s.stored then { s with sent := n, awakeable := .resolved }
        else { s with sent := n })
  | .sweep, e, s => some ((), { s with notifiedReady := s.notifiedReady && !e.old })

/-! ### Programs -/

abbrev Code (α : Type) := Prog Op Op.Ret Empty α

def updateTx (regionID : String) (reported : List (String × InstanceStatus)) :
    Code (Option DeploymentStatus) :=
  Prog.perform (Op.updateTx regionID reported)

def findTopologyMinReplicas : Code (Option (List TopologyRow)) :=
  Prog.perform Op.findTopologyMinReplicas

def findInstances : Code (Option (List Instance)) := Prog.perform Op.findInstances

def addIfAbsent : Code Bool := Prog.perform Op.addIfAbsent

def maybeNotifyInstancesReady (status : DeploymentStatus) : Code Unit :=
  if deploymentActiveStatuses status = false then pure ()
  else do
    match ← findTopologyMinReplicas with
    | none => pure ()
    | some rows =>
      if rows.length = 0 then pure ()
      else do
        match ← findInstances with
        | none => pure ()
        | some instances =>
          if meetsThreshold rows instances = false then pure ()
          else do
            match ← addIfAbsent with
            | false => pure ()
            | true => Prog.perform Op.send

def reportUpdate (regionID : String) (reported : List (String × InstanceStatus)) : Code Unit := do
  match ← updateTx regionID reported with
  | none => pure ()
  | some status => maybeNotifyInstancesReady status

def checkInstancesHealthy (topologies : List TopologyRow) : Code Bool := do
  match ← findInstances with
  | none => pure false
  | some instances => pure (meetsThreshold topologies instances)

def waitForDeployments (topologies : List TopologyRow) : Code Unit := do
  let _ ← Prog.perform Op.storeAwakeable
  match ← checkInstancesHealthy topologies with
  | true => do
    let _ ← Prog.perform Op.resolve
    let _ ← Prog.perform Op.await
    Prog.perform Op.clear
  | false => do
    let _ ← Prog.perform Op.await
    Prog.perform Op.clear

inductive Call where
  | reportUpdate (regionID : String) (reported : List (String × InstanceStatus))
  | reportDelete (regionID : String)
  | waitForDeployments
  | notifyInstancesReady
  | sweep
  deriving DecidableEq

def Call.isReport : Call → Bool
  | .reportUpdate _ _ | .reportDelete _ => true
  | .waitForDeployments | .notifyInstancesReady | .sweep => false

def body (d : Deployment) : Call → Code Unit
  | .reportUpdate regionID reported => Unkey.Readiness.reportUpdate regionID reported
  | .reportDelete regionID => Prog.perform (Op.deleteTx regionID)
  | .waitForDeployments => Unkey.Readiness.waitForDeployments d.topologies
  | .notifyInstancesReady => Prog.perform Op.deliver
  | .sweep => Prog.perform Op.sweep

abbrev ReadinessWorld := World State Call Op Op.Ret Empty

abbrev readinessStep (d : Deployment) := worldStep (fun _ : Call => apply d) (body d)

/-! ### Fewer instances -/

theorem runningPerRegion_mono {xs ys : List Instance} (h : xs.Sublist ys) (regionID : String) :
    runningPerRegion xs regionID ≤ runningPerRegion ys regionID :=
  h.countP_le

theorem meetsThreshold_mono (rows : List TopologyRow) {xs ys : List Instance}
    (h : xs.Sublist ys) (hmeets : meetsThreshold rows xs = true) : meetsThreshold rows ys = true := by
  have hle : healthyRegions rows xs ≤ healthyRegions rows ys := by
    apply List.countP_mono_left
    intro p _ hp
    exact decide_eq_true (Nat.le_trans (of_decide_eq_true hp) (runningPerRegion_mono h p.1))
  exact decide_eq_true (Nat.le_trans (of_decide_eq_true hmeets) hle)

theorem deleteInstances_sublist (regionID : String) (instances : List Instance) :
    (deleteInstances regionID instances).Sublist instances :=
  List.filter_sublist

theorem meetsThreshold_nil (instances : List Instance) : meetsThreshold [] instances = false := rfl

end Unkey.Readiness
