import Unkey.Base.GoString
import Mathlib.Data.List.Dedup

/-!
# Routing decisions of one frontline

What a frontline decides from its own, possibly outdated, view of the deployment behind a hostname:
serve from a local instance, or hand the request to a peer region.
-/

namespace Unkey.Frontline

inductive InstancesStatus where
  | inactive | pending | running | failed
  deriving DecidableEq

inductive DesiredState where
  | running | stopped
  deriving DecidableEq

structure InstanceRow where
  id : String
  address : String
  regionName : String
  regionPlatform : String
  status : InstancesStatus
  deriving DecidableEq

structure RouteRow where
  deploymentID : String
  spendSuspended : Option Bool
  desiredState : DesiredState
  deriving DecidableEq

inductive Fault where
  | configNotFound | configLoadFailed | spendLimitReached | deploymentOffline
  | noInstances | noRunningInstances | noReachableRegion | policyRejected
  | upstream | localDecisionWithNoInstances | tooManyHops (hops : Int) | peerUnreachable
  deriving DecidableEq

inductive Destination where
  | localInstance | remoteRegion
  deriving DecidableEq

structure RouteDecision where
  destination : Destination
  deploymentID : String
  localInstances : List InstanceRow
  remoteRegionAddress : String
  deriving DecidableEq

/-- Everything one frontline consults while it routes one request. -/
structure View where
  route : Except Fault RouteRow
  instances : Except Fault (List InstanceRow)
  getPolicies : Except Fault Unit
  evaluate : Except Fault Unit
  shuffle : List InstanceRow → List InstanceRow
  mapOrder : List String → List String
  shuffle_perm : ∀ xs, (shuffle xs).Perm xs
  mapOrder_perm : ∀ xs, (mapOrder xs).Perm xs

def regionProximity : List (String × List String) := [
  ("us-east-1.aws", ["us-east-2.aws", "us-west-2.aws", "us-west-1.aws", "ca-central-1.aws",
    "eu-west-1.aws", "eu-central-1.aws", "ap-northeast-1.aws", "ap-southeast-1.aws",
    "ap-southeast-2.aws"]),
  ("us-east-2.aws", ["us-east-1.aws", "us-west-2.aws", "us-west-1.aws", "ca-central-1.aws",
    "eu-west-1.aws", "eu-central-1.aws", "ap-northeast-1.aws", "ap-southeast-1.aws",
    "ap-southeast-2.aws"]),
  ("us-west-1.aws", ["us-west-2.aws", "us-east-2.aws", "us-east-1.aws", "ca-central-1.aws",
    "ap-northeast-1.aws", "ap-southeast-1.aws", "ap-southeast-2.aws", "eu-west-1.aws",
    "eu-central-1.aws"]),
  ("us-west-2.aws", ["us-west-1.aws", "us-east-2.aws", "us-east-1.aws", "ca-central-1.aws",
    "ap-northeast-1.aws", "ap-southeast-1.aws", "ap-southeast-2.aws", "eu-west-1.aws",
    "eu-central-1.aws"]),
  ("ca-central-1.aws", ["us-east-2.aws", "us-east-1.aws", "us-west-2.aws", "us-west-1.aws",
    "eu-west-1.aws", "eu-central-1.aws", "ap-northeast-1.aws", "ap-southeast-1.aws",
    "ap-southeast-2.aws"]),
  ("eu-west-1.aws", ["eu-west-2.aws", "eu-central-1.aws", "eu-north-1.aws", "us-east-1.aws",
    "us-east-2.aws", "us-west-2.aws", "us-west-1.aws", "ap-south-1.aws", "ap-southeast-1.aws"]),
  ("eu-west-2.aws", ["eu-west-1.aws", "eu-central-1.aws", "eu-north-1.aws", "us-east-1.aws",
    "us-east-2.aws", "us-west-2.aws", "us-west-1.aws", "ap-south-1.aws", "ap-southeast-1.aws"]),
  ("eu-central-1.aws", ["eu-west-1.aws", "eu-west-2.aws", "eu-north-1.aws", "us-east-1.aws",
    "us-east-2.aws", "us-west-2.aws", "us-west-1.aws", "ap-south-1.aws", "ap-southeast-1.aws"]),
  ("eu-north-1.aws", ["eu-central-1.aws", "eu-west-1.aws", "eu-west-2.aws", "us-east-1.aws",
    "us-east-2.aws", "us-west-2.aws", "us-west-1.aws", "ap-south-1.aws", "ap-southeast-1.aws"]),
  ("ap-south-1.aws", ["ap-southeast-1.aws", "ap-southeast-2.aws", "ap-northeast-1.aws",
    "eu-west-1.aws", "eu-central-1.aws", "us-west-2.aws", "us-west-1.aws", "us-east-1.aws",
    "us-east-2.aws"]),
  ("ap-northeast-1.aws", ["ap-southeast-1.aws", "ap-southeast-2.aws", "ap-south-1.aws",
    "us-west-2.aws", "us-west-1.aws", "us-east-1.aws", "us-east-2.aws", "eu-west-1.aws",
    "eu-central-1.aws"]),
  ("ap-southeast-1.aws", ["ap-southeast-2.aws", "ap-northeast-1.aws", "ap-south-1.aws",
    "us-west-2.aws", "us-west-1.aws", "us-east-1.aws", "us-east-2.aws", "eu-west-1.aws",
    "eu-central-1.aws"]),
  ("ap-southeast-2.aws", ["ap-southeast-1.aws", "ap-northeast-1.aws", "ap-south-1.aws",
    "us-west-2.aws", "us-west-1.aws", "us-east-1.aws", "us-east-2.aws", "eu-west-1.aws",
    "eu-central-1.aws"]),
  ("local.dev", [])]

def findNearestRegionPlatform (own : String) (regionsWithInstance : List String)
    (mapOrder : List String → List String) : String :=
  match ((regionProximity.lookup own).getD []).find? (regionsWithInstance.contains ·) with
  | some region => region
  | none => ((mapOrder regionsWithInstance).find? (· != own)).getD ""

def regionKey (i : InstanceRow) : String := i.regionName ++ "." ++ i.regionPlatform

def selectDestination (own : String) (v : View) (route : RouteRow)
    (instances : List InstanceRow) : Except Fault RouteDecision :=
  if instances.isEmpty then .error .noInstances
  else
    let running := instances.filter (·.status == .running)
    let regionsWithInstance := (running.map regionKey).dedup
    let localRunning := running.filter (fun i => regionKey i == own)
    let nearest := findNearestRegionPlatform own regionsWithInstance v.mapOrder
    if regionsWithInstance.isEmpty then .error .noRunningInstances
    else if localRunning.isEmpty then
      if nearest == "" then .error .noReachableRegion
      else .ok ⟨.remoteRegion, route.deploymentID, [], nearest⟩
    else .ok ⟨.localInstance, route.deploymentID, v.shuffle localRunning, nearest⟩

/-- `Route`. -/
def route (own : String) (v : View) : Except Fault RouteDecision := do
  let row ← v.route
  if row.spendSuspended == some true then throw .spendLimitReached
  if row.desiredState != .running then throw .deploymentOffline
  let instances ← v.instances
  v.getPolicies
  selectDestination own v row instances

end Unkey.Frontline
