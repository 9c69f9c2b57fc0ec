import Mathlib.Data.List.Sort
import Unkey.Base.Run

/-!
# The stream of deployment changes

The outbox table `deployment_changes`, the server that polls it and sends what is above its cursor,
and the agent that reconnects with the version it has last seen.
-/

namespace Unkey.Krane

open Unkey.Base

inductive ResourceType
  | deploymentTopology | sentinel | ciliumNetworkPolicy
  deriving DecidableEq

structure Change where
  pk : Nat
  resourceType : ResourceType
  resourceId : String
  regionId : String
  deriving DecidableEq

/-- What an event asks for: the ReplicaSet of a deployment, with or without secrets, or its
deletion. -/
inductive DeploymentState
  | apply (k8sName : String) (hasSecrets : Bool)
  | delete (k8sName : String)
  deriving DecidableEq

/-- A `DeploymentChangeEvent`; a bare one has only its version. -/
structure Event where
  version : Nat
  deployment : Option DeploymentState
  deriving DecidableEq

section Load

inductive DesiredStatus
  | running | stopped | unknown
  deriving DecidableEq

structure TopologyRow where
  desiredStatus : DesiredStatus
  k8sName : String
  hasSecrets : Bool
  healthcheckMarshals : Bool
  deriving DecidableEq

inductive LoadError
  | notFound | unrecoverable | transient
  deriving DecidableEq

def deploymentRowToState (row : TopologyRow) : Except LoadError DeploymentState :=
  match row.desiredStatus with
  | .stopped => .ok (.delete row.k8sName)
  | .running =>
    if row.healthcheckMarshals then .ok (.apply row.k8sName row.hasSecrets)
    else .error .unrecoverable
  | .unknown => .error .unrecoverable

abbrev Lookup := Change → Except LoadError TopologyRow

def loadChangeEvent (lookup : Lookup) (change : Change) : Except LoadError Event :=
  match change.resourceType with
  | .deploymentTopology =>
    (lookup change).bind fun row =>
      (deploymentRowToState row).map fun state => ⟨change.pk, some state⟩
  | .sentinel | .ciliumNetworkPolicy => .ok ⟨change.pk, none⟩

def loadEvents (lookup : Lookup) : List Change → Option (List Event)
  | [] => some []
  | change :: rest =>
    match loadChangeEvent lookup change with
    | .ok event => (loadEvents lookup rest).map (event :: ·)
    | .error .transient => none
    | .error _ => (loadEvents lookup rest).map (⟨change.pk, none⟩ :: ·)

theorem version_of_loadChangeEvent {lookup : Lookup} {change : Change} {event : Event}
    (h : loadChangeEvent lookup change = .ok event) : event.version = change.pk := by
  unfold loadChangeEvent at h
  split at h
  · cases hl : lookup change with
    | error e =>
      rw [hl] at h
      cases h
    | ok row =>
      rw [hl] at h
      cases hs : deploymentRowToState row with
      | error e =>
        simp only [Except.bind, hs, Except.map] at h
        cases h
      | ok state =>
        simp only [Except.bind, hs, Except.map] at h
        cases h
        rfl
  · cases h
    rfl
  · cases h
    rfl

theorem versions_of_loadEvents {lookup : Lookup} {changes : List Change} {events : List Event}
    (h : loadEvents lookup changes = some events) :
    events.map Event.version = changes.map Change.pk := by
  induction changes generalizing events with
  | nil =>
    cases h
    rfl
  | cons change rest ih =>
    simp only [loadEvents] at h
    split at h
    next event hev =>
      obtain ⟨es, hes, rfl⟩ := Option.map_eq_some_iff.mp h
      rw [List.map_cons, List.map_cons, ih hes, version_of_loadChangeEvent hev]
    next => cases h
    next =>
      obtain ⟨es, hes, rfl⟩ := Option.map_eq_some_iff.mp h
      rw [List.map_cons, List.map_cons, ih hes]

end Load

section Queries

variable (region : String)

def inRegion (changes : List Change) : List Change := changes.filter fun c => c.regionId == region

def maxVersion (visible : List Change) : Nat := ((inRegion region visible).map Change.pk).foldr max 0

def changePageSize : Nat := 10000

def listDeploymentChanges (visible : List Change) (afterVersion : Nat) : List Change :=
  (((inRegion region visible).filter fun c => decide (afterVersion < c.pk)).insertionSort
    fun x y => x.pk ≤ y.pk).take changePageSize

def fetchDeploymentChangeEvents (lookup : Lookup) (visible : List Change) (afterVersion : Nat) :
    Option (List Event) :=
  loadEvents lookup (listDeploymentChanges region visible afterVersion)

end Queries

/-- The table, the stream and the agent. -/
structure Feed where
  nextPk : Nat
  uncommitted : List Change
  visible : List Change
  cursor : Option Nat
  fetched : List Event
  wire : List Event
  versionLastSeen : Nat
  established : Bool
  watched : List Change
  sent : List Nat
  deriving DecidableEq

inductive Label
  | insert (resourceType : ResourceType) (resourceId regionId : String)
  | commit (pks : List Nat)
  | rollback (pks : List Nat)
  | connect
  | poll (lookup : Lookup)
  | send (ok : Bool)
  | receive
  | disconnect

namespace Feed

def start (nextPk : Nat) (uncommitted visible : List Change) : Feed :=
  ⟨nextPk, uncommitted, visible, none, [], [], 0, false, [], []⟩

def insert (f : Feed) (resourceType : ResourceType) (resourceId regionId : String) : Feed :=
  { f with
    nextPk := f.nextPk + 1
    uncommitted := f.uncommitted ++ [⟨f.nextPk, resourceType, resourceId, regionId⟩] }

def committing (f : Feed) (pks : List Nat) : List Change :=
  f.uncommitted.filter fun c => pks.contains c.pk

def without (f : Feed) (pks : List Nat) : List Change :=
  f.uncommitted.filter fun c => !pks.contains c.pk

def commit (region : String) (f : Feed) (pks : List Nat) : Feed :=
  { f with
    uncommitted := f.without pks
    visible := f.visible ++ f.committing pks
    watched := f.watched ++ if f.established then inRegion region (f.committing pks) else [] }

def position (region : String) (f : Feed) : Nat :=
  f.cursor.getD (if f.versionLastSeen = 0 then maxVersion region f.visible else f.versionLastSeen)

def connect (region : String) (f : Feed) : Feed :=
  { f with
    cursor := some (if f.versionLastSeen = 0 then maxVersion region f.visible
      else f.versionLastSeen)
    fetched := []
    wire := []
    established := true }

def hangUp (f : Feed) : Feed := { f with cursor := none, fetched := [] }

def deliver (f : Feed) (cursor : Nat) (event : Event) (rest : List Event) : Feed :=
  { f with
    cursor := some (max cursor event.version)
    fetched := rest
    wire := f.wire ++ [event]
    sent := f.sent ++ [event.version] }

def receive (f : Feed) (event : Event) (rest : List Event) : Feed :=
  { f with wire := rest, versionLastSeen := max f.versionLastSeen event.version }

def step (region : String) (f : Feed) : Label → Option Feed
  | .insert resourceType resourceId regionId => some (f.insert resourceType resourceId regionId)
  | .commit pks => some (f.commit region pks)
  | .rollback pks => some { f with uncommitted := f.without pks }
  | .connect => if f.cursor = none then some (f.connect region) else none
  | .poll lookup =>
    match f.cursor, f.fetched with
    | some cursor, [] =>
      some ((fetchDeploymentChangeEvents region lookup f.visible cursor).elim f.hangUp
        fun events => { f with fetched := events })
    | _, _ => none
  | .send ok =>
    match f.cursor, f.fetched with
    | some cursor, event :: rest => some (if ok then f.deliver cursor event rest else f.hangUp)
    | _, _ => none
  | .receive =>
    match f.wire with
    | event :: rest => some (f.receive event rest)
    | [] => none
  | .disconnect => if f.cursor = none then none else some f.hangUp

end Feed

end Unkey.Krane
