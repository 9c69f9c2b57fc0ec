import Unkey.Standby.Transitions

/-!
# The deployments of one app and their objects

The tables of the app's production environment, the deployment objects next to them, and the calls
that Deploy, Promote and Rollback make: swapping the live deployment, scheduling a stop with or
without an idempotency key, and clearing one.
-/

namespace Unkey.Standby

open Unkey.Base Unkey.Deploy

structure Fleet where
  db : Db
  created : List (String × Nat)
  objects : String → Object
  keys : List String

namespace Fleet

def desired (f : Fleet) (id : String) : Option DesiredState :=
  (f.db.rows id).map Row.desiredState

def status (f : Fleet) (id : String) : Option Status := (f.db.rows id).map Row.status

def found (f : Fleet) (id : String) : Found :=
  if (f.db.rows id).isNone then .missing
  else if f.db.currentDeploymentId = some id then .current
  else .standby

def withObject (f : Fleet) (id : String) (o : Object) : Fleet :=
  { f with objects := Function.update f.objects id o }

def withRow (f : Fleet) (id : String) (row : Option Row) : Fleet :=
  { f with db := { f.db with rows := Function.update f.db.rows id row } }

def schedule (f : Fleet) (id : String) (req : ScheduleRequest) : Fleet :=
  f.withObject id (scheduleDesiredStateChange (f.objects id) req)

/-- `ScheduleDesiredStateChange` under the idempotency key `id`: a second request with the
key gets the first result and the handler does not run. -/
def scheduleOnce (f : Fleet) (id : String) (req : ScheduleRequest) : Fleet :=
  if f.keys.contains id then f else { f.schedule id req with keys := id :: f.keys }

def clear (f : Fleet) (id : String) : Fleet :=
  f.withObject id (clearScheduledStateChanges (f.objects id))

def standby (f : Fleet) (old : String) : Fleet :=
  if old = "" then f else f.schedule old ⟨.stopped, false⟩

/-- `Deploy` schedules the previous live deployment, if there is one, under an idempotency
key. -/
def standbyOnce (f : Fleet) (previous : String) : Fleet :=
  if previous = "" then f else f.scheduleOnce previous ⟨.stopped, true⟩

end Fleet

def Outcome.write (row : Option Row) : Outcome → Option Row
  | .applied state => row.map fun row => { row with desiredState := state }
  | _ => row

namespace Fleet

def outcome (f : Fleet) (id : String) (m : Message) : Outcome :=
  changeDesiredState (f.objects id) m (f.found id)

def deliver (f : Fleet) (id : String) (i : Nat) (m : Message) : Fleet :=
  (f.withRow id ((f.outcome id m).write (f.db.rows id))).withObject id
    ((f.objects id).deliver i m (f.found id))

def swapped (f : Fleet) (id : String) (routeIDs : List Nat) (setRollbackFlag : Bool) : Fleet :=
  { f with db := swapLiveDeployment f.db id routeIDs setRollbackFlag }

/-- `SwapLiveDeployment`; it fails when the deployment does not exist. -/
def swap (f : Fleet) (id : String) (routeIDs : List Nat) (setRollbackFlag : Bool) :
    Option Fleet :=
  if (f.db.rows id).isNone then none else some (f.swapped id routeIDs setRollbackFlag)

def previous (f : Fleet) : String := f.db.currentDeploymentId.getD ""

/-- What `FindLatestReadyDeploymentByAppAndEnv` may answer: a ready deployment other than
`excludeId` of largest `created_at`. -/
def LatestReady (f : Fleet) (excludeId id : String) : Prop :=
  ∃ c ∈ f.created, c.1 = id ∧ id ≠ excludeId ∧ f.status id = some .ready ∧
    ∀ c' ∈ f.created, c'.1 ≠ excludeId → f.status c'.1 = some .ready → c'.2 ≤ c.2

instance (f : Fleet) (excludeId id : String) : Decidable (f.LatestReady excludeId id) := by
  unfold LatestReady
  infer_instance

def create (f : Fleet) (id : String) (createdAt : Nat) (row : Row) : Option Fleet :=
  if id = "" ∨ (f.db.rows id).isSome = true then none
  else some { f.withRow id (some row) with created := f.created ++ [(id, createdAt)] }

def report (f : Fleet) (id : String) (status : Status) : Fleet :=
  f.withRow id ((f.db.rows id).map fun row => { row with status := status })

@[simp] theorem withObject_db (f : Fleet) (id : String) (o : Object) :
    (f.withObject id o).db = f.db := rfl

@[simp] theorem schedule_db (f : Fleet) (id : String) (req : ScheduleRequest) :
    (f.schedule id req).db = f.db := rfl

@[simp] theorem clear_db (f : Fleet) (id : String) : (f.clear id).db = f.db := rfl

@[simp] theorem scheduleOnce_db (f : Fleet) (id : String) (req : ScheduleRequest) :
    (f.scheduleOnce id req).db = f.db := by
  unfold scheduleOnce
  split <;> rfl

@[simp] theorem standby_db (f : Fleet) (old : String) : (f.standby old).db = f.db := by
  unfold standby
  split <;> rfl

@[simp] theorem standbyOnce_db (f : Fleet) (previous : String) :
    (f.standbyOnce previous).db = f.db := by
  unfold standbyOnce
  split
  · rfl
  · exact scheduleOnce_db f previous _

theorem desired_congr {f g : Fleet} (h : f.db.rows = g.db.rows) (id : String) :
    f.desired id = g.desired id := by
  simp [desired, h]

theorem desired_withRow (f : Fleet) (id id' : String) (row : Option Row) :
    (f.withRow id row).desired id' =
      if id' = id then row.map Row.desiredState else f.desired id' := by
  by_cases h : id' = id
  · subst h
    simp [desired, withRow]
  · simp [desired, withRow, h]

theorem desired_deliver (f : Fleet) (id id' : String) (i : Nat) (m : Message) :
    (f.deliver id i m).desired id' =
      if id' = id then ((f.outcome id m).write (f.db.rows id)).map Row.desiredState
      else f.desired id' :=
  desired_withRow f id id' _

theorem desired_write_applied (row : Option Row) (state : DesiredState) :
    ((Outcome.applied state).write row).map Row.desiredState = row.map fun _ => state := by
  cases row <;> rfl

theorem desired_report (f : Fleet) (id id' : String) (status : Status) :
    (f.report id status).desired id' = f.desired id' := by
  rw [report, desired_withRow]
  split
  next h =>
    subst h
    unfold desired
    cases f.db.rows id' <;> rfl
  next => rfl

theorem swap_eq_some {f g : Fleet} {id : String} {routeIDs : List Nat} {flag : Bool}
    (h : f.swap id routeIDs flag = some g) :
    (f.db.rows id).isSome = true ∧ g = f.swapped id routeIDs flag := by
  unfold swap at h
  split at h
  · cases h
  next hrow =>
    cases h
    exact ⟨by simpa [Option.isNone_iff_eq_none, Option.isSome_iff_ne_none] using hrow, rfl⟩

theorem create_eq_some {f g : Fleet} {id : String} {createdAt : Nat} {row : Row}
    (h : f.create id createdAt row = some g) :
    id ≠ "" ∧ f.db.rows id = none ∧
      g = { f.withRow id (some row) with created := f.created ++ [(id, createdAt)] } := by
  unfold create at h
  split at h
  · cases h
  next hnot =>
    cases h
    simp only [not_or, Bool.not_eq_true, Option.isSome_eq_false_iff,
      Option.isNone_iff_eq_none] at hnot
    exact ⟨hnot.1, hnot.2, rfl⟩

end Fleet

end Unkey.Standby
