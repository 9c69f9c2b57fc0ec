import Mathlib
import Unkey.Dedup.World

/-!
# The build slot service

`BuildSlotService`, the virtual object that caps how many deployments of a workspace build at the
same time: `AcquireOrWait`, `Release` and `ExpireSlot` with the audits they run.
-/

namespace Unkey.BuildSlot

open Unkey.Base

/-! ### What the handlers read -/

def defaultBuildLimit : Nat := 1

inductive DbRead (α : Type) where
  | row (a : α)
  | notFound
  | failed

def buildLimit : DbRead UInt16 → Option Nat
  | .row buildsConcurrentMax => some buildsConcurrentMax.toNat
  | .notFound => some defaultBuildLimit
  | .failed => none

structure DeploymentCheck where
  rowExists : Bool
  terminal : Bool
  invocationGone : Bool
  deriving DecidableEq

/-! ### Constants, in nanoseconds -/

def minute : Nat := 60000000000

def hour : Nat := 60 * minute

def maxWaitDuration : Nat := hour

def slotLeaseDuration : Nat := hour

def maxSlotLeaseRenewals : Nat := 7

def waiterExpiryDelay : Nat := maxWaitDuration + 15 * minute

def expireRetryDelay : Nat := 10 * minute

/-! ### The state of the object -/

structure WaitEntry where
  deploymentID : String
  awakeableID : String
  deriving DecidableEq

structure Slots where
  active : Finset String
  prodWait : List WaitEntry
  previewWait : List WaitEntry
  deriving DecidableEq

namespace Slots

def empty : Slots := ⟨∅, [], []⟩

def waiting (s : Slots) : List WaitEntry := s.prodWait ++ s.previewWait

def waitList (s : Slots) : Bool → List WaitEntry
  | true => s.prodWait
  | false => s.previewWait

def setWaitList (s : Slots) : Bool → List WaitEntry → Slots
  | true, list => { s with prodWait := list }
  | false, list => { s with previewWait := list }

def HasRoom (s : Slots) (limit : Nat) : Prop := s.active.card % 2 ^ 32 < limit

instance (s : Slots) (limit : Nat) : Decidable (s.HasRoom limit) := inferInstanceAs (Decidable (_ < _))

end Slots

structure Message where
  deploymentID : String
  delay : Nat
  renewals : Nat
  deriving DecidableEq

inductive Event where
  | resolved (awakeableID : String)
  | rejected (awakeableID : String) (reason : String)
  | forceFailed (deploymentID : String) (reason : String) (written : Bool)
  | granted (deploymentID : String) (found : Slots)
  | queued (production : Bool) (entry : WaitEntry)
  | handedOff (entry : WaitEntry) (found : Slots)
  deriving DecidableEq

/-- The object, the `ExpireSlot` messages that are not yet delivered, and what the
handlers have done, latest first. -/
structure World where
  slots : Slots
  pending : List Message
  log : List Event

def World.initial : World := ⟨.empty, [], []⟩

/-! ### Wait lists -/

def waitListContains (list : List WaitEntry) (deploymentID : String) : Bool :=
  list.any (·.deploymentID == deploymentID)

def findAwakeableID (prodWait previewWait : List WaitEntry) (deploymentID : String) : String :=
  ((prodWait ++ previewWait).find? (·.deploymentID == deploymentID)).elim "" (·.awakeableID)

def pickNextWaiter (prodWait previewWait : List WaitEntry) :
    Option WaitEntry × List WaitEntry × List WaitEntry :=
  match prodWait, previewWait with
  | entry :: prodWait, previewWait => (some entry, prodWait, previewWait)
  | [], entry :: previewWait => (some entry, [], previewWait)
  | [], [] => (none, [], [])

def removeFromWaitList (list : List WaitEntry) (deploymentID : String) : List WaitEntry :=
  list.eraseP (·.deploymentID == deploymentID)

def waitListIDs (lists : List (List WaitEntry)) : List String :=
  lists.flatMap (·.map (·.deploymentID))

def Slots.remove (s : Slots) (deploymentID : String) : Slots :=
  { s with
    prodWait := removeFromWaitList s.prodWait deploymentID
    previewWait := removeFromWaitList s.previewWait deploymentID }

/-- What an audit of some deployments came to: the dead ones, or `none` for an error. -/
abbrev Audit := Multiset String → Option (List String)

/-! ### The handlers -/

namespace World

def resolveAwakeable (w : World) (awakeableID : String) : World :=
  { w with log := .resolved awakeableID :: w.log }

def rejectAwakeable (w : World) (awakeableID reason : String) : World :=
  { w with log := .rejected awakeableID reason :: w.log }

def scheduleExpiry (w : World) (deploymentID : String) (delay renewals : Nat) : World :=
  { w with pending := ⟨deploymentID, delay, renewals⟩ :: w.pending }

def grantSlot (w : World) (deploymentID awakeableID : String) : World :=
  let granted : World :=
    { w with
      slots := { w.slots with active := insert deploymentID w.slots.active }
      log := .granted deploymentID w.slots :: w.log }
  (granted.resolveAwakeable awakeableID).scheduleExpiry deploymentID slotLeaseDuration 0

def park (w : World) (production : Bool) (entry : WaitEntry) : World :=
  let queued : World :=
    { w with
      slots := w.slots.setWaitList production (w.slots.waitList production ++ [entry])
      log := .queued production entry :: w.log }
  queued.scheduleExpiry entry.deploymentID waiterExpiryDelay 0

/-- The waiter that `pickNextWaiter` returns, if there is one, takes a slot. -/
def promoteNext (w : World) : World :=
  match pickNextWaiter w.slots.prodWait w.slots.previewWait with
  | (none, _, _) => w
  | (some promoted, prodWait, previewWait) =>
    let handed : World :=
      { w with
        slots := ⟨insert promoted.deploymentID w.slots.active, prodWait, previewWait⟩
        log := .handedOff promoted w.slots :: w.log }
    (handed.resolveAwakeable promoted.awakeableID).scheduleExpiry promoted.deploymentID
      slotLeaseDuration 0

def dropWaitEntry (w : World) (deploymentID : String) : World :=
  let awakeableID := findAwakeableID w.slots.prodWait w.slots.previewWait deploymentID
  -- also an entry with an empty awakeable id stays
  if awakeableID = "" then w
  else
    let rejected := w.rejectAwakeable awakeableID
      "build slot wait entry removed: deploy invocation no longer exists"
    { rejected with slots := w.slots.remove deploymentID }

def dropWaitEntries (w : World) (deploymentIDs : List String) : World :=
  deploymentIDs.foldl dropWaitEntry w

def pruneDeadWaiters (w : World) (audit : Audit) : World :=
  let waiterIDs := waitListIDs [w.slots.prodWait, w.slots.previewWait]
  if waiterIDs = [] then w
  else
    match audit waiterIDs with
    | none => w
    | some deadIDs => w.dropWaitEntries deadIDs

/-- The loop of `reclaimStaleSlots`, which takes a waiter off the lists in every round. -/
def promoteRounds (limit : Nat) : Nat → World → World
  | 0, w => w
  | rounds + 1, w =>
    if w.slots.HasRoom limit ∧ w.slots.waiting ≠ [] then promoteRounds limit rounds w.promoteNext
    else w

def freeSlots (w : World) (staleIDs : List String) : World :=
  { w with slots := { w.slots with active := w.slots.active \ staleIDs.toFinset } }

def reclaimStaleSlots (w : World) (staleIDs : List String) (limit : Nat) : World :=
  (w.freeSlots staleIDs).promoteRounds limit w.slots.waiting.length

def reclaimDead (w : World) (deadIDs : List String) (limit : Nat) : World :=
  let w := w.dropWaitEntries deadIDs
  let staleSlots := deadIDs.filter (· ∈ w.slots.active)
  if staleSlots ≠ [] then w.reclaimStaleSlots staleSlots limit else w

end World

structure AcquireRequest where
  deploymentID : String
  awakeableID : String
  isProduction : Bool
  deriving DecidableEq

namespace World

def grantOrPark (w : World) (req : AcquireRequest) (limit : Nat) : World :=
  if w.slots.HasRoom limit then w.grantSlot req.deploymentID req.awakeableID
  else w.park req.isProduction ⟨req.deploymentID, req.awakeableID⟩

def acquireOrWait (w : World) (req : AcquireRequest) (limits : DbRead UInt16) (audit : Audit) :
    Except String World :=
  if req.deploymentID ∈ w.slots.active then .ok (w.resolveAwakeable req.awakeableID)
  -- the existing entry is resolved when a slot frees up; this call's awakeable is not kept
  else if waitListContains w.slots.prodWait req.deploymentID
      || waitListContains w.slots.previewWait req.deploymentID then .ok w
  else
    match buildLimit limits with
    | none => .error "fetch limits"
    | some limit =>
      if w.slots.HasRoom limit then .ok (w.grantSlot req.deploymentID req.awakeableID)
      else
        match audit (w.slots.active.val
            + (waitListIDs [w.slots.prodWait, w.slots.previewWait] : Multiset String)) with
        | some (deadID :: deadIDs) =>
          .ok ((w.reclaimDead (deadID :: deadIDs) limit).grantOrPark req limit)
        -- the audit failed, or it found nothing dead
        | _ => .ok (w.park req.isProduction ⟨req.deploymentID, req.awakeableID⟩)

/-- The end of `Release` and of `ExpireSlot`: a freed slot goes to the next waiter. -/
def handOff (w : World) (audit : Audit) : World :=
  (w.pruneDeadWaiters audit).promoteNext

def untrack (w : World) (deploymentID : String) : World :=
  { w with
    slots := { w.slots.remove deploymentID with active := w.slots.active.erase deploymentID } }

def release (w : World) (deploymentID : String) (audit : Audit) : World :=
  if deploymentID ∈ w.slots.active then (w.untrack deploymentID).handOff audit
  else w.untrack deploymentID

def rejectStaleAwakeable (w : World) (deploymentID : String) : World :=
  let staleAwakeableID := findAwakeableID w.slots.prodWait w.slots.previewWait deploymentID
  if staleAwakeableID = "" then w
  else w.rejectAwakeable staleAwakeableID "build slot wait entry expired"

def reclaim (w : World) (deploymentID : String) (audit : Audit) : World :=
  let untracked := (w.rejectStaleAwakeable deploymentID).untrack deploymentID
  if deploymentID ∈ w.slots.active then untracked.handOff audit else untracked

/-- `ExpireSlot`, with the result of its check, and whether a force-fail is written. -/
def expireSlot (w : World) (deploymentID : String) (renewals : Nat)
    (check : Option DeploymentCheck) (written : Bool) (audit : Audit) : World :=
  if deploymentID ∉ w.slots.active ∧ !(waitListContains w.slots.prodWait deploymentID
      || waitListContains w.slots.previewWait deploymentID) then w
  else
    match check with
    | none => w.scheduleExpiry deploymentID expireRetryDelay renewals
    | some check =>
      if check.rowExists ∧ !check.terminal then
        -- a live invocation that holds a slot still builds
        if deploymentID ∈ w.slots.active ∧ !check.invocationGone
            ∧ renewals < maxSlotLeaseRenewals then
          w.scheduleExpiry deploymentID slotLeaseDuration (renewals + 1)
        else if deploymentID ∈ w.slots.active ∨ check.invocationGone then
          let failReason :=
            if check.invocationGone then
              "build slot lease expired: deploy invocation no longer exists in Restate"
            else "build slot lease expired: deployment exceeded maximum build duration"
          let tried : World :=
            { w with log := .forceFailed deploymentID failReason written :: w.log }
          if written then tried.reclaim deploymentID audit
          else tried.scheduleExpiry deploymentID expireRetryDelay renewals
        -- a live waiter has timed out by now: only its entry is left
        else w.reclaim deploymentID audit
      else w.reclaim deploymentID audit

end World

/-! ### Runs -/

inductive Label where
  | acquireOrWait (req : AcquireRequest) (limits : DbRead UInt16) (audit : Audit)
  | release (deploymentID : String) (audit : Audit)
  | expireSlot (message : Message) (check : Option DeploymentCheck) (written : Bool)
      (audit : Audit)

def World.deliver (w : World) (message : Message) : World :=
  { w with pending := w.pending.erase message }

def World.handle (w : World) : Label → World
  | .acquireOrWait req limits audit =>
    match w.acquireOrWait req limits audit with
    | .ok w' => w'
    | .error _ => w
  | .release deploymentID audit => w.release deploymentID audit
  | .expireSlot message check written audit =>
    (w.deliver message).expireSlot message.deploymentID message.renewals check written audit

def step (w : World) (l : Label) : Option World := some (w.handle l)

end Unkey.BuildSlot
