import Mathlib.Data.List.Sort
import Unkey.Base.Protocol

/-!
# The export of audit events

`worker/cron/auditlogexport`: the rows of `clickhouse_outbox` are read in batches, inserted into
ClickHouse and marked in the same MySQL transaction.
-/

namespace Unkey.AuditExport

open Unkey.Base

/-! ### Events and ClickHouse rows -/

structure EventActor (Meta : Type) where
  type : String
  id : String
  name : String
  metadata : Meta
  deriving DecidableEq

structure EventTarget (Meta : Type) where
  type : String
  id : String
  name : String
  metadata : Meta
  deriving DecidableEq

structure Event (Meta : Type) where
  eventID : String
  time : Int
  workspaceID : String
  bucket : String
  source : String
  event : String
  description : String
  actor : EventActor Meta
  remoteIP : String
  userAgent : String
  metadata : Meta
  targets : List (EventTarget Meta)
  correlationID : String
  deriving DecidableEq

structure AuditLogV1 where
  eventID : String
  time : Int
  insertedAt : Int
  workspaceID : String
  bucket : String
  source : String
  event : String
  description : String
  actorType : String
  actorID : String
  actorName : String
  actorMeta : String
  remoteIP : String
  userAgent : String
  metadata : String
  targetTypes : List String
  targetIDs : List String
  targetNames : List String
  targetMetas : List String
  correlationID : String
  deriving DecidableEq

/-- `encoding/json`: decoding of a payload, the number of keys of a map, and its encoding. -/
structure Codec (Payload Meta : Type) where
  unmarshal : Payload → Except String (Event Meta)
  len : Meta → Nat
  marshal : Meta → Except String String

variable {Payload Meta : Type}

section Build

variable (codec : Codec Payload Meta)

def marshalMeta (m : Meta) : Except String String :=
  if codec.len m = 0 then .ok "\x7b\x7d" else codec.marshal m

def wrap {α : Type} (doing : String) : Except String α → Except String α
  | .ok a => .ok a
  | .error err => .error (doing ++ ": " ++ err)

def eventSourcePlatform : String := "platform"

def buildCHRow (nowMillis : Int) (e : Event Meta) : Except String AuditLogV1 := do
  let actorMeta ← wrap ("encode actor_meta event_id=" ++ e.eventID)
    (marshalMeta codec e.actor.metadata)
  let topMeta ← wrap ("encode meta event_id=" ++ e.eventID) (marshalMeta codec e.metadata)
  let targetMetas ← e.targets.mapM fun t =>
    wrap ("encode target_meta event_id=" ++ e.eventID ++ " target_id=" ++ t.id)
      (marshalMeta codec t.metadata)
  pure {
    eventID := e.eventID
    time := e.time
    insertedAt := nowMillis
    workspaceID := e.workspaceID
    bucket := e.bucket
    source := if e.source = "" then eventSourcePlatform else e.source
    event := e.event
    description := e.description
    actorType := e.actor.type
    actorID := e.actor.id
    actorName := e.actor.name
    actorMeta := actorMeta
    remoteIP := e.remoteIP
    userAgent := e.userAgent
    metadata := topMeta
    targetTypes := e.targets.map (·.type)
    targetIDs := e.targets.map (·.id)
    targetNames := e.targets.map (·.name)
    targetMetas := targetMetas
    correlationID := e.correlationID }

def buildCHRows (nowMillis : Int) (events : List (Event Meta)) : Except String (List AuditLogV1) :=
  events.mapM (buildCHRow codec nowMillis)

end Build

/-! ### The outbox and ClickHouse -/

structure OutboxRow (Payload : Type) where
  pk : Nat
  version : String
  workspaceID : String
  eventID : String
  payload : Payload
  createdAt : Int
  deriving DecidableEq

structure Stored (Payload : Type) where
  row : OutboxRow Payload
  deletedAt : Option Int
  deriving DecidableEq

/-- A block that ClickHouse has kept, with the batch and the time it was built from. -/
structure Block (Payload : Type) where
  rows : List (OutboxRow Payload)
  nowMillis : Int
  logs : List AuditLogV1
  deriving DecidableEq

/-- The outbox, the exported blocks, and whether an export is running. -/
structure Store (Payload : Type) where
  outbox : List (Stored Payload)
  blocks : List (Block Payload)
  busy : Bool
  deriving DecidableEq

def knownVersions : List String := ["audit_log.v1"]

def batchLimit : Nat := 1000

def OutboxRow.known (r : OutboxRow Payload) : Bool := knownVersions.contains r.version

def Store.findBatch (s : Store Payload) : List (OutboxRow Payload) :=
  (((s.outbox.filter fun x => x.row.known && x.deletedAt.isNone).map (·.row)).insertionSort
    fun a b => a.pk ≤ b.pk).take batchLimit

def Store.insertBlock (s : Store Payload) (b : Block Payload) : Store Payload :=
  if s.blocks.any (·.logs = b.logs) then s else { s with blocks := s.blocks ++ [b] }

def Store.markDeleted (s : Store Payload) (pks : List Nat) (deletedAt : Int) : Store Payload :=
  { s with outbox := s.outbox.map fun x =>
      if x.row.pk ∈ pks ∧ x.deletedAt = none then { x with deletedAt := some deletedAt } else x }

def Codec.eventID (codec : Codec Payload Meta) (r : OutboxRow Payload) : Option String :=
  match codec.unmarshal r.payload with
  | .ok e => some e.eventID
  | .error _ => none

def Distinct (codec : Codec Payload Meta) (rows : List (OutboxRow Payload)) : Prop :=
  (rows.map (·.pk)).Nodup ∧ (rows.filterMap codec.eventID).Nodup

instance (codec : Codec Payload Meta) (rows : List (OutboxRow Payload)) :
    Decidable (Distinct codec rows) := by
  unfold Distinct
  infer_instance

/-! ### Operations -/

/-- The atomic operations. -/
inductive Op (Payload : Type) where
  | insertOutbox (rows : List (OutboxRow Payload))
  | enter
  | leave
  | begin
  | find
  | now
  | insertAuditLogs (rows : List (OutboxRow Payload)) (nowMillis : Int) (logs : List AuditLogV1)
  | mark (pks : List Nat) (deletedAt : Int)
  | commit (pks : List Nat) (deletedAt : Int)
  deriving DecidableEq

abbrev Op.Ret : Op Payload → Type
  | .insertOutbox _ | .enter | .leave => Unit
  | .begin | .insertAuditLogs _ _ _ | .mark _ _ | .commit _ _ => Option String
  | .find => Except String (List (OutboxRow Payload))
  | .now => Int

/-- The clock in milliseconds, an error of the operation, and whether an operation that fails has
taken effect nevertheless. -/
structure Env where
  now : Int
  err : Option String
  applied : Bool
  deriving DecidableEq

def Env.write {σ : Type} (e : Env) (s s' : σ) : Option String × σ :=
  (e.err, if e.err.isNone || e.applied then s' else s)

def apply [DecidableEq Payload] (codec : Codec Payload Meta) :
    (op : Op Payload) → Env → Store Payload → Option (op.Ret × Store Payload)
  | .insertOutbox rows, _, s =>
    if Distinct codec (s.outbox.map (·.row) ++ rows) then
      some ((), { s with outbox := s.outbox ++ rows.map fun r => ⟨r, none⟩ })
    else none
  | .enter, _, s => if s.busy then none else some ((), { s with busy := true })
  | .leave, _, s => some ((), { s with busy := false })
  | .begin, e, s => some (e.err, s)
  | .find, e, s =>
    some (match e.err with
      | some err => .error err
      | none => .ok s.findBatch, s)
  | .now, e, s => some (e.now, s)
  | .insertAuditLogs rows nowMillis logs, e, s =>
    some (e.write s (s.insertBlock ⟨rows, nowMillis, logs⟩))
  | .mark _ _, e, s => some (e.err, s)
  | .commit pks deletedAt, e, s => some (e.write s (s.markDeleted pks deletedAt))

abbrev Code (Payload α : Type) := Prog (Op Payload) Op.Ret Empty α

def clockMillis : Code Payload Int := Prog.perform Op.now

def beginTx : Code Payload (Option String) := Prog.perform Op.begin

def findClickhouseOutboxBatch : Code Payload (Except String (List (OutboxRow Payload))) :=
  Prog.perform Op.find

def insertAuditLogs (rows : List (OutboxRow Payload)) (nowMillis : Int) (logs : List AuditLogV1) :
    Code Payload (Option String) :=
  Prog.perform (Op.insertAuditLogs rows nowMillis logs)

def markClickhouseOutboxBatchDeleted (pks : List Nat) (deletedAt : Int) :
    Code Payload (Option String) :=
  Prog.perform (Op.mark pks deletedAt)

def commitTx (pks : List Nat) (deletedAt : Int) : Code Payload (Option String) :=
  Prog.perform (Op.commit pks deletedAt)

/-! ### `exportBatch` and `Handle` -/

section Export

variable (codec : Codec Payload Meta)

def decodeRow (r : OutboxRow Payload) : Except String (Event Meta) :=
  wrap ("decode outbox payload pk=" ++ toString r.pk) (codec.unmarshal r.payload)

def finish (pks : List Nat) (deletedAt : Int) (exported : Nat) :
    Code Payload (Except String Nat) := do
  match ← commitTx pks deletedAt with
  | some err => pure (.error err)
  | none => pure (.ok exported)

def shipBatch (rows : List (OutboxRow Payload)) (events : List (Event Meta)) :
    Code Payload (Except String Nat) := do
  let nowMillis ← clockMillis
  match buildCHRows codec nowMillis events with
  | .error err => pure (.error ("build clickhouse rows: " ++ err))
  | .ok chRows => do
    match ← insertAuditLogs rows nowMillis chRows with
    | some err => pure (.error ("insert clickhouse: " ++ err))
    | none => do
      let deletedAt ← clockMillis
      match ← markClickhouseOutboxBatchDeleted (rows.map (·.pk)) deletedAt with
      | some err => pure (.error ("mark outbox batch deleted: " ++ err))
      | none => finish (rows.map (·.pk)) deletedAt events.length

def exportBatch : Code Payload (Except String Nat) := do
  match ← beginTx with
  | some err => pure (.error err)
  | none => do
    match ← findClickhouseOutboxBatch with
    | .error err => pure (.error ("find outbox batch: " ++ err))
    | .ok rows =>
      if rows.length = 0 then finish [] 0 0
      else
        match rows.mapM (decodeRow codec) with
        | .error err => pure (.error err)
        | .ok events => shipBatch codec rows events

/-- The loop of `Handle` over the given number of attempts: a failed batch is tried again, a full
batch is followed by the next. -/
def drain : Nat → Code Payload Unit
  | 0 => pure ()
  | n + 1 => do
    match ← exportBatch codec with
    | .error _ => drain n
    | .ok exported => if exported < batchLimit then pure () else drain n

def handle (attempts : Nat) : Code Payload Unit := do
  let _ ← Prog.perform Op.enter
  drain codec attempts
  Prog.perform Op.leave

inductive Call (Payload : Type) where
  | insert (rows : List (OutboxRow Payload))
  | handle (attempts : Nat)
  deriving DecidableEq

def body : Call Payload → Code Payload Unit
  | .insert rows => Prog.perform (Op.insertOutbox rows)
  | .handle attempts => Unkey.AuditExport.handle codec attempts

abbrev ExportWorld (Payload : Type) :=
  World (Store Payload) (Call Payload) (Op Payload) Op.Ret Empty

abbrev exportStep [DecidableEq Payload] :=
  worldStep (fun _ : Call Payload => apply codec) (body codec)

end Export

/-! ### What is in ClickHouse -/

def Store.exportedIDs (s : Store Payload) : List String :=
  (s.blocks.flatMap (·.logs)).map (·.eventID)

def Store.timesExported (s : Store Payload) (eventID : String) : Nat :=
  s.exportedIDs.count eventID

structure Unexported (codec : Codec Payload Meta) (s : Store Payload) : Prop where
  distinct : Distinct codec (s.outbox.map (·.row))
  unmarked : ∀ x ∈ s.outbox, x.deletedAt = none
  empty : s.blocks = []

end Unkey.AuditExport
