import Mathlib.Data.List.Nodup
import Unkey.Base.Fallible
import Unkey.Base.GoSlice

/-!
# Importing keys

`migrateKeys` stores keys by the hashes of another system.
-/

namespace Unkey.Keys

open Unkey.Base

structure Refill where
  monthly : Bool
  amount : Int
  refillDay : Int

structure Credits where
  /-- Not given, `null`, or a number. -/
  remaining : Option (Option Int)
  refill : Option Refill

structure MigrationEntry where
  hash : String
  name : Option String
  «meta» : Option (Option String)
  expires : Option Int
  enabled : Option Bool
  credits : Option Credits

structure InsertKeyParams where
  id : String
  hash : String
  keySpaceID : String
  start : String
  workspaceID : String
  name : Option String
  «meta» : Option String
  pendingMigrationID : Option String
  expires : Option Int
  createdAtM : Int
  enabled : Bool
  remainingRequests : Option Int
  refillDay : Option Int
  refillAmount : Option Int
  deriving DecidableEq

structure MigrateCall where
  keySpaceID : String
  workspaceID : String
  migrationID : String
  now : Int

structure MigrateResponse where
  migrated : List (String × String)
  failed : List String
  deriving DecidableEq

def marshal : Option (Option String) → Except String (Option String)
  | some none => .error "Invalid metadata format."
  | some (some text) => .ok (some text)
  | none => .ok none

def dayOfRefill : Option Refill → Except String (Option Int)
  | none => .ok none
  | some refill =>
    if refill.monthly = false then .ok none
    else if refill.refillDay = 0 then
      .error "`refillDay` must be provided when the refill interval is `monthly`."
    else .ok (some refill.refillDay)

/-- The handler asks whether `remaining` is given and then takes its value, which panics on `null`. -/
def remainingOf : Option (Option Int) → Except String (Option Int)
  | none => .ok none
  | some none => .error "panic: value is null"
  | some (some n) => .ok (some n)

def newKey (c : MigrateCall) (id : String) (e : MigrationEntry) : Except String InsertKeyParams := do
  let text ← marshal e.meta
  let remaining ← remainingOf (e.credits.bind (·.remaining))
  let refill := e.credits.bind (·.refill)
  let refillDay ← dayOfRefill refill
  return {
    id := id
    hash := e.hash
    keySpaceID := c.keySpaceID
    start := ""
    workspaceID := c.workspaceID
    name := e.name.filter (· ≠ "")
    «meta» := text
    pendingMigrationID := some c.migrationID
    expires := e.expires
    createdAtM := c.now
    enabled := e.enabled.getD true
    remainingRequests := remaining
    refillDay := refillDay
    refillAmount := refill.map (·.amount) }

def collect (c : MigrateCall) : List (MigrationEntry × String) →
    (String → Option InsertKeyParams) → Except String (String → Option InsertKeyParams)
  | [], keysToInsert => .ok keysToInsert
  | (e, id) :: rest, keysToInsert => do
    let key ← newKey c id e
    collect c rest (Function.update keysToInsert e.hash (some key))

def deduplicate (items : List String) : List String :=
  items.foldl (fun result item => if item ∈ result then result else result ++ [item]) []

def chunkSize : Nat := 1000

def chunk (items : List InsertKeyParams) (size : Nat) : List (List InsertKeyParams) :=
  (List.range ((items.length + size - 1) / size)).map fun i => slice items (i * size) ((i + 1) * size)

def insertKey (table : List InsertKeyParams) (key : InsertKeyParams) :
    Except String (List InsertKeyParams) :=
  if ∃ k ∈ table, k.id = key.id ∨ k.hash = key.hash then .error "duplicate entry"
  else .ok (table ++ [key])

def insertKeys (table rows : List InsertKeyParams) : Except String (List InsertKeyParams) :=
  rows.foldlM insertKey table

/-- The hashes of the request that are stored already. -/
def failedHashes (table : List InsertKeyParams) (entries : List (MigrationEntry × String)) :
    List String :=
  (table.filter (·.hash ∈ deduplicate (entries.map (·.1.hash)))).map (·.hash)

/-- The rows to insert, one for every entry whose hash is new. -/
def keysArray (table : List InsertKeyParams) (entries : List (MigrationEntry × String))
    (keysToInsert : String → Option InsertKeyParams) : List InsertKeyParams :=
  entries.filterMap fun x =>
    if x.1.hash ∈ failedHashes table entries then none else keysToInsert x.1.hash

def migrateKeys (c : MigrateCall) (table : List InsertKeyParams)
    (entries : List (MigrationEntry × String)) :
    Except String (MigrateResponse × List InsertKeyParams) := do
  let keysToInsert ← collect c entries fun _ => none
  let keys := keysArray table entries keysToInsert
  let stored ← (chunk keys chunkSize).foldlM insertKeys table
  return (⟨keys.map fun key => (key.hash, key.id), failedHashes table entries⟩, stored)

/-! ### The passes -/

variable {c : MigrateCall} {table : List InsertKeyParams}
  {entries : List (MigrationEntry × String)}

theorem newKey_eq_ok {id : String} {e : MigrationEntry} {key : InsertKeyParams}
    (h : newKey c id e = .ok key) :
    key.hash = e.hash ∧ key.id = id ∧ e.credits.bind (·.remaining) ≠ some none := by
  obtain ⟨_, _, h⟩ := bind_eq_ok h
  obtain ⟨_, hremaining, h⟩ := bind_eq_ok h
  obtain ⟨_, _, h⟩ := bind_eq_ok h
  cases h
  refine ⟨rfl, rfl, fun hnull => ?_⟩
  rw [hnull] at hremaining
  cases hremaining

/-- Metadata that can be marshalled, and a day for a monthly refill. -/
def MigrationEntry.Valid (e : MigrationEntry) : Prop :=
  (∃ text, marshal e.meta = .ok text) ∧ ∃ day, dayOfRefill (e.credits.bind (·.refill)) = .ok day

theorem MigrationEntry.Valid.newKey {e : MigrationEntry} (he : e.Valid)
    (hnull : e.credits.bind (·.remaining) ≠ some none) (id : String) :
    ∃ key, newKey c id e = .ok key := by
  obtain ⟨⟨text, htext⟩, day, hday⟩ := he
  have hremaining : ∃ n, remainingOf (e.credits.bind (·.remaining)) = .ok n := by
    rcases h : e.credits.bind (·.remaining) with _ | _ | n
    · exact ⟨_, rfl⟩
    · exact absurd h hnull
    · exact ⟨_, rfl⟩
  obtain ⟨n, hn⟩ := hremaining
  rw [Keys.newKey, htext, ok_bind, hn, ok_bind]
  dsimp only
  rw [hday, ok_bind]
  exact ⟨_, rfl⟩

theorem mem_deduplicate {items : List String} {x : String} : x ∈ deduplicate items ↔ x ∈ items := by
  have hfold : ∀ (items result : List String), x ∈ items.foldl (fun result item =>
      if item ∈ result then result else result ++ [item]) result ↔ x ∈ result ∨ x ∈ items := by
    intro items
    induction items with
    | nil => simp
    | cons item items ih =>
      intro result
      rw [List.foldl_cons, ih]
      split <;> simp <;> grind
  simp [deduplicate, hfold]

theorem newKey_of_collect {m m' : String → Option InsertKeyParams}
    (h : collect c entries m = .ok m') : ∀ x ∈ entries, ∃ key, newKey c x.2 x.1 = .ok key := by
  induction entries generalizing m with
  | nil => exact fun _ hx => by cases hx
  | cons x entries ih =>
    obtain ⟨key, hkey, hrest⟩ := bind_eq_ok h
    exact List.forall_mem_cons.mpr ⟨⟨key, hkey⟩, ih hrest⟩

theorem exists_collect (hvalid : ∀ x ∈ entries, ∃ key, newKey c x.2 x.1 = .ok key)
    (keysToInsert : String → Option InsertKeyParams) :
    ∃ m, collect c entries keysToInsert = .ok m ∧
      (∀ h, (∀ x ∈ entries, x.1.hash ≠ h) → m h = keysToInsert h) ∧
      ∀ x ∈ entries, ∃ key, m x.1.hash = some key ∧ key.hash = x.1.hash ∧
        ((∀ y ∈ entries, y.1.hash = x.1.hash → y = x) → key.id = x.2) := by
  induction entries generalizing keysToInsert with
  | nil => exact ⟨keysToInsert, rfl, fun _ _ => rfl, fun _ hx => by cases hx⟩
  | cons x entries ih =>
    rw [List.forall_mem_cons] at hvalid
    obtain ⟨key, hkey⟩ := hvalid.1
    obtain ⟨m, hm, hother, hown⟩ :=
      ih hvalid.2 (Function.update keysToInsert x.1.hash (some key))
    refine ⟨m, ?_, ?_, ?_⟩
    · rw [collect, hkey]
      exact hm
    · grind
    · intro y hy
      by_cases hrest : ∃ z ∈ entries, z.1.hash = y.1.hash
      · -- the last entry with the hash decides
        obtain ⟨z, hz, hzy⟩ := hrest
        obtain ⟨key', hkey', hhash, hid⟩ := hown z hz
        refine ⟨key', hzy ▸ hkey', hhash.trans hzy, fun hunique => ?_⟩
        obtain rfl := hunique z (List.mem_cons_of_mem _ hz) hzy
        exact hid fun v hv => hunique v (List.mem_cons_of_mem _ hv)
      · obtain rfl : y = x := (List.mem_cons.mp hy).resolve_right fun h => hrest ⟨y, h, rfl⟩
        obtain ⟨hhash, hid, -⟩ := newKey_eq_ok hkey
        refine ⟨key, ?_, hhash, fun _ => hid⟩
        rw [hother y.1.hash fun z hz heq => hrest ⟨z, hz, heq⟩, Function.update_self]

theorem flatten_chunk (items : List InsertKeyParams) : (chunk items chunkSize).flatten = items := by
  have := flatten_slices items (· * chunkSize) (fun i j hij => Nat.mul_le_mul_right _ hij)
    (Nat.zero_mul _) ((items.length + chunkSize - 1) / chunkSize)
  rw [chunk, this, List.take_of_length_le]
  show items.length ≤ (items.length + 1000 - 1) / 1000 * 1000
  omega

theorem insertKeys_eq {rows : List InsertKeyParams} (hids : (rows.map (·.id)).Nodup)
    (hhashes : (rows.map (·.hash)).Nodup)
    (hnew : ∀ k ∈ table, ∀ key ∈ rows, k.id ≠ key.id ∧ k.hash ≠ key.hash) :
    insertKeys table rows = .ok (table ++ rows) := by
  induction rows generalizing table with
  | nil => rw [List.append_nil]; rfl
  | cons key rows ih =>
    rw [List.map_cons, List.nodup_cons] at hids hhashes
    rw [insertKeys, List.foldlM_cons, insertKey, if_neg]
    · refine (ih hids.2 hhashes.2 ?_).trans (by simp)
      intro k hk key' hkey'
      rcases List.mem_append.mp hk with hk | hk
      · exact hnew k hk key' (List.mem_cons_of_mem _ hkey')
      · grind
    · grind

theorem nodup_of_insertKeys {rows table' : List InsertKeyParams}
    (hnodup : (table.map (·.hash)).Nodup) (h : insertKeys table rows = .ok table') :
    (rows.map (·.hash)).Nodup := by
  have happend : ((table ++ rows).map (·.hash)).Nodup := by
    induction rows generalizing table with
    | nil => rwa [List.append_nil]
    | cons key rows ih =>
      obtain ⟨stored, hstored, hrest⟩ := bind_eq_ok h
      rw [insertKey] at hstored
      split at hstored
      · cases hstored
      · rename_i hnew
        cases hstored
        rw [List.append_cons]
        refine ih ?_ hrest
        rw [List.map_append, List.nodup_append]
        refine ⟨hnodup, List.nodup_singleton _, fun h hh h' hh' => ?_⟩
        obtain ⟨k, hk, rfl⟩ := List.mem_map.mp hh
        rw [List.mem_singleton.mp hh']
        exact fun heq => hnew ⟨k, hk, .inr heq⟩
  rw [List.map_append] at happend
  exact (List.nodup_append.mp happend).2.1

theorem foldlM_insertKeys (chunks : List (List InsertKeyParams)) :
    chunks.foldlM insertKeys table = insertKeys table chunks.flatten := by
  induction chunks generalizing table with
  | nil => rfl
  | cons rows chunks ih =>
    rw [List.foldlM_cons, List.flatten_cons, insertKeys, insertKeys, List.foldlM_append]
    exact congrArg _ (funext fun _ => ih)

def newEntries (table : List InsertKeyParams) (entries : List (MigrationEntry × String)) :
    List (MigrationEntry × String) :=
  entries.filter fun x => x.1.hash ∉ table.map (·.hash)

theorem mem_failedHashes {h : String} : h ∈ failedHashes table entries ↔
    h ∈ entries.map (·.1.hash) ∧ h ∈ table.map (·.hash) := by
  grind [failedHashes, mem_deduplicate]

theorem mem_newEntries {x : MigrationEntry × String} : x ∈ newEntries table entries ↔
    x ∈ entries ∧ x.1.hash ∉ failedHashes table entries := by
  rw [newEntries, List.mem_filter, decide_eq_true_iff, mem_failedHashes]
  exact and_congr_right fun hx => not_congr (and_iff_right (List.mem_map_of_mem hx)).symm

theorem mem_hashes_newEntries {h : String} : h ∈ (newEntries table entries).map (·.1.hash) ↔
    h ∈ entries.map (·.1.hash) ∧ h ∉ failedHashes table entries := by
  rw [List.mem_map, List.mem_map]
  constructor
  · rintro ⟨x, hx, rfl⟩
    exact ⟨⟨x, (mem_newEntries.mp hx).1, rfl⟩, (mem_newEntries.mp hx).2⟩
  · rintro ⟨⟨x, hx, rfl⟩, hnew⟩
    exact ⟨x, mem_newEntries.mpr ⟨hx, hnew⟩, rfl⟩

/-- What the rows have in common with the entries they are made from. -/
theorem map_keysArray {α : Type} {m : String → Option InsertKeyParams} {f : InsertKeyParams → α}
    {g : MigrationEntry × String → α}
    (hkey : ∀ x ∈ newEntries table entries, ∃ key, m x.1.hash = some key ∧ f key = g x) :
    (keysArray table entries m).map f = (newEntries table entries).map g := by
  have hfilter : newEntries table entries =
      entries.filter fun x => decide (x.1.hash ∉ failedHashes table entries) :=
    List.filter_congr fun x hx => by
      simp only [mem_failedHashes, List.mem_map_of_mem (f := (·.1.hash)) hx, true_and]
  simp only [mem_newEntries] at hkey
  rw [hfilter, keysArray]
  clear hfilter
  generalize failedHashes table entries = failed at hkey
  induction entries with
  | nil => rfl
  | cons x entries ih => grind

theorem migrateKeys_eq {m : String → Option InsertKeyParams}
    (hm : collect c entries (fun _ => none) = .ok m) :
    migrateKeys c table entries = insertKeys table (keysArray table entries m) >>= fun stored =>
      .ok (⟨(keysArray table entries m).map fun key => (key.hash, key.id),
        failedHashes table entries⟩, stored) := by
  rw [migrateKeys, hm, ok_bind]
  show ((chunk (keysArray table entries m) chunkSize).foldlM insertKeys table >>= _) = _
  rw [foldlM_insertKeys, flatten_chunk]
  rfl

/-- The request succeeds, each of its hashes is reported once, as failed exactly if it was stored,
and the table has one more row for each that is reported as migrated, with the reported id. -/
def Accounted (c : MigrateCall) (table : List InsertKeyParams)
    (entries : List (MigrationEntry × String)) : Prop :=
  ∃ response rows, migrateKeys c table entries = .ok (response, table ++ rows) ∧
    rows.map (fun key => (key.hash, key.id)) = response.migrated ∧
    (∀ h, (response.migrated.map (·.1) ++ response.failed).count h =
      if h ∈ entries.map (·.1.hash) then 1 else 0) ∧
    ∀ h ∈ entries.map (·.1.hash), h ∈ response.failed ↔ h ∈ table.map (·.hash)

theorem nodup_of_migrateKeys {result : MigrateResponse × List InsertKeyParams}
    (hhashes : (table.map (·.hash)).Nodup) (h : migrateKeys c table entries = .ok result) :
    (∀ x ∈ entries, x.1.credits.bind (·.remaining) ≠ some none) ∧
      ((newEntries table entries).map (·.1.hash)).Nodup := by
  obtain ⟨m, hm, -⟩ := bind_eq_ok h
  have hvalid := newKey_of_collect hm
  obtain ⟨m', hm', -, hown⟩ := exists_collect hvalid fun _ => none
  cases hm.symm.trans hm'
  constructor
  · intro x hx
    obtain ⟨key, hkey⟩ := hvalid x hx
    exact (newKey_eq_ok hkey).2.2
  · rw [migrateKeys_eq hm] at h
    obtain ⟨stored, hstored, -⟩ := bind_eq_ok h
    rw [← map_keysArray (m := m) (f := (·.hash)) fun x hx => ?_]
    · exact nodup_of_insertKeys hhashes hstored
    · obtain ⟨key, hkey, hhash, -⟩ := hown x (mem_newEntries.mp hx).1
      exact ⟨key, hkey, hhash⟩

/-- A request is accounted for exactly when no entry has `null` credits and no hash that is not
stored yet repeats. -/
theorem migrateKeys_accounts_iff (c : MigrateCall) (table : List InsertKeyParams)
    (entries : List (MigrationEntry × String)) (hhashes : (table.map (·.hash)).Nodup)
    (hvalid : ∀ x ∈ entries, x.1.Valid)
    (hids : (entries.map (·.2)).Nodup) (hfresh : ∀ x ∈ entries, ∀ k ∈ table, k.id ≠ x.2) :
    Accounted c table entries ↔ (∀ x ∈ entries, x.1.credits.bind (·.remaining) ≠ some none) ∧
      ((newEntries table entries).map (·.1.hash)).Nodup := by
  refine ⟨fun ⟨response, rows, hok, _⟩ => nodup_of_migrateKeys hhashes hok, ?_⟩
  rintro ⟨hnull, hrepeat⟩
  obtain ⟨m, hm, -, hown⟩ :=
    exists_collect (fun x hx => (hvalid x hx).newKey (hnull x hx) x.2) fun _ => none
  have hrows : (keysArray table entries m).map (fun key => (key.hash, key.id)) =
      (newEntries table entries).map fun x => (x.1.hash, x.2) := by
    refine map_keysArray fun x hx => ?_
    obtain ⟨key, hkey, hhash, hid⟩ := hown x (mem_newEntries.mp hx).1
    refine ⟨key, hkey, Prod.ext hhash (hid fun y hy heq => ?_)⟩
    have hy : y ∈ newEntries table entries :=
      mem_newEntries.mpr ⟨hy, heq ▸ (mem_newEntries.mp hx).2⟩
    exact List.inj_on_of_nodup_map hrepeat hy hx heq
  set rows := keysArray table entries m
  have hrowHashes : rows.map (·.hash) = (newEntries table entries).map (·.1.hash) := by
    have := congrArg (List.map Prod.fst) hrows
    rwa [List.map_map, List.map_map] at this
  have hrowIds : rows.map (·.id) = (newEntries table entries).map (·.2) := by
    have := congrArg (List.map Prod.snd) hrows
    rwa [List.map_map, List.map_map] at this
  have hmigrated : ∀ h, h ∈ rows.map (·.hash) ↔
      h ∈ entries.map (·.1.hash) ∧ h ∉ failedHashes table entries := fun h => by
    rw [hrowHashes, mem_hashes_newEntries]
  have hinsert : insertKeys table rows = .ok (table ++ rows) := by
    refine insertKeys_eq (hrowIds ▸ hids.sublist (List.filter_sublist.map _)) (hrowHashes ▸ hrepeat)
      fun k hk key hkey => ⟨?_, ?_⟩
    · have hmem : key.id ∈ rows.map (·.id) := List.mem_map_of_mem hkey
      rw [hrowIds] at hmem
      obtain ⟨x, hx, hid⟩ := List.mem_map.mp hmem
      exact hid ▸ hfresh x (mem_newEntries.mp hx).1 k hk
    · intro heq
      obtain ⟨hasked, hnew⟩ := (hmigrated _).mp (List.mem_map_of_mem hkey)
      exact hnew (mem_failedHashes.mpr ⟨hasked, heq ▸ List.mem_map_of_mem hk⟩)
  refine ⟨_, rows, by rw [migrateKeys_eq hm, hinsert, ok_bind], rfl, ?_, ?_⟩
  · intro h
    have hfailed : (failedHashes table entries).Nodup :=
      hhashes.sublist (List.filter_sublist.map _)
    have hnodup : (rows.map (·.hash) ++ failedHashes table entries).Nodup := by grind
    rw [List.map_map]
    refine (List.Nodup.count hnodup).trans (if_congr ?_ rfl rfl)
    rw [List.mem_append, hmigrated, mem_failedHashes]
    tauto
  · exact fun h hh => ⟨fun hf => (mem_failedHashes.mp hf).2, fun hs => mem_failedHashes.mpr ⟨hh, hs⟩⟩

/-! ### A hash that repeats -/

def sampleEntry (hash : String) : MigrationEntry := ⟨hash, none, none, none, none, none⟩

/-- Two entries with one new hash make two rows with one id, and credits that are `null` panic. -/
theorem migrateKeys_repeated_or_null_fails :
    migrateKeys ⟨"ks", "ws", "mig", 0⟩ [] [(sampleEntry "h", "key_1"), (sampleEntry "h", "key_2")] =
      .error "duplicate entry" ∧
    migrateKeys ⟨"ks", "ws", "mig", 0⟩ []
      [({ sampleEntry "h" with credits := some ⟨some none, none⟩ }, "key_1")] =
      .error "panic: value is null" := by
  decide

theorem migrateKeys_accounts_iff_pair : Accounted ⟨"ks", "ws", "mig", 0⟩ []
    [(sampleEntry "h", "key_1"), (sampleEntry "g", "key_2")] := by
  refine (migrateKeys_accounts_iff _ [] _ List.nodup_nil ?_ (by decide) (by simp)).mpr (by decide)
  simp [MigrationEntry.Valid, sampleEntry, marshal, dayOfRefill]

end Unkey.Keys
