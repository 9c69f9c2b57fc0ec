import Mathlib.Data.List.Perm.Basic
import Mathlib.Data.List.Sort
import Unkey.Base.Fallible
import Unkey.Base.GoInt
import Unkey.Base.GoSlice

/-!
# Usage read in shards

The hourly billing run reads the usage of all workspaces in up to eight queries that complete in any
order.
-/

namespace Unkey.DeployBilling

open Unkey.Base

/-- `float64`, with `perHour` the product with `secondsPerHour` and `perGiB` the quotient of a
converted integer by `bytesPerGiB`. -/
structure Floats (F : Type) where
  zero : F
  add : F → F → F
  perHour : F → F
  perGiB : Int → F

structure InstanceMeterUsage (F : Type) where
  workspaceID : String
  cpuSeconds : F
  memoryGiBHours : F
  diskGiBHours : F
  egressBytes : Int

structure ActiveKeysUsage where
  workspaceID : String
  activeKeys : Int

structure MeterValues (F : Type) where
  cpuSeconds : F
  memoryGiBSeconds : F
  egressGiB : F
  diskGiBSeconds : F
  activeKeys : Int

structure UsageAccumulator (F : Type) where
  cpuSeconds : F
  memoryGiBHours : F
  diskGiBHours : F
  egressBytes : Int

structure GetInstanceMeterUsageRequest where
  workspaceID : String
  workspaceIDs : Option (List String)
  start : Int
  stop : Int

structure GetActiveKeysUsageRequest where
  workspaceID : String
  workspaceIDs : Option (List String)
  year : Int
  month : Int

structure UsageReader (F : Type) where
  getInstanceMeterUsage : GetInstanceMeterUsageRequest → Except String (List (InstanceMeterUsage F))
  getActiveKeysUsage : GetActiveKeysUsageRequest → Except String (List ActiveKeysUsage)

structure Period where
  year : Int
  month : Int
  start : Int

variable {F : Type} (fl : Floats F)

def UsageAccumulator.addRow (a : UsageAccumulator F) (r : InstanceMeterUsage F) :
    UsageAccumulator F where
  cpuSeconds := fl.add a.cpuSeconds r.cpuSeconds
  memoryGiBHours := fl.add a.memoryGiBHours r.memoryGiBHours
  diskGiBHours := fl.add a.diskGiBHours r.diskGiBHours
  egressBytes := int64 (a.egressBytes + r.egressBytes)

def accumulate (sum : Option (UsageAccumulator F)) (r : InstanceMeterUsage F) :
    Option (UsageAccumulator F) :=
  some ((sum.getD ⟨fl.zero, fl.zero, fl.zero, 0⟩).addRow fl r)

def sumRow (sums : String → Option (UsageAccumulator F)) (r : InstanceMeterUsage F) :
    String → Option (UsageAccumulator F) :=
  Function.update sums r.workspaceID (accumulate fl (sums r.workspaceID) r)

def UsageAccumulator.values (a : UsageAccumulator F) : MeterValues F where
  cpuSeconds := a.cpuSeconds
  memoryGiBSeconds := fl.perHour a.memoryGiBHours
  egressGiB := fl.perGiB a.egressBytes
  diskGiBSeconds := fl.perHour a.diskGiBHours
  activeKeys := 0

def aggregateUsage (rows : List (InstanceMeterUsage F)) (id : String) : Option (MeterValues F) :=
  (rows.foldl (sumRow fl) (fun _ => none) id).map (·.values fl)

def mergeActiveKeys (values : String → Option (MeterValues F)) (rows : List ActiveKeysUsage) :
    String → Option (MeterValues F) :=
  rows.foldl (fun values r =>
    let v := (values r.workspaceID).getD ⟨fl.zero, fl.zero, fl.zero, fl.zero, 0⟩
    Function.update values r.workspaceID (some { v with activeKeys := r.activeKeys })) values

def maxInstanceUsageShards : Nat := 8

def sortStrings (ids : List String) : List String := ids.insertionSort (· ≤ ·)

def shardIDs (sorted : List String) (count i : Nat) : List String :=
  slice sorted (i * sorted.length / count) ((i + 1) * sorted.length / count)

def instanceMeterUsageShards (req : GetInstanceMeterUsageRequest) :
    List GetInstanceMeterUsageRequest :=
  let ids := req.workspaceIDs.getD []
  if ids.length < 2 then [req]
  else
    let shardCount := min ids.length maxInstanceUsageShards
    (List.range shardCount).map fun shard =>
      { req with workspaceIDs := some (shardIDs (sortStrings ids) shardCount shard) }

structure InstanceMeterUsageShardResult (F : Type) where
  shard : Nat
  rows : List (InstanceMeterUsage F)

abbrev Future (F : Type) := Except String (InstanceMeterUsageShardResult F)

def readShard (usage : UsageReader F) (count shard : Nat) (req : GetInstanceMeterUsageRequest) :
    Future F :=
  match usage.getInstanceMeterUsage req with
  | .error err =>
    .error ("query instance usage shard " ++ toString (shard + 1) ++ "/" ++ toString count ++ ": " ++
      err)
  | .ok rows => .ok ⟨shard, rows⟩

def collectShards : List (Except String (Future F)) → List (List (InstanceMeterUsage F)) →
    Except String (List (List (InstanceMeterUsage F)))
  | [], rowsByShard => .ok rowsByShard
  | .error waitErr :: _, _ => .error ("wait for period usage shards: " ++ waitErr)
  | .ok (.error resultErr) :: _, _ => .error ("get period usage: " ++ resultErr)
  | .ok (.ok result) :: waits, rowsByShard =>
    collectShards waits (rowsByShard.set result.shard result.rows)

def readShards (usage : UsageReader F) (wait : List (Future F) → List (Except String (Future F)))
    (shards : List GetInstanceMeterUsageRequest) :
    Except String (List (List (InstanceMeterUsage F))) :=
  collectShards
    (wait (shards.zipIdx.map fun x => readShard usage shards.length x.2 x.1))
    (List.replicate shards.length [])

def fleetMeterValues (usage : UsageReader F)
    (wait : List (Future F) → List (Except String (Future F))) (p : Period) (endMillis : Int)
    (workspaceIDs : Option (List String)) :
    Except String (String → Option (MeterValues F)) :=
  if workspaceIDs = some [] then .ok fun _ => none
  else do
    let rowsByShard ← readShards usage wait
      (instanceMeterUsageShards ⟨"", workspaceIDs, p.start, endMillis⟩)
    let keyRows ← (usage.getActiveKeysUsage ⟨"", workspaceIDs, p.year, p.month⟩).mapError
      ("get active keys: " ++ ·)
    return mergeActiveKeys fl (aggregateUsage fl rowsByShard.flatten) keyRows

/-! ### Shards -/

theorem shardIDs_ne_nil {sorted : List String} {count i : Nat} (hle : count ≤ sorted.length)
    (hi : i < count) : shardIDs sorted count i ≠ [] := by
  have hpos : 0 < count := by omega
  have hstep : i * sorted.length / count + 1 ≤ (i + 1) * sorted.length / count := by
    rw [← Nat.add_div_right _ hpos, Nat.add_one_mul]
    exact Nat.div_le_div_right (Nat.add_le_add_left hle _)
  have hend : (i + 1) * sorted.length / count ≤ sorted.length :=
    Nat.div_le_of_le_mul (Nat.mul_le_mul_right _ hi)
  rw [shardIDs, slice, ← List.length_pos_iff, List.length_drop, List.length_take]
  omega

theorem exists_parts (req : GetInstanceMeterUsageRequest) {ids : List String} (hne : ids ≠ [])
    (hids : req.workspaceIDs = some ids) :
    ∃ parts : List (List String),
      instanceMeterUsageShards req = parts.map (fun part => { req with workspaceIDs := some part }) ∧
      parts.length = min ids.length maxInstanceUsageShards ∧ (∀ part ∈ parts, part ≠ []) ∧
      parts.flatten = sortStrings ids := by
  have hpos := List.length_pos_iff.mpr hne
  unfold instanceMeterUsageShards
  simp only [hids, Option.getD_some]
  split
  · obtain ⟨id, rfl⟩ := List.length_eq_one_iff.mp (show ids.length = 1 by omega)
    exact ⟨[[id]], by simp [← hids], rfl, by simp, rfl⟩
  · have hlength : (sortStrings ids).length = ids.length := List.length_insertionSort _ _
    have hcount : 0 < min ids.length maxInstanceUsageShards := by
      rw [maxInstanceUsageShards]
      omega
    refine ⟨(List.range (min ids.length maxInstanceUsageShards)).map
      (shardIDs (sortStrings ids) (min ids.length maxInstanceUsageShards)), ?_, by simp, ?_, ?_⟩
    · rw [List.map_map]
      rfl
    · intro part hpart
      obtain ⟨i, hi, rfl⟩ := List.mem_map.mp hpart
      exact shardIDs_ne_nil (hlength ▸ Nat.min_le_left ..) (List.mem_range.mp hi)
    · have := flatten_slices (sortStrings ids)
        (fun i => i * (sortStrings ids).length / min ids.length maxInstanceUsageShards)
        (fun i j hij => Nat.div_le_div_right (Nat.mul_le_mul_right _ hij)) (by simp)
        (min ids.length maxInstanceUsageShards)
      rw [Nat.mul_div_cancel_left _ hcount, List.take_length] at this
      exact this

theorem existsUnique_part {parts : List (List String)} (hnodup : parts.flatten.Nodup) {w : String}
    (hw : w ∈ parts.flatten) : ∃! i : Nat, ∃ part, parts[i]? = some part ∧ w ∈ part := by
  obtain ⟨part, hpart, hin⟩ := List.mem_flatten.mp hw
  obtain ⟨i, hi, hget⟩ := List.getElem_of_mem hpart
  refine ⟨i, ⟨part, List.getElem?_eq_some_iff.mpr ⟨hi, hget⟩, hin⟩, ?_⟩
  rintro j ⟨other, hother, hin'⟩
  obtain ⟨hj, hget'⟩ := List.getElem?_eq_some_iff.mp hother
  have hpairs := List.pairwise_iff_getElem.mp (List.nodup_flatten.mp hnodup).2
  rcases Nat.lt_trichotomy i j with hlt | heq | hlt
  · exact absurd (hget' ▸ hin') (hpairs i j hi hj hlt (hget ▸ hin))
  · exact heq.symm
  · exact absurd (hget ▸ hin) (hpairs j i hj hi hlt (hget' ▸ hin'))

/-! ### Completion -/

theorem collectShards_perm {results : List (InstanceMeterUsageShardResult F)}
    {waits : List (Except String (Future F))}
    (hwaits : waits.Perm (results.map fun r => .ok (.ok r)))
    (hnodup : (results.map (·.shard)).Nodup) (rowsByShard : List (List (InstanceMeterUsage F))) :
    collectShards waits rowsByShard =
      .ok (results.foldl (fun acc r => acc.set r.shard r.rows) rowsByShard) := by
  obtain ⟨completed, rfl, hperm⟩ := (List.eq_map_comp_perm _).ge _ _ hwaits
  have hcollect : ∀ acc, collectShards (completed.map fun r => .ok (.ok r)) acc =
      .ok (completed.foldl (fun acc r => acc.set r.shard r.rows) acc) := by
    clear hperm hwaits
    induction completed with
    | nil => exact fun _ => rfl
    | cons r rest ih => exact fun acc => ih _
  rw [hcollect]
  congr 1
  refine hperm.foldl_eq' (fun x hx y hy acc => ?_) _
  by_cases heq : x = y
  · rw [heq]
  · grind [List.set_comm, List.inj_on_of_nodup_map]

theorem foldl_set {α : Type} (xs : List α) (read : α → List (InstanceMeterUsage F))
    (done : List (List (InstanceMeterUsage F))) :
    ((xs.zipIdx done.length).map fun x => InstanceMeterUsageShardResult.mk x.2 (read x.1)).foldl
        (fun acc r => acc.set r.shard r.rows) (done ++ List.replicate xs.length []) =
      done ++ xs.map read := by
  induction xs generalizing done with
  | nil => simp
  | cons x xs ih =>
    have := ih (done ++ [read x])
    simpa [List.replicate_succ] using this

theorem readShards_eq {usage : UsageReader F}
    {wait : List (Future F) → List (Except String (Future F))}
    (hwait : ∀ futures, (wait futures).Perm (futures.map .ok))
    (shards : List GetInstanceMeterUsageRequest)
    (read : GetInstanceMeterUsageRequest → List (InstanceMeterUsage F))
    (hread : ∀ req ∈ shards, usage.getInstanceMeterUsage req = .ok (read req)) :
    readShards usage wait shards = .ok (shards.map read) := by
  set results := shards.zipIdx.map fun x => InstanceMeterUsageShardResult.mk x.2 (read x.1)
  have hfutures : shards.zipIdx.map (fun x => readShard usage shards.length x.2 x.1) =
      results.map .ok := by
    rw [List.map_map]
    refine List.map_congr_left fun x hx => ?_
    simp [readShard, hread x.1 (List.fst_mem_of_mem_zipIdx hx)]
  have hperm : (wait (results.map .ok)).Perm (results.map fun r => .ok (.ok r)) := by
    have := hwait (results.map .ok)
    rwa [List.map_map (l := results)] at this
  rw [readShards, hfutures, collectShards_perm hperm]
  · exact congrArg Except.ok (foldl_set shards read [])
  · simp [results, Function.comp_def, List.nodup_range']

/-! ### Sums -/

variable {fl}

theorem aggregateUsage_congr {rows rows' : List (InstanceMeterUsage F)} {id : String}
    (h : rows.filter (·.workspaceID = id) = rows'.filter (·.workspaceID = id)) :
    aggregateUsage fl rows id = aggregateUsage fl rows' id := by
  -- the entry of a workspace is changed by its own rows only
  have hfold : ∀ (rows : List (InstanceMeterUsage F)) sums,
      rows.foldl (sumRow fl) sums id =
        (rows.filter (·.workspaceID = id)).foldl (accumulate fl) (sums id) := by
    intro rows
    induction rows with
    | nil => exact fun _ => rfl
    | cons r rows ih =>
      intro sums
      rw [List.foldl_cons, ih]
      by_cases hid : r.workspaceID = id
      · simp [hid, sumRow]
      · simp [hid, sumRow, Function.update_of_ne (Ne.symm hid)]
  simp only [aggregateUsage, hfold, h]

theorem filter_flatten {read : List String → List (InstanceMeterUsage F)} {w : String}
    {own : List (InstanceMeterUsage F)}
    (hread : ∀ part, (read part).filter (·.workspaceID = w) = if w ∈ part then own else [])
    {parts : List (List String)} (hnodup : parts.flatten.Nodup) :
    ((parts.map read).flatten).filter (·.workspaceID = w) =
      if w ∈ parts.flatten then own else [] := by
  induction parts with
  | nil => rfl
  | cons part parts ih => grind

/-- For distinct workspaces and a reader that returns the rows of the workspaces it is asked for,
those of each in one order: there are as many shards as workspaces, at most eight. None is empty,
and their ids, joined, are the sorted ids. In whatever order the shards complete, the values are
those of one query for all. -/
theorem fleetMeterValues_sharded (fl : Floats F) (usage : UsageReader F) (p : Period)
    (endMillis : Int) (ids : List String) (hne : ids ≠ []) (hnodup : ids.Nodup)
    (read : List String → List (InstanceMeterUsage F)) (own : String → List (InstanceMeterUsage F))
    (hread : ∀ part, usage.getInstanceMeterUsage ⟨"", some part, p.start, endMillis⟩ =
      .ok (read part))
    (hown : ∀ part w, (read part).filter (·.workspaceID = w) = if w ∈ part then own w else [])
    (keyRows : List ActiveKeysUsage)
    (hkeys : usage.getActiveKeysUsage ⟨"", some ids, p.year, p.month⟩ = .ok keyRows)
    (wait : List (Future F) → List (Except String (Future F)))
    (hwait : ∀ futures, (wait futures).Perm (futures.map .ok)) :
    (∃ parts : List (List String),
      instanceMeterUsageShards ⟨"", some ids, p.start, endMillis⟩ =
        parts.map (fun part => ⟨"", some part, p.start, endMillis⟩) ∧
      parts.length = min ids.length 8 ∧ (∀ part ∈ parts, part ≠ []) ∧
      parts.flatten = sortStrings ids ∧
      ∀ w ∈ ids, ∃! i : Nat, ∃ part, parts[i]? = some part ∧ w ∈ part) ∧
    fleetMeterValues fl usage wait p endMillis (some ids) =
      .ok (mergeActiveKeys fl (aggregateUsage fl (read ids)) keyRows) := by
  obtain ⟨parts, hparts, hlength, hfilled, hflatten⟩ :=
    exists_parts ⟨"", some ids, p.start, endMillis⟩ hne rfl
  have hperm : parts.flatten.Perm ids := hflatten ▸ List.perm_insertionSort _ _
  have hdistinct := hperm.nodup_iff.mpr hnodup
  refine ⟨⟨parts, hparts, hlength, hfilled, hflatten, fun w hw =>
    existsUnique_part hdistinct (hperm.mem_iff.mpr hw)⟩, ?_⟩
  have hvalues : aggregateUsage fl (parts.map read).flatten = aggregateUsage fl (read ids) := by
    funext w
    apply aggregateUsage_congr
    rw [filter_flatten (fun part => hown part w) hdistinct, hown]
    simp only [hperm.mem_iff]
  have hrows := readShards_eq hwait (parts.map fun part =>
    GetInstanceMeterUsageRequest.mk "" (some part) p.start endMillis)
    (fun req => read (req.workspaceIDs.getD [])) (List.forall_mem_map.mpr fun part _ => hread part)
  rw [List.map_map] at hrows
  rw [fleetMeterValues, if_neg (by simpa using hne), hparts, hrows, hkeys, ok_bind, ← hvalues]
  rfl

def wholeNumbers : Floats Int := ⟨0, (· + ·), (3600 * ·), (· / 1073741824)⟩

def readTable (table : List (InstanceMeterUsage Int)) (part : List String) :
    List (InstanceMeterUsage Int) :=
  table.filter (·.workspaceID ∈ part)

def twoWorkspaces : List (InstanceMeterUsage Int) :=
  [⟨"ws_1", 2, 1, 0, 0⟩, ⟨"ws_2", 5, 1, 3, 9⟩, ⟨"ws_1", 4, 0, 0, 1⟩]

/-- The shard that is read last completes first. -/
theorem fleetMeterValues_sharded_reversed :
    fleetMeterValues wholeNumbers
      ⟨fun req => .ok (readTable twoWorkspaces (req.workspaceIDs.getD [])),
        fun _ => .ok [⟨"ws_1", 7⟩]⟩
      (fun futures => (futures.map .ok).reverse) ⟨2025, 1, 0⟩ 9 (some ["ws_2", "ws_1"]) =
    .ok (mergeActiveKeys wholeNumbers
      (aggregateUsage wholeNumbers (readTable twoWorkspaces ["ws_2", "ws_1"])) [⟨"ws_1", 7⟩]) := by
  refine (fleetMeterValues_sharded _ _ _ _ ["ws_2", "ws_1"] (by decide) (by decide)
    (readTable twoWorkspaces) (fun w => twoWorkspaces.filter (·.workspaceID = w))
    (fun _ => rfl) (fun part w => ?_) _ rfl _ fun futures => List.reverse_perm _).2
  rw [readTable, List.filter_filter]
  split_ifs with hw
  · refine List.filter_congr fun r _ => ?_
    by_cases hid : r.workspaceID = w <;> simp [hid, hw]
  · simp_all

end Unkey.DeployBilling
