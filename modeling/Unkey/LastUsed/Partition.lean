import Mathlib.Data.List.Dedup
import Mathlib.Data.List.Sort
import Mathlib.Data.Prod.Lex
import Mathlib.Data.String.Basic
import Unkey.Base.Run

/-!
# The sync of last-used times

`SyncPartition` pages through the latest usage of every key of its partition in the order of
time and key id, and remembers how far it has come.
-/

namespace Unkey.LastUsed

open Unkey.Base

/-- What the query reads of a row of `key_last_used_v1`. -/
structure UsageRow where
  workspaceID : String
  keySpaceID : String
  keyID : String
  time : Nat
  deriving DecidableEq

/-- A time and a key id, in the order of `ORDER BY last_used, key_id`. -/
abbrev Mark := Nat ×ₗ String

namespace UsageRow

def group (r : UsageRow) : String × String × String := (r.workspaceID, r.keySpaceID, r.keyID)

def mark (r : UsageRow) : Mark := toLex (r.time, r.keyID)

end UsageRow

structure Partition where
  cityHash64 : String → Nat
  partition : Nat
  totalPartitions : Nat
  limit : Nat

def Partition.owns (P : Partition) (keyID : String) : Bool :=
  P.cityHash64 keyID % P.totalPartitions == P.partition

def batchSize : Nat := 25000

def minuteMillis : Nat := 60000

def minute (time : Nat) : Nat := time / minuteMillis * minuteMillis

def lastUsed (rows : List UsageRow) (g : String × String × String) : Option Mark :=
  ((rows.filter (·.group = g)).map (·.time)).max?.map fun t => toLex (t, g.2.2)

/-- The query of `GetKeyLastUsedBatchPartitioned` before its `LIMIT`. -/
def found (P : Partition) (cursor : Mark) (rows : List UsageRow) : List Mark :=
  let read := rows.filter fun r => (ofLex cursor).1 ≤ r.time && P.owns r.keyID
  (((read.map UsageRow.group).dedup.filterMap (lastUsed read)).filter
    (cursor < ·)).insertionSort (· ≤ ·)

def fetch (P : Partition) (cursor : Mark) (rows : List UsageRow) : List Mark :=
  (found P cursor rows).take P.limit

/-! ### The update -/

/-- `last_used_at` of the keys that exist. -/
abbrev Keys := String → Option Nat

def updateKeysLastUsed (lastUsedAt : Nat) (keyIDs : List String) (keys : Keys) : Keys := fun id =>
  (keys id).map fun t => if id ∈ keyIDs ∧ t < lastUsedAt then lastUsedAt else t

def maxKeysPerUpdate : Nat := 500

def chunks (ids : List String) : List (List String) :=
  (List.range (ids.length / maxKeysPerUpdate + 1)).map fun i =>
    (ids.drop (i * maxKeysPerUpdate)).take maxKeysPerUpdate

def minutesOf (batch : List Mark) : List Nat := (batch.map fun m => minute (ofLex m).1).dedup

def idsAt (ts : Nat) (batch : List Mark) : List String :=
  (batch.filter fun m => minute (ofLex m).1 = ts).map fun m => (ofLex m).2

/-- `updateLastUsedBatch`; `order` is the order in which Go's map iteration yields the minutes. -/
def updateLastUsedBatch (order : List Nat) (batch : List Mark) (keys : Keys) : Keys :=
  order.foldl (fun keys ts =>
    (chunks (idsAt ts batch)).foldl (fun keys ids => updateKeysLastUsed ts ids keys) keys) keys

/-- The rows that are visible, the keys, and the persisted cursor of the partition. -/
structure World where
  rows : List UsageRow
  keys : Keys
  cursor : Mark

/-- A row becomes visible, or a run makes one batch. -/
inductive Event where
  | arrive (r : UsageRow)
  | batch (order : List Nat)

def step (P : Partition) (w : World) : Event → Option World
  | .arrive r => some { w with rows := r :: w.rows }
  | .batch order =>
    let batch := fetch P w.cursor w.rows
    if order.Perm (minutesOf batch) then
      some { w with
        keys := updateLastUsedBatch order batch w.keys
        cursor := batch.getLast?.getD w.cursor }
    else none

def initial (keys : Keys) : World := ⟨[], keys, toLex (0, "")⟩

def Completes (P : Partition) (w : World) : Prop := (fetch P w.cursor w.rows).length < P.limit

instance (P : Partition) (w : World) : Decidable (Completes P w) :=
  inferInstanceAs (Decidable (_ < _))

/-- Rows arrive ahead of the cursor. -/
def InOrder (_ : List (World × Event)) (w : World) : Event → Prop
  | .arrive r => w.cursor < r.mark
  | .batch _ => True

variable {P : Partition} {w w' : World} {r : UsageRow} {cursor m : Mark} {keys keys' : Keys}
  {id : String} {v : Nat}

theorem mem_found (hr : r ∈ w.rows) (hown : P.owns r.keyID = true) (hlt : cursor < r.mark) :
    ∃ r' ∈ w.rows, r'.group = r.group ∧ r.time ≤ r'.time ∧ r'.mark ∈ found P cursor w.rows := by
  have hle : (ofLex cursor).1 ≤ r.time := by
    rcases Prod.Lex.lt_iff.mp hlt with h | h
    · exact h.le
    · exact h.1.le
  have hread : r ∈ w.rows.filter fun r => (ofLex cursor).1 ≤ r.time && P.owns r.keyID := by
    simp [hr, hown, hle]
  set read := w.rows.filter fun r => (ofLex cursor).1 ≤ r.time && P.owns r.keyID with hset
  have htime : r.time ∈ (read.filter (·.group = r.group)).map (·.time) :=
    List.mem_map_of_mem (List.mem_filter.mpr ⟨hread, by simp⟩)
  obtain ⟨t, ht⟩ := Option.isSome_iff_exists.mp (List.isSome_max?_of_mem htime)
  obtain ⟨hmem, hmax⟩ := List.max?_eq_some_iff.mp ht
  obtain ⟨r', hr', rfl⟩ := List.mem_map.mp hmem
  obtain ⟨hr', hgroup⟩ := List.mem_filter.mp hr'
  have hgroup : r'.group = r.group := by simpa using hgroup
  have hkey : r'.keyID = r.keyID := congrArg (·.2.2) hgroup
  refine ⟨r', (List.mem_filter.mp hr').1, hgroup, hmax _ htime, ?_⟩
  have hmark : r.mark ≤ r'.mark := by
    refine Prod.Lex.toLex_mono ⟨hmax _ htime, ?_⟩
    exact hkey.ge
  rw [found, List.mem_insertionSort, List.mem_filter, List.mem_filterMap]
  refine ⟨⟨r.group, ?_, ?_⟩, decide_eq_true (hlt.trans_le hmark)⟩
  · exact List.mem_dedup.mpr (List.mem_map_of_mem hread)
  · rw [lastUsed, ht]
    exact congrArg (fun k => some (toLex (r'.time, k))) hkey.symm

theorem pairwise_found (P : Partition) (cursor : Mark) (rows : List UsageRow) :
    (found P cursor rows).Pairwise (· ≤ ·) := List.pairwise_insertionSort _ _

theorem step_batch {order : List Nat} (h : step P w (.batch order) = some w') :
    order.Perm (minutesOf (fetch P w.cursor w.rows)) ∧
      w' = { w with
        keys := updateLastUsedBatch order (fetch P w.cursor w.rows) w.keys
        cursor := (fetch P w.cursor w.rows).getLast?.getD w.cursor } := by
  obtain ⟨horder, heq⟩ := Option.ite_none_right_eq_some.mp h
  exact ⟨horder, (Option.some.inj heq).symm⟩

/-! ### What an update does -/

def Grows (keys keys' : Keys) : Prop := ∀ id t', keys' id = some t' → ∃ t, keys id = some t ∧ t ≤ t'

theorem grows_foldl {β : Type} {f : Keys → β → Keys} (hf : ∀ keys b, Grows keys (f keys b))
    (l : List β) (keys : Keys) : Grows keys (l.foldl f keys) := by
  induction l generalizing keys with
  | nil => exact fun _ t' h => ⟨t', h, le_rfl⟩
  | cons b l ih =>
    intro id t' h
    obtain ⟨t, ht, hle⟩ := ih (f keys b) id t' h
    obtain ⟨t₀, ht₀, hle₀⟩ := hf keys b id t ht
    exact ⟨t₀, ht₀, hle₀.trans hle⟩

theorem foldl_reaches {β : Type} {f : Keys → β → Keys} (hf : ∀ keys b, Grows keys (f keys b))
    {l : List β} {b : β} (hb : b ∈ l) (hreach : ∀ keys t, f keys b id = some t → v ≤ t)
    (keys : Keys) {t : Nat} (h : l.foldl f keys id = some t) : v ≤ t := by
  obtain ⟨before, after, rfl⟩ := List.append_of_mem hb
  rw [List.foldl_append, List.foldl_cons] at h
  obtain ⟨t₀, ht₀, hle⟩ := grows_foldl hf after _ id t h
  exact (hreach _ t₀ ht₀).trans hle

theorem grows_updateKeysLastUsed (ts : Nat) (ids : List String) (keys : Keys) :
    Grows keys (updateKeysLastUsed ts ids keys) := by
  intro id t' h
  obtain ⟨t, ht, rfl⟩ := Option.map_eq_some_iff.mp h
  refine ⟨t, ht, ?_⟩
  split <;> omega

theorem exists_chunk {ids : List String} (h : id ∈ ids) : ∃ chunk ∈ chunks ids, id ∈ chunk := by
  obtain ⟨i, hi, rfl⟩ := List.getElem_of_mem h
  refine ⟨_, List.mem_map_of_mem (a := i / maxKeysPerUpdate) ?_, ?_⟩
  · rw [List.mem_range]
    exact Nat.lt_succ_of_le (Nat.div_le_div_right hi.le)
  · have hmod := Nat.div_add_mod' i maxKeysPerUpdate
    have hlt : i % maxKeysPerUpdate < maxKeysPerUpdate := Nat.mod_lt _ (by decide)
    refine List.mem_iff_getElem.mpr ⟨i % maxKeysPerUpdate, ?_, ?_⟩
    · simp only [List.length_take, List.length_drop]
      omega
    · simp only [List.getElem_take, List.getElem_drop, hmod]

theorem updateLastUsedBatch_reaches {order : List Nat} {batch : List Mark} {t : Nat}
    (horder : order.Perm (minutesOf batch)) (hm : m ∈ batch)
    (h : updateLastUsedBatch order batch keys (ofLex m).2 = some t) : minute (ofLex m).1 ≤ t := by
  have hts : minute (ofLex m).1 ∈ order :=
    horder.mem_iff.mpr (List.mem_dedup.mpr (List.mem_map_of_mem hm))
  refine foldl_reaches (fun keys ts => ?_) hts (fun keys t h => ?_) keys h
  · exact grows_foldl (fun keys ids => grows_updateKeysLastUsed ts ids keys) _ keys
  · have hid : (ofLex m).2 ∈ idsAt (minute (ofLex m).1) batch :=
      List.mem_map_of_mem (List.mem_filter.mpr ⟨hm, decide_eq_true rfl⟩)
    obtain ⟨chunk, hchunk, hid⟩ := exists_chunk hid
    refine foldl_reaches (fun keys ids => grows_updateKeysLastUsed _ ids keys) hchunk
      (fun keys t h => ?_) keys h
    obtain ⟨t₀, -, rfl⟩ := Option.map_eq_some_iff.mp h
    split <;> rename_i hlt
    · exact le_rfl
    · exact not_lt.mp fun h => hlt ⟨hid, h⟩

theorem grows_updateLastUsedBatch (order : List Nat) (batch : List Mark) (keys : Keys) :
    Grows keys (updateLastUsedBatch order batch keys) :=
  grows_foldl (fun keys ts => grows_foldl
    (fun keys ids => grows_updateKeysLastUsed ts ids keys) _ keys) order keys

/-! ### What the cursor has passed -/

def Synced (w : World) (r : UsageRow) : Prop := ∀ t, w.keys r.keyID = some t → minute r.time ≤ t

def Ahead (w : World) (r : UsageRow) : Prop :=
  ∃ r' ∈ w.rows, r'.group = r.group ∧ r.time ≤ r'.time ∧ w.cursor < r'.mark

/-- Every row of the partition is written or ahead of the cursor. -/
def Inv (P : Partition) (w : World) : Prop :=
  ∀ r ∈ w.rows, P.owns r.keyID = true → Synced w r ∨ Ahead w r

theorem minute_mono {a b : Nat} (h : a ≤ b) : minute a ≤ minute b :=
  Nat.mul_le_mul_right _ (Nat.div_le_div_right h)

theorem batch_ahead {order : List Nat} (h : step P w (.batch order) = some w')
    (hown : P.owns r.keyID = true) (hahead : Ahead w r) :
    Synced w' r ∨ Ahead w' r ∧ ¬ Completes P w := by
  obtain ⟨horder, rfl⟩ := step_batch h
  obtain ⟨r₁, hr₁, hgroup₁, hle₁, hlt₁⟩ := hahead
  have hkey₁ : r₁.keyID = r.keyID := congrArg (·.2.2) hgroup₁
  obtain ⟨r₂, hr₂, hgroup₂, hle₂, hfound⟩ := mem_found hr₁ (hkey₁ ▸ hown) hlt₁
  have hkey₂ : r₂.keyID = r.keyID := (congrArg (·.2.2) hgroup₂).trans hkey₁
  have hle : r.time ≤ r₂.time := hle₁.trans hle₂
  have hsynced : ∀ m ∈ fetch P w.cursor w.rows, r₂.mark = m →
      Synced ⟨w.rows, updateLastUsedBatch order (fetch P w.cursor w.rows) w.keys,
        (fetch P w.cursor w.rows).getLast?.getD w.cursor⟩ r := by
    rintro m hm rfl t ht
    rw [← hkey₂] at ht
    exact (minute_mono hle).trans (updateLastUsedBatch_reaches (m := r₂.mark) horder hm ht)
  by_cases hin : r₂.mark ∈ fetch P w.cursor w.rows
  · exact .inl (hsynced _ hin rfl)
  · have hfull : ¬ Completes P w := by
      intro hlt
      refine hin ?_
      have hlen : (found P w.cursor w.rows).length ≤ P.limit := by
        rw [Completes, fetch, List.length_take] at hlt
        omega
      rwa [fetch, List.take_of_length_le hlen]
    cases hlast : (fetch P w.cursor w.rows).getLast? with
    | none => exact .inr ⟨⟨r₁, hr₁, hgroup₁, hle₁, by simpa [hlast] using hlt₁⟩, hfull⟩
    | some last =>
      have hmem := List.mem_of_getLast? hlast
      -- what the limit cuts off is not before the last row of the batch
      have hsorted := pairwise_found P w.cursor w.rows
      rw [← List.take_append_drop P.limit (found P w.cursor w.rows)] at hsorted
      have hrest : r₂.mark ∈ (found P w.cursor w.rows).drop P.limit := by
        rw [← List.take_append_drop P.limit (found P w.cursor w.rows), List.mem_append] at hfound
        exact hfound.resolve_left hin
      have hge : last ≤ r₂.mark := (List.pairwise_append.mp hsorted).2.2 _ hmem _ hrest
      rcases hge.eq_or_lt with heq | hgt
      · exact .inl (hsynced last hmem heq.symm)
      · exact .inr ⟨⟨r₂, hr₂, hgroup₂.trans hgroup₁, hle, by simpa [hlast] using hgt⟩, hfull⟩

theorem Synced.batch {order : List Nat} (h : step P w (.batch order) = some w')
    (hs : Synced w r) : Synced w' r := by
  obtain ⟨-, rfl⟩ := step_batch h
  intro t ht
  obtain ⟨t₀, ht₀, hle⟩ := grows_updateLastUsedBatch order _ _ _ t ht
  exact (hs t₀ ht₀).trans hle

theorem Inv.step (past : List (World × Event)) {e : Event} (hinv : Inv P w)
    (hin : InOrder past w e) (h : step P w e = some w') : Inv P w' := by
  cases e with
  | arrive r =>
    cases h
    intro r' hr' hown
    rcases List.mem_cons.mp hr' with rfl | hr'
    · exact .inr ⟨r', hr', rfl, le_rfl, hin⟩
    · rcases hinv r' hr' hown with hs | ⟨r₁, hr₁, hahead⟩
      · exact .inl hs
      · exact .inr ⟨r₁, List.mem_cons_of_mem _ hr₁, hahead⟩
  | batch order =>
    intro r hr hown
    have hr : r ∈ w.rows := by
      obtain ⟨-, rfl⟩ := step_batch h
      exact hr
    rcases hinv r hr hown with hs | hahead
    · exact .inl (hs.batch h)
    · exact (batch_ahead h hown hahead).imp_right And.left

/-- If rows become visible ahead of the cursor only, then the last batch of a run leaves every key
of the partition at least as recent as each of its rows that are visible by then. -/
theorem last_used_complete (P : Partition) (keys : Keys) {past : List (World × Event)}
    {w w' : World} {order : List Nat} (hrun : Run (step P) (initial keys) past w)
    (horder : Always InOrder past) (hlast : step P w (.batch order) = some w')
    (hdone : Completes P w) :
    ∀ r ∈ w.rows, P.owns r.keyID = true → ∀ t, w'.keys r.keyID = some t → minute r.time ≤ t := by
  have hinv : Inv P w := hrun.invariant_always (P := fun _ w => Inv P w) (C := InOrder)
    (fun r hr => absurd hr List.not_mem_nil) (fun _ _ _ _ hinv hin h => hinv.step _ hin h) horder
  intro r hr hown
  rcases hinv r hr hown with hs | hahead
  · exact hs.batch hlast
  · exact (batch_ahead hlast hown hahead).resolve_right fun hfull => hfull.2 hdone

def usage (keyID : String) (minutes : Nat) : UsageRow := ⟨"ws_1", "ks_1", keyID, minutes * 60000⟩

def onePartition : Partition := ⟨fun _ => 0, 0, 1, batchSize⟩

/-- A key that is used for the first time ten minutes after the start. -/
theorem last_used_complete_one :
    ∃ (past : List (World × Event)) (w w' : World),
      Run (step onePartition) (initial fun _ => some 0) past w ∧ w'.keys "key_1" = some 600000 ∧
      ∀ r ∈ w.rows, onePartition.owns r.keyID = true → ∀ t, w'.keys r.keyID = some t →
        minute r.time ≤ t := by
  have hrun : Run (step onePartition) (initial fun _ => some 0)
      [(initial fun _ => some 0, .arrive (usage "key_1" 10))]
      ⟨[usage "key_1" 10], fun _ => some 0, toLex (0, "")⟩ := .next .start rfl
  have horder : Always InOrder [(initial fun _ => some 0, .arrive (usage "key_1" 10))] :=
    ⟨show toLex (0, "") < toLex (600000, "key_1") by decide, trivial⟩
  have hstep : ∃ w', step onePartition ⟨[usage "key_1" 10], fun _ => some 0, toLex (0, "")⟩
      (.batch [600000]) = some w' ∧ w'.keys "key_1" = some 600000 := ⟨_, rfl, by decide⟩
  obtain ⟨w', hw', hkey⟩ := hstep
  exact ⟨_, _, w', hrun, hkey, last_used_complete onePartition _ hrun horder hw' (by decide)⟩

/-- A usage that becomes visible after the cursor has passed its time is never read. -/
theorem late_usage_missed :
    ((exec (step onePartition) (initial fun _ => some 0) [.arrive (usage "key_2" 20),
      .batch [1200000], .arrive (usage "key_1" 10)]).bind fun w =>
        if Completes onePartition w then (step onePartition w (.batch [])).map (·.keys "key_1")
        else none) = some (some 0) := by
  decide

end Unkey.LastUsed
