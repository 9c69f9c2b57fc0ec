import Mathlib.Data.List.Perm.Subperm
import Unkey.AuditExport.Outbox
import Unkey.Base.Fallible

/-!
# When every event is exported once

An attempt whose commit fails leaves its block in ClickHouse and its rows unmarked.
-/

namespace Unkey.AuditExport

open Unkey.Base

variable {Payload Meta : Type} {codec : Codec Payload Meta}

/-! ### Blocks and the batches they were built from -/

def Block.BuiltBy (codec : Codec Payload Meta) (b : Block Payload) : Prop :=
  ∃ events, b.rows.mapM (decodeRow codec) = .ok events ∧
    buildCHRows codec b.nowMillis events = .ok b.logs

variable {r : OutboxRow Payload}

theorem eventID_of_decodeRow {e : Event Meta}
    (hdecode : decodeRow codec r = .ok e) : codec.eventID r = some e.eventID := by
  unfold decodeRow at hdecode
  unfold Codec.eventID
  cases hun : codec.unmarshal r.payload with
  | error err =>
    rw [hun] at hdecode
    cases hdecode
  | ok e' =>
    rw [hun] at hdecode
    cases hdecode
    rfl

theorem eventID_of_buildCHRow {nowMillis : Int} {e : Event Meta} {log : AuditLogV1}
    (hbuild : buildCHRow codec nowMillis e = .ok log) : log.eventID = e.eventID := by
  obtain ⟨actorMeta, -, hbuild⟩ := bind_eq_ok hbuild
  obtain ⟨topMeta, -, hbuild⟩ := bind_eq_ok hbuild
  obtain ⟨targetMetas, -, hbuild⟩ := bind_eq_ok hbuild
  cases hbuild
  rfl

variable {b : Block Payload}

theorem Block.BuiltBy.ids (hb : b.BuiltBy codec) :
    b.rows.map codec.eventID = b.logs.map fun log => some log.eventID := by
  obtain ⟨events, hdecode, hbuild⟩ := hb
  have hrows : b.rows.map codec.eventID = events.map fun e => some e.eventID :=
    map_eq_of_mapM hdecode fun _ _ => eventID_of_decodeRow
  have hlogs : (events.map fun e => some e.eventID) = b.logs.map fun log => some log.eventID :=
    map_eq_of_mapM hbuild fun e log hlog => by rw [eventID_of_buildCHRow hlog]
  rw [hrows, hlogs]

theorem Block.BuiltBy.filterMap_ids (hb : b.BuiltBy codec) :
    b.rows.filterMap codec.eventID = b.logs.map (·.eventID) := by
  have hids := congrArg (List.filterMap id) hb.ids
  rw [List.filterMap_map, List.filterMap_map] at hids
  rw [← List.filterMap_eq_map]
  exact hids

theorem Block.BuiltBy.mem_ids (hb : b.BuiltBy codec)
    (hr : r ∈ b.rows) : ∃ eventID, codec.eventID r = some eventID ∧
      eventID ∈ b.logs.map (·.eventID) := by
  have hmem : codec.eventID r ∈ b.rows.map codec.eventID := List.mem_map_of_mem hr
  rw [hb.ids] at hmem
  obtain ⟨log, hlog, heq⟩ := List.mem_map.mp hmem
  exact ⟨log.eventID, heq.symm, List.mem_map_of_mem hlog⟩

theorem Block.BuiltBy.logs_eq {b' : Block Payload} (hb : b.BuiltBy codec)
    (hb' : b'.BuiltBy codec) (hrows : b.rows = b'.rows) (hnow : b.nowMillis = b'.nowMillis) :
    b.logs = b'.logs := by
  obtain ⟨events, hdecode, hbuild⟩ := hb
  obtain ⟨events', hdecode', hbuild'⟩ := hb'
  rw [hrows, hdecode'] at hdecode
  cases hdecode
  rw [hnow, hbuild'] at hbuild
  exact (Except.ok.inj hbuild).symm

/-! ### Distinct rows -/

variable {rows : List (OutboxRow Payload)}

theorem Distinct.eq_of_pk (hd : Distinct codec rows)
    {r' : OutboxRow Payload} (hr : r ∈ rows) (hr' : r' ∈ rows) (hpk : r.pk = r'.pk) : r = r' :=
  List.inj_on_of_nodup_map hd.1 hr hr' hpk

theorem Distinct.eq_of_eventID (hd : Distinct codec rows)
    {r' : OutboxRow Payload} (hr : r ∈ rows) (hr' : r' ∈ rows) {eventID : String}
    (hid : codec.eventID r = some eventID) (hid' : codec.eventID r' = some eventID) : r = r' := by
  have hnodup := hd.2
  clear hd
  induction rows with
  | nil => cases hr
  | cons x xs ih => grind

theorem nodup_filterMap_of_subset {outbox : List (OutboxRow Payload)} (hd : Distinct codec outbox)
    (hrows : rows.Nodup) (hsub : rows ⊆ outbox) : (rows.filterMap codec.eventID).Nodup := by
  obtain ⟨sorted, hperm, hsublist⟩ := List.subperm_of_subset hrows hsub
  exact ((hperm.filterMap codec.eventID).nodup_iff).mp (hd.2.sublist (hsublist.filterMap _))

/-! ### The invariant -/

def Store.Shipped (s : Store Payload) (r : OutboxRow Payload) : Prop := ∃ b ∈ s.blocks, r ∈ b.rows

structure Ghost (Payload : Type) where
  batch : List (OutboxRow Payload)
  shipped : Bool

def Ghost.idle : Ghost Payload := ⟨[], false⟩

structure Ghost.Holds (s : Store Payload) (g : Ghost Payload) : Prop where
  nodup : g.batch.Nodup
  read : g.batch ⊆ s.outbox.map (·.row)
  shipped : g.shipped = true → ∀ r ∈ g.batch, s.Shipped r

structure Exported (codec : Codec Payload Meta) (s : Store Payload)
    (_ : List (Call Payload × Empty)) (gs : Nat → Ghost Payload) : Prop where
  distinct : Distinct codec (s.outbox.map (·.row))
  built : ∀ b ∈ s.blocks, b.BuiltBy codec ∧ b.rows.Nodup ∧ b.rows ⊆ s.outbox.map (·.row)
  disjoint : s.blocks.Pairwise fun b b' => ∀ r ∈ b.rows, r ∉ b'.rows
  marked : ∀ x ∈ s.outbox, x.deletedAt ≠ none → s.Shipped x.row
  batches : ∀ i, (gs i).Holds s

variable {s s' : Store Payload} {h : List (Call Payload × Empty)} {gs : Nat → Ghost Payload}

theorem Exported.exportedIDs (hx : Exported codec s h gs) :
    s.exportedIDs = (s.blocks.flatMap (·.rows)).filterMap codec.eventID := by
  unfold Store.exportedIDs
  have hbuilt : ∀ b ∈ s.blocks, b.BuiltBy codec := fun b hb => (hx.built b hb).1
  clear hx
  generalize s.blocks = blocks at hbuilt ⊢
  induction blocks with
  | nil => rfl
  | cons b bs ih =>
    rw [List.flatMap_cons, List.flatMap_cons, List.map_append, List.filterMap_append,
      ih fun b' hb' => hbuilt b' (List.mem_cons_of_mem _ hb'),
      (hbuilt b List.mem_cons_self).filterMap_ids]

theorem Exported.nodup (hx : Exported codec s h gs) : s.exportedIDs.Nodup := by
  rw [hx.exportedIDs]
  refine nodup_filterMap_of_subset hx.distinct ?_ ?_
  · rw [List.nodup_flatMap]
    exact ⟨fun b hb => (hx.built b hb).2.1, hx.disjoint.imp fun hdis r hr hr' => hdis r hr hr'⟩
  · intro r hr
    obtain ⟨b, hb, hr⟩ := List.mem_flatMap.mp hr
    exact (hx.built b hb).2.2 hr

theorem Exported.once (hx : Exported codec s h gs) (hr : s.Shipped r) :
    ∃ eventID, codec.eventID r = some eventID ∧ s.timesExported eventID = 1 := by
  obtain ⟨b, hb, hrb⟩ := hr
  obtain ⟨eventID, hid, hmem⟩ := (hx.built b hb).1.mem_ids hrb
  refine ⟨eventID, hid, List.count_eq_one_of_mem hx.nodup ?_⟩
  unfold Store.exportedIDs
  obtain ⟨log, hlog, rfl⟩ := List.mem_map.mp hmem
  exact List.mem_map_of_mem (List.mem_flatMap.mpr ⟨b, hb, hlog⟩)

/-! ### Steps -/

theorem Store.Shipped.mono (hr : s.Shipped r) (hblocks : s.blocks ⊆ s'.blocks) : s'.Shipped r := by
  obtain ⟨b, hb, hrb⟩ := hr
  exact ⟨b, hblocks hb, hrb⟩

theorem Ghost.Holds.mono {g : Ghost Payload} (hg : g.Holds s)
    (hrows : s.outbox.map (·.row) ⊆ s'.outbox.map (·.row)) (hblocks : s.blocks ⊆ s'.blocks) :
    g.Holds s' :=
  ⟨hg.nodup, List.Subset.trans hg.read hrows, fun hs r hr => (hg.shipped hs r hr).mono hblocks⟩

theorem Ghost.idle_holds (s : Store Payload) : (Ghost.idle : Ghost Payload).Holds s :=
  ⟨List.nodup_nil, List.nil_subset _, nofun⟩

theorem Exported.start {s₀ : Store Payload} (hs : Unexported codec s₀) :
    Exported codec s₀ [] (fun _ => .idle) := by
  refine ⟨hs.distinct, ?_, ?_, ?_, fun _ => Ghost.idle_holds s₀⟩
  · intro b hb
    rw [hs.empty] at hb
    cases hb
  · rw [hs.empty]
    exact List.Pairwise.nil
  · intro x hx hmarked
    exact absurd (hs.unmarked x hx) hmarked

theorem Exported.update (hx : Exported codec s h gs) {i : Nat} {g : Ghost Payload}
    (hg : g.Holds s) : Exported codec s h (Function.update gs i g) := by
  refine ⟨hx.distinct, hx.built, hx.disjoint, hx.marked, ?_⟩
  exact forall_update gs (fun _ g => g.Holds s) hx.batches hg

theorem Exported.busy (hx : Exported codec s h gs) {busy : Bool} :
    Exported codec { s with busy := busy } h gs :=
  ⟨hx.distinct, hx.built, hx.disjoint, hx.marked,
    fun i => ⟨(hx.batches i).nodup, (hx.batches i).read, (hx.batches i).shipped⟩⟩

theorem Exported.insertOutbox (hx : Exported codec s h gs)
    (hd : Distinct codec (s.outbox.map (·.row) ++ rows)) :
    Exported codec { s with outbox := s.outbox ++ rows.map fun r => ⟨r, none⟩ } h gs := by
  have hrows : (s.outbox ++ rows.map fun r => ⟨r, none⟩ : List (Stored Payload)).map (·.row)
      = s.outbox.map (·.row) ++ rows := by
    rw [List.map_append, List.map_map]
    exact congrArg _ (List.map_id rows)
  have hmore : s.outbox.map (·.row)
      ⊆ (s.outbox ++ rows.map fun r => ⟨r, none⟩ : List (Stored Payload)).map (·.row) := by
    rw [hrows]
    exact List.subset_append_left _ _
  refine ⟨by rw [hrows]; exact hd, ?_, hx.disjoint, ?_, ?_⟩
  · intro b hb
    obtain ⟨hbuilt, hnodup, hsub⟩ := hx.built b hb
    exact ⟨hbuilt, hnodup, List.Subset.trans hsub hmore⟩
  · intro x hxs hmarked
    rcases List.mem_append.mp hxs with hxs | hxs
    · exact hx.marked x hxs hmarked
    · obtain ⟨r, -, rfl⟩ := List.mem_map.mp hxs
      exact absurd rfl hmarked
  · intro i
    exact (hx.batches i).mono hmore (List.Subset.refl _)

theorem markDeleted_rows (s : Store Payload) (pks : List Nat) (deletedAt : Int) :
    (s.markDeleted pks deletedAt).outbox.map (·.row) = s.outbox.map (·.row) := by
  unfold Store.markDeleted
  rw [List.map_map]
  apply List.map_congr_left
  intro x _
  show (if _ then _ else _ : Stored Payload).row = x.row
  split <;> rfl

theorem Exported.markDeleted (hx : Exported codec s h gs) {batch : List (OutboxRow Payload)}
    (hread : batch ⊆ s.outbox.map (·.row)) (hshipped : ∀ r ∈ batch, s.Shipped r)
    (deletedAt : Int) :
    Exported codec (s.markDeleted (batch.map (·.pk)) deletedAt) h gs := by
  have hrows := markDeleted_rows s (batch.map (·.pk)) deletedAt
  refine ⟨by rw [hrows]; exact hx.distinct, ?_, hx.disjoint, ?_, ?_⟩
  · intro b hb
    rw [hrows]
    exact hx.built b hb
  · intro y hy hmarked
    obtain ⟨x, hxs, rfl⟩ := List.mem_map.mp hy
    split
    · rename_i hnew
      obtain ⟨r, hr, hpk⟩ := List.mem_map.mp hnew.1
      have hsame := hx.distinct.eq_of_pk (hread hr) (List.mem_map_of_mem hxs) hpk
      exact hsame ▸ hshipped r hr
    · rename_i hold
      rw [if_neg hold] at hmarked
      exact hx.marked x hxs hmarked
  · intro i
    exact (hx.batches i).mono (by rw [hrows]; exact List.Subset.refl _) (List.Subset.refl _)

def Block.Repeats (s : Store Payload) (b : Block Payload) : Prop :=
  ∀ b' ∈ s.blocks, (∃ r ∈ b.rows, r ∈ b'.rows) → b'.rows = b.rows ∧ b'.nowMillis = b.nowMillis

theorem Exported.shipped_of_dropped (hx : Exported codec s h gs) {b' : Block Payload}
    (hbuilt : b.BuiltBy codec) (hread : b.rows ⊆ s.outbox.map (·.row)) (hb' : b' ∈ s.blocks)
    (hlogs : b'.logs = b.logs) : ∀ r ∈ b.rows, s.Shipped r := by
  intro r hr
  obtain ⟨hbuilt', -, hread'⟩ := hx.built b' hb'
  obtain ⟨eventID, hid, hmem⟩ := hbuilt.mem_ids hr
  rw [← hlogs, ← hbuilt'.filterMap_ids] at hmem
  obtain ⟨r', hr', hid'⟩ := List.mem_filterMap.mp hmem
  have hsame := hx.distinct.eq_of_eventID (hread hr) (hread' hr') hid hid'
  exact ⟨b', hb', hsame ▸ hr'⟩

theorem Exported.insertBlock (hx : Exported codec s h gs)
    (hbuilt : b.BuiltBy codec) (hnodup : b.rows.Nodup) (hread : b.rows ⊆ s.outbox.map (·.row))
    (hrepeats : b.Repeats s) :
    Exported codec (s.insertBlock b) h gs ∧ ∀ r ∈ b.rows, (s.insertBlock b).Shipped r := by
  unfold Store.insertBlock
  split
  · rename_i hany
    obtain ⟨b', hb', hlogs⟩ := List.any_eq_true.mp hany
    exact ⟨hx, hx.shipped_of_dropped hbuilt hread hb' (of_decide_eq_true hlogs)⟩
  · rename_i hnone
    have hmore : s.blocks ⊆ s.blocks ++ [b] := List.subset_append_left _ _
    refine ⟨⟨hx.distinct, ?_, ?_, ?_, ?_⟩, fun r hr => ⟨b, List.mem_append_right _ (by simp), hr⟩⟩
    · intro b' hb'
      rcases List.mem_append.mp hb' with hb' | hb'
      · exact hx.built b' hb'
      · rw [List.mem_singleton.mp hb']
        exact ⟨hbuilt, hnodup, hread⟩
    · -- an earlier block with a row of this one would be the same block
      rw [List.pairwise_append]
      refine ⟨hx.disjoint, List.pairwise_singleton _ _, ?_⟩
      intro b' hb' b'' hb'' r hr hr'
      rw [List.mem_singleton.mp hb''] at hr'
      obtain ⟨hrows, hnow⟩ := hrepeats b' hb' ⟨r, hr', hr⟩
      have hlogs := (hx.built b' hb').1.logs_eq hbuilt hrows hnow
      exact hnone (List.any_eq_true.mpr ⟨b', hb', decide_eq_true hlogs⟩)
    · intro x hxs hmarked
      exact (hx.marked x hxs hmarked).mono hmore
    · intro i
      exact (hx.batches i).mono (List.Subset.refl _) hmore

theorem findBatch_subset (s : Store Payload) : s.findBatch ⊆ s.outbox.map (·.row) := by
  intro r hr
  have hsorted := List.mem_of_mem_take hr
  rw [List.mem_insertionSort] at hsorted
  obtain ⟨x, hxs, rfl⟩ := List.mem_map.mp hsorted
  exact List.mem_map_of_mem (List.mem_of_mem_filter hxs)

theorem findBatch_nodup {s : Store Payload} (hd : Distinct codec (s.outbox.map (·.row))) :
    s.findBatch.Nodup := by
  have hrows : (s.outbox.map (·.row)).Nodup := hd.1.of_map _
  have hpending : ((s.outbox.filter fun x => x.row.known && x.deletedAt.isNone).map (·.row)).Nodup :=
    hrows.sublist (List.filter_sublist.map _)
  exact ((List.perm_insertionSort _ _).nodup_iff.mpr hpending).sublist (List.take_sublist _ _)

/-! ### The programs -/

def Repeats (s : Store Payload) : Op Payload → Prop
  | .insertAuditLogs rows nowMillis _ =>
    ∀ b ∈ s.blocks, (∃ r ∈ rows, r ∈ b.rows) → b.rows = rows ∧ b.nowMillis = nowMillis
  | .insertOutbox _ | .enter | .leave | .begin | .find | .now | .mark _ _ | .commit _ _ => True

instance [DecidableEq Payload] (s : Store Payload) : (op : Op Payload) → Decidable (Repeats s op)
  | .insertAuditLogs rows nowMillis _ => inferInstanceAs (Decidable
    (∀ b ∈ s.blocks, (∃ r ∈ rows, r ∈ b.rows) → b.rows = rows ∧ b.nowMillis = nowMillis))
  | .insertOutbox _ | .enter | .leave | .begin | .find | .now | .mark _ _ | .commit _ _ =>
    .isTrue trivial

variable (codec) in
def exporting : Protocol (Store Payload) (Call Payload) (Op Payload) Op.Ret Empty Env
    (Ghost Payload) where
  Inv := Exported codec
  At := fun _ _ _ => True
  Guard := fun w l => w.Performs (Repeats w.shared) l
  idle := .idle

variable {c : Call Payload} {i : Nat} {g : Ghost Payload} {α : Type}

variable [DecidableEq Payload]

abbrev Exports (codec : Codec Payload Meta) (c : Call Payload) (i : Nat) (g : Ghost Payload)
    (p : Code Payload α) : Prop :=
  (exporting codec).Triple (fun _ => apply codec) c i ((exporting codec).Owns i g) p
    fun _ => (exporting codec).Owns i .idle

theorem exports_done {a : α} : Exports codec c i g (.done a) := by
  intro s h gs hown
  have hx : Exported codec s h (Function.update gs i g) := hown
  have hidle := hx.update (i := i) (Ghost.idle_holds s)
  rwa [Function.update_idem] at hidle

theorem exports_still {o : Op Payload}
    (ho : ∀ e s r s', apply codec o e s = some (r, s') → s' = s) {f : o.Ret → Code Payload α}
    (hf : ∀ r, Exports codec c i g (f r)) : Exports codec c i g (Prog.perform o >>= f) := by
  refine .act trivial ?_
  intro w gs e r s' hd hgi _ _ happ
  obtain rfl := ho e w.shared r s' happ
  exact hf r (hd.owns hgi)

theorem exports_finish {batch : List (OutboxRow Payload)} (deletedAt : Int) (exported : Nat) :
    Exports codec c i ⟨batch, true⟩ (finish (batch.map (·.pk)) deletedAt exported) := by
  refine .act (P := exporting codec) (o := Op.commit (batch.map (·.pk)) deletedAt) trivial ?_
  intro w gs e r s' hd hgi _ _ happ
  have hholds := hd.inv.batches i
  rw [hgi] at hholds
  have hstore : Exported codec s' w.history gs := by
    cases happ
    split
    · exact hd.inv.markDeleted hholds.read (hholds.shipped rfl) deletedAt
    · exact hd.inv
  refine (?_ : Exports codec c i _ _) (Protocol.owns_of_inv hgi hstore)
  cases r <;> exact exports_done

theorem exports_shipBatch {events : List (Event Meta)}
    (hdecode : rows.mapM (decodeRow codec) = .ok events) :
    Exports codec c i ⟨rows, false⟩ (shipBatch codec rows events) := by
  refine exports_still (o := .now) (fun _ _ _ _ happ => by cases happ; rfl) ?_
  intro (nowMillis : Int)
  cases hbuild : buildCHRows codec nowMillis events with
  | error err => exact exports_done
  | ok logs =>
    refine .act (o := Op.insertAuditLogs rows nowMillis logs) trivial ?_
    intro w gs e r s' hd hgi hat hguard happ
    have hholds := hd.inv.batches i
    rw [hgi] at hholds
    have hbuilt : Block.BuiltBy codec ⟨rows, nowMillis, logs⟩ := ⟨events, hdecode, hbuild⟩
    have hperforms : w.Performs (Repeats w.shared) (.run i e : Turn (Call Payload) Env) := hguard
    have hrepeats : Block.Repeats w.shared ⟨rows, nowMillis, logs⟩ := hperforms.at hat
    obtain ⟨hinserted, hshipped⟩ := hd.inv.insertBlock hbuilt hholds.nodup hholds.read hrepeats
    have hstore : Exported codec s' w.history gs ∧ (r = none → ∀ x ∈ rows, s'.Shipped x) := by
      cases happ
      cases herr : e.err with
      | none => exact ⟨hinserted, fun _ => hshipped⟩
      | some err =>
        refine ⟨?_, (fun hr => by cases hr)⟩
        split
        · exact hinserted
        · exact hd.inv
    obtain ⟨hstore, hthere⟩ := hstore
    cases r with
    | some err => exact exports_done (Protocol.owns_of_inv (P := exporting codec) hgi hstore)
    | none =>
      have hread : rows ⊆ s'.outbox.map (·.row) := by
        have := (hstore.batches i).read
        rwa [hgi] at this
      refine (?_ : Exports codec c i ⟨rows, true⟩ _)
        (hstore.update ⟨hholds.nodup, hread, fun _ => hthere rfl⟩)
      refine exports_still (o := .now) (fun _ _ _ _ happ => by cases happ; rfl) ?_
      intro (deletedAt : Int)
      refine exports_still (o := (.mark (rows.map (·.pk)) deletedAt : Op Payload))
        (fun _ _ _ _ happ => by cases happ; rfl) ?_
      rintro (_ | err)
      · exact exports_finish deletedAt events.length
      · exact exports_done

theorem exports_exportBatch : Exports codec c i .idle (exportBatch codec) := by
  refine exports_still (o := .begin) (fun _ _ _ _ happ => by cases happ; rfl) ?_
  rintro (_ | err)
  · refine .act (o := Op.find) trivial ?_
    intro w gs e r s' hd hgi _ _ happ
    cases happ
    cases e.err with
    | some err => exact hd.owns hgi
    | none =>
      dsimp only
      split
      · -- nothing to export, but the transaction commits
        exact exports_finish 0 0 (hd.inv.update ⟨List.nodup_nil, List.nil_subset _, fun _ _ hr => by cases hr⟩)
      · cases hdecode : w.shared.findBatch.mapM (decodeRow codec) with
        | error err => exact hd.owns hgi
        | ok events =>
          exact exports_shipBatch hdecode (hd.inv.update ⟨findBatch_nodup hd.inv.distinct,
            findBatch_subset w.shared, (fun hs => by cases hs)⟩)
  · exact exports_done

theorem exports_drain (attempts : Nat) : Exports codec c i .idle (drain codec attempts) := by
  induction attempts with
  | zero => exact .skip
  | succ attempts ih =>
    refine exports_exportBatch.bind ?_
    rintro (err | exported)
    · exact ih
    · dsimp only
      split
      · exact .skip
      · exact ih

theorem exporting_obeyed : (exporting codec).Obeyed (fun _ => apply codec) (body codec) := by
  intro w gs c hd hidle _
  refine (?_ : Exports codec c w.threads.length .idle (body codec c)) (hd.owns hidle)
  cases c with
  | insert rows =>
    refine .perform trivial ?_
    intro w' gs' e r s' hd hgi _ _ happ
    simp only [apply] at happ
    split at happ
    · rename_i hdistinct
      cases happ
      exact Protocol.owns_of_inv hgi (hd.inv.insertOutbox hdistinct)
    · cases happ
  | handle attempts =>
    refine .act (o := Op.enter) trivial ?_
    intro w' gs' e _ s' hd hgi _ _ happ
    have hx : Exported codec w'.shared w'.history gs' := hd.inv
    simp only [apply] at happ
    split at happ
    · cases happ
    · cases happ
      refine (exports_drain attempts).bind (fun _ => .perform trivial ?_)
        (Protocol.owns_of_inv (P := exporting codec) hgi hx.busy)
      intro w' gs' e _ s' hd hgi _ _ happ
      cases happ
      exact Protocol.owns_of_inv hgi hd.inv.busy

/-! ### Exactly once -/

/-- Whatever rows are inserted at any point, and whichever inserts into ClickHouse and commits
fail: as long as a batch that meets rows of an earlier block repeats its batch and its time, no
event is in ClickHouse twice, and once all rows of a known version are marked each of their events
is there once. -/
theorem exported_once (codec : Codec Payload Meta) {s₀ : Store Payload} (hstart : Unexported codec s₀)
    {past : List (ExportWorld Payload × Turn (Call Payload) Env)} {w : ExportWorld Payload}
    (hrun : Run (exportStep codec) (World.init s₀) past w)
    (hrepeats : Always (fun _ w l => w.Performs (Repeats w.shared) l) past) :
    (∀ eventID, w.shared.timesExported eventID ≤ 1) ∧
    ((∀ x ∈ w.shared.outbox, x.row.known = true → x.deletedAt ≠ none) →
      ∀ x ∈ w.shared.outbox, x.row.known = true →
        ∃ eventID, codec.eventID x.row = some eventID ∧ w.shared.timesExported eventID = 1) := by
  obtain ⟨gs, hd⟩ := (exporting codec).sound (Exported.start hstart) exporting_obeyed hrun hrepeats
  refine ⟨fun eventID => List.nodup_iff_count_le_one.mp hd.inv.nodup eventID, ?_⟩
  intro hmarked x hxs hknown
  exact hd.inv.once (hd.inv.marked x hxs (hmarked x hxs hknown))

/-! ### A commit that fails -/

def plainCodec : Codec String Unit where
  unmarshal := fun id => .ok
    ⟨id, 0, "ws", "unkey_mutations", "", "key.create", "", ⟨"user", "u", "", ()⟩, "", "", (), [], ""⟩
  len := fun _ => 0
  marshal := fun _ => .ok "\x7b\x7d"

def plainRow (pk : Nat) (eventID : String) : OutboxRow String :=
  ⟨pk, "audit_log.v1", "ws", eventID, eventID, 0⟩

def emptyStore : Store String := ⟨[], [], false⟩

theorem emptyStore_unexported : Unexported plainCodec emptyStore := by
  refine ⟨by decide, ?_, rfl⟩
  intro x hx
  cases hx

def exportTwice (again : Int) : List (Turn (Call String) Env) :=
  ([.spawn (.insert [plainRow 1 "log_1", plainRow 2 "log_2"]), .run 0 ⟨0, none, false⟩,
    .spawn (.handle 2)] : List (Turn (Call String) Env))
    ++ (List.replicate 7 (.run 1 ⟨10, none, false⟩) : List (Turn (Call String) Env))
    ++ ([.run 1 ⟨10, some "bad connection", false⟩] : List (Turn (Call String) Env))
    ++ (List.replicate 8 (.run 1 ⟨again, none, false⟩) : List (Turn (Call String) Env))

theorem exported_once_after_retry :
    ∃ past w, Run (exportStep plainCodec) (World.init emptyStore) past w ∧
      (∀ x ∈ w.shared.outbox, x.row.known = true → x.deletedAt ≠ none) ∧
      w.shared.outbox.length = 2 ∧
      ∀ x ∈ w.shared.outbox, x.row.known = true →
        ∃ eventID, plainCodec.eventID x.row = some eventID ∧
          w.shared.timesExported eventID = 1 := by
  refine Run.exists_of_record (P := fun past w =>
      Always (fun _ w l => w.Performs (Repeats w.shared) l) past ∧
      (∀ y ∈ w.shared.outbox, y.row.known = true → y.deletedAt ≠ none) ∧ w.shared.outbox.length = 2)
    (exportTwice 10) (by decide +kernel) ?_
  rintro past w hrun ⟨hrepeats, hmarked, hlength⟩
  exact ⟨hmarked, hlength,
    (exported_once plainCodec emptyStore_unexported hrun hrepeats).2 hmarked⟩

theorem exported_twice_after_retry :
    ∃ past w, Run (exportStep plainCodec) (World.init emptyStore) past w ∧
      Unexported plainCodec emptyStore ∧ w.shared.timesExported "log_1" = 2 := by
  refine Run.exists_of_record (P := fun _ w => w.shared.timesExported "log_1" = 2)
    (exportTwice 11) (by decide +kernel) ?_
  intro past w hrun heq
  exact ⟨emptyStore_unexported, heq⟩

end Unkey.AuditExport
