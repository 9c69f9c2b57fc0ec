import Unkey.Base.GoInt
import Unkey.Base.Ledger
import Unkey.Ratelimit.Tasks

/-!
# What a rolled back batch leaves behind

A batch announces its cost in `speculative` before it adds it to `val`, and takes it out of
`speculative` after it has taken it out of `val`.
-/

namespace Unkey.Ratelimit

open Unkey.Base

variable {k : CounterKey} {n n' : Node} {h h' : History} {gs : Nat → Ghost}

/-! ### What is announced -/

/-- `speculative` is what the batches in flight have announced, and each has announced what it
holds. -/
structure Announced (k : CounterKey) (n : Node) (gs : Nat → Ghost) : Prop where
  total : Total (fun g : Ghost => costOn k g.marks) gs (n.get (.entry k .speculative))
  stake_nonneg : ∀ i, ∀ st ∈ (gs i).stakes, 0 ≤ st.cost
  le : ∀ i, costOn k (gs i).stakes ≤ costOn k (gs i).marks

variable {g : Ghost} {i : Nat} {marks stakes : List Stake}

namespace Announced

theorem init (h0 : n.get (.entry k .speculative) = 0) : Announced k n (fun _ => .idle) := by
  refine ⟨?_, nofun, fun _ => le_rfl⟩
  rw [h0]
  exact Total.of_zero fun _ => rfl

theorem of_same (ha : Announced k n gs)
    (hspec : n'.get (.entry k .speculative) = n.get (.entry k .speculative)) :
    Announced k n' gs :=
  ⟨by rw [hspec]; exact ha.total, ha.stake_nonneg, ha.le⟩

theorem costOn_nonneg (ha : Announced k n gs) (i : Nat) : 0 ≤ costOn k (gs i).stakes :=
  Unkey.Ratelimit.costOn_nonneg (ha.stake_nonneg i) k

theorem of_update (ha : Announced k n gs) (hspec : n'.get (.entry k .speculative)
      = n.get (.entry k .speculative) - costOn k (gs i).marks + costOn k g.marks)
    (hcost : ∀ st ∈ g.stakes, 0 ≤ st.cost) (hle : costOn k g.stakes ≤ costOn k g.marks) :
    Announced k n' (Function.update gs i g) := by
  refine ⟨ha.total.update_of_eq hspec, ?_, ?_⟩
  · exact forall_update gs (fun _ g => ∀ st ∈ g.stakes, 0 ≤ st.cost) ha.stake_nonneg hcost
  · exact forall_update gs (fun _ g => costOn k g.stakes ≤ costOn k g.marks) ha.le hle

theorem mark (ha : Announced k n gs) {m : Stake}
    (hgi : gs i = .batch stakes marks false) (hcost : 0 ≤ m.cost) :
    Announced k
      (n.put (.entry m.key .speculative) (n.get (.entry m.key .speculative) + m.cost))
      (Function.update gs i (.batch stakes (marks ++ [m]) false)) := by
  have hle := ha.le i
  have hnonneg := ha.stake_nonneg i
  rw [hgi] at hle hnonneg
  refine ha.of_update ?_ hnonneg (hle.trans ?_)
  · show _ = _ - _ + costOn k (marks ++ [m])
    rw [costOn_concat, hgi, Node.get_put_add]
    show _ = _ - costOn k marks + _
    omega
  · show costOn k marks ≤ costOn k (marks ++ [m])
    rw [costOn_concat]
    split <;> omega

theorem stake (ha : Announced k n gs) {st : Stake} {v : Int}
    (hgi : gs i = .batch stakes marks false) (hcost : 0 ≤ st.cost)
    (hle : costOn k (stakes ++ [st]) ≤ costOn k marks) :
    Announced k (n.put (.entry st.key .val) v)
      (Function.update gs i (.batch (stakes ++ [st]) marks false)) := by
  refine ha.of_update ?_ ?_ hle
  · rw [Node.get_put_of_ne _ (by simp), hgi]
    show _ = _ - costOn k marks + costOn k marks
    omega
  · have hnonneg := ha.stake_nonneg i
    rw [hgi] at hnonneg
    exact List.forall_mem_append.mpr ⟨hnonneg, List.forall_mem_singleton.mpr hcost⟩

theorem release (ha : Announced k n gs) (hgi : gs i = .batch stakes marks false) :
    Announced k n (Function.update gs i (.batch [] marks false)) := by
  have hnonneg := ha.costOn_nonneg i
  have hle := ha.le i
  rw [hgi] at hnonneg hle
  refine ha.of_update ?_ nofun (le_trans hnonneg hle)
  rw [hgi]
  show _ = _ - costOn k marks + costOn k marks
  omega

theorem unstake (ha : Announced k n gs) {st : Stake} {v : Int}
    (hgi : gs i = .batch (st :: stakes) marks true) (hcost : 0 ≤ st.cost) :
    Announced k (n.put (.entry st.key .val) v)
      (Function.update gs i (.batch stakes marks true)) := by
  have hle := ha.le i
  have hnonneg := ha.stake_nonneg i
  rw [hgi] at hle hnonneg
  refine ha.of_update ?_ (fun st' hst' => hnonneg st' (List.mem_cons_of_mem _ hst')) ?_
  · rw [Node.get_put_of_ne _ (by simp), hgi]
    show _ = _ - costOn k marks + costOn k marks
    omega
  · refine le_trans ?_ hle
    show costOn k stakes ≤ costOn k (st :: stakes)
    rw [costOn_cons]
    split <;> omega

theorem unmark (ha : Announced k n gs) {rolling : Bool}
    {m : Stake} (hgi : gs i = .batch stakes (m :: marks) rolling)
    (hle : costOn k stakes ≤ costOn k marks) :
    Announced k
      (n.put (.entry m.key .speculative) (n.get (.entry m.key .speculative) + -m.cost))
      (Function.update gs i (.batch stakes marks rolling)) := by
  have hnonneg := ha.stake_nonneg i
  rw [hgi] at hnonneg
  refine ha.of_update ?_ hnonneg hle
  rw [hgi, Node.get_put_add]
  show _ = _ - costOn k (m :: marks) + costOn k marks
  rw [costOn_cons]
  split <;> omega

theorem regroup (ha : Announced k n gs) (hstakes : g.stakes = (gs i).stakes)
    (hmarks : g.marks = (gs i).marks) : Announced k n (Function.update gs i g) := by
  refine ha.of_update ?_ ?_ ?_
  · rw [hmarks]
    omega
  · rw [hstakes]
    exact ha.stake_nonneg i
  · rw [hstakes, hmarks]
    exact ha.le i

theorem eq_zero (ha : Announced k n gs) (hspec : n.get (.entry k .speculative) = 0) {t : Int}
    (ht : Total (fun g : Ghost => costOn k g.stakes) gs t) : t = 0 := by
  have hle := ht.mono ha.total ha.le
  have hnonneg := ht.nonneg ha.costOn_nonneg
  omega

end Announced

def BatchInFlight (w : NodeWorld) (k : CounterKey) : Prop := ∃ j c op, w.IsAt j c op ∧ c.Names k

theorem costOn_marks_eq_zero {Inv : Assertion Node Task Note Ghost}
    {Guard : NodeWorld → Turn Task Env → Prop} {w : NodeWorld}
    (hd : (bookkeeping Inv Guard).Describes w gs) (hfree : ¬ BatchInFlight w k) (j : Nat) :
    costOn k (gs j).marks = 0 := by
  by_cases hidle : gs j = .idle
  · rw [hidle]
    rfl
  · obtain ⟨c, op, hat⟩ := hd.busy j hidle
    have hnone : (gs j).marks.filter (·.key = k) = [] := by
      rw [List.filter_eq_nil_iff]
      intro m hm hkey
      have hnamed := (hd.pos j c op hat).named m hm
      rw [of_decide_eq_true hkey] at hnamed
      exact hfree ⟨j, c, op, hat, hnamed⟩
    rw [costOn, hnone]
    rfl

/-! ### Merges -/

def Op.swaps (n : Node) (k : CounterKey) : Op → Bool
  | .cas t old _ => decide (t = .entry k .val ∧ n.get t = old)
  | _ => false

def Op.merges (n : Node) (k : CounterKey) : Op → Bool
  | .load t merging => merging && decide (t = .entry k .val)
  | op => op.swaps n k

def MergedQuiet (k : CounterKey) (w : NodeWorld) (l : Turn Task Env) : Prop :=
  w.Performs (fun op => op.merges w.shared k = true → w.shared.get (.entry k .speculative) = 0) l

instance (k : CounterKey) (w : NodeWorld) (l : Turn Task Env) : Decidable (MergedQuiet k w l) := by
  unfold MergedQuiet
  infer_instance

/-- `val` holds every merged value together with what the batches in flight hold. -/
structure Remembered (k : CounterKey) (n : Node) (h : History) (gs : Nat → Ghost) : Prop
    extends Announced k n gs where
  held : ∃ t, Total (fun g : Ghost => costOn k g.stakes) gs t ∧
    ∀ c v, (c, Note.merged k v) ∈ h → v + t ≤ n.get (.entry k .val)

namespace Remembered

theorem of_le (hr : Remembered k n h gs)
    (hspec : n'.get (.entry k .speculative) = n.get (.entry k .speculative))
    (hval : n.get (.entry k .val) ≤ n'.get (.entry k .val))
    (hmerged : ∀ c v, (c, Note.merged k v) ∈ h' → (c, Note.merged k v) ∈ h) :
    Remembered k n' h' gs := by
  obtain ⟨t, ht, hle⟩ := hr.held
  refine ⟨hr.toAnnounced.of_same hspec, t, ht, ?_⟩
  intro c v hv
  exact (hle c v (hmerged c v hv)).trans hval

theorem of_update (hr : Remembered k n h gs) (ha : Announced k n' (Function.update gs i g))
    (hval : n.get (.entry k .val) - costOn k (gs i).stakes + costOn k g.stakes
      ≤ n'.get (.entry k .val))
    (hmerged : ∀ c v, (c, Note.merged k v) ∈ h' → (c, Note.merged k v) ∈ h) :
    Remembered k n' h' (Function.update gs i g) := by
  obtain ⟨t, ht, hle⟩ := hr.held
  refine ⟨ha, _, ht.update i g, ?_⟩
  intro c v hv
  have := hle c v (hmerged c v hv)
  omega

theorem regroup (hr : Remembered k n h gs)
    (hstakes : g.stakes = (gs i).stakes) (hmarks : g.marks = (gs i).marks) :
    Remembered k n h (Function.update gs i g) := by
  refine hr.of_update (hr.toAnnounced.regroup hstakes hmarks) ?_ (fun _ _ hv => hv)
  rw [hstakes]
  omega

theorem merged (hr : Remembered k n h gs) (hspec : n.get (.entry k .speculative) = 0) {c : Task}
    {v : Int} (hspec' : n'.get (.entry k .speculative) = n.get (.entry k .speculative))
    (hval : n.get (.entry k .val) ≤ n'.get (.entry k .val)) (hv : v ≤ n'.get (.entry k .val)) :
    Remembered k n' ((c, .merged k v) :: h) gs := by
  obtain ⟨t, ht, hle⟩ := hr.held
  have ht0 := hr.toAnnounced.eq_zero hspec ht
  refine ⟨hr.toAnnounced.of_same hspec', t, ht, ?_⟩
  intro c' v' hv'
  rcases List.mem_cons.mp hv' with heq | hv'
  · cases heq
    omega
  · exact (hle c' v' hv').trans hval

end Remembered

theorem mem_of_mem_merged_ne {l : CounterKey} (hkl : k ≠ l) {c c' : Task} {v v' : Int}
    (hmem : (c', Note.merged k v') ∈ (c, Note.merged l v) :: h) : (c', Note.merged k v') ∈ h := by
  rcases List.mem_cons.mp hmem with heq | hmem
  · cases heq
    exact absurd rfl hkl
  · exact hmem

theorem mem_of_mem_committed {c c' : Task} {v : Int} {reqs : List RatelimitRequest}
    (hmem : (c', Note.merged k v) ∈ (c, Note.committed reqs) :: h) :
    (c', Note.merged k v) ∈ h := by
  rcases List.mem_cons.mp hmem with heq | hmem
  · cases heq
  · exact hmem

theorem remembered_bookkeeping (F : Floats) (k : CounterKey) :
    Bookkeeping F (Remembered k) (MergedQuiet k) (fun _ => True) where
  good := fun _ _ => ⟨trivial, trivial⟩
  still := fun hr hsame _ => hr.of_le (hsame _ rfl) (hsame _ rfl).ge (fun _ _ hv => hv)
  covered := by
    intro w gs i c e l v hd hat hguard hle
    by_cases hkl : k = l
    · subst hkl
      have hspec := hguard.at hat (by simp [Op.merges])
      exact hd.inv.merged hspec rfl le_rfl hle
    · exact hd.inv.of_le rfl le_rfl (fun _ _ hv => mem_of_mem_merged_ne hkl hv)
  swapped := by
    intro w gs i c e l v hd hat hguard hlt
    by_cases hkl : k = l
    · subst hkl
      have hspec := hguard.at hat (by simp [Op.merges, Op.swaps])
      refine hd.inv.merged hspec (Node.get_put_of_ne _ (by simp) _) ?_ ?_
      · rw [Node.get_put_self]
        exact hlt.le
      · rw [Node.get_put_self]
    · refine hd.inv.of_le (Node.get_put_of_ne _ (by simp) _) ?_
        (fun _ _ hv => mem_of_mem_merged_ne hkl hv)
      rw [Node.get_put_of_ne _ (by simpa using hkl)]
  imported := by
    intro n h gs l v hr _ _
    refine hr.of_le (Node.get_put_of_ne _ (by simp) _) ?_ (fun _ _ hv => hv)
    rw [Node.get_put_of_ne _ (by simp)]
  committedOne := by
    intro w gs i c e req cs hd _ _ _ hp
    have hcost := cost_nonneg_of_valid hp.valid
    refine hd.inv.of_le (Node.get_put_of_ne _ (by simp) _) ?_ (fun _ _ hv => mem_of_mem_committed hv)
    rw [Node.get_put_add]
    split <;> omega
  mark := by
    intro n h gs i stakes marks m hr hgi hcost
    refine hr.of_update (hr.toAnnounced.mark hgi hcost) ?_ (fun _ _ hv => hv)
    rw [Node.get_put_of_ne _ (by simp), hgi]
    show _ - costOn k stakes + costOn k stakes ≤ _
    omega
  stake := by
    intro n h gs i stakes marks st hr hgi hcost hcount hle
    refine hr.of_update (hr.toAnnounced.stake hgi hcost (hle k)) ?_ (fun _ _ hv => hv)
    rw [hgi, hcount, Node.get_put_add]
    show _ - costOn k stakes + costOn k (stakes ++ [st]) ≤ _
    rw [costOn_concat]
    omega
  commit := by
    intro n h gs i c marks items hr hgi _
    have hnonneg := hr.toAnnounced.costOn_nonneg i
    refine hr.of_update (hr.toAnnounced.release hgi) ?_ (fun _ _ hv => mem_of_mem_committed hv)
    show _ - _ + costOn k [] ≤ _
    rw [costOn_nil]
    omega
  roll := fun hr hgi => hr.regroup (by rw [hgi]; rfl) (by rw [hgi]; rfl)
  unstake := by
    intro n h gs i stakes marks st hr hgi hcost
    refine hr.of_update (hr.toAnnounced.unstake hgi hcost) ?_ (fun _ _ hv => hv)
    rw [hgi, Node.get_put_add]
    show _ - costOn k (st :: stakes) + costOn k stakes ≤ _
    rw [costOn_cons]
    split <;> omega
  unmark := by
    intro w gs i c e stakes marks rolling m hd hgi _ _ _ hle
    refine hd.inv.of_update (hd.inv.toAnnounced.unmark hgi (hle k)) ?_ (fun _ _ hv => hv)
    rw [Node.get_put_of_ne _ (by simp), hgi]
    show _ - costOn k stakes + costOn k stakes ≤ _
    omega
  finish := fun hr hgi => hr.regroup (by rw [hgi]; rfl) (by rw [hgi]; rfl)
  loadVal := fun hr hgi => hr.regroup (by rw [hgi]; rfl) (by rw [hgi]; rfl)
  loadSpeculative := fun hr hgi _ => hr.regroup (by rw [hgi]; rfl) (by rw [hgi]; rfl)
  written := fun hr _ _ => hr.of_le rfl le_rfl (fun _ _ hv => hv)
  pushed := fun hr hgi => hr.regroup (by rw [hgi]; rfl) (by rw [hgi]; rfl)

/-- Over all interleavings on a node that starts with no cost announced on the cell, in which every
merge into it meets no announced cost: whenever no batch is in flight on the cell, `val` is at
least every value that was merged into it. -/
theorem merged_le_of_merged_quiet (F : Floats) {n₀ : Node}
    (hspec : n₀.get (.entry k .speculative) = 0)
    {past : List (NodeWorld × Turn Task Env)} {w : NodeWorld}
    (hrun : Run (nodeStep F) (World.init n₀) past w)
    (hquiet : Always (fun _ w l => MergedQuiet k w l) past) (hfree : ¬ BatchInFlight w k)
    {c : Task} {v : Int} (hmerged : (c, Note.merged k v) ∈ w.history) :
    v ≤ w.shared.get (.entry k .val) := by
  have hinit : Remembered k n₀ [] (fun _ => .idle) :=
    ⟨Announced.init hspec, 0, Total.of_zero fun _ => rfl, nofun⟩
  obtain ⟨gs, hd⟩ := (bookkeeping (Remembered k) (MergedQuiet k)).sound hinit
    (remembered_bookkeeping F k).obeyed hrun hquiet
  obtain ⟨t, ht, hle⟩ := hd.inv.held
  have hzero : w.shared.get (.entry k .speculative) = 0 :=
    hd.inv.total.eq_zero (costOn_marks_eq_zero hd hfree)
  have ht0 := hd.inv.toAnnounced.eq_zero hzero ht
  have := hle c v hmerged
  omega

def minuteCell : CounterKey := (minuteRequest 1 0).curKey

def pullThree : Env := { quietEnv 0 with rows := some [⟨minuteCell, 3, 0⟩] }

theorem not_batchInFlight {w : NodeWorld} (hdone : ∀ t ∈ w.threads, t.prog.next = none) :
    ¬ BatchInFlight w k := by
  rintro ⟨j, c, op, ⟨t, ht, -, hnext⟩, -⟩
  rw [hdone t (List.mem_of_getElem? ht)] at hnext
  cases hnext

def mergeThenRollback : List (Turn Task Env) :=
  ([.spawn .pull, .run 0 pullThree, .run 0 pullThree, .run 0 pullThree, .run 0 pullThree,
    .run 0 pullThree, .spawn (.ratelimitMany [minuteRequest 3 5])] : List (Turn Task Env)) ++
    turns 1 15

theorem merged_le_of_merged_quiet_pull :
    ∃ past w, Run (nodeStep .exact) (World.init (warmNode 0)) past w ∧
      w.shared.get (.entry minuteCell .val) = 3 ∧ 3 ≤ w.shared.get (.entry minuteCell .val) := by
  refine Run.exists_of_record (P := fun past w =>
      Always (fun _ w l => MergedQuiet minuteCell w l) past ∧
      (∀ t ∈ w.threads, t.prog.next = none) ∧ (Task.pull, Note.merged minuteCell 3) ∈ w.history ∧
      w.shared.get (.entry minuteCell .val) = 3)
    mergeThenRollback (by decide +kernel) ?_
  rintro past w hrun ⟨hquiet, hdone, hmerged, hval⟩
  have hspec : (warmNode 0).get (.entry minuteCell .speculative) = 0 := rfl
  exact ⟨hval,
    merged_le_of_merged_quiet .exact hspec hrun hquiet (not_batchInFlight hdone) hmerged⟩

def mergeInsideBatch : List (Turn Task Env) :=
  ([.spawn (.ratelimitMany [minuteRequest 3 5])] : List (Turn Task Env)) ++ turns 0 10 ++
    ([.spawn .pull, .run 1 pullThree, .run 1 pullThree, .run 1 pullThree, .run 1 pullThree] :
      List (Turn Task Env)) ++ turns 0 5

theorem merged_lost_by_rollback :
    ∃ past w, Run (nodeStep .exact) (World.init (warmNode 0)) past w ∧
      (warmNode 0).get (.entry minuteCell .speculative) = 0 ∧ committedOn minuteCell w.history = [] ∧
      ¬ BatchInFlight w minuteCell ∧
      ∃ c v, (c, Note.merged minuteCell v) ∈ w.history ∧
        ¬ v ≤ w.shared.get (.entry minuteCell .val) := by
  refine Run.exists_of_record (P := fun _ w => committedOn minuteCell w.history = [] ∧
      (∀ t ∈ w.threads, t.prog.next = none) ∧ (Task.pull, Note.merged minuteCell 3) ∈ w.history ∧
      w.shared.get (.entry minuteCell .val) = 0)
    mergeInsideBatch (by decide +kernel) ?_
  rintro past w hrun ⟨hcommitted, hdone, hmerged, hval⟩
  refine ⟨rfl, hcommitted, not_batchInFlight hdone, .pull, 3, hmerged, ?_⟩
  rw [hval]
  decide

/-! ### Pushes -/

/-- `val` of the cell is written by batches only. -/
def BatchesOnly (k : CounterKey) (w : NodeWorld) (l : Turn Task Env) : Prop :=
  w.Performs (fun op => op.swaps w.shared k = false) l

def Op.retracts (k : CounterKey) : Op → Bool
  | .add t delta => decide (t = .entry k .speculative ∧ delta < 0)
  | _ => false

/-- No batch takes announced cost of the cell back while a push is between its two loads. -/
def PushUndisturbed (k : CounterKey) (w : NodeWorld) (l : Turn Task Env) : Prop :=
  w.Performs (fun op => op.retracts k = true →
    ∀ t ∈ w.threads, t.prog.next ≠ some (.load (.entry k .speculative) false)) l

instance (k : CounterKey) (w : NodeWorld) (l : Turn Task Env) : Decidable (BatchesOnly k w l) := by
  unfold BatchesOnly
  infer_instance

instance (k : CounterKey) (w : NodeWorld) (l : Turn Task Env) : Decidable (PushUndisturbed k w l) := by
  unfold PushUndisturbed
  infer_instance

/-- `val` is its first value, what was committed and what the batches in flight hold. -/
structure Contained (k : CounterKey) (v₀ : Int) (n : Node) (h : History) (gs : Nat → Ghost) : Prop
    extends Announced k n gs where
  held : ∃ t, Total (fun g : Ghost => costOn k g.stakes) gs t ∧
    n.get (.entry k .val) = v₀ + spentOn k h + t
  loaded : ∀ i v, (gs i).loaded = some (k, v) →
    v ≤ v₀ + spentOn k h + n.get (.entry k .speculative)
  rows : ∀ i, ∀ row ∈ (gs i).rows, row.key = k → row.count ≤ v₀ + spentOn k h
  written : ∀ row ∈ n.written, row.key = k → row.count ≤ v₀ + spentOn k h

namespace Contained

variable {v₀ : Int}

theorem of_same (hc : Contained k v₀ n h gs)
    (hspec : n'.get (.entry k .speculative) = n.get (.entry k .speculative))
    (hval : n'.get (.entry k .val) = n.get (.entry k .val)) (hspent : spentOn k h' = spentOn k h)
    (hwritten : n'.written = n.written) : Contained k v₀ n' h' gs := by
  refine ⟨hc.toAnnounced.of_same hspec, ?_, ?_, ?_, ?_⟩
  · rw [hval, hspent]
    exact hc.held
  · rw [hspec, hspent]
    exact hc.loaded
  · rw [hspent]
    exact hc.rows
  · rw [hwritten, hspent]
    exact hc.written

theorem of_batch (hc : Contained k v₀ n h gs) {rolling : Bool}
    (ha : Announced k n' (Function.update gs i (.batch stakes marks rolling)))
    (hspent : spentOn k h ≤ spentOn k h')
    (hval : n'.get (.entry k .val) + costOn k (gs i).stakes + spentOn k h
      = n.get (.entry k .val) + costOn k stakes + spentOn k h')
    (hspec : n.get (.entry k .speculative) ≤ n'.get (.entry k .speculative) ∨
      ∀ j v, (gs j).loaded ≠ some (k, v))
    (hwritten : n'.written = n.written) :
    Contained k v₀ n' h' (Function.update gs i (.batch stakes marks rolling)) := by
  refine ⟨ha, ?_, ?_, ?_, ?_⟩
  · obtain ⟨t, ht, heq⟩ := hc.held
    refine ⟨_, ht.update i _, ?_⟩
    show _ = _ + (t - costOn k (gs i).stakes + costOn k stakes)
    omega
  · refine forall_update gs (fun _ g => ∀ v, g.loaded = some (k, v) → v ≤ _) ?_
      nofun
    intro j v hv
    rcases hspec with hspec | hnone
    · have := hc.loaded j v hv
      omega
    · exact absurd hv (hnone j v)
  · refine forall_update gs (fun _ g => ∀ row ∈ g.rows, row.key = k → row.count ≤ _) ?_
      nofun
    intro j row hrow hkey
    exact (hc.rows j row hrow hkey).trans (by omega)
  · rw [hwritten]
    intro row hrow hkey
    exact (hc.written row hrow hkey).trans (by omega)

theorem of_push (hc : Contained k v₀ n h gs)
    (hstakes : g.stakes = (gs i).stakes) (hmarks : g.marks = (gs i).marks)
    (hloaded : ∀ v, g.loaded = some (k, v) →
      v ≤ v₀ + spentOn k h + n.get (.entry k .speculative))
    (hrows : ∀ row ∈ g.rows, row.key = k → row.count ≤ v₀ + spentOn k h) :
    Contained k v₀ n h (Function.update gs i g) := by
  refine ⟨hc.toAnnounced.regroup hstakes hmarks, ?_, ?_, ?_, hc.written⟩
  · obtain ⟨t, ht, heq⟩ := hc.held
    refine ⟨t, ht.update_of_eq ?_, heq⟩
    rw [hstakes]
    omega
  · exact forall_update gs (fun _ g => ∀ v, g.loaded = some (k, v) → v ≤ _) hc.loaded hloaded
  · exact forall_update gs (fun _ g => ∀ row ∈ g.rows, row.key = k → row.count ≤ _) hc.rows hrows

theorem val_le (hc : Contained k v₀ n h gs) :
    n.get (.entry k .val) ≤ v₀ + spentOn k h + n.get (.entry k .speculative) := by
  obtain ⟨t, ht, heq⟩ := hc.held
  have := ht.mono hc.total hc.le
  omega

end Contained

theorem Node.written_put (n : Node) (t : Target) (v : Int) : (n.put t v).written = n.written := by
  cases t <;> rfl

theorem loaded_ne {Inv : Assertion Node Task Note Ghost}
    {Guard : NodeWorld → Turn Task Env → Prop} {w : NodeWorld}
    (hd : (bookkeeping Inv Guard).Describes w gs)
    (hnone : ∀ t ∈ w.threads, t.prog.next ≠ some (.load (.entry k .speculative) false))
    (j : Nat) (v : Int) : (gs j).loaded ≠ some (k, v) := by
  intro hv
  have hbusy : gs j ≠ .idle := by
    intro hidle
    rw [hidle] at hv
    cases hv
  obtain ⟨c, op, hat⟩ := hd.busy j hbusy
  have hop := (hd.pos j c op hat).next k v hv
  obtain ⟨t, ht, -, hnext⟩ := hat
  exact hnone t (List.mem_of_getElem? ht) (by rw [hnext, hop])

theorem contained_bookkeeping (F : Floats) (k : CounterKey) (v₀ : Int) :
    Bookkeeping F (Contained k v₀) (fun w l => BatchesOnly k w l ∧ PushUndisturbed k w l)
      (fun _ => True) where
  good := fun _ _ => ⟨trivial, trivial⟩
  still := fun hc hsame hwritten => hc.of_same (hsame _ rfl) (hsame _ rfl) rfl hwritten
  covered := fun hd _ _ _ => Contained.of_same hd.inv rfl rfl rfl rfl
  swapped := by
    intro w gs i c e l v hd hat hguard _
    have hkl : k ≠ l := by
      rintro rfl
      have := hguard.1.at hat
      simp [Op.swaps] at this
    exact hd.inv.of_same (Node.get_put_of_ne _ (by simp) _)
      (Node.get_put_of_ne _ (by simpa using hkl) _) rfl (Node.written_put ..)
  imported := fun hc _ _ => hc.of_same (Node.get_put_of_ne _ (by simp) _)
    (Node.get_put_of_ne _ (by simp) _) rfl (Node.written_put ..)
  committedOne := by
    intro w gs i c e req cs hd _ hat hguard hp
    have hk : k ≠ cs.cur := by
      rintro rfl
      have := hguard.1.at hat
      simp [Op.swaps] at this
    refine hd.inv.of_same (Node.get_put_of_ne _ (by simp) _)
      (Node.get_put_of_ne _ (by simpa using hk) _) ?_ (Node.written_put ..)
    rw [spentOn_one, if_neg (by rw [← hp.check.cur]; exact hk.symm), zero_add]
  mark := by
    intro n h gs i stakes marks m hc hgi hcost
    refine hc.of_batch (hc.toAnnounced.mark hgi hcost) le_rfl ?_ (.inl ?_)
      (Node.written_put ..)
    · rw [Node.get_put_of_ne _ (by simp), hgi]
      rfl
    · rw [Node.get_put_add]
      split <;> omega
  stake := by
    intro n h gs i stakes marks st hc hgi hcost hcount hle
    refine hc.of_batch (hc.toAnnounced.stake hgi hcost (hle k)) le_rfl ?_ (.inl ?_)
      (Node.written_put ..)
    · rw [hgi, hcount, Node.get_put_add]
      show _ + costOn k stakes + _ = _ + costOn k (stakes ++ [st]) + _
      rw [costOn_concat]
      omega
    · rw [Node.get_put_of_ne _ (by simp)]
  commit := by
    intro n h gs i c marks items hc hgi hpass
    have hnonneg := hc.toAnnounced.costOn_nonneg i
    have hspent := spentOn_batch (fun it hit => (hpass it hit).check.cur) k c h
    rw [hgi] at hnonneg
    refine hc.of_batch (hc.toAnnounced.release hgi) ?_ ?_ (.inl le_rfl) rfl
    · rw [hspent]
      exact le_add_of_nonneg_left hnonneg
    · rw [hspent, hgi, costOn_nil]
      show _ + costOn k (items.map Item.stake) + _ = _
      omega
  roll := fun hc hgi => hc.of_push (by rw [hgi]; rfl) (by rw [hgi]; rfl)
    nofun nofun
  unstake := by
    intro n h gs i stakes marks st hc hgi hcost
    refine hc.of_batch (hc.toAnnounced.unstake hgi hcost) le_rfl ?_ (.inl ?_)
      (Node.written_put ..)
    · rw [hgi, Node.get_put_add]
      show _ + costOn k (st :: stakes) + _ = _ + costOn k stakes + _
      rw [costOn_cons]
      split <;> omega
    · rw [Node.get_put_of_ne _ (by simp)]
  unmark := by
    intro w gs i c e stakes marks rolling m hd hgi hat hguard hcost hle
    refine hd.inv.of_batch (hd.inv.toAnnounced.unmark hgi (hle k)) le_rfl ?_ ?_ (Node.written_put ..)
    · rw [Node.get_put_of_ne _ (by simp), hgi]
      rfl
    · by_cases hshrinks : m.key = k ∧ 0 < m.cost
      · obtain ⟨rfl, hpos⟩ := hshrinks
        refine .inr (loaded_ne hd (hguard.2.at hat ?_))
        simpa [Op.retracts] using hpos
      · grind [Node.get_put_add]
  finish := fun hc hgi => hc.of_push (by rw [hgi]; rfl) (by rw [hgi]; rfl)
    nofun nofun
  loadVal := by
    intro n h gs i rows l hc hgi
    refine hc.of_push (by rw [hgi]; rfl) (by rw [hgi]; rfl) ?_ ?_
    · intro v hv
      obtain ⟨rfl, rfl⟩ := Prod.mk.inj (Option.some.inj hv)
      exact hc.val_le
    · have := hc.rows i
      rwa [hgi] at this
  loadSpeculative := by
    intro n h gs i v rows row hc hgi hcount
    refine hc.of_push (by rw [hgi]; rfl) (by rw [hgi]; rfl) nofun ?_
    intro r hr hkey
    rcases List.mem_append.mp hr with hr | hr
    · exact hc.rows i r (by rw [hgi]; exact hr) hkey
    · rw [List.mem_singleton.mp hr] at hkey ⊢
      have := hc.loaded i v (by rw [hgi, ← hkey]; rfl)
      rw [hkey] at hcount
      omega
  written := by
    intro n h gs i rows chunk hc hgi hchunk
    refine ⟨hc.toAnnounced.of_same rfl, hc.held, hc.loaded, hc.rows, ?_⟩
    intro row hrow hkey
    rcases List.mem_append.mp hrow with hrow | hrow
    · exact hc.written row hrow hkey
    · exact hc.rows i row (by rw [hgi]; exact hchunk row hrow) hkey
  pushed := fun hc hgi => hc.of_push (by rw [hgi]; rfl) (by rw [hgi]; rfl)
    nofun nofun

/-! ### Counters of 64 bits -/

/-- `nodeApply` with the addition of `atomic.Int64`, which wraps. -/
def machineApply (task : Task) : (op : Op) → Env → Node → Option (op.Ret × Node)
  | .add t delta, _, n => some (int64 (n.get t + delta), n.put t (int64 (n.get t + delta)))
  | op, e, n => nodeApply task op e n

abbrev machineStep (F : Floats) := worldStep machineApply (Task.body F)

def Op.Fits (n : Node) : Op → Prop
  | .add t delta => IsInt64 (n.get t + delta)
  | _ => True

instance (n : Node) : DecidablePred (Op.Fits n) := fun op => by
  unfold Op.Fits
  split <;> infer_instance

/-- The turn adds nothing that leaves 64 bits. -/
def NoOverflow (w : NodeWorld) (l : Turn Task Env) : Prop := w.Performs (Op.Fits w.shared) l

instance (w : NodeWorld) (l : Turn Task Env) : Decidable (NoOverflow w l) := by
  unfold NoOverflow
  infer_instance

theorem machineApply_eq {task : Task} {op : Op} (e : Env) (hfits : op.Fits n) :
    machineApply task op e n = nodeApply task op e n := by
  cases op with
  | add t delta =>
    rw [machineApply, int64_of_isInt64 hfits]
    rfl
  | _ => rfl

theorem machineStep_eq (F : Floats) {w : NodeWorld} {l : Turn Task Env} (hfits : NoOverflow w l) :
    machineStep F w l = nodeStep F w l := by
  cases l with
  | spawn task => rfl
  | run i e =>
    simp only [worldStep]
    split
    · rfl
    · rename_i t ht
      cases hprog : t.prog with
      | act op rest =>
        have hop : op.Fits w.shared :=
          hfits op (by rw [World.next, ht, Option.bind_some, hprog]; rfl)
        simp only [machineApply_eq e hop]
      | _ => rfl

/-- A node before its first batch on the cell: a count, and nothing announced or shared. -/
structure Untouched (k : CounterKey) (v₀ : Int) (n : Node) : Prop where
  val : n.get (.entry k .val) = v₀
  nonneg : 0 ≤ v₀
  speculative : n.get (.entry k .speculative) = 0
  written : n.written = []

/-- Over all interleavings on a node that starts with no cost announced on the cell, in which no
addition leaves 64 bits, batches alone write `val` of the cell and no batch takes announced cost
back between the two loads of a push: as long as no batch on the cell has committed, every row
written for it has at most the count the cell started with. -/
theorem written_le_of_push_undisturbed (F : Floats) {n₀ : Node} {v₀ : Int}
    (hstart : Untouched k v₀ n₀) {past : List (NodeWorld × Turn Task Env)} {w : NodeWorld}
    (hrun : Run (machineStep F) (World.init n₀) past w)
    (hfits : Always (fun _ w l => NoOverflow w l) past)
    (hundisturbed : Always (fun _ w l => BatchesOnly k w l ∧ PushUndisturbed k w l) past)
    (hrolled : committedOn k w.history = []) {row : GlobalRow} (hrow : row ∈ w.shared.written)
    (hkey : row.key = k) : row.count ≤ v₀ := by
  have hinit : Contained k v₀ n₀ [] (fun _ => .idle) := by
    refine ⟨Announced.init hstart.speculative, ⟨0, Total.of_zero fun _ => rfl, ?_⟩, nofun,
      nofun, ?_⟩
    · rw [hstart.val]
      simp [spentOn, committedOn]
    · rw [hstart.written]
      intro row hrow
      cases hrow
  have hexact : Run (nodeStep F) (World.init n₀) past w :=
    hrun.of_agree hfits fun _ _ _ hturn => machineStep_eq F hturn
  obtain ⟨gs, hd⟩ := (bookkeeping (Contained k v₀) _).sound hinit
    (contained_bookkeeping F k v₀).obeyed hexact hundisturbed
  have := hd.inv.written row hrow hkey
  rw [spentOn, hrolled] at this
  simpa using this

def sharedNode : Node :=
  { warmNode 2 with counters := fun k => { (warmNode 2).counters k with globalPushThreshold := 1 } }

def pushInsideBatch : List (Turn Task Env) :=
  ([.spawn (.ratelimitMany [minuteRequest 3 5])] : List (Turn Task Env)) ++ turns 0 10 ++
    ([.spawn .push] : List (Turn Task Env)) ++ turns 1 8 ++ turns 0 5

theorem written_le_of_push_undisturbed_inside :
    ∃ past w, Run (machineStep .exact) (World.init sharedNode) past w ∧
      ∃ row ∈ w.shared.written, row.key = minuteCell ∧ row.count ≤ 2 := by
  refine Run.exists_of_record (P := fun past w => Always (fun _ w l => NoOverflow w l) past ∧
      Always (fun _ w l => BatchesOnly minuteCell w l ∧ PushUndisturbed minuteCell w l) past ∧
      committedOn minuteCell w.history = [] ∧ w.shared.written = [⟨minuteCell, 2, 180000, 90000⟩])
    pushInsideBatch (by decide +kernel) ?_
  rintro past w hrun ⟨hfits, hundisturbed, hrolled, hwritten⟩
  have hrow : ⟨minuteCell, 2, 180000, 90000⟩ ∈ w.shared.written := by
    rw [hwritten]
    exact List.mem_singleton_self _
  exact ⟨_, hrow, rfl, written_le_of_push_undisturbed .exact ⟨rfl, by decide, rfl, rfl⟩ hrun hfits
    hundisturbed hrolled hrow rfl⟩

/-- A push loads `val` before and `speculative` after the rollback of a batch. -/
def pushAcrossRollback : List (Turn Task Env) :=
  ([.spawn (.ratelimitMany [minuteRequest 3 5])] : List (Turn Task Env)) ++ turns 0 10 ++
    ([.spawn .push] : List (Turn Task Env)) ++ turns 1 3 ++ turns 0 5 ++ turns 1 5

theorem written_leaked_by_rollback :
    ∃ past w, Run (machineStep .exact) (World.init sharedNode) past w ∧
      Untouched minuteCell 2 sharedNode ∧
      Always (fun _ w l => BatchesOnly minuteCell w l) past ∧
      committedOn minuteCell w.history = [] ∧
      ∃ row ∈ w.shared.written, row.key = minuteCell ∧ ¬ row.count ≤ 2 := by
  refine Run.exists_of_record (P := fun past w =>
      Always (fun _ w l => BatchesOnly minuteCell w l) past ∧
      committedOn minuteCell w.history = [] ∧ w.shared.written = [⟨minuteCell, 7, 180000, 90000⟩])
    pushAcrossRollback (by decide +kernel) ?_
  rintro past w hrun ⟨honly, hrolled, hwritten⟩
  refine ⟨⟨rfl, by decide, rfl, rfl⟩, honly, hrolled, ⟨minuteCell, 7, 180000, 90000⟩, ?_, rfl, ?_⟩
  · rw [hwritten]
    exact List.mem_singleton_self _
  · decide

end Unkey.Ratelimit
