import Unkey.Base.Ledger
import Unkey.Ratelimit.Tasks

/-!
# What a node admits

The cost committed on a cell stays within the largest limit that was committed there, under every
interleaving of the tasks of a node.
-/

namespace Unkey.Ratelimit

open Unkey.Base

/-! ### A request that passed -/

variable {req : RatelimitRequest}

theorem weigh_nonneg {cs : CheckState} (hv : validate req = none)
    (hcs : cs.For req) {prev : Int} (hprev : 0 ≤ prev) :
    0 ≤ Floats.exact.weigh prev cs.elapsedMs cs.durationMs := by
  have hpos : 0 < cs.durationMs := by
    rw [hcs.durationMs]
    exact durationMs_pos_of_valid hv
  have helapsed : cs.elapsedMs = (unixMilli req.time).tmod cs.durationMs := by
    rw [hcs.elapsedMs, hcs.durationMs, Int.tmod_def, Int.mul_comm]
    rfl
  have hlt : cs.elapsedMs < cs.durationMs := by
    rw [helapsed]
    exact Int.tmod_lt_of_pos _ hpos
  apply Int.ediv_nonneg
  · exact Int.mul_nonneg hprev (by omega)
  · omega

theorem Passing.count_le {cs : CheckState} {count : Int}
    (hp : Passing .exact (0 ≤ ·) req cs count) : count ≤ req.limit := by
  obtain ⟨prev, hprev, hfits⟩ := hp.fits
  have hweight := weigh_nonneg hp.valid hp.check (Int.add_nonneg hprev hp.prevGlobal)
  have hcur := hp.curGlobal
  unfold CheckState.slidingWindowCount at hfits
  omega

/-! ### The invariant -/

variable {n n' : Node} {h h' : History} {gs gs' : Nat → Ghost}

/-- What the cell would hold if exactly the batches in `S` committed is within the limit of a
committed request, or within what one of these batches found. -/
def Bounded (k : CounterKey) (h : History) (gs : Nat → Ghost) (S : Finset Nat) (x : Int) : Prop :=
  x ≤ 0 ∨ (∃ req ∈ committedOn k h, x ≤ req.limit)
    ∨ ∃ i ∈ S, ∃ st ∈ (gs i).stakes, st.key = k ∧ x ≤ st.count

theorem Bounded.mono {k : CounterKey} {S S' : Finset Nat} {x : Int} (hx : Bounded k h gs S x)
    (hcommitted : ∀ req ∈ committedOn k h, req ∈ committedOn k h')
    (hstakes : ∀ i ∈ S, ∀ st ∈ (gs i).stakes, i ∈ S' ∧ st ∈ (gs' i).stakes) :
    Bounded k h' gs' S' x := by
  rcases hx with hx | ⟨req, hreq, hx⟩ | ⟨i, hi, st, hst, hx⟩
  · exact .inl hx
  · exact .inr (.inl ⟨req, hcommitted req hreq, hx⟩)
  · obtain ⟨hi, hst⟩ := hstakes i hi st hst
    exact .inr (.inr ⟨i, hi, st, hst, hx⟩)

theorem mem_committedOn_cons {k : CounterKey} (p : Task × Note) :
    ∀ req ∈ committedOn k h, req ∈ committedOn k (p :: h) := by
  simp only [committedOn, List.flatMap_cons, List.filter_append]
  exact fun req hreq => List.mem_append_right _ hreq

structure Admitted (n : Node) (h : History) (gs : Nat → Ghost) : Prop where
  global_nonneg : ∀ k, 0 ≤ n.get (.entry k .globalCount)
  stake_nonneg : ∀ i, ∀ st ∈ (gs i).stakes, 0 ≤ st.cost
  valid : ∀ k, ∀ req ∈ committedOn k h, validate req = none
  held : ∀ k, ∃ t, Total (fun g : Ghost => costOn k g.stakes) gs t ∧
    spentOn k h + t ≤ n.get (.entry k .val)
  bounded : ∀ k (S : Finset Nat), (∀ i ∈ S, (gs i).rolling = false) →
    Bounded k h gs S (spentOn k h + ∑ i ∈ S, costOn k (gs i).stakes)

namespace Admitted

theorem costOn_nonneg (ha : Admitted n h gs) (k : CounterKey) (i : Nat) :
    0 ≤ costOn k (gs i).stakes :=
  Unkey.Ratelimit.costOn_nonneg (ha.stake_nonneg i) k

theorem spent_nonneg (ha : Admitted n h gs) (k : CounterKey) : 0 ≤ spentOn k h := by
  apply List.sum_nonneg
  intro x hx
  obtain ⟨req, hreq, rfl⟩ := List.mem_map.mp hx
  exact cost_nonneg_of_valid (ha.valid k req hreq)

theorem le_val (ha : Admitted n h gs) (k : CounterKey) (S : Finset Nat) :
    spentOn k h + ∑ i ∈ S, costOn k (gs i).stakes ≤ n.get (.entry k .val) := by
  obtain ⟨t, ht, hle⟩ := ha.held k
  have := ht.sum_le (ha.costOn_nonneg k) S
  omega

theorem val_nonneg (ha : Admitted n h gs) (k : CounterKey) : 0 ≤ n.get (.entry k .val) := by
  have hle := ha.le_val k ∅
  have := ha.spent_nonneg k
  rw [Finset.sum_empty] at hle
  omega

theorem of_same (ha : Admitted n h gs) (hglobal : ∀ k, 0 ≤ n'.get (.entry k .globalCount))
    (hval : ∀ k, n.get (.entry k .val) ≤ n'.get (.entry k .val))
    (hcommitted : ∀ k, committedOn k h' = committedOn k h)
    (hstakes : ∀ i, (gs' i).stakes = (gs i).stakes)
    (hrolling : ∀ i, (gs' i).rolling = false → (gs i).rolling = false ∨ (gs i).stakes = []) :
    Admitted n' h' gs' := by
  have hspent : ∀ k, spentOn k h' = spentOn k h := fun k => by rw [spentOn, hcommitted, spentOn]
  refine ⟨hglobal, ?_, ?_, ?_, ?_⟩
  · intro i st hst
    rw [hstakes] at hst
    exact ha.stake_nonneg i st hst
  · intro k req hreq
    rw [hcommitted] at hreq
    exact ha.valid k req hreq
  · intro k
    obtain ⟨t, ht, hle⟩ := ha.held k
    refine ⟨t, ht.congr fun i => by rw [hstakes], ?_⟩
    rw [hspent]
    exact hle.trans (hval k)
  · intro k S hS
    -- batches that hold nothing add nothing
    have hsum : ∑ i ∈ S, costOn k (gs' i).stakes
        = ∑ i ∈ S.filter (fun i => (gs i).rolling = false), costOn k (gs i).stakes := by
      simp only [hstakes]
      symm
      apply Finset.sum_filter_of_ne
      intro i hi hne
      rcases hrolling i (hS i hi) with hroll | hnil
      · exact hroll
      · rw [hnil] at hne
        exact absurd rfl hne
    rw [hspent, hsum]
    refine (ha.bounded k _ fun i hi => (Finset.mem_filter.mp hi).2).mono ?_ fun i hi st hst => ?_
    · rw [hcommitted]
      exact fun _ hreq => hreq
    · rw [hstakes]
      exact ⟨(Finset.mem_filter.mp hi).1, hst⟩

theorem of_update (ha : Admitted n h gs) {i : Nat} {g : Ghost}
    (hglobal : ∀ k, n'.get (.entry k .globalCount) = n.get (.entry k .globalCount))
    (hval : ∀ k, n'.get (.entry k .val) = n.get (.entry k .val))
    (hstakes : g.stakes = (gs i).stakes)
    (hrolling : g.rolling = false → (gs i).rolling = false ∨ (gs i).stakes = []) :
    Admitted n' h (Function.update gs i g) := by
  refine ha.of_same ?_ (fun k => (hval k).ge) (fun _ => rfl) ?_ ?_
  · intro k
    rw [hglobal]
    exact ha.global_nonneg k
  · exact forall_update gs (fun j g => g.stakes = (gs j).stakes) (fun _ => rfl) hstakes
  · exact forall_update gs (fun j g => g.rolling = false → (gs j).rolling = false ∨ _)
      (fun _ => .inl) hrolling

theorem merged (ha : Admitted n h gs) {c : Task} {k : CounterKey} {v : Int}
    (hlt : n.get (.entry k .val) ≤ v) :
    Admitted (n.put (.entry k .val) v) ((c, .merged k v) :: h) gs := by
  refine ha.of_same ?_ ?_ (fun _ => rfl) (fun _ => rfl) (fun _ hroll => .inl hroll)
  · intro l
    rw [Node.get_put_of_ne _ (by simp)]
    exact ha.global_nonneg l
  · grind [Node.get_put]

theorem committedOne (ha : Admitted n h gs) {c : Task} {cs : CheckState}
    (hp : Passing .exact (0 ≤ ·) req cs (n.get (.entry cs.cur .val) + req.cost)) :
    Admitted (n.put (.entry cs.cur .val) (n.get (.entry cs.cur .val) + req.cost))
      ((c, .committed [req]) :: h) gs := by
  have hcost := cost_nonneg_of_valid hp.valid
  have hkey : cs.cur = req.curKey := hp.check.cur
  refine ⟨?_, ha.stake_nonneg, ?_, ?_, ?_⟩
  · intro k
    rw [Node.get_put_of_ne _ (by simp)]
    exact ha.global_nonneg k
  · intro k old hold
    rw [committedOn_committed] at hold
    rcases List.mem_append.mp hold with hold | hold
    · rw [List.mem_singleton.mp (List.mem_of_mem_filter hold)]
      exact hp.valid
    · exact ha.valid k old hold
  · intro k
    obtain ⟨t, ht, hle⟩ := ha.held k
    refine ⟨t, ht, ?_⟩
    rw [spentOn_one, Node.get_put_add, ← hkey]
    omega
  · intro k S hS
    rw [spentOn_one]
    by_cases hk : req.curKey = k
    · have hval := ha.le_val cs.cur S
      have hfits := hp.count_le
      refine .inr (.inl ⟨req, ?_, ?_⟩)
      · rw [committedOn_committed]
        simp [hk]
      · rw [if_pos hk, ← hk, ← hkey]
        omega
    · rw [if_neg hk, zero_add]
      exact (ha.bounded k S hS).mono (mem_committedOn_cons _) fun _ hi _ hst => ⟨hi, hst⟩

theorem staked (ha : Admitted n h gs) {i : Nat} {stakes marks : List Stake} {st : Stake}
    (hgi : gs i = .batch stakes marks false) (hcost : 0 ≤ st.cost)
    (hcount : st.count = n.get (.entry st.key .val) + st.cost) :
    Admitted (n.put (.entry st.key .val) st.count) h
      (Function.update gs i (.batch (stakes ++ [st]) marks false)) := by
  have hnew : ∀ k, costOn k (stakes ++ [st])
      = costOn k (gs i).stakes + if st.key = k then st.cost else 0 := by
    intro k
    rw [costOn_concat, hgi]
    rfl
  refine ⟨?_, ?_, ha.valid, ?_, ?_⟩
  · intro k
    rw [Node.get_put_of_ne _ (by simp)]
    exact ha.global_nonneg k
  · have hnonneg := ha.stake_nonneg i
    rw [hgi] at hnonneg
    exact forall_update gs (fun _ g => ∀ st ∈ g.stakes, 0 ≤ st.cost) ha.stake_nonneg
      (List.forall_mem_append.mpr ⟨hnonneg, List.forall_mem_singleton.mpr hcost⟩)
  · intro k
    obtain ⟨t, ht, hle⟩ := ha.held k
    refine ⟨_, ht.update i _, ?_⟩
    show spentOn k h + (t - costOn k (gs i).stakes + costOn k (stakes ++ [st])) ≤ _
    rw [hnew, hcount, Node.get_put_add]
    omega
  · intro k S hS
    have hS' : ∀ j ∈ S, (gs j).rolling = false := by
      intro j hj
      by_cases hji : j = i
      · rw [hji, hgi]
        rfl
      · have := hS j hj
        rwa [Function.update_of_ne hji] at this
    rw [sum_update (fun g : Ghost => costOn k g.stakes)]
    by_cases hfresh : i ∈ S ∧ st.key = k
    · -- the batch itself is in `S`, and has just seen the whole cell
      obtain ⟨hi, rfl⟩ := hfresh
      have hval := ha.le_val st.key S
      refine .inr (.inr ⟨i, hi, st, ?_, rfl, ?_⟩)
      · rw [Function.update_self]
        exact List.mem_append_right _ (List.mem_singleton_self st)
      · rw [if_pos hi]
        show _ + (_ + (costOn st.key (stakes ++ [st]) - _)) ≤ _
        rw [hnew, if_pos rfl]
        omega
    · have hsame : (if i ∈ S then costOn k (stakes ++ [st]) - costOn k (gs i).stakes else 0) = 0 := by
        rw [hnew]
        by_cases hi : i ∈ S
        · rw [if_pos hi, if_neg (fun hk => hfresh ⟨hi, hk⟩)]
          omega
        · rw [if_neg hi]
      show Bounded k h _ S (_ + (_ + if i ∈ S then costOn k (stakes ++ [st]) - _ else 0))
      rw [hsame, add_zero]
      refine (ha.bounded k S hS').mono (fun _ hreq => hreq) fun j hj old hold => ⟨hj, ?_⟩
      revert hold
      refine forall_update gs (fun j g => old ∈ (gs j).stakes → old ∈ g.stakes) (fun _ => id) ?_ j
      rw [hgi]
      exact List.mem_append_left _

theorem committedBatch (ha : Admitted n h gs) {i : Nat} {c : Task} {marks : List Stake}
    {items : List Item} (hgi : gs i = .batch (items.map Item.stake) marks false)
    (hpass : ∀ it ∈ items, Passing .exact (0 ≤ ·) it.req it.cs it.newCount) :
    Admitted n ((c, .committed (items.map Item.req)) :: h)
      (Function.update gs i (.batch [] marks false)) := by
  have hspent : ∀ k, spentOn k ((c, .committed (items.map Item.req)) :: h)
      = costOn k (gs i).stakes + spentOn k h := by
    intro k
    rw [hgi]
    exact spentOn_batch (fun it hit => (hpass it hit).check.cur) k c h
  refine ⟨ha.global_nonneg, ?_, ?_, ?_, ?_⟩
  · exact forall_update gs (fun _ g => ∀ st ∈ g.stakes, 0 ≤ st.cost) ha.stake_nonneg
      nofun
  · intro k old hold
    rw [committedOn_committed] at hold
    rcases List.mem_append.mp hold with hold | hold
    · obtain ⟨it, hit, rfl⟩ := List.mem_map.mp (List.mem_of_mem_filter hold)
      exact (hpass it hit).valid
    · exact ha.valid k old hold
  · intro k
    obtain ⟨t, ht, hle⟩ := ha.held k
    refine ⟨_, ht.update i _, ?_⟩
    show _ + (t - costOn k (gs i).stakes + costOn k []) ≤ _
    rw [hspent, costOn_nil]
    omega
  · intro k S hS
    -- the same batches commit as in `insert i S` before
    have hbefore : ∀ j ∈ insert i S, (gs j).rolling = false := by
      intro j hj
      by_cases hji : j = i
      · rw [hji, hgi]
        rfl
      · have := hS j (Finset.mem_of_mem_insert_of_ne hj hji)
        rwa [Function.update_of_ne hji] at this
    have hsum : costOn k (gs i).stakes + spentOn k h
        + ∑ j ∈ S, costOn k (Function.update gs i (.batch [] marks false) j).stakes
        = spentOn k h + ∑ j ∈ insert i S, costOn k (gs j).stakes := by
      rw [sum_update (fun g : Ghost => costOn k g.stakes)]
      show _ + (_ + if i ∈ S then costOn k [] - _ else 0) = _
      by_cases hi : i ∈ S
      · rw [if_pos hi, Finset.insert_eq_self.mpr hi, costOn_nil]
        ring
      · rw [if_neg hi, Finset.sum_insert hi]
        ring
    rw [hspent, hsum]
    rcases ha.bounded k _ hbefore with hx | ⟨old, hold, hx⟩ | ⟨j, hj, st, hst, hkey, hx⟩
    · exact .inl hx
    · exact .inr (.inl ⟨old, mem_committedOn_cons _ old hold, hx⟩)
    · by_cases hji : j = i
      · -- its own count was within its limit
        subst hji
        rw [hgi] at hst
        obtain ⟨it, hit, rfl⟩ := List.mem_map.mp hst
        refine .inr (.inl ⟨it.req, ?_, hx.trans (hpass it hit).count_le⟩)
        rw [committedOn_committed]
        apply List.mem_append_left
        rw [List.mem_filter, decide_eq_true_eq, ← (hpass it hit).check.cur]
        exact ⟨List.mem_map_of_mem hit, hkey⟩
      · refine .inr (.inr ⟨j, Finset.mem_of_mem_insert_of_ne hj hji, st, ?_, hkey, hx⟩)
        rw [Function.update_of_ne hji]
        exact hst

theorem unstaked (ha : Admitted n h gs) {i : Nat} {stakes marks : List Stake} {st : Stake}
    (hgi : gs i = .batch (st :: stakes) marks true) :
    Admitted (n.put (.entry st.key .val) (n.get (.entry st.key .val) + -st.cost)) h
      (Function.update gs i (.batch stakes marks true)) := by
  have hold : ∀ k, costOn k (gs i).stakes
      = (if st.key = k then st.cost else 0) + costOn k stakes := by
    intro k
    rw [hgi]
    exact costOn_cons k st stakes
  refine ⟨?_, ?_, ha.valid, ?_, ?_⟩
  · intro k
    rw [Node.get_put_of_ne _ (by simp)]
    exact ha.global_nonneg k
  · have hnonneg := ha.stake_nonneg i
    rw [hgi] at hnonneg
    exact forall_update gs (fun _ g => ∀ st ∈ g.stakes, 0 ≤ st.cost) ha.stake_nonneg
      (fun st' hst' => hnonneg st' (List.mem_cons_of_mem _ hst'))
  · intro k
    obtain ⟨t, ht, hle⟩ := ha.held k
    refine ⟨_, ht.update i _, ?_⟩
    show spentOn k h + (t - costOn k (gs i).stakes + costOn k stakes) ≤ _
    rw [hold, Node.get_put_add]
    split <;> omega
  · intro k S hS
    have hne : ∀ j ∈ S, j ≠ i := by
      rintro j hj rfl
      have := hS j hj
      rw [Function.update_self] at this
      cases this
    have hother : ∀ j ∈ S, Function.update gs i (.batch stakes marks true) j = gs j :=
      fun j hj => Function.update_of_ne (hne j hj) _ _
    rw [Finset.sum_congr rfl fun j hj => by rw [hother j hj]]
    refine (ha.bounded k S fun j hj => by rw [← hother j hj]; exact hS j hj).mono
      (fun _ hreq => hreq) fun j hj _ hold => ⟨hj, ?_⟩
    rw [hother j hj]
    exact hold

end Admitted

theorem admitted_bookkeeping : Bookkeeping .exact Admitted (fun _ _ => True) (0 ≤ ·) where
  good := fun ha k => ⟨ha.val_nonneg k, ha.global_nonneg k⟩
  still := by
    intro n n' h gs ha hsame _
    refine ha.of_same ?_ ?_ (fun _ => rfl) (fun _ => rfl) (fun _ hroll => .inl hroll)
    · intro k
      rw [hsame _ rfl]
      exact ha.global_nonneg k
    · intro k
      rw [hsame _ rfl]
  covered := by
    intro w gs i c e k v hd _ _ _
    exact hd.inv.of_same hd.inv.global_nonneg (fun _ => le_rfl) (fun _ => rfl) (fun _ => rfl)
      (fun _ hroll => .inl hroll)
  swapped := fun hd _ _ hlt => Admitted.merged hd.inv hlt.le
  imported := by
    intro n h gs k v ha hgood hlt
    refine ha.of_same ?_ ?_ (fun _ => rfl) (fun _ => rfl) (fun _ hroll => .inl hroll)
    · intro l
      have := ha.global_nonneg l
      rw [Node.get_put]
      split <;> omega
    · intro l
      rw [Node.get_put_of_ne _ (by simp)]
  committedOne := fun hd _ _ _ hp => Admitted.committedOne hd.inv hp
  mark := by
    intro n h gs i stakes marks m ha hgi _
    refine ha.of_update ?_ ?_ (by rw [hgi]; rfl) (fun _ => .inl (by rw [hgi]; rfl))
    · intro k
      rw [Node.get_put_of_ne _ (by simp)]
    · intro k
      rw [Node.get_put_of_ne _ (by simp)]
  stake := fun ha hgi hcost hcount _ => ha.staked hgi hcost hcount
  commit := fun ha hgi hpass => ha.committedBatch hgi hpass
  roll := fun ha hgi => ha.of_update (fun _ => rfl) (fun _ => rfl) (by rw [hgi]; rfl)
    nofun
  unstake := fun ha hgi _ => ha.unstaked hgi
  unmark := by
    intro w gs i c e stakes marks rolling m hd hgi _ _ _ _
    refine hd.inv.of_update ?_ ?_ (by rw [hgi]; rfl) (fun hroll => .inl (by rw [hgi]; exact hroll))
    · intro k
      rw [Node.get_put_of_ne _ (by simp)]
    · intro k
      rw [Node.get_put_of_ne _ (by simp)]
  finish := fun ha hgi => ha.of_update (fun _ => rfl) (fun _ => rfl) (by rw [hgi]; rfl)
    (fun _ => .inr (by rw [hgi]; rfl))
  loadVal := fun ha hgi => ha.of_update (fun _ => rfl) (fun _ => rfl) (by rw [hgi]; rfl)
    (fun _ => .inl (by rw [hgi]; rfl))
  loadSpeculative := fun ha hgi _ => ha.of_update (fun _ => rfl) (fun _ => rfl) (by rw [hgi]; rfl)
    (fun _ => .inl (by rw [hgi]; rfl))
  written := fun ha _ _ => ha.of_same ha.global_nonneg (fun _ => le_rfl) (fun _ => rfl)
    (fun _ => rfl) (fun _ hroll => .inl hroll)
  pushed := fun ha hgi => ha.of_update (fun _ => rfl) (fun _ => rfl) (by rw [hgi]; rfl)
    (fun _ => .inl (by rw [hgi]; rfl))

theorem Admitted.init {n₀ : Node} (hval : ∀ k, 0 ≤ n₀.get (.entry k .val))
    (hglobal : ∀ k, 0 ≤ n₀.get (.entry k .globalCount)) :
    Admitted n₀ [] (fun _ => .idle) := by
  refine ⟨hglobal, nofun, nofun, ?_, ?_⟩
  · intro k
    refine ⟨0, Total.of_zero fun _ => rfl, ?_⟩
    rw [add_zero]
    exact hval k
  · intro k S _
    refine .inl ?_
    show spentOn k [] + ∑ i ∈ S, costOn k [] ≤ 0
    simp [spentOn, committedOn]

/-! ### The bound -/

/-- Over all interleavings of requests, batches, replays, pushes and pulls on a node whose counts
start non-negative, the cost committed on a cell is at most the largest limit committed there. -/
theorem spentOn_le_largest_limit {n₀ : Node} (hval : ∀ k, 0 ≤ n₀.get (.entry k .val))
    (hglobal : ∀ k, 0 ≤ n₀.get (.entry k .globalCount))
    {past : List (NodeWorld × Turn Task Env)} {w : NodeWorld}
    (hrun : Run (nodeStep .exact) (World.init n₀) past w) (k : CounterKey) {largest : Int}
    (hlargest : ((committedOn k w.history).map (·.limit)).max? = some largest) :
    spentOn k w.history ≤ largest := by
  obtain ⟨gs, hd⟩ := (bookkeeping Admitted fun _ _ => True).sound (Admitted.init hval hglobal)
    admitted_bookkeeping.obeyed hrun (Always.of_forall (fun _ _ _ => trivial) past)
  obtain ⟨hmem, hmax⟩ := List.max?_eq_some_iff.mp hlargest
  have hbound := hd.inv.bounded k ∅ (fun i hi => by simp at hi)
  rw [Finset.sum_empty, add_zero] at hbound
  rcases hbound with hle | ⟨req, hreq, hle⟩ | ⟨i, hi, -⟩
  · obtain ⟨req, hreq, rfl⟩ := List.mem_map.mp hmem
    have := limit_pos_of_valid (hd.inv.valid k req hreq)
    omega
  · exact hle.trans (hmax _ (List.mem_map_of_mem hreq))
  · simp at hi

def requestInsideBatch : List (Turn Task Env) :=
  ([.spawn (.ratelimitMany [minuteRequest 5 2, minuteRequest 5 1]),
    .spawn (.ratelimit (minuteRequest 7 2))] : List (Turn Task Env)) ++
    turns 0 19 ++ turns 1 10 ++ turns 0 2

theorem spentOn_le_largest_limit_inside :
    ∃ past w, Run (nodeStep .exact) (World.init (warmNode 0)) past w ∧
      spentOn (minuteRequest 1 0).curKey w.history = 5 ∧
      spentOn (minuteRequest 1 0).curKey w.history ≤ 7 := by
  refine Run.exists_of_record (P := fun _ w => spentOn (minuteRequest 1 0).curKey w.history = 5 ∧
      ((committedOn (minuteRequest 1 0).curKey w.history).map (·.limit)).max? = some 7)
    requestInsideBatch (by decide +kernel) ?_
  intro past w hrun heq
  have hval : ∀ k, 0 ≤ (warmNode 0).get (.entry k .val) := fun _ => Int.le_refl 0
  have hglobal : ∀ k, 0 ≤ (warmNode 0).get (.entry k .globalCount) := fun _ => Int.le_refl 0
  exact ⟨heq.1, spentOn_le_largest_limit hval hglobal hrun _ heq.2⟩

end Unkey.Ratelimit
