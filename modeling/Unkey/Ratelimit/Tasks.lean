import Unkey.Ratelimit.Bookkeeping

/-!
# Every task of a node keeps the books

The programs of `Service` against the actions of `Bookkeeping`: a single request commits at most
once, a batch announces, adds, and then either keeps or takes back what it added, a replay and a
pull only merge, and a push writes what it loaded.
-/

namespace Unkey.Ratelimit

open Unkey.Base

namespace Bookkeeping

variable {F : Floats} {Inv : Assertion Node Task Note Ghost}
  {Guard : NodeWorld → Turn Task Env → Prop} {Good : Int → Prop} {c : Task} {i : Nat} {g : Ghost}
  {n : Node} {h : History} {gs : Nat → Ghost}

structure Prepared (Good : Int → Prop) (c : Task) (it : Item) : Prop where
  named : c.Names it.cs.cur
  valid : validate it.req = none
  check : it.cs.For it.req
  curGlobal : Good it.cs.curGlobal
  prevGlobal : Good it.cs.prevGlobal

theorem Prepared.cost_nonneg {it : Item} (hp : Prepared Good c it) : 0 ≤ it.req.cost :=
  cost_nonneg_of_valid hp.valid

variable (K : Bookkeeping F Inv Guard Good)

include K

/-! ### A single request -/

theorem stays_decideLoop {req : RatelimitRequest} {cs : CheckState} (hvalid : validate req = none)
    (hcs : cs.For req) (hcur : Good cs.curGlobal) (hprev : Good cs.prevGlobal) (retries : Nat) :
    Stays Inv Guard c i .idle (decideLoop F req cs retries) := by
  have hidle := Ghost.Free.idle c
  induction retries with
  | zero => exact .skip
  | succ retries ih =>
    refine (K.unmoved hidle (o := .load (.entry cs.cur .val) false) rfl nofun).bind
      fun (curCount : Int) => ?_
    refine (K.steady hidle).bind (o := .load (.entry cs.prev .val) false)
      (Op.quiet_load_entry _ (by decide)) fun (prevCount : Int) hgood => ?_
    dsimp only
    split
    · exact ((K.steady hidle).atomicMax rfl _).bind fun _ => .skip
    · rename_i hfits
      rw [not_lt] at hfits
      refine .act (o := Op.cas (.entry cs.cur .val) _ _) (hidle.at _) ?_
      intro w gs' e r n' hd hgi hpos hguard happ
      obtain ⟨hold, rfl, rfl⟩ | ⟨-, rfl, rfl⟩ := Node.apply_cas happ
      · have hpass : Passing F Good req cs (curCount + req.cost) := by
          refine ⟨hvalid, hcs, hcur, hprev, prevCount, hgood, ?_⟩
          show curCount + req.cost + cs.curGlobal + F.weigh (prevCount + cs.prevGlobal) _ _ ≤ _
          have : curCount + cs.curGlobal
            + F.weigh (prevCount + cs.prevGlobal) cs.elapsedMs cs.durationMs + req.cost
              ≤ req.limit := hfits
          omega
        rw [← hold] at hpos hpass ⊢
        refine (K.unmoved hidle (o := .buffer req) rfl nofun).bind (fun _ => ?_)
          (Protocol.owns_of_inv hgi (K.committedOne hd hgi hpos hguard hpass))
        exact ((K.steady hidle).observe F _ _).bind fun _ => .skip
      · exact ih (hd.owns hgi)

theorem stays_ratelimitTimed (req : RatelimitRequest) :
    Stays Inv Guard c i .idle (ratelimitTimed F req) := by
  unfold ratelimitTimed
  split
  · exact .skip
  · rename_i hvalid
    refine ((K.steady (.idle c)).prepareCheck (K.fetches (.idle c)) req).bind ?_
    rintro cs n h gs ⟨hcs, hcur, hprev, hown⟩
    exact (K.stays_decideLoop hvalid hcs hcur hprev _).bind (fun _ => .skip) hown

theorem stays_ratelimit (req : RatelimitRequest) :
    Stays Inv Guard c i .idle (ratelimit F req) := by
  unfold ratelimit
  split
  · exact (K.unmoved (.idle c) (o := .now) rfl nofun).bind fun _ => K.stays_ratelimitTimed _
  · exact K.stays_ratelimitTimed _

/-! ### A batch -/

theorem spec_prepareBatch (reqs : List RatelimitRequest)
    (hnamed : ∀ req ∈ reqs, c.Names req.curKey) (hvalid : ∀ req ∈ reqs, validate req = none) :
    Spec Inv Guard c i (Has Inv Guard i .idle) (reqs.mapM' prepareItem) fun items n h gs =>
      (∀ it ∈ items, Prepared Good c it) ∧ Has Inv Guard i .idle n h gs := by
  intro n h gs hown
  refine Protocol.Triple.mapM (I := fun _ items n h gs => (∀ it ∈ items, Prepared Good c it) ∧
    Has Inv Guard i .idle n h gs) reqs ?_ ⟨by simp, hown⟩
  rintro pre req post items hreqs n h gs ⟨hitems, hown⟩
  refine ((K.steady (.idle c)).prepareCheck (K.fetches (.idle c)) req).bind ?_ hown
  rintro cs n h gs ⟨hcs, hcur, hprev, hown⟩
  have hreq : req ∈ reqs := by simp [hreqs]
  have hitem : Prepared Good c ⟨req, cs, 0, 0⟩ :=
    ⟨by rw [hcs.cur]; exact hnamed req hreq, hvalid req hreq, hcs, hcur, hprev⟩
  exact ⟨List.forall_mem_append.mpr ⟨hitems, List.forall_mem_singleton.mpr hitem⟩, hown⟩

theorem spec_incrementBatch (items : List Item) (hitems : ∀ it ∈ items, Prepared Good c it) :
    Spec Inv Guard c i (Has Inv Guard i .idle) (items.mapM' incrementItem) fun added n h gs =>
      (∀ it ∈ added, Prepared Good c it) ∧
        Has Inv Guard i (.batch (added.map Item.stake) (added.map Item.mark) false) n h gs := by
  intro n h gs hown
  refine Protocol.Triple.mapM (I := fun _ added n h gs => (∀ it ∈ added, Prepared Good c it) ∧
    Has Inv Guard i (.batch (added.map Item.stake) (added.map Item.mark) false) n h gs) items ?_
    ⟨by simp, hown⟩
  rintro pre it post added hsplit n h gs ⟨hadded, hown⟩
  have hit : Prepared Good c it := hitems it (by simp [hsplit])
  have hfree := Ghost.Free.batch (fun it' hit' => (hadded it' hit').named)
  refine Protocol.Triple.act (o := Op.add (.entry it.cs.cur .speculative) it.req.cost)
    ((hfree _ _).at _) ?_ hown
  intro w gs' e r n' hd hgi _ _ happ
  have hmarked := K.mark (m := it.mark) hd.inv hgi hit.cost_nonneg
  cases happ
  rw [← List.map_singleton (f := Item.mark), ← List.map_append] at hmarked
  have hall : ∀ it' ∈ added ++ [it], Prepared Good c it' :=
    List.forall_mem_append.mpr ⟨hadded, List.forall_mem_singleton.mpr hit⟩
  refine Protocol.Triple.act (o := Op.add (.entry it.cs.cur .val) it.req.cost)
    ((Ghost.Free.batch (fun it' hit' => (hall it' hit').named) _ _).at _) ?_
    (show Has Inv Guard i _ _ _ _ from hmarked)
  intro w gs' e newCount n' hd hgi _ _ happ
  cases happ
  rw [List.map_append] at hgi
  refine ⟨List.forall_mem_append.mpr ⟨hadded, List.forall_mem_singleton.mpr
    ⟨hit.named, hit.valid, hit.check, hit.curGlobal, hit.prevGlobal⟩⟩, ?_⟩
  rw [List.map_append, List.map_append]
  refine K.stake (s := ⟨it.cs.cur, it.req.cost, _⟩) hd.inv hgi hit.cost_nonneg rfl ?_
  intro k
  rw [List.map_singleton, costOn_concat, costOn_concat, costOn_stake]
  exact le_rfl

def Checked (F : Floats) (Good : Int → Prop) (it : Item) : Prop :=
  ∃ prev, Good prev ∧ it.effective = it.cs.slidingWindowCount F it.newCount prev

theorem spec_checkBatch (items : List Item) (hitems : ∀ it ∈ items, Prepared Good c it) :
    Spec Inv Guard c i
      (Has Inv Guard i (.batch (items.map Item.stake) (items.map Item.mark) false))
      (items.mapM' (checkItem F)) fun checked n h gs =>
        (∀ it ∈ checked, Prepared Good c it ∧ Checked F Good it) ∧
        Has Inv Guard i (.batch (checked.map Item.stake) (checked.map Item.mark) false) n h gs := by
  intro n h gs hown
  refine (Protocol.Triple.mapM (I := fun pre checked n h gs =>
    ((∀ it ∈ checked, Prepared Good c it ∧ Checked F Good it) ∧
    checked.map Item.stake = pre.map Item.stake ∧ checked.map Item.mark = pre.map Item.mark) ∧
    Has Inv Guard i (.batch (items.map Item.stake) (items.map Item.mark) false) n h gs) items
    ?_).mono ?_ ⟨⟨by simp, rfl, rfl⟩, hown⟩
  · rintro pre it post checked hsplit n h gs ⟨⟨hchecked, hstakes, hmarks⟩, hown⟩
    have hit : Prepared Good c it := hitems it (by simp [hsplit])
    have hfree := Ghost.Free.batch (fun it hit => (hitems it hit).named)
    refine (K.steady (hfree _ _)).bind (o := .load (.entry it.cs.prev .val) false)
      (Op.quiet_load_entry _ (by decide)) (fun (prev : Int) hgood n h gs hown => ?_) hown
    refine ⟨⟨List.forall_mem_append.mpr ⟨hchecked, List.forall_mem_singleton.mpr ?_⟩, ?_, ?_⟩, hown⟩
    · exact ⟨⟨hit.named, hit.valid, hit.check, hit.curGlobal, hit.prevGlobal⟩, prev, hgood, rfl⟩
    · rw [List.map_append, List.map_append, hstakes]
      rfl
    · rw [List.map_append, List.map_append, hmarks]
      rfl
  · grind

theorem spec_batchLoop (ghost : List Item → Ghost) {rolling : Bool}
    (hend : ghost [] = .batch [] [] rolling) {f : Item → Code PUnit} (items : List Item)
    (hstep : ∀ it post, (∀ it' ∈ it :: post, it' ∈ items) →
      Spec Inv Guard c i (Has Inv Guard i (ghost (it :: post))) (f it) fun _ =>
        Has Inv Guard i (ghost post)) :
    Spec Inv Guard c i (Has Inv Guard i (ghost items)) (items.forM f) fun _ =>
      Has Inv Guard i .idle := by
  intro n h gs hown
  refine (Protocol.Triple.forM (I := fun pre n h gs => ∀ post, items = pre ++ post →
    Has Inv Guard i (ghost post) n h gs) items ?_).mono ?_ ?_
  · simp_all
  · intro _ n h gs hI
    have hlast := hI [] (by simp)
    rw [hend] at hlast
    exact owns_of_update (K.finish hlast (Function.update_self ..))
  · rintro post rfl
    exact hown

theorem spec_commitBatch (items : List Item) (hitems : ∀ it ∈ items, Prepared Good c it) :
    Spec Inv Guard c i (Has Inv Guard i (.batch [] (items.map Item.mark) false))
      (items.forM (commitItem F)) fun _ => Has Inv Guard i .idle := by
  refine K.spec_batchLoop (fun post => .batch [] (post.map Item.mark) false) rfl items
    fun it post hmem => ?_
  have hpost : ∀ it' ∈ it :: post, Prepared Good c it' := fun it' hit' => hitems it' (hmem it' hit')
  have hfree := Ghost.Free.batch fun it' hit' => (hpost it' hit').named
  refine ((K.steady (hfree _ _)).observe F _ _).bind fun _ => ?_
  refine .act (o := Op.add (.entry it.cs.cur .speculative) (-it.req.cost)) ((hfree _ _).at _) ?_
  intro w gs' e r n' hd hgi hpos hguard happ
  cases happ
  refine K.unmark (m := it.mark) hd hgi hpos hguard (hpost it List.mem_cons_self).cost_nonneg ?_
  intro k
  rw [costOn_nil]
  apply costOn_nonneg
  intro st hst
  obtain ⟨it', hit', rfl⟩ := List.mem_map.mp hst
  exact (hpost it' (List.mem_cons_of_mem _ hit')).cost_nonneg

theorem spec_rollbackBatch (items : List Item) (hitems : ∀ it ∈ items, Prepared Good c it) :
    Spec Inv Guard c i
      (Has Inv Guard i (.batch (items.map Item.stake) (items.map Item.mark) true))
      (items.forM rollbackItem) fun _ => Has Inv Guard i .idle := by
  refine K.spec_batchLoop
    (fun post => .batch (post.map Item.stake) (post.map Item.mark) true) rfl items
    fun it post hmem => ?_
  have hpost : ∀ it' ∈ it :: post, Prepared Good c it' := fun it' hit' => hitems it' (hmem it' hit')
  have hcost := (hpost it List.mem_cons_self).cost_nonneg
  have hfree := Ghost.Free.batch fun it' hit' => (hpost it' hit').named
  refine .act (o := Op.add (.entry it.cs.cur .val) (-it.req.cost)) ((hfree _ _).at _) ?_
  intro w gs' e r n' hd hgi _ _ happ
  cases happ
  refine Protocol.Triple.act (o := Op.add (.entry it.cs.cur .speculative) (-it.req.cost))
    ((hfree _ _).at _) ?_ (K.unstake (s := it.stake) hd.inv hgi hcost)
  intro w gs' e r n' hd hgi hpos hguard happ
  cases happ
  have hunmark := K.unmark (m := it.mark) hd hgi hpos hguard hcost
    (fun k => (costOn_stake k post).le)
  split
  · exact hunmark
  · refine (K.steady (.batch (fun it' hit' => ?_) _ _)).atomicMax rfl _ hunmark
    exact (hpost it' (List.mem_cons_of_mem _ hit')).named

theorem spec_finishBatch (items : List Item)
    (hitems : ∀ it ∈ items, Prepared Good c it ∧ Checked F Good it) :
    Spec Inv Guard c i
      (Has Inv Guard i (.batch (items.map Item.stake) (items.map Item.mark) false))
      (finishBatch F items) fun _ => Has Inv Guard i .idle := by
  have hprep : ∀ it ∈ items, Prepared Good c it := fun it hit => (hitems it hit).1
  intro n h gs hown
  unfold finishBatch
  split
  · rename_i hall
    have hpass : ∀ it ∈ items, Passing F Good it.req it.cs it.newCount := by
      intro it hit
      obtain ⟨hit', prev, hgood, heff⟩ := hitems it hit
      refine ⟨hit'.valid, hit'.check, hit'.curGlobal, hit'.prevGlobal, prev, hgood, ?_⟩
      rw [← heff]
      exact of_decide_eq_true (List.all_eq_true.mp hall it hit)
    exact K.spec_commitBatch items hprep
      (owns_of_update (K.commit (c := c) hown (Function.update_self ..) hpass))
  · exact K.spec_rollbackBatch items hprep (owns_of_update (K.roll hown (Function.update_self ..)))

theorem stays_replayBatch (items : List Item) : Stays Inv Guard c i .idle (replayBatch items) := by
  unfold replayBatch
  split
  · exact .forM (I := fun _ => Has Inv Guard i .idle) items fun _ it _ _ =>
      K.unmoved (.idle c) (o := .buffer it.req) rfl nofun
  · exact .skip

theorem stays_ratelimitMany (reqs : List RatelimitRequest) :
    Stays Inv Guard (.ratelimitMany reqs) i .idle (ratelimitMany F reqs) := by
  refine (K.unmoved (.idle _) (o := .now) rfl nofun).bind fun now => ?_
  unfold ratelimitManyTimed
  split
  · exact .skip
  · rename_i hvalid
    rw [List.findSome?_eq_none_iff] at hvalid
    have hnamed : ∀ req ∈ reqs.map (·.timed now), (Task.ratelimitMany reqs).Names req.curKey := by
      intro req hreq
      obtain ⟨orig, horig, rfl⟩ := List.mem_map.mp hreq
      exact ⟨orig, horig, now, rfl⟩
    refine (K.spec_prepareBatch _ hnamed hvalid).bind ?_
    rintro prepared n h gs ⟨hprepared, hown⟩
    refine (K.spec_incrementBatch prepared hprepared).bind ?_ hown
    rintro added n h gs ⟨hadded, hown⟩
    refine (K.spec_checkBatch added hadded).bind ?_ hown
    rintro items n h gs ⟨hitems, hown⟩
    refine (K.spec_finishBatch items hitems).bind (fun _ => ?_) hown
    exact (K.stays_replayBatch items).bind fun _ => .skip

/-! ### Background work -/

theorem stays_replayRequest : Stays Inv Guard c i .idle replayRequest := by
  have hidle := Ghost.Free.idle c
  refine (K.unmoved hidle (o := .consume) rfl nofun).bind fun (req : RatelimitRequest) => ?_
  unfold syncWithOrigin
  split
  · exact .skip
  · refine (K.unmoved hidle (o := .increment req.curKey req.cost) rfl nofun).bind ?_
    rintro (_ | newCounter)
    · exact .skip
    · refine (K.mergeVal hidle req.curKey newCounter).bind fun _ => ?_
      exact (K.unmoved hidle (o := .now) rfl nofun).bind fun _ =>
        (K.steady hidle).atomicMax rfl _

theorem stays_runGlobalPullOnce : Stays Inv Guard c i .idle runGlobalPullOnce := by
  have hidle := Ghost.Free.idle c
  refine (K.unmoved hidle (o := .now) rfl nofun).bind fun (now : Int) => ?_
  refine (K.unmoved hidle (o := .imported (unixMilli now)) rfl nofun).bind ?_
  rintro (_ | rows)
  · exact .skip
  · exact .forM (I := fun _ => Has Inv Guard i .idle) rows fun _ r _ _ =>
      (K.mergeVal hidle r.key r.regional).bind fun _ => K.mergeGlobal hidle r.key r.imported

theorem spec_pendingRow (nowMs : Int) (k : CounterKey) (rows : List GlobalRow) :
    Spec Inv Guard c i (Has Inv Guard i (.push none rows)) (pendingRow nowMs k) fun found n h gs =>
      ∃ row, (∀ r, found = some r → r = row) ∧
        Has Inv Guard i (.push none (rows ++ [row])) n h gs := by
  refine .act (o := Op.load (.entry k .val) false) (Ghost.Free.at (.push c _) _) ?_
  intro w gs' e val n' hd hgi _ _ happ
  have hloaded := K.loadVal (k := k) hd.inv hgi
  cases happ
  refine Protocol.Triple.act (o := Op.load (.entry k .speculative) false) ?_ ?_ hloaded
  · refine ⟨?_, nofun⟩
    rintro l v heq
    cases heq
    rfl
  · intro w' gs' e speculative n' hd hgi _ _ happ
    cases happ
    obtain ⟨row, hrow⟩ : ∃ row : GlobalRow, row = ⟨k, w.shared.get (.entry k .val)
      - w'.shared.get (.entry k .speculative), (k.sequence + 2) * k.durationMs, nowMs⟩ := ⟨_, rfl⟩
    have hown : Has Inv Guard i (.push none (rows ++ [row])) w'.shared w'.history gs' :=
      K.loadSpeculative hd.inv (by rw [hrow]; exact hgi) (by rw [hrow])
    split
    · exact ⟨row, nofun, hown⟩
    · refine ((K.steady (.push c _)).shouldPushGlobalCount k _).bind ?_ hown
      rintro (_ | _) n h gs hown
      · exact ⟨row, nofun, hown⟩
      · refine ⟨row, ?_, hown⟩
        intro r heq
        cases heq
        exact hrow.symm

theorem stays_pushChunks (batches : List (List GlobalRow)) (rows : List GlobalRow)
    (hrows : ∀ chunk ∈ batches, ∀ row ∈ chunk, row ∈ rows) :
    Stays Inv Guard c i (.push none rows) (pushChunks batches) := by
  induction batches with
  | nil => exact .skip
  | cons chunk rest ih =>
    refine .act (o := Op.upsert chunk) (Ghost.Free.at (.push c _) _) ?_
    intro w gs' e r n' hd hgi _ _ happ
    cases happ
    have hwritten : Has Inv Guard i (.push none rows) _ w.history gs' :=
      Protocol.owns_of_inv hgi (K.written hd.inv hgi (hrows chunk List.mem_cons_self))
    cases e.pushed with
    | false => exact hwritten
    | true =>
      refine (Protocol.Triple.forM (I := fun _ => Has Inv Guard i (.push none rows)) chunk
        fun _ row _ _ => ?_).bind (fun _ => ?_) hwritten
      · exact (K.steady (.push c _)).atomicMax rfl _
      · exact ih fun chunk hchunk => hrows chunk (List.mem_cons_of_mem _ hchunk)

theorem stays_runGlobalPushOnce : Stays Inv Guard c i .idle runGlobalPushOnce := by
  refine (K.unmoved (.idle c) (o := .now) rfl nofun).bind fun (now : Int) => ?_
  refine (K.unmoved (.idle c) (o := .range) rfl nofun).bind
    fun (keys : List CounterKey) n h gs hown => ?_
  refine (Protocol.Triple.mapM (I := fun _ found n h gs => ∃ rows,
    (∀ r, some r ∈ found → r ∈ rows) ∧ Has Inv Guard i (.push none rows) n h gs) keys ?_).bind ?_
    ⟨[], nofun, hown⟩
  · rintro pre k post found - n h gs ⟨rows, hfound, hown⟩
    refine (K.spec_pendingRow (unixMilli now) k rows).mono ?_ hown
    rintro b n h gs ⟨row, hrow, hown⟩
    refine ⟨rows ++ [row], ?_, hown⟩
    intro r hr
    rcases List.mem_append.mp hr with hr | hr
    · exact List.mem_append_left _ (hfound r hr)
    · rw [hrow r (List.mem_singleton.mp hr).symm]
      exact List.mem_append_right _ (List.mem_singleton_self row)
  · rintro found n h gs ⟨rows, hfound, hown⟩
    refine (K.stays_pushChunks _ rows ?_).mono ?_ hown
    · intro chunk hchunk row hrow
      have hmem := mem_of_mem_chunks hchunk row hrow
      rw [List.mem_insertionSort, List.mem_filterMap] at hmem
      obtain ⟨r, hr, heq⟩ := hmem
      exact hfound row (by rw [← heq]; exact hr)
    · intro _ n h gs hown
      exact owns_of_update (K.pushed hown (Function.update_self ..))

theorem obeyed :
    (bookkeeping Inv Guard).Obeyed nodeApply (Task.body F) := by
  intro w gs c hd hidle _
  refine (?_ : Stays Inv Guard c w.threads.length .idle (Task.body F c)) (hd.owns hidle)
  cases c with
  | ratelimit req => exact (K.stays_ratelimit req).bind fun _ => .skip
  | ratelimitMany reqs => exact (K.stays_ratelimitMany reqs).bind fun _ => .skip
  | replay => exact K.stays_replayRequest
  | push => exact K.stays_runGlobalPushOnce
  | pull => exact K.stays_runGlobalPullOnce

end Bookkeeping

/-! ### A node to run things on -/

/-- A node whose entries hold `v`, hydrated and fresh for a long time, as after a cold start. -/
def warmNode (v : Int) : Node :=
  ⟨fun _ => { CounterEntry.zero with
      val := v, originFreshUntilMs := 1000000, hydrated := true, once := .finished },
    fun _ => 0, [], []⟩

def minuteRequest (limit cost : Int) : RatelimitRequest :=
  ⟨"ws", "ns", "user", limit, 60000000000, cost, 90000000000⟩

/-- Surroundings that answer `count` for the shared counter, and know one entry. -/
def quietEnv (count : Int) : Env :=
  ⟨90000000000, some count, [(minuteRequest 1 0).curKey], true, none⟩

def turns (i m : Nat) : List (Turn Task Env) := List.replicate m (.run i (quietEnv 0))

end Unkey.Ratelimit
