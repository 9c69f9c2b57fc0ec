import Unkey.Ratelimit.Alone
import Unkey.Ratelimit.Tasks

/-!
# A batch against single requests

Without concurrent calls, a batch and the same requests one after the other decide the same.
-/

namespace Unkey.Ratelimit

open Unkey.Base

variable (F : Floats) (E : Op → Env)

def ratelimitEach (reqs : List RatelimitRequest) : Code (List (Except String RatelimitResponse)) :=
  reqs.mapM' (ratelimit F)

def Node.Fresh (n : Node) (time : Int) (k : CounterKey) : Prop :=
  (n.counters k).hydrated = true ∧ unixMilli time < n.get (.entry k .originFreshUntilMs)

instance (n : Node) (time : Int) (k : CounterKey) : Decidable (n.Fresh time k) :=
  inferInstanceAs (Decidable (_ ∧ _))

variable {F E} {n m : Node} {time : Int} {k : CounterKey} {req : RatelimitRequest}
  {reqs pre : List RatelimitRequest}

structure Kept (n m : Node) : Prop where
  hydrated : ∀ k, (m.counters k).hydrated = (n.counters k).hydrated
  fresh : ∀ k, n.get (.entry k .originFreshUntilMs) ≤ m.get (.entry k .originFreshUntilMs)

namespace Kept

theorem refl (n : Node) : Kept n n := ⟨fun _ => rfl, fun _ => le_rfl⟩

theorem trans {l : Node} (h : Kept n m) (h' : Kept m l) : Kept n l :=
  ⟨fun k => (h'.hydrated k).trans (h.hydrated k), fun k => (h.fresh k).trans (h'.fresh k)⟩

theorem of_flags (hflags : ∀ k, m.flags k = n.flags k)
    (hfresh : ∀ k, n.get (.entry k .originFreshUntilMs) ≤ m.get (.entry k .originFreshUntilMs)) :
    Kept n m :=
  ⟨fun k => congrArg Prod.fst (hflags k), hfresh⟩

theorem raise (n : Node) (t : Target) (v : Int) : Kept n (n.raise t v) :=
  of_flags (by simp) fun _ => n.le_get_raise _ _ _

theorem isFresh (h : Kept n m) (hf : n.Fresh time k) : m.Fresh time k :=
  ⟨by rw [h.hydrated]; exact hf.1, lt_of_lt_of_le hf.2 (h.fresh k)⟩

end Kept

theorem returns_ensureFresh (hf : n.Fresh time k) :
    (ensureFreshFromOrigin k time).Returns (answerAlone E) n () n := by
  have hhydrated : answerAlone E (.hydrated k) n = some (true, n) := by
    show some ((n.counters k).hydrated, n) = _
    rw [hf.1]
  refine Prog.Returns.perform hhydrated (returns_load ?_)
  rw [if_pos hf.2]
  rfl

/-! ### The preparation of a check -/

def CounterKey.strictKey (k : CounterKey) : StrictKey :=
  ⟨k.workspaceID, k.nameSpace, k.identifier, k.durationMs⟩

def met (E : Op → Env) (time : Int) (n : Node) (k : CounterKey) : Int :=
  if unixMilli time < n.get (.strict k.strictKey) then
    match originOf E k with
    | some count => max (n.get (.entry k .val)) count
    | none => n.get (.entry k .val)
  else n.get (.entry k .val)

def RatelimitRequest.checkAt (req : RatelimitRequest) (n : Node) : CheckState where
  cur := req.curKey
  prev := req.prevKey
  strictKey := req.strictKey
  curGlobal := n.get (.entry req.curKey .globalCount)
  prevGlobal := n.get (.entry req.prevKey .globalCount)
  elapsedMs := unixMilli req.time - req.curKey.sequence * req.curKey.durationMs
  durationMs := req.curKey.durationMs
  reset := req.curKey.sequence * req.curKey.durationMs * 1000000 + req.duration

structure Same (n m : Node) : Prop extends Kept n m where
  strict : ∀ k, m.get (.strict k) = n.get (.strict k)
  global : ∀ k, m.get (.entry k .globalCount) = n.get (.entry k .globalCount)

theorem Same.refl (n : Node) : Same n n := ⟨Kept.refl n, fun _ => rfl, fun _ => rfl⟩

theorem Same.trans {l : Node} (h : Same n m) (h' : Same m l) : Same n l :=
  ⟨h.toKept.trans h'.toKept, fun k => (h'.strict k).trans (h.strict k),
    fun k => (h'.global k).trans (h.global k)⟩

theorem Same.checkAt (h : Same n m) (req : RatelimitRequest) : req.checkAt m = req.checkAt n := by
  unfold RatelimitRequest.checkAt
  rw [h.global, h.global]

theorem met_curKey (n : Node) (req : RatelimitRequest) : met E req.time n req.curKey =
    if unixMilli req.time < n.get (.strict req.strictKey) then
      fetched E req.curKey (n.get (.entry req.curKey .val))
    else n.get (.entry req.curKey .val) := rfl

theorem get_strictRefreshed (n : Node) (req : RatelimitRequest) {t : Target}
    (ht : ∀ k, t ≠ .entry k .originFreshUntilMs) : (n.strictRefreshed E req).get t =
      if t = .entry req.curKey .val then met E req.time n req.curKey else n.get t := by
  unfold Node.strictRefreshed
  rw [met_curKey]
  split
  · split <;> simp [ht]
  · by_cases hcur : t = .entry req.curKey .val <;> simp [hcur]

theorem replayBuffer_strictRefreshed (n : Node) (req : RatelimitRequest) :
    (n.strictRefreshed E req).replayBuffer = n.replayBuffer := by
  unfold Node.strictRefreshed
  split
  · split <;> simp
  · rfl

theorem same_strictRefreshed (n : Node) (req : RatelimitRequest) :
    Same n (n.strictRefreshed E req) := by
  refine ⟨?_, by simp [get_strictRefreshed], by simp [get_strictRefreshed]⟩
  unfold Node.strictRefreshed
  split
  · split
    · refine Kept.of_flags (by simp) fun k => le_trans ?_ (Node.le_get_raise _ _ _ _)
      simp
    · exact Kept.of_flags (by simp) (by simp)
  · exact Kept.refl n

theorem returns_prepareCheck (hcur : n.Fresh req.time req.curKey)
    (hprev : n.Fresh req.time req.prevKey) :
    (prepareCheck req).Returns (answerAlone E) n (req.checkAt n) (n.strictRefreshed E req) := by
  rw [← (same_strictRefreshed (E := E) n req).checkAt]
  refine (returns_ensureFresh hcur).bind ((returns_ensureFresh hprev).bind ?_)
  exact (returns_strictRefresh n req).bind (returns_load (returns_load rfl))

/-! ### What a request meets after the requests before it -/

def costIn (k : CounterKey) (reqs : List RatelimitRequest) : Int :=
  costOn k (reqs.map fun req => ⟨req.curKey, req.cost, 0⟩)

/-- The effective count a request meets, from a node on which `before` have been admitted. -/
def effectiveAfter (F : Floats) (E : Op → Env) (n : Node) (before : List RatelimitRequest)
    (req : RatelimitRequest) : Int :=
  (req.checkAt n).slidingWindowCount F
    (met E req.time n req.curKey + costIn req.curKey before + req.cost)
    (n.get (.entry req.prevKey .val))

def answerAfter (F : Floats) (E : Op → Env) (n : Node) (before : List RatelimitRequest)
    (req : RatelimitRequest) : RatelimitResponse :=
  ⟨true, max 0 (req.limit - effectiveAfter F E n before req), (req.checkAt n).reset, req.limit,
    effectiveAfter F E n before req⟩

def Fits (F : Floats) (E : Op → Env) (n : Node) (reqs : List RatelimitRequest) : Prop :=
  ∀ pre req post, reqs = pre ++ req :: post →
    validate req = none ∧ effectiveAfter F E n pre req ≤ req.limit

theorem fits_concat : Fits F E n (pre ++ [req]) ↔ Fits F E n pre ∧
    validate req = none ∧ effectiveAfter F E n pre req ≤ req.limit := by
  constructor
  · intro hfits
    refine ⟨?_, hfits pre req [] rfl⟩
    rintro before x post rfl
    exact hfits before x (post ++ [req]) (by simp)
  · rintro ⟨hpre, hreq⟩ before x post hsplit
    rcases List.eq_nil_or_concat post with rfl | ⟨post, z, rfl⟩
    · simp_all
    · rw [List.concat_eq_append, ← List.cons_append, ← List.append_assoc] at hsplit
      exact hpre before x post (List.append_inj' hsplit rfl).1

theorem Fits.valid (hfits : Fits F E n pre) : ∀ req ∈ pre, validate req = none := by
  intro req hreq
  obtain ⟨before, after, rfl⟩ := List.append_of_mem hreq
  exact (hfits before req after rfl).1

def thresholdAfter (F : Floats) (k : CounterKey) (reqs : List RatelimitRequest) (threshold : Int) :
    Int :=
  reqs.foldl (fun t req => if req.curKey = k then observed F t req.limit else t) threshold

/-- How far requests have come on a node that was `n` before them: those of `prepared` have their
check, the costs of `added` are in the counts, the limits of `seen` are observed, and `pushed` are
in the replay buffer. -/
structure Progress (F : Floats) (E : Op → Env) (time : Int) (n : Node)
    (prepared added seen pushed : List RatelimitRequest) (m : Node) : Prop extends Same n m where
  val : ∀ k, m.get (.entry k .val) =
    (if k ∈ prepared.map (·.curKey) then met E time n k else n.get (.entry k .val)) + costIn k added
  threshold : ∀ k, m.get (.entry k .globalPushThreshold)
    = thresholdAfter F k seen (n.get (.entry k .globalPushThreshold))
  buffer : m.replayBuffer = pushed.foldl pushBuffer n.replayBuffer

theorem costIn_concat (k : CounterKey) (pre : List RatelimitRequest) (req : RatelimitRequest) :
    costIn k (pre ++ [req]) = costIn k pre + if req.curKey = k then req.cost else 0 := by
  rw [costIn, List.map_append, costOn_append, List.map_singleton, costOn_cons, costOn_nil, add_zero]
  rfl

theorem costIn_eq_zero (hk : k ∉ pre.map (·.curKey)) : costIn k pre = 0 := by
  induction pre using List.reverseRecOn with
  | nil => rfl
  | append_singleton pre req ih => grind [costIn_concat]

theorem costIn_nonneg (hvalid : ∀ req ∈ pre, validate req = none) (k : CounterKey) :
    0 ≤ costIn k pre := by
  apply costOn_nonneg
  intro st hst
  obtain ⟨req, hreq, rfl⟩ := List.mem_map.mp hst
  exact cost_nonneg_of_valid (hvalid req hreq)

namespace Progress

variable {prepared added seen pushed : List RatelimitRequest}

theorem start (F : Floats) (E : Op → Env) (time : Int) (n : Node) :
    Progress F E time n [] [] [] [] n :=
  ⟨Same.refl n, fun _ => by simp [costIn], fun _ => rfl, rfl⟩

theorem met_eq (h : Progress F E time n prepared added seen pushed m)
    (hvalid : ∀ req ∈ added, validate req = none) (hsub : added ⊆ prepared) (k : CounterKey) :
    met E time m k = met E time n k + costIn k added := by
  have hcost := costIn_nonneg hvalid k
  have hval := h.val k
  unfold met at hval ⊢
  rw [h.strict, hval]
  by_cases hk : k ∈ prepared.map (·.curKey)
  · grind
  · rw [if_neg hk, costIn_eq_zero fun hmem => hk (List.map_subset _ hsub hmem), add_zero, add_zero]

theorem prepare (h : Progress F E time n prepared added seen pushed m)
    (hvalid : ∀ req ∈ added, validate req = none) (hsub : added ⊆ prepared)
    (hreq : req.time = time) :
    Progress F E time n (prepared ++ [req]) added seen pushed (m.strictRefreshed E req) := by
  refine ⟨h.toSame.trans (same_strictRefreshed m req), ?_, ?_, ?_⟩
  · intro k
    rw [get_strictRefreshed m req (by simp), hreq, h.met_eq hvalid hsub, h.val]
    by_cases hk : k = req.curKey
    · simp [hk]
    · simp [hk]
  · simpa [get_strictRefreshed] using h.threshold
  · rw [replayBuffer_strictRefreshed, h.buffer]

theorem add (h : Progress F E time n prepared added seen pushed m) (req : RatelimitRequest) :
    Progress F E time n prepared (added ++ [req]) seen pushed
      (m.plus (.entry req.curKey .val) req.cost) :=
  ⟨h.toSame.trans ⟨Kept.of_flags (by simp) (by simp), by simp, by simp⟩,
    fun k => by simp [h.val, costIn_concat, add_assoc], by simpa using h.threshold,
    by simpa using h.buffer⟩

theorem observe (h : Progress F E time n prepared added seen pushed m) (req : RatelimitRequest) :
    Progress F E time n prepared added (seen ++ [req]) pushed
      (m.observe F req.curKey req.limit) := by
  refine ⟨h.toSame.trans ⟨Kept.of_flags (by simp) (by simp), by simp, by simp⟩,
    by simpa using h.val, fun k => ?_, by simpa using h.buffer⟩
  rw [thresholdAfter, List.foldl_append]
  show _ = if req.curKey = k then observed F (thresholdAfter F k seen _) req.limit
    else thresholdAfter F k seen _
  rw [← h.threshold]
  by_cases hk : req.curKey = k
  · simp [hk]
  · simp [hk, Ne.symm hk]

theorem push (h : Progress F E time n prepared added seen pushed m) (req : RatelimitRequest) :
    Progress F E time n prepared added seen (pushed ++ [req]) (m.push req) :=
  ⟨h.toSame.trans ⟨Kept.of_flags (by simp) (by simp), by simp, by simp⟩,
    by simpa using h.val, by simpa using h.threshold, by simp [h.buffer]⟩

theorem speculate (h : Progress F E time n prepared added seen pushed m) (k : CounterKey) (d : Int) :
    Progress F E time n prepared added seen pushed (m.plus (.entry k .speculative) d) :=
  ⟨h.toSame.trans ⟨Kept.of_flags (by simp) (by simp), by simp, by simp⟩,
    by simpa using h.val, by simpa using h.threshold, by simpa using h.buffer⟩

end Progress

theorem prevKey_ne_curKey {req' : RatelimitRequest} (htime : req'.time = req.time) :
    req.prevKey ≠ req'.curKey := by
  intro heq
  have hduration : milliseconds req.duration = milliseconds req'.duration :=
    congrArg CounterKey.durationMs heq
  have hsequence : calculateSequence req.time req.duration - 1
      = calculateSequence req'.time req'.duration := congrArg CounterKey.sequence heq
  rw [htime] at hsequence
  unfold calculateSequence at hsequence
  rw [hduration] at hsequence
  omega

theorem prevKey_notMem (htime : ∀ req' ∈ pre, req'.time = req.time) :
    req.prevKey ∉ pre.map (·.curKey) := by
  intro hmem
  obtain ⟨req', hreq', heq⟩ := List.mem_map.mp hmem
  exact prevKey_ne_curKey (htime req' hreq') heq.symm

/-! ### A single request -/

def Succeeded : Except String RatelimitResponse → Prop
  | .ok r => r.success = true
  | .error _ => False

theorem returns_decide (h : Progress F E req.time n (pre ++ [req]) pre pre pre m)
    (htime : ∀ req' ∈ pre, req'.time = req.time) :
    ∃ r l, (decideLoop F req (req.checkAt n) maxCASRetries).Returns (answerAlone E) m r l ∧
      Kept m l ∧ (effectiveAfter F E n pre req ≤ req.limit → r = answerAfter F E n pre req ∧
        Progress F E req.time n (pre ++ [req]) (pre ++ [req]) (pre ++ [req]) (pre ++ [req]) l) ∧
      (req.limit < effectiveAfter F E n pre req → r.success = false) := by
  have heffective : (req.checkAt n).slidingWindowCount F (m.get (.entry (req.checkAt n).cur .val))
      (m.get (.entry (req.checkAt n).prev .val)) + req.cost = effectiveAfter F E n pre req := by
    have hcur := h.val req.curKey
    have hprev := h.val req.prevKey
    have hnot := prevKey_notMem htime
    rw [if_pos (by simp)] at hcur
    rw [if_neg (by simp [hnot, prevKey_ne_curKey]), costIn_eq_zero hnot, add_zero] at hprev
    show m.get (.entry req.curKey .val) + _ + F.weigh (m.get (.entry req.prevKey .val) + _) _ _ + _
      = _ + _ + req.cost + _ + _
    rw [hcur, hprev]
    omega
  rcases le_or_gt (effectiveAfter F E n pre req) req.limit with hle | hlt
  · refine ⟨answerAfter F E n pre req, (((m.plus (.entry req.curKey .val) req.cost).push req).observe
      F req.curKey req.limit), ?_, ?_, ?_, ?_⟩
    · refine returns_load (returns_load ?_)
      rw [if_neg (by rw [heffective]; omega)]
      refine returns_swap ((returns_bufferReplay _ req).bind ((returns_observe _ _ _).bind ?_))
      unfold answerAfter
      rw [← heffective]
      rfl
    · exact Kept.of_flags (by simp) (by simp)
    · exact fun _ => ⟨rfl, ((h.add req).push req).observe req⟩
    · omega
  · refine ⟨⟨false, 0, (req.checkAt n).reset, req.limit, effectiveAfter F E n pre req⟩,
      m.raise (.strict req.strictKey) (unixMilli (req.time + req.duration)), ?_, Kept.raise m _ _,
      by omega, fun _ => rfl⟩
    refine returns_load (returns_load ?_)
    rw [← heffective] at hlt ⊢
    rw [if_pos hlt]
    exact (returns_atomicMax m _ _).bind rfl

theorem returns_ratelimitTimed (h : Progress F E req.time n pre pre pre pre m)
    (hpre : ∀ req' ∈ pre, req'.time = req.time ∧ validate req' = none)
    (hfresh : validate req = none → m.Fresh req.time req.curKey ∧ m.Fresh req.time req.prevKey) :
    ∃ r l, (ratelimitTimed F req).Returns (answerAlone E) m r l ∧ Kept m l ∧
      ((validate req = none ∧ effectiveAfter F E n pre req ≤ req.limit) →
        r = .ok (answerAfter F E n pre req) ∧
        Progress F E req.time n (pre ++ [req]) (pre ++ [req]) (pre ++ [req]) (pre ++ [req]) l) ∧
      (¬ (validate req = none ∧ effectiveAfter F E n pre req ≤ req.limit) → ¬ Succeeded r) := by
  unfold ratelimitTimed
  cases hvalid : validate req with
  | some message => exact ⟨.error message, m, rfl, Kept.refl m, nofun, fun _ hs => hs⟩
  | none =>
    have hprepared := h.prepare (fun r hr => (hpre r hr).2) (List.Subset.refl _) rfl
    have hcheck := returns_prepareCheck (E := E) (hfresh hvalid).1 (hfresh hvalid).2
    rw [h.checkAt] at hcheck
    obtain ⟨r, l, hl, hkept, hfits, hdenied⟩ :=
      returns_decide hprepared fun r hr => (hpre r hr).1
    refine ⟨.ok r, l, hcheck.bind (hl.bind rfl), (same_strictRefreshed m req).toKept.trans hkept,
      ?_, ?_⟩
    · rintro ⟨-, hle⟩
      obtain ⟨rfl, hprogress⟩ := hfits hle
      exact ⟨rfl, hprogress⟩
    · grind [Succeeded]

/-! ### One request after the other -/

def FreshFor (n : Node) (reqs : List RatelimitRequest) : Prop :=
  ∀ req ∈ reqs, validate req = none →
    n.Fresh req.time req.curKey ∧ n.Fresh req.time req.prevKey

def EachAfter (F : Floats) (E : Op → Env) (time : Int) (n : Node) (pre : List RatelimitRequest)
    (rs : List (Except String RatelimitResponse)) (m : Node) : Prop :=
  (Fits F E n pre ∧ rs = (withPast (answerAfter F E n) [] pre).map .ok ∧
      Progress F E time n pre pre pre pre m) ∨
    (¬ Fits F E n pre ∧ ∃ x ∈ rs, ¬ Succeeded x)

theorem returns_each (htime : ∀ req ∈ reqs, req.time = time) (hfresh : FreshFor n reqs) :
    ∃ rs l, (reqs.mapM' (ratelimitTimed F)).Returns (answerAlone E) n rs l ∧
      Kept n l ∧ EachAfter F E time n reqs rs l := by
  refine Prog.Returns.mapM (I := fun pre rs m => Kept n m ∧ EachAfter F E time n pre rs m) reqs ?_
    ⟨Kept.refl n, .inl ⟨by intro pre req post hsplit; simp at hsplit, rfl, .start F E time n⟩⟩
  rintro pre req post rs m hsplit ⟨hkept, hcases⟩
  have hreq : req ∈ reqs := by simp [hsplit]
  have hentries : validate req = none → m.Fresh req.time req.curKey ∧ m.Fresh req.time req.prevKey :=
    fun hvalid => (hfresh req hreq hvalid).imp hkept.isFresh hkept.isFresh
  obtain rfl := htime req hreq
  rcases hcases with ⟨hfits, hrs, hafter⟩ | ⟨hnot, x, hx, hxs⟩
  · obtain ⟨r, l, hl, hkept', hadmitted, hdenied⟩ := returns_ratelimitTimed hafter
      (fun r hr => ⟨htime r (by simp [hsplit, hr]), hfits.valid r hr⟩) hentries
    refine ⟨r, l, hl, hkept.trans hkept', ?_⟩
    unfold EachAfter
    rw [fits_concat]
    by_cases hfit : validate req = none ∧ effectiveAfter F E n pre req ≤ req.limit
    · grind [withPast_concat]
    · exact .inr ⟨fun hall => hfit hall.2, r, by simp, hdenied hfit⟩
  · -- a failure of an earlier request stays in the answers
    obtain ⟨r, l, hl, hkept', -⟩ := returns_ratelimitTimed (F := F) (E := E)
      (Progress.start F E req.time m) nofun hentries
    exact ⟨r, l, hl, hkept.trans hkept', .inr ⟨fun hall => hnot (fits_concat.mp hall).1, x,
      List.mem_append_left _ hx, hxs⟩⟩

/-! ### A batch -/

def RatelimitRequest.itemAt (n : Node) (req : RatelimitRequest) : Item := ⟨req, req.checkAt n, 0, 0⟩

theorem costOn_itemAt (n : Node) (k : CounterKey) (reqs : List RatelimitRequest) :
    costOn k ((reqs.map (·.itemAt n)).map Item.mark) = costIn k reqs := by
  rw [List.map_map]
  rfl

theorem returns_prepareBatch (htime : ∀ req ∈ reqs, req.time = time) (hfresh : FreshFor n reqs)
    (hvalid : ∀ req ∈ reqs, validate req = none) :
    ∃ items m, (reqs.mapM' prepareItem).Returns (answerAlone E) n items m ∧
      items = reqs.map (·.itemAt n) ∧ Progress F E time n reqs [] [] [] m := by
  refine Prog.Returns.mapM (I := fun pre items m => items = pre.map (·.itemAt n) ∧
    Progress F E time n pre [] [] [] m) reqs ?_ ⟨rfl, .start F E time n⟩
  rintro pre req post items m hsplit ⟨hitems, hpre⟩
  have hreq : req ∈ reqs := by simp [hsplit]
  obtain ⟨hcur, hprev⟩ := hfresh req hreq (hvalid req hreq)
  have hcheck := returns_prepareCheck (E := E) (hpre.isFresh hcur) (hpre.isFresh hprev)
  refine ⟨_, _, hcheck.bind rfl, ?_, hpre.prepare nofun (List.nil_subset _) (htime req hreq)⟩
  rw [List.map_append, hitems, hpre.checkAt]
  rfl

/-- The item with the count its increment gives, on a node that was `m` before the batch added. -/
def Item.counted (m : Node) (before : List Item) (it : Item) : Item :=
  { it with newCount := m.get (.entry it.cs.cur .val) + costOn it.cs.cur (before.map Item.mark)
      + it.req.cost }

/-- The costs of some items, each with a factor, are in both integers of their cells. -/
structure Shifted (c : Int) (items : List Item) (m l : Node) : Prop where
  val : ∀ k, l.get (.entry k .val) = m.get (.entry k .val) + c * costOn k (items.map Item.mark)
  speculative : ∀ k, l.get (.entry k .speculative)
    = m.get (.entry k .speculative) + c * costOn k (items.map Item.mark)
  threshold : ∀ k,
    l.get (.entry k .globalPushThreshold) = m.get (.entry k .globalPushThreshold)
  buffer : l.replayBuffer = m.replayBuffer

namespace Shifted

variable {c : Int} {items : List Item} {it : Item} {l : Node}

theorem nil (c : Int) (m : Node) : Shifted c [] m m :=
  ⟨fun _ => by simp, fun _ => by simp, fun _ => rfl, rfl⟩

theorem concat (h : Shifted c items m l) {d : Int} (hd : d = c * it.req.cost) {f g : Field}
    (hfg : (f = .val ∧ g = .speculative) ∨ (f = .speculative ∧ g = .val)) :
    Shifted c (items ++ [it]) m ((l.plus (.entry it.cs.cur f) d).plus (.entry it.cs.cur g) d) := by
  have hcost : ∀ k, c * costOn k ((items ++ [it]).map Item.mark)
      = c * costOn k (items.map Item.mark) + if it.cs.cur = k then d else 0 := by
    intro k
    rw [List.map_append, costOn_append, List.map_singleton, costOn_cons, costOn_nil, add_zero,
      Int.mul_add, hd, mul_ite, Int.mul_zero]
    rfl
  refine ⟨fun k => ?_, fun k => ?_, fun k => ?_, by simp [h.buffer]⟩
  · rw [hcost, ← Int.add_assoc, ← h.val]
    rcases hfg with ⟨rfl, rfl⟩ | ⟨rfl, rfl⟩ <;> simp
  · rw [hcost, ← Int.add_assoc, ← h.speculative]
    rcases hfg with ⟨rfl, rfl⟩ | ⟨rfl, rfl⟩ <;> simp
  · rw [← h.threshold]
    rcases hfg with ⟨rfl, rfl⟩ | ⟨rfl, rfl⟩ <;> simp

theorem raise_strict (h : Shifted c items m l) (k : StrictKey) (v : Int) :
    Shifted c items m (l.raise (.strict k) v) :=
  ⟨by simpa using h.val, by simpa using h.speculative, by simpa using h.threshold,
    by simpa using h.buffer⟩

end Shifted

structure Added (items : List Item) (m l : Node) : Prop extends Shifted 1 items m l where
  same : Same m l

theorem Added.count (h : Added items m l) (k : CounterKey) :
    l.get (.entry k .val) = m.get (.entry k .val) + costOn k (items.map Item.mark) := by
  rw [h.val, Int.one_mul]

theorem returns_incrementBatch (m : Node) (items : List Item) :
    ∃ added l, (items.mapM' incrementItem).Returns (answerAlone E) m added l ∧
      added = withPast (Item.counted m) [] items ∧ Added items m l := by
  refine Prog.Returns.mapM (I := fun pre added l => added = withPast (Item.counted m) [] pre ∧
    Added pre m l) items ?_ ⟨rfl, Shifted.nil 1 m, Same.refl m⟩
  rintro pre it post added l - ⟨hadded, hpre⟩
  refine ⟨_, _, returns_add (returns_add rfl), ?_,
    hpre.concat (Int.one_mul it.req.cost).symm (.inr ⟨rfl, rfl⟩),
    hpre.same.trans ⟨Kept.of_flags (by simp) (by simp), by simp, by simp⟩⟩
  rw [withPast_concat, hadded, List.nil_append, Item.counted, ← hpre.count]
  simp

def Item.checked (F : Floats) (l : Node) (it : Item) : Item :=
  { it with effective :=
      it.cs.slidingWindowCount F it.newCount (l.get (.entry it.cs.prev .val)) }

theorem returns_checkBatch (l : Node) (items : List Item) :
    (items.mapM' (checkItem F)).Returns (answerAlone E) l (items.map (Item.checked F l)) l := by
  obtain ⟨checked, l', hl, rfl, rfl⟩ := Prog.Returns.mapM (A := answerAlone E) (f := checkItem F)
    (I := fun pre checked l' => checked = pre.map (Item.checked F l) ∧ l' = l) (s := l) items
    (by
      rintro pre it post checked l' - ⟨rfl, rfl⟩
      refine ⟨it.checked F l', l', ?_, by simp, rfl⟩
      exact Prog.Returns.perform (o := Op.load (.entry it.cs.prev .val) false) rfl rfl)
    ⟨rfl, rfl⟩
  exact hl

def batchCount (F : Floats) (n : Node) (reqs before : List RatelimitRequest)
    (req : RatelimitRequest) : Int :=
  (req.checkAt n).slidingWindowCount F
    (n.get (.entry req.curKey .val) + costIn req.curKey before + req.cost)
    (n.get (.entry req.prevKey .val) + costIn req.prevKey reqs)

def batchItem (F : Floats) (n : Node) (reqs before : List RatelimitRequest)
    (req : RatelimitRequest) : Item :=
  ⟨req, req.checkAt n, n.get (.entry req.curKey .val) + costIn req.curKey before + req.cost,
    batchCount F n reqs before req⟩

theorem checked_batchItem (hcheck : ∀ req : RatelimitRequest, req.checkAt m = req.checkAt n)
    (hl : Added (reqs.map (·.itemAt n)) m l) :
    (withPast (Item.counted m) [] (reqs.map (·.itemAt n))).map (Item.checked F l)
      = withPast (batchItem F m reqs) [] reqs := by
  rw [map_withPast]
  refine (withPast_map _ (·.itemAt n) [] reqs).trans (withPast_congr ?_)
  intro pre req post _
  have hprev : l.get (.entry req.prevKey .val)
      = m.get (.entry req.prevKey .val) + costIn req.prevKey reqs := by
    rw [hl.count, costOn_itemAt]
  show Item.checked F l (Item.counted m (pre.map (·.itemAt n)) (req.itemAt n)) = _
  unfold Item.counted
  rw [costOn_itemAt]
  show Item.mk req (req.checkAt n) _
    ((req.checkAt n).slidingWindowCount F _ (l.get (.entry req.prevKey .val))) = _
  rw [hprev, ← hcheck]
  rfl

theorem returns_of_prepared (F : Floats) (hvalid : ∀ req ∈ reqs, validate req = none)
    (hprepare : (reqs.mapM' prepareItem).Returns (answerAlone E) n (reqs.map (·.itemAt n)) m)
    (hcheck : ∀ req : RatelimitRequest, req.checkAt m = req.checkAt n) :
    ∃ l, Added (reqs.map (·.itemAt n)) m l ∧ ∀ items l₁ n',
      items = withPast (batchItem F m reqs) [] reqs →
      (finishBatch F items).Returns (answerAlone E) l () l₁ →
      (replayBatch items).Returns (answerAlone E) l₁ () n' →
      (ratelimitManyTimed F reqs).Returns (answerAlone E) n
        (.ok (items.map (Item.response (items.all Item.passed)))) n' := by
  obtain ⟨_, l, hadd, rfl, hl⟩ := returns_incrementBatch (E := E) m (reqs.map (·.itemAt n))
  have hchecked := returns_checkBatch (F := F) (E := E) l
    (withPast (Item.counted m) [] (reqs.map (·.itemAt n)))
  rw [checked_batchItem hcheck hl] at hchecked
  refine ⟨l, hl, ?_⟩
  rintro _ l₁ n' rfl hfinish hreplay
  unfold ratelimitManyTimed
  rw [List.findSome?_eq_none_iff.mpr hvalid]
  exact hprepare.bind (hadd.bind (hchecked.bind (hfinish.bind (hreplay.bind rfl))))

theorem mem_batchItems {it : Item} (hit : it ∈ withPast (batchItem F m reqs) [] reqs) :
    it.cs.cur = it.req.curKey := by
  obtain ⟨pre, req, post, -, rfl⟩ := mem_withPast.mp hit
  rfl

theorem req_batchItems : (withPast (batchItem F m reqs) [] reqs).map Item.req = reqs := by
  rw [map_withPast]
  exact (withPast_const (fun req => req) [] reqs).trans (List.map_id' reqs)

section Finish

variable {items : List Item} {prepared added : List RatelimitRequest}

theorem returns_finish_passed (hall : items.all Item.passed = true)
    (hcur : ∀ it ∈ items, it.cs.cur = it.req.curKey)
    (h : Progress F E time n prepared added [] [] l) :
    ∃ l', (finishBatch F items).Returns (answerAlone E) l () l' ∧
      Progress F E time n prepared added (items.map Item.req) [] l' := by
  unfold finishBatch
  rw [if_pos hall]
  refine Prog.Returns.forM (I := fun pre l' => Progress F E time n prepared added
    (pre.map Item.req) [] l') items ?_ h
  intro pre it post l₁ hsplit hpre
  refine ⟨_, (returns_observe l₁ _ _).bind (returns_add rfl), ?_⟩
  rw [hcur it (by simp [hsplit]), List.map_append]
  exact (hpre.observe it.req).speculate _ _

theorem returns_replay_passed {seen : List RatelimitRequest} (hall : items.all Item.passed = true)
    (h : Progress F E time n prepared added seen [] l) :
    ∃ l', (replayBatch items).Returns (answerAlone E) l () l' ∧
      Progress F E time n prepared added seen (items.map Item.req) l' := by
  unfold replayBatch
  rw [if_pos hall]
  refine Prog.Returns.forM (I := fun pre l' => Progress F E time n prepared added seen
    (pre.map Item.req) l') items ?_ h
  intro pre it post l₁ _ hpre
  refine ⟨_, returns_bufferReplay l₁ it.req, ?_⟩
  rw [List.map_append]
  exact hpre.push it.req

theorem returns_denied (E : Op → Env) (hall : ¬ items.all Item.passed = true) (l : Node) :
    ∃ l', (finishBatch F items).Returns (answerAlone E) l () l' ∧
      (replayBatch items).Returns (answerAlone E) l' () l' ∧ Shifted (-1) items l l' := by
  unfold finishBatch replayBatch
  rw [if_neg hall, if_neg hall]
  obtain ⟨l', hl', hshifted⟩ : ∃ l', (items.forM rollbackItem).Returns (answerAlone E) l ⟨⟩ l' ∧
      Shifted (-1) items l l' := by
    refine Prog.Returns.forM (I := fun pre l' => Shifted (-1) pre l l') items ?_ (.nil (-1) l)
    intro pre it post l₀ _ hpre
    have hshifted := hpre.concat (Int.neg_one_mul it.req.cost).symm (.inl ⟨rfl, rfl⟩)
    by_cases hpassed : it.passed = true
    · refine ⟨_, returns_add (returns_add ?_), hshifted⟩
      rw [if_pos hpassed]
      rfl
    · refine ⟨_, returns_add (returns_add ?_), hshifted.raise_strict it.cs.strictKey
        (unixMilli (it.req.time + it.req.duration))⟩
      rw [if_neg hpassed]
      exact returns_atomicMax _ _ _
  exact ⟨l', hl', rfl, hshifted⟩

end Finish

theorem Progress.batchCount_eq (h : Progress F E time n reqs [] [] [] m)
    (htime : ∀ req ∈ reqs, req.time = time) (hreq : req ∈ reqs) :
    batchCount F m reqs pre req = effectiveAfter F E n pre req := by
  have hprev : req.prevKey ∉ reqs.map (·.curKey) :=
    prevKey_notMem fun req' hreq' => (htime req' hreq').trans (htime req hreq).symm
  unfold batchCount effectiveAfter
  rw [h.checkAt, h.val, h.val, if_pos (List.mem_map_of_mem hreq), if_neg hprev,
    costIn_eq_zero hprev, htime req hreq]
  simp [costIn]

theorem Progress.all_passed_iff (h : Progress F E time n reqs [] [] [] m)
    (htime : ∀ req ∈ reqs, req.time = time) (hvalid : ∀ req ∈ reqs, validate req = none) :
    (withPast (batchItem F m reqs) [] reqs).all Item.passed = true ↔ Fits F E n reqs := by
  rw [List.all_eq_true]
  constructor
  · intro hall pre req post hsplit
    have hreq : req ∈ reqs := by simp [hsplit]
    have hpassed := hall _ (mem_withPast.mpr ⟨pre, req, post, hsplit, rfl⟩)
    rw [← h.batchCount_eq htime hreq]
    exact ⟨hvalid req hreq, of_decide_eq_true hpassed⟩
  · intro hfits it hit
    obtain ⟨pre, req, post, hsplit, rfl⟩ := mem_withPast.mp hit
    have hle := (hfits pre req post hsplit).2
    rw [← h.batchCount_eq htime (by simp [hsplit])] at hle
    exact decide_eq_true hle

theorem Progress.responses (h : Progress F E time n reqs [] [] [] m)
    (htime : ∀ req ∈ reqs, req.time = time) (hfits : Fits F E n reqs) :
    (withPast (batchItem F m reqs) [] reqs).map (Item.response true)
      = withPast (answerAfter F E n) [] reqs := by
  rw [map_withPast]
  refine withPast_congr ?_
  intro pre req post hsplit
  have hcount : batchCount F m reqs pre req = effectiveAfter F E n pre req :=
    h.batchCount_eq htime (by simp [hsplit])
  have hle : batchCount F m reqs pre req ≤ req.limit := by
    rw [hcount]
    exact (hfits pre req post hsplit).2
  have hpassed : (batchItem F m reqs pre req).passed = true := decide_eq_true hle
  show RatelimitResponse.mk (batchItem F m reqs pre req).passed _ _ _ _ = answerAfter F E n pre req
  rw [hpassed]
  unfold answerAfter
  rw [← hcount, ← h.checkAt]
  rfl

def AllSucceeded : Except String (List RatelimitResponse) → Prop
  | .ok rs => ∀ r ∈ rs, r.success = true
  | .error _ => False

def BatchAfter (F : Floats) (E : Op → Env) (time : Int) (n : Node) (reqs : List RatelimitRequest)
    (r : Except String (List RatelimitResponse)) (l : Node) : Prop :=
  (Fits F E n reqs ∧ r = .ok (withPast (answerAfter F E n) [] reqs) ∧
      Progress F E time n reqs reqs reqs reqs l) ∨
    (¬ Fits F E n reqs ∧ ¬ AllSucceeded r)

theorem returns_ratelimitManyTimed (htime : ∀ req ∈ reqs, req.time = time)
    (hfresh : FreshFor n reqs) :
    ∃ r l, (ratelimitManyTimed F reqs).Returns (answerAlone E) n r l ∧
      BatchAfter F E time n reqs r l := by
  cases hfind : reqs.findSome? validate with
  | some message =>
    refine ⟨.error message, n, ?_, .inr ⟨?_, fun hs => hs⟩⟩
    · unfold ratelimitManyTimed
      rw [hfind]
      rfl
    · intro hfits
      obtain ⟨req, hreq, heq⟩ := List.exists_of_findSome?_eq_some hfind
      rw [hfits.valid req hreq] at heq
      cases heq
  | none =>
    have hvalid := List.findSome?_eq_none_iff.mp hfind
    obtain ⟨_, m, hprepare, rfl, hm⟩ := returns_prepareBatch (F := F) (E := E) htime hfresh hvalid
    obtain ⟨l, hl, hrest⟩ := returns_of_prepared F hvalid hprepare hm.checkAt
    have hiff := hm.all_passed_iff htime hvalid
    by_cases hfits : Fits F E n reqs
    · have hall := hiff.mpr hfits
      have hadded : Progress F E time n reqs reqs [] [] l :=
        ⟨hm.toSame.trans hl.same, fun k => by
          rw [hl.count, costOn_itemAt, hm.val, show costIn k [] = 0 from rfl, add_zero],
          fun k => (hl.threshold k).trans (hm.threshold k), hl.buffer.trans hm.buffer⟩
      obtain ⟨l₁, hfinish, hl₁⟩ := returns_finish_passed hall (fun _ => mem_batchItems) hadded
      obtain ⟨l₂, hreplay, hl₂⟩ := returns_replay_passed hall hl₁
      rw [req_batchItems] at hl₂
      refine ⟨_, l₂, hrest _ l₁ l₂ rfl hfinish hreplay, .inl ⟨hfits, ?_, hl₂⟩⟩
      rw [hall, hm.responses htime hfits]
    · have hall := fun h => hfits (hiff.mp h)
      obtain ⟨l', hfinish, hreplay, -⟩ := returns_denied (F := F) E hall l
      refine ⟨_, l', hrest _ l' l' rfl hfinish hreplay, .inr ⟨hfits, fun hsucceeded => hall ?_⟩⟩
      -- a response says whether its own item passed
      rw [List.all_eq_true]
      exact fun it hit => hsucceeded _ (List.mem_map_of_mem hit)

/-! ### Agreement -/

theorem eval_ratelimit (req : RatelimitRequest) (n : Node) :
    (ratelimit F req).eval (answerAlone E) n
      = (ratelimitTimed F (req.timed (E .now).now)).eval (answerAlone E) n := by
  unfold ratelimit RatelimitRequest.timed
  split
  · rfl
  · rfl

theorem eval_ratelimitEach (reqs : List RatelimitRequest) (n : Node) :
    (ratelimitEach F reqs).eval (answerAlone E) n
      = ((reqs.map (·.timed (E .now).now)).mapM' (ratelimitTimed F)).eval (answerAlone E) n := by
  unfold ratelimitEach
  induction reqs generalizing n with
  | nil => rfl
  | cons req reqs ih =>
    rw [List.map_cons, List.mapM'_cons, List.mapM'_cons, Prog.eval_bind, Prog.eval_bind,
      eval_ratelimit]
    simp only [Prog.eval_bind, ih]

/-- Requests that share one time, on fresh entries and without concurrent calls: a batch admits
all of them exactly when single calls in the same order do, and then both leave the same counts,
thresholds and replay buffer and give the same responses. -/
theorem ratelimitMany_agrees (F : Floats) (E : Op → Env) (n : Node) (time : Int)
    (reqs : List RatelimitRequest) (htime : ∀ req ∈ reqs, req.time = time)
    (hfresh : FreshFor n (reqs.map (·.timed (E .now).now))) :
    ∃ batch nb each ne, (ratelimitMany F reqs).Returns (answerAlone E) n batch nb ∧
      (ratelimitEach F reqs).Returns (answerAlone E) n each ne ∧
      (AllSucceeded batch ↔ ∀ x ∈ each, Succeeded x) ∧
      (AllSucceeded batch →
        (∃ rs, batch = .ok rs ∧ each = rs.map .ok) ∧
        (∀ k, nb.get (.entry k .val) = ne.get (.entry k .val)) ∧
        (∀ k, nb.get (.entry k .globalPushThreshold) = ne.get (.entry k .globalPushThreshold)) ∧
        nb.replayBuffer = ne.replayBuffer) := by
  obtain ⟨timed, htimed⟩ : ∃ timed, timed = reqs.map (·.timed (E .now).now) := ⟨_, rfl⟩
  rw [← htimed] at hfresh
  obtain ⟨shared, hshared⟩ : ∃ t, ∀ req ∈ timed, req.time = t := by
    refine ⟨(RatelimitRequest.timed ⟨"", "", "", 0, 0, 0, time⟩ (E .now).now).time, ?_⟩
    intro req hreq
    rw [htimed] at hreq
    obtain ⟨orig, horig, rfl⟩ := List.mem_map.mp hreq
    unfold RatelimitRequest.timed
    rw [htime orig horig]
    split <;> simp_all
  obtain ⟨batch, nb, hbatch, hb⟩ :=
    returns_ratelimitManyTimed (F := F) (E := E) hshared hfresh
  obtain ⟨each, ne, heach, -, he⟩ := returns_each (F := F) (E := E) hshared hfresh
  refine ⟨batch, nb, each, ne, ?_, ?_, ?_⟩
  · refine Prog.Returns.perform (o := Op.now) rfl ?_
    rw [htimed] at hbatch
    exact hbatch
  · show (ratelimitEach F reqs).eval _ _ = _
    rw [eval_ratelimitEach, ← htimed]
    exact heach
  · have hanswers : ∀ r ∈ withPast (answerAfter F E n) [] timed, r.success = true := by
      intro r hr
      obtain ⟨pre, req, post, -, rfl⟩ := mem_withPast.mp hr
      rfl
    rcases hb with ⟨hfits, rfl, hb⟩ | ⟨hnot, hb⟩
    · rcases he with ⟨-, rfl, he⟩ | ⟨hnot, -⟩
      · have heach : ∀ x ∈ (withPast (answerAfter F E n) [] timed).map .ok, Succeeded x := by
          intro x hx
          obtain ⟨r, hr, rfl⟩ := List.mem_map.mp hx
          exact hanswers r hr
        refine ⟨⟨fun _ => heach, fun _ => hanswers⟩, fun _ => ⟨⟨_, rfl, rfl⟩, ?_, ?_, ?_⟩⟩
        · intro k
          rw [hb.val, he.val]
        · intro k
          rw [hb.threshold, he.threshold]
        · rw [hb.buffer, he.buffer]
      · exact absurd hfits hnot
    · rcases he with ⟨hfits, -⟩ | ⟨-, x, hx, hxs⟩
      · exact absurd hfits hnot
      · exact ⟨⟨fun hs => absurd hs hb, fun hs => absurd (hs x hx) hxs⟩, fun hs => absurd hs hb⟩

def pairOnCell : List RatelimitRequest := [minuteRequest 2 2, minuteRequest 5 1]

theorem ratelimitMany_agrees_pair :
    ∃ nb ne, (ratelimitMany .exact pairOnCell).Returns (answerAlone fun _ => quietEnv 0) (warmNode 0)
        (.ok [⟨true, 0, 120000000000, 2, 2⟩, ⟨true, 2, 120000000000, 5, 3⟩]) nb ∧
      (ratelimitEach .exact pairOnCell).Returns (answerAlone fun _ => quietEnv 0) (warmNode 0)
        [.ok ⟨true, 0, 120000000000, 2, 2⟩, .ok ⟨true, 2, 120000000000, 5, 3⟩] ne ∧
      (∀ k, nb.get (.entry k .val) = ne.get (.entry k .val)) ∧
      nb.replayBuffer = ne.replayBuffer := by
  have htime : ∀ req ∈ pairOnCell, req.time = 90000000000 := by decide
  have hfresh : FreshFor (warmNode 0) (pairOnCell.map (·.timed (quietEnv 0).now)) := by
    unfold FreshFor
    decide
  obtain ⟨batch, nb, each, ne, hb, he, -, hagree⟩ := ratelimitMany_agrees .exact
    (fun _ => quietEnv 0) (warmNode 0) 90000000000 pairOnCell htime hfresh
  have hres : ((ratelimitMany .exact pairOnCell).eval (answerAlone fun _ => quietEnv 0)
      (warmNode 0)).map (·.1)
      = some (.ok [⟨true, 0, 120000000000, 2, 2⟩, ⟨true, 2, 120000000000, 5, 3⟩]) := by
    decide +kernel
  rw [hb, Option.map_some, Option.some.injEq] at hres
  obtain rfl : batch = _ := hres
  obtain ⟨⟨rs, hrs, rfl⟩, hval, -, hbuffer⟩ := hagree (by unfold AllSucceeded; decide)
  rw [← Except.ok.inj hrs] at he
  exact ⟨nb, ne, hb, he, hval, hbuffer⟩

end Unkey.Ratelimit
