import Unkey.Base.GoInt
import Unkey.Ratelimit.Sequential

/-!
# A single request in the arithmetic of the machine

`Ratelimit` once more, with every sum of counts wrapped into 64 bits as Go does.
-/

namespace Unkey.Ratelimit

open Unkey.Base

theorem int64_int64_add (x y : Int) : int64 (int64 x + y) = int64 (x + y) := by
  unfold int64
  omega

namespace Machine

variable (F : Floats)

/-- `weigh` stands for the conversion to `float64`, the product and the conversion back. -/
def slidingWindowCount (cs : CheckState) (curCount prevCount : Int) : Int :=
  int64 (int64 (curCount + cs.curGlobal)
    + F.weigh (int64 (prevCount + cs.prevGlobal)) cs.elapsedMs cs.durationMs)

def decideLoop (req : RatelimitRequest) (cs : CheckState) : Nat → Code RatelimitResponse
  | 0 => pure ⟨false, 0, cs.reset, req.limit, req.limit⟩
  | n + 1 => do
    let curCount ← load (.entry cs.cur .val)
    let prevCount ← load (.entry cs.prev .val)
    let effectiveCount := int64 (slidingWindowCount F cs curCount prevCount + req.cost)
    if req.limit < effectiveCount then do
      setStrictUntil cs.strictKey (unixMilli (req.time + req.duration))
      pure ⟨false, 0, cs.reset, req.limit, effectiveCount⟩
    else do
      match ← compareAndSwap (.entry cs.cur .val) curCount (int64 (curCount + req.cost)) with
      | true => do
        Prog.tell (.committed [req])
        bufferReplay req
        observeGlobalPushLimit F cs.cur req.limit
        pure ⟨true, max 0 (int64 (req.limit - effectiveCount)), cs.reset, req.limit, effectiveCount⟩
      | false => decideLoop req cs n

def ratelimitTimed (req : RatelimitRequest) : Code (Except String RatelimitResponse) :=
  match validate req with
  | some message => pure (.error message)
  | none => do
    let cs ← prepareCheck req
    let resp ← decideLoop F req cs maxCASRetries
    pure (.ok resp)

def ratelimit (req : RatelimitRequest) : Code (Except String RatelimitResponse) :=
  if req.time = zeroTime then do
    let now ← clockNow
    ratelimitTimed F (req.timed now)
  else ratelimitTimed F req

/-! ### The counts a request meets -/

variable {F} {E : Op → Env} {n m : Node} {req : RatelimitRequest}

def countMet (E : Op → Env) (n : Node) (req : RatelimitRequest) (k : CounterKey) : Int :=
  if req.Asks n k then fetched E k (n.get (.entry k .val)) else n.get (.entry k .val)

theorem countMet_eq (hm : Merged E n m (req.Asks n)) (k : CounterKey) :
    m.get (.entry k .val) = countMet E n req k := by
  unfold countMet
  split
  · rename_i hasks
    exact hm.val k hasks
  · rename_i hasks
    exact congrArg (CounterEntry.get · .val) (hm.kept k hasks)

theorem le_countMet (E : Op → Env) (n : Node) (req : RatelimitRequest) (k : CounterKey) :
    n.get (.entry k .val) ≤ countMet E n req k := by
  unfold countMet
  split
  · exact le_fetched E k _
  · exact le_rfl

def exactCount (F : Floats) (E : Op → Env) (n : Node) (req : RatelimitRequest) : Int :=
  (req.checkAt n).slidingWindowCount F (countMet E n req req.curKey) (countMet E n req req.prevKey)
    + req.cost

def effectiveCount (F : Floats) (E : Op → Env) (n : Node) (req : RatelimitRequest) : Int :=
  int64 (slidingWindowCount F (req.checkAt n) (countMet E n req req.curKey)
    (countMet E n req req.prevKey) + req.cost)

/-- None of the sums of a request leaves 64 bits. -/
structure NoOverflow (F : Floats) (E : Op → Env) (n : Node) (req : RatelimitRequest) : Prop where
  previous : IsInt64 (countMet E n req req.prevKey + (req.checkAt n).prevGlobal)
  whole : IsInt64 (exactCount F E n req)
  stored : IsInt64 (countMet E n req req.curKey + req.cost)

theorem effectiveCount_eq
    (hprev : IsInt64 (countMet E n req req.prevKey + (req.checkAt n).prevGlobal)) :
    effectiveCount F E n req = int64 (exactCount F E n req) := by
  unfold effectiveCount slidingWindowCount
  rw [int64_int64_add, int64_of_isInt64 hprev, Int.add_assoc, int64_int64_add, ← Int.add_assoc]
  rfl

/-! ### One call -/

theorem effectiveCount_of_merged (hm : Merged E n m (req.Asks n)) :
    int64 (slidingWindowCount F (req.checkAt n) (m.get (.entry (req.checkAt n).cur .val))
      (m.get (.entry (req.checkAt n).prev .val)) + req.cost) = effectiveCount F E n req := by
  rw [countMet_eq hm, countMet_eq hm]
  rfl

structure Decided (F : Floats) (E : Op → Env) (req : RatelimitRequest) (n m : Node)
    (resp : RatelimitResponse) (n' : Node) : Prop where
  flags : ∀ k, n'.flags k = m.flags k
  success : resp.success = true ↔ effectiveCount F E n req ≤ req.limit
  val : ∀ k, n'.get (.entry k .val) = if resp.success = true ∧ k = req.curKey
    then int64 (countMet E n req k + req.cost) else countMet E n req k

theorem returns_decideLoop_denied (hm : Merged E n m (req.Asks n)) (retries : Nat)
    (hdenied : req.limit < effectiveCount F E n req) :
    ∃ resp n', (decideLoop F req (req.checkAt n) (retries + 1)).Returns (answerAlone E) m resp n' ∧
      Decided F E req n m resp n' := by
  refine ⟨⟨false, 0, (req.checkAt n).reset, req.limit, effectiveCount F E n req⟩,
    m.raise (.strict req.strictKey) (unixMilli (req.time + req.duration)), ?_,
    by simp, iff_of_false Bool.false_ne_true (not_le.mpr hdenied), ?_⟩
  · refine returns_load (returns_load ?_)
    rw [effectiveCount_of_merged hm, if_pos hdenied]
    exact (returns_atomicMax _ _ _).bind rfl
  · intro k
    simp [countMet_eq hm]

theorem returns_decideLoop_admitted (hm : Merged E n m (req.Asks n)) (retries : Nat)
    (hadmitted : ¬ req.limit < effectiveCount F E n req) :
    ∃ resp n', (decideLoop F req (req.checkAt n) (retries + 1)).Returns (answerAlone E) m resp n' ∧
      Decided F E req n m resp n' := by
  refine ⟨⟨true, max 0 (int64 (req.limit - effectiveCount F E n req)), (req.checkAt n).reset,
    req.limit, effectiveCount F E n req⟩, ((m.put (.entry req.curKey .val)
      (int64 (m.get (.entry req.curKey .val) + req.cost))).push req).observe F req.curKey req.limit,
    ?_, by simp, iff_of_true rfl (not_lt.mp hadmitted), ?_⟩
  · refine returns_load (returns_load ?_)
    rw [effectiveCount_of_merged hm, if_neg hadmitted]
    exact returns_swap ((returns_bufferReplay _ req).bind ((returns_observe _ _ _).bind rfl))
  · intro k
    by_cases hk : k = req.curKey <;> simp [hk, Node.get_put, countMet_eq hm]

theorem returns_ratelimitTimed (F : Floats) (E : Op → Env) (hrest : n.AtRest)
    (hvalid : validate req = none) :
    ∃ m resp n', Merged E n m (req.Asks n) ∧
      (ratelimitTimed F req).Returns (answerAlone E) n (.ok resp) n' ∧
      Decided F E req n m resp n' := by
  obtain ⟨m, hprepare, hm⟩ := (Merged.start hrest).returns_prepareCheck (E := E) req
  have hm : Merged E n m (req.Asks n) := hm.same fun k => (false_or _).symm.to_iff
  obtain ⟨resp, n', hdecide, hdecided⟩ : ∃ resp n',
      (decideLoop F req (req.checkAt n) maxCASRetries).Returns (answerAlone E) m resp n' ∧
        Decided F E req n m resp n' := by
    by_cases hdenied : req.limit < effectiveCount F E n req
    · exact returns_decideLoop_denied hm 99 hdenied
    · exact returns_decideLoop_admitted hm 99 hdenied
  refine ⟨m, resp, n', hm, ?_, hdecided⟩
  unfold ratelimitTimed
  rw [hvalid]
  exact hprepare.bind (hdecide.bind rfl)

theorem eval_ratelimit_timed (req : RatelimitRequest) (n : Node) :
    (ratelimit F req).eval (answerAlone E) n
      = (ratelimitTimed F (req.timed (E .now).now)).eval (answerAlone E) n := by
  unfold ratelimit RatelimitRequest.timed
  split
  · rfl
  · rfl

/-! ### The machine and the exact arithmetic -/

/-- Without overflow the machine decides as the unbounded arithmetic does. -/
theorem returns_decideLoop_exact (hm : Merged E n m (req.Asks n)) (hfits : NoOverflow F E n req)
    (hremaining : IsInt64 (req.limit - exactCount F E n req)) (retries : Nat) :
    ∃ resp n', (decideLoop F req (req.checkAt n) (retries + 1)).Returns (answerAlone E) m resp n' ∧
      (Ratelimit.decideLoop F req (req.checkAt n) (retries + 1)).Returns (answerAlone E) m resp n' := by
  have heffective : effectiveCount F E n req = exactCount F E n req := by
    rw [effectiveCount_eq hfits.previous, int64_of_isInt64 hfits.whole]
  have hexact : (req.checkAt n).slidingWindowCount F (m.get (.entry (req.checkAt n).cur .val))
      (m.get (.entry (req.checkAt n).prev .val)) + req.cost = exactCount F E n req := by
    rw [countMet_eq hm, countMet_eq hm]
    rfl
  have hstored : int64 (m.get (.entry req.curKey .val) + req.cost)
      = m.get (.entry req.curKey .val) + req.cost := by
    rw [countMet_eq hm]
    exact int64_of_isInt64 hfits.stored
  by_cases hdenied : req.limit < exactCount F E n req
  · refine ⟨⟨false, 0, (req.checkAt n).reset, req.limit, exactCount F E n req⟩,
      m.raise (.strict req.strictKey) (unixMilli (req.time + req.duration)),
      returns_load (returns_load ?_), returns_load (returns_load ?_)⟩
    · rw [effectiveCount_of_merged hm, heffective, if_pos hdenied]
      exact (returns_atomicMax _ _ _).bind rfl
    · rw [hexact, if_pos hdenied]
      exact (returns_atomicMax _ _ _).bind rfl
  · refine ⟨⟨true, max 0 (req.limit - exactCount F E n req), (req.checkAt n).reset, req.limit,
      exactCount F E n req⟩, ((m.put (.entry req.curKey .val)
        (m.get (.entry req.curKey .val) + req.cost)).push req).observe F req.curKey req.limit,
      returns_load (returns_load ?_), returns_load (returns_load ?_)⟩
    · rw [effectiveCount_of_merged hm, heffective, if_neg hdenied, int64_of_isInt64 hremaining]
      rw [show (req.checkAt n).cur = req.curKey from rfl, hstored]
      exact returns_swap ((returns_bufferReplay _ req).bind ((returns_observe _ _ _).bind rfl))
    · rw [hexact, if_neg hdenied]
      exact returns_swap ((returns_bufferReplay _ req).bind ((returns_observe _ _ _).bind rfl))

/-- On a request that overflows nothing the two programs do the same. -/
theorem eval_ratelimitTimed_exact (hrest : n.AtRest) (hvalid : validate req = none)
    (hfits : NoOverflow F E n req) (hremaining : IsInt64 (req.limit - exactCount F E n req)) :
    (ratelimitTimed F req).eval (answerAlone E) n =
      (Ratelimit.ratelimitTimed F req).eval (answerAlone E) n := by
  obtain ⟨m, hprepare, hm⟩ := (Merged.start hrest).returns_prepareCheck (E := E) req
  have hm : Merged E n m (req.Asks n) := hm.same fun k => (false_or _).symm.to_iff
  obtain ⟨resp, n', hmachine, hexact⟩ := returns_decideLoop_exact hm hfits hremaining 99
  have hleft : (ratelimitTimed F req).Returns (answerAlone E) n (.ok resp) n' := by
    unfold ratelimitTimed
    rw [hvalid]
    exact hprepare.bind (hmachine.bind rfl)
  have hright : (Ratelimit.ratelimitTimed F req).Returns (answerAlone E) n (.ok resp) n' := by
    unfold Ratelimit.ratelimitTimed
    rw [hvalid]
    exact hprepare.bind (hexact.bind rfl)
  exact hleft.trans hright.symm

/-! ### Runs -/

/-- What happens on a node, one call after the other, each in surroundings of its own: a request,
a replay to the origin, or a pull of the other regions' counts. -/
inductive Event where
  | request (E : Op → Env) (req : RatelimitRequest)
  | replay (E : Op → Env)
  | pull (E : Op → Env)

def step (F : Floats) (n : Node) : Event → Option Node
  | .request E req => ((ratelimit F req).eval (answerAlone E) n).map Prod.snd
  | .replay E => (replayRequest.eval (answerAlone E) n).map Prod.snd
  | .pull E => (runGlobalPullOnce.eval (answerAlone E) n).map Prod.snd

def emptyNode : Node := ⟨fun _ => .zero, fun _ => 0, [], []⟩

def Event.Fits (F : Floats) (n : Node) : Event → Prop
  | .request E req => validate (req.timed (E .now).now) = none →
      NoOverflow F E n (req.timed (E .now).now)
  | .replay _ => True
  | .pull _ => True

def Event.WithinLimit (F : Floats) (n : Node) : Event → Prop
  | .request E req => ∀ resp n', (ratelimit F req).Returns (answerAlone E) n (.ok resp) n' →
      resp.success = true → exactCount F E n (req.timed (E .now).now) ≤ req.limit
  | .replay _ => True
  | .pull _ => True

/-- No call is in progress and no count is negative. -/
structure Sound (n : Node) : Prop where
  rest : n.AtRest
  val : ∀ k, 0 ≤ n.get (.entry k .val)

theorem sound_emptyNode : Sound emptyNode :=
  ⟨fun _ => ⟨by simp [emptyNode, CounterEntry.zero], rfl⟩, fun _ => le_refl 0⟩

theorem Sound.raise (hs : Sound n) (t : Target) (v : Int) : Sound (n.raise t v) :=
  ⟨hs.rest.of_flags (by simp), fun k => (hs.val k).trans (n.le_get_raise _ _ _)⟩

theorem Sound.request (hs : Sound n) (hvalid : validate req = none) (hfits : NoOverflow F E n req) :
    ∃ resp n', (ratelimitTimed F req).Returns (answerAlone E) n (.ok resp) n' ∧ Sound n' ∧
      (resp.success = true → exactCount F E n req ≤ req.limit) := by
  obtain ⟨m, resp, n', hm, hreturns, hdecided⟩ := returns_ratelimitTimed F E hs.rest hvalid
  refine ⟨resp, n', hreturns, ⟨hm.rest.of_flags hdecided.flags, ?_⟩, ?_⟩
  · intro k
    have hmet : 0 ≤ countMet E n req k := (hs.val k).trans (le_countMet E n req k)
    rw [hdecided.val]
    split
    · rename_i hcur
      have hcost := cost_nonneg_of_valid hvalid
      rw [hcur.2, int64_of_isInt64 hfits.stored, ← hcur.2]
      omega
    · exact hmet
  · intro hsuccess
    have hle := hdecided.success.mp hsuccess
    rwa [effectiveCount_eq hfits.previous, int64_of_isInt64 hfits.whole] at hle

theorem Sound.sync (hs : Sound n) (req : RatelimitRequest) :
    ∃ n', (syncWithOrigin req).Returns (answerAlone E) n () n' ∧ Sound n' := by
  unfold syncWithOrigin
  by_cases hzero : req.time = zeroTime
  · rw [if_pos hzero]
    exact ⟨n, rfl, hs⟩
  · rw [if_neg hzero]
    cases horigin : (E (.increment req.curKey req.cost)).origin with
    | none =>
      have hincrement : answerAlone E (.increment req.curKey req.cost) n = some (none, n) := by
        rw [← horigin]
        rfl
      exact ⟨n, Prog.Returns.perform hincrement rfl, hs⟩
    | some count =>
      have hincrement : answerAlone E (.increment req.curKey req.cost) n = some (some count, n) := by
        rw [← horigin]
        rfl
      refine ⟨_, Prog.Returns.perform hincrement ?_, (hs.raise (.entry req.curKey .val) count).raise
        (.entry req.curKey .originFreshUntilMs) (unixMilli ((E .now).now + originFreshDuration))⟩
      refine (returns_atomicMax n _ count).bind ?_
      exact Prog.Returns.perform (o := Op.now) rfl (returns_atomicMax _ _ _)

theorem Sound.replay (hs : Sound n) {n' : Node}
    (hreturns : replayRequest.Returns (answerAlone E) n () n') : Sound n' := by
  cases hbuffer : n.replayBuffer.head? with
  | none =>
    -- nothing to consume, the goroutine waits
    have hblocked : replayRequest.eval (answerAlone E) n = none := by
      show (answerAlone E .consume n).bind _ = none
      have : answerAlone E .consume n = none := by
        show n.replayBuffer.head?.map _ = none
        rw [hbuffer]
        rfl
      rw [this]
      rfl
    rw [Prog.Returns, hblocked] at hreturns
    cases hreturns
  | some req =>
    have hconsume : answerAlone E .consume n
        = some (req, { n with replayBuffer := n.replayBuffer.tail }) := by
      show n.replayBuffer.head?.map _ = _
      rw [hbuffer]
      rfl
    have hs₁ : Sound { n with replayBuffer := n.replayBuffer.tail } := ⟨hs.rest, hs.val⟩
    obtain ⟨n₂, hsync, hs₂⟩ := hs₁.sync (E := E) req
    obtain ⟨-, rfl⟩ := hreturns.unique (Prog.Returns.perform hconsume hsync)
    exact hs₂

theorem Sound.pull (hs : Sound n) :
    ∃ n', runGlobalPullOnce.Returns (answerAlone E) n () n' ∧ Sound n' := by
  cases hrows : (E (.imported (unixMilli (E .now).now))).rows with
  | none =>
    have himported : answerAlone E (.imported (unixMilli (E .now).now)) n = some (none, n) := by
      rw [← hrows]
      rfl
    exact ⟨n, Prog.Returns.perform (o := Op.now) rfl (Prog.Returns.perform himported rfl), hs⟩
  | some rows =>
    have himported : answerAlone E (.imported (unixMilli (E .now).now)) n
        = some (some rows, n) := by
      rw [← hrows]
      rfl
    obtain ⟨n', hmerge, hs'⟩ := Prog.Returns.forM (A := answerAlone E)
      (f := fun r : ImportedRow => (do
        atomicMax (.entry r.key .val) r.regional
        atomicMax (.entry r.key .globalCount) r.imported : Code Unit))
      (I := fun _ n' => Sound n') rows
      (fun _ r _ n₁ _ hs₁ => ⟨_, (returns_atomicMax n₁ _ _).bind (returns_atomicMax _ _ _),
        (hs₁.raise (.entry r.key .val) r.regional).raise (.entry r.key .globalCount) r.imported⟩) hs
    exact ⟨n', Prog.Returns.perform (o := Op.now) rfl (Prog.Returns.perform himported hmerge), hs'⟩

theorem Sound.step (hs : Sound n) {a : Event} (hfits : a.Fits F n) {n' : Node}
    (hstep : step F n a = some n') : Sound n' := by
  cases a with
  | request E req =>
    obtain ⟨⟨r, _⟩, heval, rfl⟩ := Option.map_eq_some_iff.mp hstep
    rw [eval_ratelimit_timed] at heval
    cases hvalid : validate (req.timed (E .now).now) with
    | some message =>
      rw [ratelimitTimed, hvalid] at heval
      cases heval
      exact hs
    | none =>
      obtain ⟨resp, n₁, hreturns, hs₁, -⟩ := hs.request hvalid (hfits hvalid)
      obtain ⟨-, rfl⟩ := hreturns.unique heval
      exact hs₁
  | replay E =>
    obtain ⟨⟨r, _⟩, heval, rfl⟩ := Option.map_eq_some_iff.mp hstep
    exact hs.replay heval
  | pull E =>
    obtain ⟨⟨r, _⟩, heval, rfl⟩ := Option.map_eq_some_iff.mp hstep
    obtain ⟨n₁, hreturns, hs₁⟩ := hs.pull (E := E)
    obtain ⟨-, rfl⟩ := hreturns.unique heval
    exact hs₁

theorem Sound.withinLimit (hs : Sound n) {a : Event} (hfits : a.Fits F n) : a.WithinLimit F n := by
  cases a with
  | request E req =>
    intro resp n' hreturns hsuccess
    have hlimit : (req.timed (E .now).now).limit = req.limit := by
      rw [RatelimitRequest.timed]
      split <;> rfl
    rw [Prog.Returns, eval_ratelimit_timed] at hreturns
    cases hvalid : validate (req.timed (E .now).now) with
    | some message =>
      rw [ratelimitTimed, hvalid] at hreturns
      cases hreturns
    | none =>
      obtain ⟨resp', n₁, hreturns', -, hwithin⟩ := hs.request hvalid (hfits hvalid)
      obtain ⟨heq, -⟩ := hreturns'.unique hreturns
      rw [← hlimit]
      exact hwithin (by rw [Except.ok.inj heq]; exact hsuccess)
  | replay E => trivial
  | pull E => trivial

/-- From empty counters, by any requests, replays and pulls in any surroundings: if no request
finds a sum outside 64 bits, every request that is admitted fits its limit in unbounded integers
and no count is ever negative. -/
theorem admitted_within_limit (F : Floats) {past : List (Node × Event)} {n : Node}
    (hrun : Run (step F) emptyNode past n) (hfits : Always (fun _ s a => a.Fits F s) past) :
    (∀ k, 0 ≤ n.get (.entry k .val)) ∧ Always (fun _ s a => a.WithinLimit F s) past := by
  have hstep : ∀ (past : List (Node × Event)) s a s', Sound s → a.Fits F s →
      step F s a = some s' → Sound s' := fun _ _ _ _ hs hc hstep => hs.step hc hstep
  constructor
  · have hsound : Sound n := hrun.invariant_always (P := fun _ s => Sound s)
      (C := fun _ s a => a.Fits F s) sound_emptyNode hstep hfits
    exact hsound.val
  · exact hrun.always (P := fun _ s => Sound s) (C := fun _ s a => a.Fits F s) sound_emptyNode hstep
      (fun _ _ _ hs hc => hs.withinLimit hc) hfits

instance (F : Floats) (E : Op → Env) (n : Node) (req : RatelimitRequest) :
    Decidable (NoOverflow F E n req) :=
  decidable_of_iff
    (IsInt64 (countMet E n req req.prevKey + (req.checkAt n).prevGlobal) ∧
      IsInt64 (exactCount F E n req) ∧ IsInt64 (countMet E n req req.curKey + req.cost))
    ⟨fun h => ⟨h.1, h.2.1, h.2.2⟩, fun h => ⟨h.previous, h.whole, h.stored⟩⟩

instance (F : Floats) (n : Node) (a : Event) : Decidable (a.Fits F n) := by
  cases a <;> unfold Event.Fits <;> infer_instance

def smallCosts : List Event :=
  [.request (fun _ => quietEnv 0) (minuteRequest 10 4),
    .request (fun _ => quietEnv 0) (minuteRequest 10 7)]

theorem admitted_within_limit_smallCosts :
    ∃ past n, Run (step .exact) emptyNode past n ∧
      n.get (.entry (minuteRequest 10 4).curKey .val) = 4 ∧
      Always (fun _ s a => a.WithinLimit .exact s) past := by
  refine Run.exists_of_record (P := fun past n =>
      n.get (.entry (minuteRequest 10 4).curKey .val) = 4 ∧
      Always (fun _ s a => Event.Fits .exact s a) past)
    smallCosts (by decide +kernel) ?_
  intro past n hrun heq
  exact ⟨heq.1, (admitted_within_limit .exact hrun heq.2).2⟩

/-- Ten are allowed and one is used. A request for all the integers there are is admitted, and the
count is negative from then on. -/
theorem admitted_past_limit :
    ∃ past n n', Run (step .exact) emptyNode past n ∧
      (ratelimit .exact (minuteRequest 10 9223372036854775807)).Returns
        (answerAlone fun _ => quietEnv 0) n
        (.ok ⟨true, 0, 120000000000, 10, -9223372036854775808⟩) n' ∧
      exactCount .exact (fun _ => quietEnv 0) n (minuteRequest 10 9223372036854775807)
        = 9223372036854775808 ∧
      n'.get (.entry (minuteRequest 10 1).curKey .val) = -9223372036854775808 := by
  obtain ⟨past, n, hrun, hreturns, hexact⟩ : ∃ past n, Run (step .exact) emptyNode past n ∧
      ((ratelimit .exact (minuteRequest 10 9223372036854775807)).eval
        (answerAlone fun _ => quietEnv 0) n).map
          (fun out => (out.1, out.2.get (.entry (minuteRequest 10 1).curKey .val))) =
        some (.ok ⟨true, 0, 120000000000, 10, -9223372036854775808⟩, -9223372036854775808) ∧
      exactCount .exact (fun _ => quietEnv 0) n (minuteRequest 10 9223372036854775807)
        = 9223372036854775808 :=
    Run.exists_of_record [.request (fun _ => quietEnv 0) (minuteRequest 10 1)]
      (by decide +kernel) fun _ _ _ h => h
  obtain ⟨⟨r, n'⟩, heval, hout⟩ := Option.map_eq_some_iff.mp hreturns
  obtain ⟨rfl, hval⟩ := Prod.mk.inj hout
  exact ⟨past, n, n', hrun, heval, hexact, hval⟩

end Machine

end Unkey.Ratelimit
