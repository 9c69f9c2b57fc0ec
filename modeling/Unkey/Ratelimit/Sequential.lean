import Unkey.Ratelimit.Agreement

/-!
# Calls on a node at rest

A node on which no call is in progress, with entries in any condition: not yet hydrated, stale or
fresh, in strict mode or not.
-/

namespace Unkey.Ratelimit

open Unkey.Base

/-- No call is inside a `sync.Once` or holds the lock of an entry. -/
def Node.AtRest (n : Node) : Prop :=
  ∀ k, (n.counters k).once ≠ .running ∧ (n.counters k).staleLocked = false

def Node.Stale (n : Node) (time : Int) (k : CounterKey) : Prop :=
  ((n.counters k).hydrated = true ∧ n.get (.entry k .originFreshUntilMs) ≤ unixMilli time) ∨
    ((n.counters k).hydrated = false ∧ (n.counters k).once = .unused)

instance (n : Node) (time : Int) (k : CounterKey) : Decidable (n.Stale time k) :=
  inferInstanceAs (Decidable (_ ∨ _))

theorem le_fetched (E : Op → Env) (k : CounterKey) (v : Int) : v ≤ fetched E k v := by
  unfold fetched
  cases originOf E k with
  | none => exact le_refl v
  | some count => exact le_max_left v count

theorem fetched_fetched (E : Op → Env) (k : CounterKey) (v : Int) :
    fetched E k (fetched E k v) = fetched E k v := by
  unfold fetched
  cases originOf E k with
  | none => rfl
  | some count => exact max_eq_left (le_max_right v count)

variable {F : Floats} {E : Op → Env} {n m : Node} {time : Int} {k : CounterKey}
  {req : RatelimitRequest} {reqs : List RatelimitRequest}

/-- The origin was asked for the cells of `asked`, on a node that was `n` before. -/
structure Merged (E : Op → Env) (n m : Node) (asked : CounterKey → Prop) : Prop where
  rest : m.AtRest
  val : ∀ k, asked k → m.get (.entry k .val) = fetched E k (n.get (.entry k .val))
  kept : ∀ k, ¬ asked k → m.counters k = n.counters k
  field : ∀ k f, f ≠ .val → f ≠ .originFreshUntilMs →
    m.get (.entry k f) = n.get (.entry k f)
  strict : m.strictUntils = n.strictUntils
  buffer : m.replayBuffer = n.replayBuffer

theorem Merged.start (hrest : n.AtRest) : Merged E n n (fun _ => False) :=
  ⟨hrest, fun _ h => h.elim, fun _ _ => rfl, fun _ _ _ _ => rfl, rfl, rfl⟩

/-! ### One entry -/

/-- Nothing changes but the count of a cell, its deadline and the flags of its entry. -/
structure Within (k : CounterKey) (n m : Node) : Prop where
  field : ∀ f, f ≠ .val → f ≠ .originFreshUntilMs → m.get (.entry k f) = n.get (.entry k f)
  other : ∀ l, l ≠ k → m.counters l = n.counters l
  strict : m.strictUntils = n.strictUntils
  buffer : m.replayBuffer = n.replayBuffer

namespace Within

theorem refl (k : CounterKey) (n : Node) : Within k n n :=
  ⟨fun _ _ _ => rfl, fun _ _ => rfl, rfl, rfl⟩

theorem trans {l : Node} (h : Within k n m) (h' : Within k m l) : Within k n l :=
  ⟨fun f hval hfresh => (h'.field f hval hfresh).trans (h.field f hval hfresh),
    fun j hj => (h'.other j hj).trans (h.other j hj), h'.strict.trans h.strict,
    h'.buffer.trans h.buffer⟩

theorem raise (n : Node) {f : Field} (hf : f = .val ∨ f = .originFreshUntilMs) (v : Int) :
    Within k n (n.raise (.entry k f) v) := by
  refine ⟨?_, ?_, ?_, n.replayBuffer_raise _ _⟩
  · intro g hval hfresh
    rcases hf with rfl | rfl
    · simp [hval]
    · simp [hfresh]
  · intro l hl
    unfold Node.raise
    split
    · rfl
    · exact Function.update_of_ne hl _ _
  · unfold Node.raise
    split <;> rfl

theorem merge (n : Node) : Within k n (n.merge E k) := by
  unfold Node.merge
  cases originOf E k with
  | none => exact Within.refl k n
  | some count => exact Within.raise n (.inl rfl) count

end Within

/-- What asking the origin for a cell does to a node: its count is raised, and its entry is left
by whoever asked. -/
structure Asked (E : Op → Env) (k : CounterKey) (n m : Node) : Prop extends Within k n m where
  once : (m.counters k).once ≠ .running
  unlocked : (m.counters k).staleLocked = false
  val : m.get (.entry k .val) = fetched E k (n.get (.entry k .val))

theorem Merged.asked {asked : CounterKey → Prop} {l : Node} (hm : Merged E n m asked)
    (ha : Asked E k m l) {asked' : CounterKey → Prop} (hasked : ∀ j, asked' j ↔ asked j ∨ j = k) :
    Merged E n l asked' := by
  have hother : ∀ j f, j ≠ k → l.get (.entry j f) = m.get (.entry j f) := by
    intro j f hj
    show (l.counters j).get f = (m.counters j).get f
    rw [ha.other j hj]
  refine ⟨?_, ?_, ?_, ?_, ha.strict.trans hm.strict, ha.buffer.trans hm.buffer⟩
  · intro j
    by_cases hj : j = k
    · subst hj
      exact ⟨ha.once, ha.unlocked⟩
    · rw [ha.other j hj]
      exact hm.rest j
  · intro j hj'
    by_cases hj : j = k
    · subst hj
      rw [ha.val]
      -- the first question raised the count, a second one finds it raised
      by_cases hbefore : asked j
      · rw [hm.val j hbefore, fetched_fetched]
      · show fetched E j ((m.counters j).get .val) = _
        rw [hm.kept j hbefore]
        rfl
    · have hbefore : asked j := ((hasked j).mp hj').resolve_right hj
      rw [hother j _ hj, hm.val j hbefore]
  · intro j hj'
    rw [hasked, not_or] at hj'
    rw [ha.other j hj'.2, hm.kept j hj'.1]
  · intro j f hval hfresh
    by_cases hj : j = k
    · subst hj
      rw [ha.field f hval hfresh, hm.field j f hval hfresh]
    · rw [hother j f hj, hm.field j f hval hfresh]

theorem Merged.same {asked asked' : CounterKey → Prop} (hm : Merged E n m asked)
    (hasked : ∀ j, asked' j ↔ asked j) : Merged E n m asked' := by
  obtain rfl : asked' = asked := funext fun j => propext (hasked j)
  exact hm

/-! ### Asking the origin -/

theorem Node.atRest_iff_flags :
    n.AtRest ↔ ∀ k, (n.flags k).2.1 ≠ .running ∧ (n.flags k).2.2 = false := Iff.rfl

theorem Node.AtRest.of_flags (hrest : n.AtRest) (hflags : ∀ k, m.flags k = n.flags k) :
    m.AtRest := by
  rw [Node.atRest_iff_flags] at hrest ⊢
  simpa [hflags] using hrest

def CounterEntry.withFlags (e : CounterEntry) (hydrated : Bool) (once : Once)
    (staleLocked : Bool) : CounterEntry :=
  { e with hydrated := hydrated, once := once, staleLocked := staleLocked }

def Node.withFlags (n : Node) (k : CounterKey) (hydrated : Bool) (once : Once)
    (staleLocked : Bool) : Node :=
  let e := (n.counters k).withFlags hydrated once staleLocked
  { n with counters := Function.update n.counters k e }

section WithFlags

variable (n : Node) (k : CounterKey) (hydrated : Bool) (once : Once) (staleLocked : Bool)

@[simp] theorem Node.get_withFlags (t : Target) :
    (n.withFlags k hydrated once staleLocked).get t = n.get t :=
  n.get_update_flags k _ (fun f => by cases f <;> rfl) t

@[simp] theorem Node.flags_withFlags :
    (n.withFlags k hydrated once staleLocked).flags k = (hydrated, once, staleLocked) := by
  simp [Node.flags, Node.withFlags, CounterEntry.withFlags]

theorem Within.withFlags : Within k n (n.withFlags k hydrated once staleLocked) :=
  ⟨fun _ _ _ => n.get_withFlags k hydrated once staleLocked _,
    fun _ hl => Function.update_of_ne hl _ _, rfl, rfl⟩

end WithFlags

theorem Within.merge_raise (n : Node) (deadline : Int) :
    Within k n ((n.merge E k).raise (.entry k .originFreshUntilMs) deadline) :=
  (Within.merge n).trans (Within.raise _ (.inr rfl) deadline)

theorem returns_refresh (n : Node) (k : CounterKey) (time : Int) :
    ∃ m, (refresh k time).Returns (answerAlone E) n () m ∧ Within k n m ∧
      m.flags k = n.flags k ∧ m.get (.entry k .val) = fetched E k (n.get (.entry k .val)) := by
  have hfetch := returns_fetchInto (E := E) n k
  cases hsome : (originOf E k).isSome with
  | true =>
    rw [hsome] at hfetch
    exact ⟨_, hfetch.bind (returns_atomicMax _ _ _), Within.merge_raise n _, by simp, by simp⟩
  | false =>
    rw [hsome] at hfetch
    exact ⟨_, hfetch.bind (returns_atomicMax _ _ _), Within.merge_raise n _, by simp, by simp⟩

/-! ### One entry, alone -/

theorem answerAlone_hydrated {hydrated : Bool} (h : (n.counters k).hydrated = hydrated) :
    answerAlone E (.hydrated k) n = some (hydrated, n) := by
  rw [← h]
  rfl

theorem answerAlone_setHydrated (n : Node) (k : CounterKey) : answerAlone E (.setHydrated k) n =
    some ((), n.withFlags k true (n.flags k).2.1 (n.flags k).2.2) := rfl

theorem answerAlone_onceLeave (n : Node) (k : CounterKey) : answerAlone E (.onceLeave k) n =
    some ((), n.withFlags k (n.flags k).1 .finished (n.flags k).2.2) := rfl

theorem answerAlone_unlockStale (n : Node) (k : CounterKey) : answerAlone E (.unlockStale k) n =
    some ((), n.withFlags k (n.flags k).1 (n.flags k).2.1 false) := rfl

theorem Asked.of_flags (hwithin : Within k n m) (honce : (m.flags k).2.1 ≠ .running)
    (hlocked : (m.flags k).2.2 = false)
    (hval : m.get (.entry k .val) = fetched E k (n.get (.entry k .val))) : Asked E k n m :=
  ⟨hwithin, honce, hlocked, hval⟩

theorem returns_ensureFresh_first (hrest : n.AtRest) (hhydrated : (n.counters k).hydrated = false)
    (honce : (n.counters k).once = .unused) :
    ∃ m, (ensureFreshFromOrigin k time).Returns (answerAlone E) n () m ∧ Asked E k n m := by
  -- not yet hydrated, and the function has not run: it runs now
  have henter : answerAlone E (.onceEnter k) n =
      some (true, n.withFlags k (n.flags k).1 .running (n.flags k).2.2) := by
    show Node.apply _ (.onceEnter k) n = _
    simp only [Node.apply, honce, reduceCtorEq, if_false]
    rfl
  obtain ⟨m, hrefresh, hwithin, hflags, hval⟩ := returns_refresh (E := E)
    (n.withFlags k (n.flags k).1 .running (n.flags k).2.2) k time
  refine ⟨_, Prog.Returns.perform (answerAlone_hydrated hhydrated) (Prog.Returns.perform henter
    (hrefresh.bind (Prog.Returns.perform (answerAlone_setHydrated m k)
      (Prog.Returns.perform (answerAlone_onceLeave _ k) rfl)))), ?_⟩
  have hunlocked := (Node.atRest_iff_flags.mp hrest k).2
  refine Asked.of_flags ?_ (by simp) (by simp [hflags, hunlocked]) (by simp [hval])
  exact (Within.withFlags n k _ _ _).trans (hwithin.trans
    ((Within.withFlags m k _ _ _).trans (Within.withFlags _ k _ _ _)))

theorem returns_ensureFresh_stale (hrest : n.AtRest) (hhydrated : (n.counters k).hydrated = true)
    (hstale : n.get (.entry k .originFreshUntilMs) ≤ unixMilli time) :
    ∃ m, (ensureFreshFromOrigin k time).Returns (answerAlone E) n () m ∧ Asked E k n m := by
  have hlock : answerAlone E (.lockStale k) n =
      some ((), n.withFlags k (n.flags k).1 (n.flags k).2.1 true) := by
    show Node.apply _ (.lockStale k) n = _
    simp only [Node.apply, (hrest k).2, Bool.false_eq_true, if_false]
    rfl
  obtain ⟨m, hrefresh, hwithin, hflags, hval⟩ := returns_refresh (E := E)
    (n.withFlags k (n.flags k).1 (n.flags k).2.1 true) k time
  have hnot : ¬ unixMilli time < n.get (.entry k .originFreshUntilMs) := by omega
  refine ⟨m.withFlags k (m.flags k).1 (m.flags k).2.1 false, ?_, ?_⟩
  · refine Prog.Returns.perform (answerAlone_hydrated hhydrated) (returns_load ?_)
    rw [if_neg hnot]
    -- the deadline is read again under the lock
    refine Prog.Returns.perform hlock (returns_load ?_)
    rw [Node.get_withFlags, if_neg hnot]
    exact hrefresh.bind (Prog.Returns.perform (answerAlone_unlockStale m k) rfl)
  · have honce := (Node.atRest_iff_flags.mp hrest k).1
    refine Asked.of_flags ?_ (by simp [hflags, honce]) (by simp) (by simp [hval])
    exact (Within.withFlags n k _ _ _).trans (hwithin.trans (Within.withFlags m k _ _ _))

theorem returns_ensureFresh_of_not_stale (hrest : n.AtRest) (hstale : ¬ n.Stale time k) :
    (ensureFreshFromOrigin k time).Returns (answerAlone E) n () n := by
  rw [Node.Stale, not_or] at hstale
  cases hhydrated : (n.counters k).hydrated with
  | true =>
    have hfresh : ¬ n.get (.entry k .originFreshUntilMs) ≤ unixMilli time :=
      fun hle => hstale.1 ⟨hhydrated, hle⟩
    exact returns_ensureFresh ⟨hhydrated, by omega⟩
  | false =>
    -- the function has run and is not run again, whether or not it set the flag
    have honce : (n.counters k).once = .finished := by
      cases ho : (n.counters k).once with
      | unused => exact absurd ⟨hhydrated, ho⟩ hstale.2
      | running => exact absurd ho (hrest k).1
      | finished => rfl
    have henter : answerAlone E (.onceEnter k) n = some (false, n) := by
      show Node.apply _ (.onceEnter k) n = _
      simp only [Node.apply, honce, reduceCtorEq, if_false, if_true]
      rfl
    exact Prog.Returns.perform (answerAlone_hydrated hhydrated) (Prog.Returns.perform henter rfl)

/-! ### One check -/

def RatelimitRequest.Asks (req : RatelimitRequest) (n : Node) (k : CounterKey) : Prop :=
  ((k = req.curKey ∨ k = req.prevKey) ∧ n.Stale req.time k) ∨
    (k = req.curKey ∧ unixMilli req.time < n.get (.strict req.strictKey))

instance (n : Node) (k : CounterKey) : Decidable (req.Asks n k) :=
  inferInstanceAs (Decidable (_ ∨ _))

namespace Merged

variable {asked : CounterKey → Prop}

theorem returns_ensureFresh (hm : Merged E n m asked) (time : Int) (k : CounterKey) :
    ∃ l, (ensureFreshFromOrigin k time).Returns (answerAlone E) m () l ∧
      Merged E n l (fun j => asked j ∨ (j = k ∧ n.Stale time j)) := by
  have hsame : ¬ asked k → (m.Stale time k ↔ n.Stale time k) := by
    intro hk
    have hget : m.get (.entry k .originFreshUntilMs) = n.get (.entry k .originFreshUntilMs) :=
      congrArg (CounterEntry.get · .originFreshUntilMs) (hm.kept k hk)
    unfold Node.Stale
    rw [hget, hm.kept k hk]
  by_cases hstale : m.Stale time k
  · have hasks : asked k ∨ n.Stale time k := by
      by_cases hk : asked k
      · exact .inl hk
      · exact .inr ((hsame hk).mp hstale)
    obtain ⟨l, hl, hasked⟩ : ∃ l, (ensureFreshFromOrigin k time).Returns (answerAlone E) m () l ∧
        Asked E k m l := by
      rcases hstale with ⟨hhydrated, hle⟩ | ⟨hhydrated, honce⟩
      · exact returns_ensureFresh_stale hm.rest hhydrated hle
      · exact returns_ensureFresh_first hm.rest hhydrated honce
    refine ⟨l, hl, hm.asked hasked ?_⟩
    intro j
    constructor
    · rintro (hj | ⟨hj, -⟩)
      · exact .inl hj
      · exact .inr hj
    · rintro (hj | rfl)
      · exact .inl hj
      · exact hasks.imp_right fun hs => ⟨rfl, hs⟩
  · refine ⟨m, returns_ensureFresh_of_not_stale hm.rest hstale, hm.same ?_⟩
    intro j
    constructor
    · grind
    · exact .inl

theorem strictRefreshed (hm : Merged E n m asked) (req : RatelimitRequest) :
    Merged E n (m.strictRefreshed E req) (fun j => asked j ∨
      (j = req.curKey ∧ unixMilli req.time < n.get (.strict req.strictKey))) := by
  have hstrict : m.get (.strict req.strictKey) = n.get (.strict req.strictKey) :=
    congrFun hm.strict _
  obtain ⟨honce, hlocked⟩ := Node.atRest_iff_flags.mp hm.rest req.curKey
  unfold Node.strictRefreshed
  rw [hstrict]
  split
  · rename_i hlt
    split
    · exact hm.asked (Asked.of_flags (Within.merge_raise _ _) (by simp [honce]) (by simp [hlocked])
        (by simp)) (by simp [hlt])
    · exact hm.asked (Asked.of_flags (Within.merge m) (by simp [honce]) (by simp [hlocked])
        (by simp)) (by simp [hlt])
  · rename_i hlt
    exact hm.same (by simp [hlt])

theorem checkAt (hm : Merged E n m asked) (req : RatelimitRequest) :
    req.checkAt m = req.checkAt n := by
  unfold RatelimitRequest.checkAt
  rw [hm.field _ .globalCount (by decide) (by decide),
    hm.field _ .globalCount (by decide) (by decide)]

theorem returns_prepareCheck (hm : Merged E n m asked) (req : RatelimitRequest) :
    ∃ l, (prepareCheck req).Returns (answerAlone E) m (req.checkAt n) l ∧
      Merged E n l (fun j => asked j ∨ req.Asks n j) := by
  obtain ⟨l₁, hl₁, hm₁⟩ := hm.returns_ensureFresh req.time req.curKey
  obtain ⟨l₂, hl₂, hm₂⟩ := hm₁.returns_ensureFresh req.time req.prevKey
  have hm₃ := hm₂.strictRefreshed req
  refine ⟨_, ?_, hm₃.same ?_⟩
  · rw [← hm₃.checkAt]
    exact hl₁.bind (hl₂.bind ((returns_strictRefresh l₂ req).bind (returns_load (returns_load rfl))))
  · intro j
    unfold RatelimitRequest.Asks
    tauto

end Merged

end Unkey.Ratelimit
