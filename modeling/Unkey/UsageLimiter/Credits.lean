import Unkey.UsageLimiter.Spending

/-!
# Granted credits never exceed the credits of the key

Every call keeps the protocol of `Spending`.
-/

namespace Unkey.UsageLimiter

open Unkey.Base

variable {removable : Bool} {keyID : String} {c : Int} {s : Store} {h : List (Call × Note)}
  {gs : Nat → Ghost} {i : Nat} {call : Call} {req : UsageRequest}

/-! ### Calls for other keys -/

def Op.Spares (keyID : String) : Op → Prop
  | .decrementIfExists key _ _ => key ≠ redisKey keyID
  | .setIfNotExists key _ => key ≠ redisKey keyID
  | .delete key => key ≠ redisKey keyID
  | .expire key => key ≠ redisKey keyID
  | .findKeyCredits _ => True
  | .decrementKeyCredits k _ => k ≠ keyID
  | .buffer change => change.keyID ≠ keyID
  | .consume => False

def Note.Spares (keyID : String) : Note → Prop
  | .granted req => req.keyID ≠ keyID

def Spare (keyID : String) {α : Type} (p : Code α) : Prop :=
  p.Meets (Op.Spares keyID) (fun _ _ => True) (Note.Spares keyID) (fun _ => True)

theorem redisKey_ne {k : String} (hne : k ≠ keyID) : redisKey k ≠ redisKey keyID :=
  fun heq => hne (redisKey_inj heq)

theorem spare_handleResult (hne : req.keyID ≠ keyID) (remaining : Int) (success : Bool) :
    Spare keyID (handleResult req remaining success) := by
  unfold Spare handleResult
  split
  · exact ⟨hne, hne, fun _ _ => trivial⟩
  · trivial

theorem spare_fallbackLimit (hne : req.keyID ≠ keyID) : Spare keyID (fallbackLimit req) := by
  unfold Spare fallbackLimit
  split
  · trivial
  · refine Prog.Meets.perform_bind trivial ?_
    rintro (_ | ⟨remaining, hasLimit⟩) -
    · trivial
    · dsimp only
      split
      · exact ⟨hne, trivial⟩
      · split
        · trivial
        · refine Prog.Meets.perform_bind hne ?_
          rintro (_ | _) -
          · trivial
          · exact ⟨hne, trivial⟩

theorem spare_initializeFromDatabase (hne : req.keyID ≠ keyID) :
    Spare keyID (initializeFromDatabase req) := by
  refine Prog.Meets.perform_bind trivial ?_
  rintro (_ | ⟨currentCredits, hasLimit⟩) -
  · trivial
  · dsimp only
    split
    · exact ⟨hne, trivial⟩
    · refine Prog.Meets.perform_bind (redisKey_ne hne) ?_
      rintro (_ | _) -
      · refine Prog.Meets.perform_bind (redisKey_ne hne) ?_
        rintro ⟨remaining, _ | _, success⟩ -
        · exact spare_fallbackLimit hne
        · exact (spare_handleResult hne remaining success).bind fun _ _ => trivial
      · exact (spare_handleResult hne _ _).bind fun _ _ => trivial

theorem spare_limit (hne : req.keyID ≠ keyID) : Spare keyID (limit req) := by
  unfold Spare limit
  split
  · trivial
  · refine Prog.Meets.perform_bind (redisKey_ne hne) ?_
    rintro ⟨remaining, _ | _, success⟩ -
    · exact spare_initializeFromDatabase hne
    · exact (spare_handleResult hne remaining success).bind fun _ _ => trivial

theorem SpendInv.apply_spares (hinv : SpendInv removable keyID c s h gs) {op : Op}
    (hop : op.Spares keyID) {ok : Bool} {r : op.Ret} {s' : Store}
    (happ : apply call op ok s = some (r, s')) : SpendInv removable keyID c s' h gs := by
  cases op with
  | decrementIfExists key d again =>
    cases happ
    exact hinv.frame (Function.update_of_ne (Ne.symm hop) _ _) rfl rfl rfl
  | setIfNotExists key v =>
    obtain ⟨-, -, rfl⟩ | ⟨-, -, rfl⟩ := apply_setIfNotExists happ
    · exact hinv.frame (Function.update_of_ne (Ne.symm hop) _ _) rfl rfl rfl
    · exact hinv
  | delete key =>
    cases happ
    exact hinv.frame (Function.update_of_ne (Ne.symm hop) _ _) rfl rfl rfl
  | expire key =>
    cases happ
    exact hinv.frame (Function.update_of_ne (Ne.symm hop) _ _) rfl rfl rfl
  | findKeyCredits k =>
    cases happ
    exact hinv
  | decrementKeyCredits k cost =>
    cases happ
    split
    · exact hinv.frame rfl (Function.update_of_ne (Ne.symm hop) _ _) rfl rfl
    · exact hinv
  | buffer change =>
    cases happ
    refine hinv.frame rfl rfl ?_ rfl
    show waiting keyID (s.buffer ++ [(call.node, change)]) = waiting keyID s.buffer
    rw [waiting_concat, if_neg hop, List.append_nil]
  | consume => exact hop.elim

variable (removable keyID c) in
abbrev Ends {α : Type} (call : Call) (i : Nat) (g : Ghost) (p : Code α) : Prop :=
  (spending removable keyID c).Triple apply call i ((spending removable keyID c).Owns i g) p
    fun _ => (spending removable keyID c).Owns i .idle

theorem ends_spare {α : Type} {p : Code α} (hp : Spare keyID p) :
    Ends removable keyID c call i .idle p := by
  refine (Protocol.Triple.of_meets hp (fun _ _ => trivial) ?_ ?_).mono fun _ _ _ _ hq => hq.2
  · intro op w gs ch r s' hop hd _ _ _ happ
    exact ⟨trivial, hd.inv.apply_spares hop happ⟩
  · rintro ⟨req⟩ s h gs hne hown
    have hinv : SpendInv removable keyID c s h (Function.update gs i .idle) := hown
    exact hinv.frame rfl rfl rfl (by simp [granted, show req.keyID ≠ keyID from hne])

/-! ### Calls for the key -/

variable (removable keyID c) in
def Answered (call : Call) (i : Nat) (req : UsageRequest) (success : Bool) :
    Assertion Store Call Note Ghost := fun s h gs =>
  if success then
    SpendInv removable keyID c s ((call, .granted req) :: h) (Function.update gs i (.owes req.cost))
  else SpendInv removable keyID c s h (Function.update gs i .idle)

theorem triple_handleResult (hreq : req.keyID = keyID) (remaining : Int) (success : Bool) :
    (spending removable keyID c).Triple apply call i
      (Answered removable keyID c call i req success)
      (handleResult req remaining success >>= fun resp => pure (resp, (none : Option Failure)))
      fun _ => (spending removable keyID c).Owns i .idle := by
  intro s h gs hanswered
  cases success with
  | false => exact hanswered
  | true =>
    have howes : (spending removable keyID c).Owns i (.owes req.cost) s
      ((call, .granted req) :: h) gs := hanswered
    refine Protocol.Triple.act (Or.inl (by rw [hreq])) ?_ howes
    intro w gs' ch r s' hd hgi _ _ happ
    cases happ
    rw [hreq]
    exact hd.inv.handOver hgi _

theorem SpendInv.decrement (hinv : SpendInv removable keyID c s h gs) (hreq : req.keyID = keyID)
    (hcost : 0 ≤ req.cost) (howed : (gs i).owed = 0) {again ok : Bool} {r : Int × Bool × Bool}
    {s' : Store} (happ : apply call (.decrementIfExists (redisKey keyID) req.cost again) ok s
      = some (r, s')) :
    (s.redis (redisKey keyID) = none ∧ r.2.1 = false ∧
        SpendInv removable keyID c s' h (Function.update gs i .idle)) ∨
      (r.2.1 = true ∧ Answered removable keyID c call i req r.2.2 s' h gs) := by
  cases happ
  cases hredis : s.redis (redisKey keyID) with
  | none =>
    refine .inl ⟨rfl, rfl, (hinv.toIdle howed).frame ?_ rfl rfl rfl⟩
    show Function.update s.redis (redisKey keyID) none (redisKey keyID) = s.redis (redisKey keyID)
    rw [Function.update_self, hredis]
  | some v =>
    have hv := hinv.present v hredis
    by_cases hlow : v < req.cost
    · have hscript : decrementIfExistsScript (some v) req.cost = ((v, true, false), some v) := by
        simp [decrementIfExistsScript, hlow]
      rw [hscript]
      refine .inr ⟨rfl, (hinv.toIdle howed).frame ?_ rfl rfl rfl⟩
      show Function.update s.redis (redisKey keyID) (some v) (redisKey keyID) = _
      rw [Function.update_self, hredis]
    · have hscript : decrementIfExistsScript (some v) req.cost
          = ((v - req.cost, true, true), some (v - req.cost)) := by
        simp [decrementIfExistsScript, hlow]
      rw [hscript]
      exact .inr ⟨rfl, hinv.grant hreq hcost howed (by omega) (by omega)⟩

theorem ends_decrementAgain (hreq : req.keyID = keyID) (hcost : 0 ≤ req.cost) :
    Ends removable keyID c call i .beaten
      (do match ← decrementIfExists (redisKey req.keyID) req.cost true with
        | (_, false, _) => fallbackLimit req
        | (remaining, true, success) => do
          let resp ← handleResult req remaining success
          pure (resp, none)) := by
  rw [hreq]
  refine .act ⟨_, rfl⟩ ?_
  rintro w gs' ok ⟨remaining, found, success⟩ s' hd hgi - - happ
  obtain ⟨hnone, -, -⟩ | ⟨rfl, hanswered⟩ :=
    hd.inv.decrement hreq hcost (by rw [hgi]; rfl) happ
  · -- a thread that was beaten finds the counter
    exact absurd (by rw [hgi]; trivial) ((hd.inv.absent hnone).2.2 i)
  · exact triple_handleResult hreq remaining success hanswered

theorem ends_initializeFromDatabase (hreq : req.keyID = keyID) (hcost : 0 ≤ req.cost) :
    Ends removable keyID c call i .idle (initializeFromDatabase req) := by
  subst hreq
  refine .act trivial ?_
  intro w gs' ok r s' hd hgi _ _ happ
  have hinv : SpendInv removable req.keyID c w.shared w.history gs' := hd.inv
  cases happ
  obtain ⟨credits, hcredits⟩ := hinv.limited
  rw [hcredits]
  cases ok with
  | false => exact hd.owns hgi
  | true =>
    have hread : (spending removable req.keyID c).Owns i (.read credits) w.shared w.history gs' := by
      refine hinv.ghost (g := .read credits) (by rw [hgi]; rfl) (fun hn => hn.elim) ?_
      rintro r heq hnone
      cases heq
      have := (hinv.absent hnone).1
      rw [hcredits] at this
      exact Option.some.inj (Option.some.inj this)
    have hrow : creditsRow true (some (some credits)) = some (credits, true) := rfl
    rw [hrow]
    dsimp only
    rw [if_neg (by decide)]
    refine Protocol.Triple.act ?_ ?_ hread
    · exact ⟨_, rfl⟩
    intro w gs' ok r s' hd hgi _ _ happ
    obtain ⟨hnone, rfl, rfl⟩ | ⟨hsome, rfl, rfl⟩ := apply_setIfNotExists happ
    · have hcur := hd.inv.reads i credits hgi hnone
      refine triple_handleResult rfl _ _ ?_
      unfold Answered
      by_cases hle : req.cost ≤ credits
      · simp only [hle, decide_true, if_true]
        exact hd.inv.grant rfl hcost (by rw [hgi]; rfl) (by omega) (by omega)
      · simp only [hle, decide_false, Bool.false_eq_true, if_false]
        exact hd.inv.initialised (by rw [hgi]; rfl) hcur
    · exact ends_decrementAgain rfl hcost
        (hd.inv.ghost (g := .beaten) (by rw [hgi]; rfl) (fun _ => hsome) nofun)

theorem ends_limit (hreq : req.keyID = keyID) : Ends removable keyID c call i .idle (limit req) := by
  unfold limit
  by_cases hneg : req.cost < 0
  · rw [if_pos hneg]
    exact .skip
  have hcost : 0 ≤ req.cost := by omega
  rw [if_neg hneg, hreq]
  refine .act trivial ?_
  rintro w gs' ok ⟨remaining, found, success⟩ s' hd hgi - - happ
  obtain ⟨-, rfl, hidle⟩ | ⟨rfl, hanswered⟩ :=
    hd.inv.decrement hreq hcost (by rw [hgi]; rfl) happ
  · exact ends_initializeFromDatabase hreq hcost hidle
  · exact triple_handleResult hreq remaining success hanswered

theorem ends_replayRequest : Ends removable keyID c call i .idle replayRequest := by
  refine .act trivial ?_
  intro w gs' ok change s' hd hgi _ _ happ
  obtain ⟨x, hx, rfl, rfl⟩ := apply_consume happ
  by_cases hkey : x.2.keyID = keyID
  · have hheld : (spending removable keyID c).Owns i (.owes x.2.cost)
        { w.shared with buffer := w.shared.buffer.erase x } w.history gs' :=
      hd.inv.takeOff hx hkey (by rw [hgi]; rfl)
    rw [hkey]
    refine Protocol.Triple.act (Or.inr rfl) ?_ hheld
    intro w gs' ok r s' hd hgi _ hguard happ
    cases happ
    cases ok with
    | true => exact hd.inv.written hgi
    | false =>
      cases removable with
      | false => exact hd.inv.lost
      | true => exact absurd hguard.1 Bool.false_ne_true
  · have hspare : Spare keyID (do
        let _ ← decrementKeyCredits x.2.keyID x.2.cost
        pure ()) := Prog.Meets.perform_bind hkey fun _ _ => trivial
    exact ends_spare hspare (Protocol.owns_of_inv hgi (hd.inv.takeOff_other hx hkey))

/-! ### Removing the counter -/

theorem idle_of_settled {w : State} (hd : (spending removable keyID c).Describes w gs)
    (hset : Settled keyID w) (j : Nat) : gs j = .idle := by
  by_contra hne
  obtain ⟨call, op, hpos⟩ := hd.busy j hne
  have hat : (gs j).At keyID op := hd.pos j call op hpos
  obtain ⟨t, ht, -, hnext⟩ := hpos
  have hnot : op.Unsettled keyID = false := by
    have := hset.2 t (List.mem_of_getElem? ht)
    rwa [hnext, Option.any_some] at this
  cases hg : gs j with
  | idle => exact hne hg
  | read r =>
    rw [hg] at hat
    obtain ⟨v, rfl⟩ := hat
    simp [Op.Unsettled] at hnot
  | beaten =>
    rw [hg] at hat
    obtain ⟨d, rfl⟩ := hat
    simp [Op.Unsettled] at hnot
  | owes cost =>
    rw [hg] at hat
    obtain rfl | rfl := hat <;> simp [Op.Unsettled] at hnot

theorem ends_remove {o : Op} {k : String} (ho : o = .delete (redisKey k) ∨ o = .expire (redisKey k))
    (hallowed : removable = false → k ≠ keyID) :
    Ends removable keyID c call i .idle (Prog.perform o) := by
  by_cases hk : k = keyID
  · subst hk
    cases removable with
    | false => exact absurd rfl (hallowed rfl)
    | true =>
      refine .perform trivial ?_
      intro w gs' ok r s' hd hgi hpos hguard happ
      have hset : Settled k w := by
        apply hguard.2
        obtain ⟨t, ht, -, hnext⟩ := hpos
        obtain rfl | rfl := ho <;> simp [removing, ht, hnext, Op.Removes]
      have hs' : s' = { w.shared with redis := Function.update w.shared.redis (redisKey k) none } := by
        obtain rfl | rfl := ho <;> cases happ <;> rfl
      rw [hs']
      exact Protocol.owns_of_inv hgi (hd.inv.removed hset.1 (idle_of_settled hd hset))
  · refine ends_spare (Prog.Meets.perform ?_ fun _ _ => trivial)
    obtain rfl | rfl := ho <;> exact redisKey_ne hk

theorem spending_obeyed : (spending removable keyID c).Obeyed apply body := by
  intro w gs call hd hgi hguard
  refine (?_ : Ends removable keyID c call w.threads.length .idle (body call)) (hd.owns hgi)
  cases call with
  | limit node req =>
    by_cases hreq : req.keyID = keyID
    · exact (ends_limit hreq).bind fun _ => .skip
    · exact (ends_spare (spare_limit hreq)).bind fun _ => .skip
  | invalidate node k =>
    refine ends_remove (Or.inl rfl) ?_
    rintro rfl
    exact hguard
  | expire k =>
    refine ends_remove (Or.inr rfl) ?_
    rintro rfl
    exact hguard
  | replay node => exact ends_replayRequest

/-- The key before its first call: no counter, the row holds its credits, and no change of it is
waiting. -/
structure Untouched (keyID : String) (c : Int) (s : Store) : Prop where
  counter : s.redis (redisKey keyID) = none
  row : s.keys keyID = some (some c)
  buffers : waiting keyID s.buffer = []

theorem Untouched.inv (hs : Untouched keyID c s) (hc : 0 ≤ c) :
    SpendInv removable keyID c s [] (fun _ => .idle) := by
  refine ⟨hc, ⟨c, hs.row⟩, ?_, ?_, ?_, fun _ => Int.le_refl 0, ?_, ?_⟩
  · intro _
    refine ⟨?_, hs.buffers, fun _ hn => hn⟩
    rw [hs.row]
    simp [granted]
  · intro v hv
    rw [hs.counter] at hv
    cases hv
  · intro j r hr
    cases hr
  · intro x hx
    rw [hs.buffers] at hx
    cases hx
  · intro _
    refine ⟨0, Total.of_zero fun _ => rfl, ?_⟩
    rw [hs.row, hs.buffers]
    simp [granted]

/-! ### The counter lives -/

def tenCredits : Store :=
  ⟨fun _ => none, fun k => if k = "key" then some (some 10) else none, []⟩

theorem untouched_tenCredits : Untouched "key" 10 tenCredits := ⟨rfl, by decide, rfl⟩

def raceToInitialise : List (Turn Call Bool) :=
  [.spawn (.limit 1 ⟨"key", 4⟩), .spawn (.limit 2 ⟨"key", 6⟩), .run 0 true, .run 1 true,
    .run 0 true, .run 1 true, .run 0 true, .run 1 true, .run 1 true, .run 0 true, .run 1 true]

def expiryAfterReplay : List (Turn Call Bool) :=
  [.spawn (.limit 1 ⟨"key", 4⟩), .run 0 true, .run 0 true, .run 0 true, .run 0 true,
    .spawn (.replay 1), .run 1 true, .run 1 true, .spawn (.expire "key"), .run 2 true,
    .spawn (.limit 2 ⟨"key", 6⟩), .run 3 true, .run 3 true, .run 3 true, .run 3 true]

def expiryBeforeReplay : List (Turn Call Bool) :=
  [.spawn (.limit 1 ⟨"key", 10⟩), .run 0 true, .run 0 true, .run 0 true, .run 0 true,
    .spawn (.expire "key"), .run 1 true,
    .spawn (.limit 2 ⟨"key", 10⟩), .run 2 true, .run 2 true, .run 2 true, .run 2 true]

end Unkey.UsageLimiter
