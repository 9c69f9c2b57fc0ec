import Unkey.UsageLimiter.Credits

/-!
# Granted credits on their way to the database

A credit that was granted is in the buffer of a node, in the hands of a call that is about to buffer
it or of a worker that replays it, or it has been taken off the row of its key.
-/

namespace Unkey.UsageLimiter

open Unkey.Base

def Call.isReplay : Call → Bool
  | .replay _ => true
  | .limit _ _ | .invalidate _ _ | .expire _ => false

def Op.handed (keyID : String) : Op → Int
  | .buffer change => if change.keyID = keyID then change.cost else 0
  | _ => 0

def Op.taken (keyID : String) : Op → Int
  | .decrementKeyCredits k cost => if k = keyID then cost else 0
  | _ => 0

def Op.carried (keyID : String) (c : Call) (op : Op) : Int :=
  op.handed keyID + if c.isReplay then op.taken keyID else 0

def handing (keyID : String) (w : State) : Int :=
  (w.threads.map fun t => t.prog.next.elim 0 (Op.handed keyID)).sum

def replaying (keyID : String) (w : State) : Int :=
  (w.threads.map fun t => if t.call.isReplay then t.prog.next.elim 0 (Op.taken keyID) else 0).sum

/-- Credits of the key answered `Valid`: a call that has granted answers once its change is in the
buffer. -/
def answered (keyID : String) (w : State) : Int := granted keyID w.history - handing keyID w

def ReplayWritten (keyID : String) (w : State) : Turn Call Bool → Prop
  | .spawn _ => True
  | .run i ok => w.PerformsFor
    (fun c op => c.isReplay = true → op.Unsettled keyID = true → ok = true)
    (.run i ok : Turn Call Bool)

def Op.fits (keyID : String) (s : Store) : Op → Bool
  | .decrementKeyCredits k cost => k ≠ keyID || (s.keys keyID).join.all (fun r => cost ≤ r)
  | _ => true

def Unclamped (keyID : String) (w : State) : Turn Call Bool → Prop
  | .spawn _ => True
  | .run i ok => ok = true → w.Performs (fun op => op.fits keyID w.shared = true)
    (.run i ok : Turn Call Bool)

instance (keyID : String) (w : State) : (l : Turn Call Bool) → Decidable (ReplayWritten keyID w l)
  | .spawn _ => .isTrue trivial
  | .run i ok => inferInstanceAs (Decidable (w.PerformsFor
    (fun c op => c.isReplay = true → op.Unsettled keyID = true → ok = true)
    (.run i ok : Turn Call Bool)))

instance (keyID : String) (w : State) : (l : Turn Call Bool) → Decidable (Unclamped keyID w l)
  | .spawn _ => .isTrue trivial
  | .run i ok => inferInstanceAs (Decidable (ok = true →
    w.Performs (fun op => op.fits keyID w.shared = true) (.run i ok : Turn Call Bool)))

/-- What was granted has left the database, waits in the replay buffer, or is in the hands of a
call. -/
structure Balanced (keyID : String) (c : Int) (s : Store) (h : List (Call × Note))
    (gs : Nat → Int) : Prop where
  account : ∃ r t, s.keys keyID = some (some r) ∧ Total id gs t ∧
    granted keyID h = (c - r) + (waiting keyID s.buffer).sum + t

def balance (keyID : String) (c : Int) : Protocol Store Call Op Op.Ret Note Bool Int where
  Inv := Balanced keyID c
  At := fun call g op => g = op.carried keyID call
  Guard := fun w l => ReplayWritten keyID w l ∧ Unclamped keyID w l
  idle := 0

variable {keyID : String} {c : Int} {s : Store} {h : List (Call × Note)} {gs : Nat → Int}
  {i : Nat} {call : Call} {req : UsageRequest}

/-! ### Operations that leave the account alone -/

def Op.Aside (keyID : String) : Op → Prop
  | .decrementKeyCredits k _ => k ≠ keyID
  | .buffer change => change.keyID ≠ keyID
  | .consume => False
  | .decrementIfExists _ _ _ | .setIfNotExists _ _ | .delete _ | .expire _
  | .findKeyCredits _ => True

theorem Op.Spares.aside {op : Op} (hop : op.Spares keyID) : op.Aside keyID := by
  cases op with
  | decrementKeyCredits k cost => exact hop
  | buffer change => exact hop
  | consume => exact hop
  | decrementIfExists _ _ _ | setIfNotExists _ _ | delete _ | expire _ | findKeyCredits _ =>
    trivial

theorem Op.Aside.carried {op : Op} (hop : op.Aside keyID) (call : Call) :
    op.carried keyID call = 0 := by
  cases op with
  | decrementKeyCredits k cost => simp [Op.carried, Op.handed, Op.taken, show k ≠ keyID from hop]
  | buffer change => simp [Op.carried, Op.handed, Op.taken, show change.keyID ≠ keyID from hop]
  | consume => exact hop.elim
  | decrementIfExists _ _ _ | setIfNotExists _ _ | delete _ | expire _ | findKeyCredits _ =>
    simp [Op.carried, Op.handed, Op.taken]

theorem Balanced.frame (hb : Balanced keyID c s h gs) {s' : Store} {h' : List (Call × Note)}
    (hkeys : s'.keys keyID = s.keys keyID)
    (hwait : waiting keyID s'.buffer = waiting keyID s.buffer)
    (hgranted : granted keyID h' = granted keyID h) : Balanced keyID c s' h' gs := by
  obtain ⟨r, t, hrow, ht, hsum⟩ := hb.account
  exact ⟨r, t, by rw [hkeys, hrow], ht, by rw [hgranted, hwait, hsum]⟩

theorem Balanced.aside (hb : Balanced keyID c s h gs) {op : Op} (hop : op.Aside keyID) {ok : Bool}
    {r : op.Ret} {s' : Store} (happ : apply call op ok s = some (r, s')) :
    Balanced keyID c s' h gs := by
  cases op with
  | decrementIfExists key d again =>
    cases happ
    exact hb.frame rfl rfl rfl
  | setIfNotExists key v =>
    obtain ⟨-, -, rfl⟩ | ⟨-, -, rfl⟩ := apply_setIfNotExists happ
    · exact hb.frame rfl rfl rfl
    · exact hb
  | delete key =>
    cases happ
    exact hb.frame rfl rfl rfl
  | expire key =>
    cases happ
    exact hb.frame rfl rfl rfl
  | findKeyCredits k =>
    cases happ
    exact hb
  | decrementKeyCredits k cost =>
    cases happ
    split
    · exact hb.frame (Function.update_of_ne (Ne.symm hop) _ _) rfl rfl
    · exact hb
  | buffer change =>
    cases happ
    refine hb.frame rfl ?_ rfl
    show waiting keyID (s.buffer ++ [(call.node, change)]) = waiting keyID s.buffer
    rw [waiting_concat, if_neg hop, List.append_nil]
  | consume => exact hop.elim

variable (keyID c) in
abbrev HoldsNothing {α : Type} (call : Call) (i : Nat) (p : Code α) : Prop :=
  (balance keyID c).Keeps apply call i ((balance keyID c).Owns i 0) p

theorem holdsNothing_aside {o : Op} (hop : o.Aside keyID) :
    HoldsNothing keyID c call i (Prog.perform o) := by
  refine .perform (hop.carried call).symm ?_
  intro w gs ok r s' hd hgi _ _ happ
  exact Protocol.owns_of_inv hgi (hd.inv.aside hop happ)

theorem holdsNothing_spare {α : Type} {p : Code α} (hp : Spare keyID p) :
    HoldsNothing keyID c call i p := by
  refine (Protocol.Triple.of_meets hp (fun op hop => (hop.aside.carried call).symm) ?_ ?_).mono
    fun _ _ _ _ hq => hq.2
  · intro op w gs ch r s' hop hd _ _ _ happ
    exact ⟨trivial, hd.inv.aside hop.aside happ⟩
  · rintro ⟨req⟩ s h gs hne hown
    have hb : Balanced keyID c s h (Function.update gs i 0) := hown
    exact hb.frame rfl rfl (by simp [granted, show req.keyID ≠ keyID from hne])

/-! ### Moving credits -/

namespace Balanced

theorem grant (hb : Balanced keyID c s h (Function.update gs i 0)) (hreq : req.keyID = keyID) :
    Balanced keyID c s ((call, .granted req) :: h) (Function.update gs i req.cost) := by
  obtain ⟨r, t, hrow, ht, hsum⟩ := hb.account
  have ht' := ht.update i req.cost
  rw [Function.update_idem, Function.update_self] at ht'
  refine ⟨r, _, hrow, ht', ?_⟩
  show (if req.keyID = keyID then req.cost else 0) + granted keyID h = _
  rw [if_pos hreq, hsum]
  simp only [id]
  omega

theorem buffered (hb : Balanced keyID c s h gs) {cost : Int} (hgi : gs i = cost) (node : Nat) :
    Balanced keyID c { s with buffer := s.buffer ++ [(node, ⟨keyID, cost⟩)] } h
      (Function.update gs i 0) := by
  obtain ⟨r, t, hrow, ht, hsum⟩ := hb.account
  refine ⟨r, _, hrow, ht.update i 0, ?_⟩
  show _ = _ + (waiting keyID (s.buffer ++ [(node, ⟨keyID, cost⟩)])).sum + _
  rw [waiting_concat, if_pos rfl, List.sum_append, List.sum_singleton, hsum, hgi]
  simp only [id]
  omega

theorem consumed (hb : Balanced keyID c s h gs) (hgi : gs i = 0) {x : Nat × CreditChange}
    (hx : x ∈ s.buffer) :
    Balanced keyID c { s with buffer := s.buffer.erase x } h
      (Function.update gs i (if x.2.keyID = keyID then x.2.cost else 0)) := by
  obtain ⟨r, t, hrow, ht, hsum⟩ := hb.account
  have hperm := (waiting_perm_erase keyID hx).sum_eq
  refine ⟨r, _, hrow, ht.update i _, ?_⟩
  show _ = _ + (waiting keyID (s.buffer.erase x)).sum + _
  rw [List.sum_append] at hperm
  rw [hsum, hperm, hgi]
  by_cases hkey : x.2.keyID = keyID
  · simp only [if_pos hkey, List.sum_singleton, id]
    omega
  · simp only [if_neg hkey, List.sum_nil, id]
    omega

theorem written (hb : Balanced keyID c s h gs) {cost r : Int} (hrow : s.keys keyID = some (some r))
    (hfits : cost ≤ r) {h' : List (Call × Note)} {g : Int}
    (hmoved : granted keyID h' + gs i = granted keyID h + cost + g) :
    Balanced keyID c { s with
      keys := Function.update s.keys keyID ((s.keys keyID).map (creditsDecrement · cost)) } h'
      (Function.update gs i g) := by
  obtain ⟨r', t, hrow', ht, hsum⟩ := hb.account
  obtain rfl : r' = r := by rw [hrow] at hrow'; cases hrow'; rfl
  refine ⟨r' - cost, _, ?_, ht.update i g, ?_⟩
  · show Function.update s.keys keyID _ keyID = _
    rw [Function.update_self, hrow, Option.map_some, creditsDecrement, if_pos hfits]
  · show _ = _ + (waiting keyID s.buffer).sum + _
    simp only [id]
    omega

end Balanced

/-! ### The programs -/

theorem holdsNothing_handleResult (hreq : req.keyID = keyID) (hcall : call.isReplay = false)
    (remaining : Int) (success : Bool) :
    HoldsNothing keyID c call i (handleResult req remaining success) := by
  intro s h gs hown
  unfold handleResult
  split
  · have hheld : (balance keyID c).Owns i req.cost s ((call, .granted req) :: h) gs :=
      Balanced.grant hown hreq
    refine Protocol.Triple.act (o := Op.buffer ⟨req.keyID, req.cost⟩) ?_ ?_ hheld
    · show req.cost = (if req.keyID = keyID then req.cost else 0) + _
      rw [hcall, if_pos hreq]
      exact (add_zero _).symm
    · intro w gs' ok r s' hd hgi _ _ happ
      cases happ
      rw [hreq]
      exact hd.inv.buffered hgi _
  · exact hown

theorem Balanced.creditsRow (hb : Balanced keyID c s h gs) (ok : Bool) :
    UsageLimiter.creditsRow ok (s.keys keyID) = none ∨
      ∃ r, UsageLimiter.creditsRow ok (s.keys keyID) = some (r, true) := by
  obtain ⟨r, t, hrow, -, -⟩ := hb.account
  cases ok with
  | false => exact .inl rfl
  | true => exact .inr ⟨r, by rw [hrow]; rfl⟩

theorem holdsNothing_findKeyCredits {α : Type} {f : Option (Int × Bool) → Code α}
    (hnone : HoldsNothing keyID c call i (f none))
    (hsome : ∀ r, HoldsNothing keyID c call i (f (some (r, true)))) :
    HoldsNothing keyID c call i (findKeyCredits keyID >>= f) := by
  have haside : (Op.findKeyCredits keyID).Aside keyID := trivial
  refine .act (haside.carried call).symm ?_
  intro w gs ok r s' hd hgi _ _ happ
  cases happ
  rcases hd.inv.creditsRow ok with hrow | ⟨r, hrow⟩
  · rw [hrow]
    exact hnone (hd.owns hgi)
  · rw [hrow]
    exact hsome r (hd.owns hgi)

theorem written_of_fits {w : State} {cost g : Int} {h' : List (Call × Note)}
    (hd : (balance keyID c).Describes w gs) (hat : w.IsAt i call (.decrementKeyCredits keyID cost))
    (hguard : (balance keyID c).Guard w (.run i true))
    (hmoved : granted keyID h' + gs i = granted keyID w.history + cost + g) :
    (balance keyID c).Owns i g { w.shared with
      keys := Function.update w.shared.keys keyID
        ((w.shared.keys keyID).map (creditsDecrement · cost)) } h' gs := by
  obtain ⟨r, t, hrow, -, -⟩ := hd.inv.account
  have hfits : (Op.decrementKeyCredits keyID cost).fits keyID w.shared = true :=
    hguard.2 rfl _ hat.next
  simp only [Op.fits, ne_eq, not_true_eq_false, decide_false, Bool.false_or, hrow,
    Option.join_some, Option.all_some, decide_eq_true_eq] at hfits
  exact hd.inv.written hrow hfits hmoved

theorem holdsNothing_fallbackLimit (hreq : req.keyID = keyID) (hcall : call.isReplay = false) :
    HoldsNothing keyID c call i (fallbackLimit req) := by
  subst hreq
  unfold fallbackLimit
  split
  · exact .skip
  refine holdsNothing_findKeyCredits .skip fun r => ?_
  dsimp only
  rw [if_neg (by decide)]
  split
  · exact .skip
  -- the call takes the credits off the row itself and grants them afterwards
  refine .act (o := Op.decrementKeyCredits req.keyID req.cost) ?_ ?_
  · show (0 : Int) = 0 + _
    rw [hcall]
    rfl
  · intro w gs ok taken s' hd hgi hat hguard happ
    cases happ
    cases ok with
    | false => exact hd.owns hgi
    | true =>
      refine written_of_fits hd hat hguard ?_
      show (if req.keyID = req.keyID then req.cost else 0) + _ + _ = _
      rw [if_pos rfl, hgi]
      show _ = _ + (0 : Int)
      omega

theorem holdsNothing_initialize (hreq : req.keyID = keyID) (hcall : call.isReplay = false) :
    HoldsNothing keyID c call i (initializeFromDatabase req) := by
  subst hreq
  refine holdsNothing_findKeyCredits .skip fun r => ?_
  dsimp only
  rw [if_neg (by decide)]
  refine (holdsNothing_aside (o := .setIfNotExists (redisKey req.keyID) _) trivial).bind ?_
  rintro (_ | _)
  · refine (holdsNothing_aside (o := .decrementIfExists (redisKey req.keyID) req.cost true)
      trivial).bind ?_
    rintro ⟨remaining, _ | _, success⟩
    · exact holdsNothing_fallbackLimit rfl hcall
    · exact (holdsNothing_handleResult rfl hcall remaining success).bind fun _ => .skip
  · exact (holdsNothing_handleResult rfl hcall _ _).bind fun _ => .skip

theorem holdsNothing_limit (hreq : req.keyID = keyID) (hcall : call.isReplay = false) :
    HoldsNothing keyID c call i (limit req) := by
  unfold limit
  split
  · exact .skip
  refine (holdsNothing_aside (o := .decrementIfExists (redisKey req.keyID) req.cost false)
    trivial).bind ?_
  rintro ⟨remaining, _ | _, success⟩
  · exact holdsNothing_initialize hreq hcall
  · exact (holdsNothing_handleResult hreq hcall remaining success).bind fun _ => .skip

theorem holdsNothing_replay (hcall : call.isReplay = true) :
    HoldsNothing keyID c call i replayRequest := by
  refine .act (o := Op.consume) ?_ ?_
  · show (0 : Int) = 0 + _
    rw [hcall]
    rfl
  intro w gs' ok change s' hd hgi _ _ happ
  obtain ⟨x, hx, rfl, rfl⟩ := apply_consume happ
  have hheld : (balance keyID c).Owns i (if x.2.keyID = keyID then x.2.cost else 0)
      { w.shared with buffer := w.shared.buffer.erase x } w.history gs' := hd.inv.consumed hgi hx
  refine Protocol.Triple.act (o := Op.decrementKeyCredits x.2.keyID x.2.cost) ?_ ?_ hheld
  · show _ = 0 + (if call.isReplay then _ else _)
    rw [hcall, zero_add]
    rfl
  intro w gs' ok taken s' hd hgi hat hguard happ
  by_cases hkey : x.2.keyID = keyID
  · have hwritten : w.PerformsFor
        (fun c op => c.isReplay = true → op.Unsettled keyID = true → ok = true)
        (.run i ok : Turn Call Bool) := hguard.1
    have hok : ok = true := hwritten.at hat hcall (by simp [Op.Unsettled, hkey])
    subst hok
    cases happ
    rw [hkey] at hat hgi ⊢
    refine written_of_fits hd hat hguard ?_
    rw [hgi, if_pos rfl, add_zero]
  · rw [if_neg hkey] at hgi
    have haside : (Op.decrementKeyCredits x.2.keyID x.2.cost).Aside keyID := hkey
    exact Protocol.owns_of_inv hgi (hd.inv.aside haside happ)

theorem balance_obeyed : (balance keyID c).Obeyed apply body := by
  intro w gs call hd hgi _
  refine (?_ : HoldsNothing keyID c call w.threads.length (body call)) (hd.owns hgi)
  cases call with
  | limit node req =>
    by_cases hreq : req.keyID = keyID
    · exact (holdsNothing_limit hreq rfl).bind fun _ => .skip
    · exact (holdsNothing_spare (spare_limit hreq)).bind fun _ => .skip
  | invalidate node k => exact holdsNothing_aside (o := .delete (redisKey k)) trivial
  | expire k => exact holdsNothing_aside (o := .expire (redisKey k)) trivial
  | replay node => exact holdsNothing_replay rfl

/-! ### The account of a run -/

theorem total_eq {w : State} (hd : (balance keyID c).Describes w gs) {t : Int}
    (ht : Total id gs t) : t = handing keyID w + replaying keyID w := by
  have hheld : ∀ j, id (gs j) = (w.threads[j]?).elim 0 fun t =>
      t.prog.next.elim 0 (Op.handed keyID) +
        if t.call.isReplay then t.prog.next.elim 0 (Op.taken keyID) else 0 := by
    intro j
    by_cases hbusy : gs j = 0
    · -- an idle thread is at no operation, or at one that carries nothing
      cases hthread : w.threads[j]? with
      | none => exact hbusy
      | some t =>
        cases hnext : t.prog.next with
        | none => simp [hbusy, hnext]
        | some op =>
          have hat : gs j = op.carried keyID t.call := hd.pos j t.call op ⟨t, hthread, rfl, hnext⟩
          simpa [hnext, Op.carried] using hat
    · obtain ⟨call, op, hpos⟩ := hd.busy j hbusy
      have hat : gs j = op.carried keyID call := hd.pos j call op hpos
      obtain ⟨t, hthread, rfl, hnext⟩ := hpos
      simpa [hthread, hnext, Op.carried] using hat
  rw [Total.eq_sum ht hheld, List.sum_map_add]
  rfl

/-- Over all interleavings of calls, replays, expiries and invalidations in which every replay for
the key succeeds and no decrement is clamped: the credits answered `Valid` are those the row has
lost, those in the buffers and those being replayed. -/
theorem answered_eq_of_replays_written {s₀ : Store} (hrow : s₀.keys keyID = some (some c))
    (hbuffers : waiting keyID s₀.buffer = []) {past : List (State × Turn Call Bool)} {w : State}
    (hrun : Run step (World.init s₀) past w)
    (hwritten : Always (fun _ w l => ReplayWritten keyID w l) past)
    (hunclamped : Always (fun _ w l => Unclamped keyID w l) past) :
    ∃ r, w.shared.keys keyID = some (some r) ∧ answered keyID w
      = (c - r) + (waiting keyID w.shared.buffer).sum + replaying keyID w := by
  have hstart : Balanced keyID c s₀ [] fun _ => 0 :=
    ⟨c, 0, hrow, Total.of_zero fun _ => rfl, by simp [granted, hbuffers]⟩
  obtain ⟨gs, hd⟩ := (balance keyID c).sound hstart balance_obeyed hrun (hwritten.and hunclamped)
  obtain ⟨r, t, hr, ht, hsum⟩ := hd.inv.account
  refine ⟨r, hr, ?_⟩
  have hheld := total_eq hd ht
  unfold answered
  omega

def replayOfOne : List (Turn Call Bool) :=
  [.spawn (.limit 1 ⟨"key", 4⟩), .run 0 true, .run 0 true, .run 0 true, .run 0 true,
    .spawn (.limit 1 ⟨"key", 3⟩), .run 1 true, .run 1 true,
    .spawn (.replay 1), .run 2 true, .run 2 true]

theorem answered_eq_of_replays_written_one : ∃ past w, Run step (World.init tenCredits) past w ∧
    answered "key" w = 7 ∧ waiting "key" w.shared.buffer = [3] ∧
    ∃ r, w.shared.keys "key" = some (some r) ∧
      answered "key" w = (10 - r) + (waiting "key" w.shared.buffer).sum + replaying "key" w := by
  refine Run.exists_of_record (P := fun past w =>
      Always (fun _ w l => ReplayWritten "key" w l) past ∧
      Always (fun _ w l => Unclamped "key" w l) past ∧ answered "key" w = 7 ∧
      waiting "key" w.shared.buffer = [3])
    replayOfOne (by decide +kernel) ?_
  rintro past w hrun ⟨hwritten, hunclamped, hanswered, hwaiting⟩
  exact ⟨hanswered, hwaiting,
    answered_eq_of_replays_written (by decide) rfl hrun hwritten hunclamped⟩

def failedReplay : List (Turn Call Bool) :=
  [.spawn (.limit 1 ⟨"key", 4⟩), .run 0 true, .run 0 true, .run 0 true, .run 0 true,
    .spawn (.replay 1), .run 1 true, .run 1 false]

/-- The credit is answered `Valid` and is nowhere afterwards. -/
theorem answered_lost_in_failed_replay :
    Untouched "key" 10 tenCredits ∧ ∃ past w, Run step (World.init tenCredits) past w ∧
      Always (fun _ w l => Undisturbed "key" l ∧ Unclamped "key" w l) past ∧
      w.shared.keys "key" = some (some 10) ∧
      ¬ answered "key" w
        = (10 - 10) + (waiting "key" w.shared.buffer).sum + replaying "key" w :=
  ⟨untouched_tenCredits, Run.exists_of_record failedReplay (by decide +kernel) fun _ _ _ h => h⟩

end Unkey.UsageLimiter
