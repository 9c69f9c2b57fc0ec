import Unkey.UsageLimiter.Limiter

/-!
# Credits without Redis

`service.Limit` alone: the credits are read in one statement and decremented in another.
-/

namespace Unkey.UsageLimiter

open Unkey.Base

/-- The calls of `service`, which keeps no counter: there is nothing to invalidate or to replay. -/
def fallbackBody : Call → Code Unit
  | .limit _ req => do
    let _ ← fallbackLimit req
    pure ()
  | _ => pure ()

abbrev fallbackStep := worldStep apply fallbackBody

/-! ### Where a call stands -/

def afterDecrement (req : UsageRequest) (ok : Bool) : Code Unit :=
  if ok then .note (.granted req) (.done ()) else .done ()

def afterRead (req : UsageRequest) : Option (Int × Bool) → Code Unit
  | none => .done ()
  | some (_, false) => .note (.granted req) (.done ())
  | some (remaining, true) =>
    if 0 < req.cost ∧ remaining < req.cost then .done ()
    else .act (.decrementKeyCredits req.keyID req.cost) (afterDecrement req)

theorem fallbackBody_limit (node : Nat) (req : UsageRequest) :
    fallbackBody (.limit node req) =
      if req.cost < 0 then .done () else .act (.findKeyCredits req.keyID) (afterRead req) := by
  show (fallbackLimit req >>= fun _ => pure ()) = _
  rw [fallbackLimit]
  split
  · rfl
  · show Prog.act _ _ = Prog.act _ _
    congr 1
    funext r
    match r with
    | none => rfl
    | some (remaining, false) => rfl
    | some (remaining, true) =>
      simp only [afterRead, Prog.bind, Bool.true_eq_false, if_false]
      split
      · rfl
      · show Prog.act _ _ = Prog.act _ _
        congr 1
        funext ok
        cases ok <;> rfl

/-- A call of `service` is at its end, about to read, or about to decrement. -/
inductive Stage : Code Unit → Prop
  | returned : Stage (.done ())
  | reading (req : UsageRequest) : 0 ≤ req.cost →
      Stage (.act (.findKeyCredits req.keyID) (afterRead req))
  | writing (req : UsageRequest) : 0 ≤ req.cost →
      Stage (.act (.decrementKeyCredits req.keyID req.cost) (afterDecrement req))

abbrev ServiceState := World Store Call Op Op.Ret Note

def Staged (w : ServiceState) : Prop := ∀ t ∈ w.threads, Stage t.prog

theorem stage_fallbackBody (c : Call) : Stage (fallbackBody c) := by
  cases c with
  | limit node req =>
    rw [fallbackBody_limit]
    split
    · exact .returned
    · exact .reading req (by omega)
  | invalidate | expire | replay => exact .returned

theorem Stage.settle_eq {p : Code Unit} (hp : Stage p) (c : Call) (h : List (Call × Note)) :
    settle c p h = (p, h) := by
  cases hp <;> rfl

theorem settle_afterRead {req : UsageRequest} (hcost : 0 ≤ req.cost) (c : Call)
    (r : Option (Int × Bool)) (h : List (Call × Note)) :
    Stage (settle c (afterRead req r) h).1 ∧
      ((settle c (afterRead req r) h).2 = h ∨
        (∃ remaining, r = some (remaining, false)) ∧
          (settle c (afterRead req r) h).2 = (c, .granted req) :: h) := by
  match r with
  | none => exact ⟨.returned, .inl rfl⟩
  | some (remaining, false) => exact ⟨.returned, .inr ⟨⟨remaining, rfl⟩, rfl⟩⟩
  | some (remaining, true) =>
    rw [afterRead]
    split
    · exact ⟨.returned, .inl rfl⟩
    · exact ⟨.writing req hcost, .inl rfl⟩

theorem keys_of_creditsRow {ok : Bool} {row : Option (Option Int)} {remaining : Int}
    (h : creditsRow ok row = some (remaining, false)) : row = some none := by
  match ok, row with
  | true, some none => rfl
  | true, some (some r) => cases h
  | true, none => cases h
  | false, _ => cases h

/-! ### What a step does to a key -/

def decremented (w : ServiceState) : Turn Call Bool → Option (String × Int)
  | .run i true =>
    match w.next i with
    | some (.decrementKeyCredits keyID cost) => some (keyID, cost)
    | _ => none
  | _ => none

/-- A step changes no row, or it carries out a decrement. -/
inductive Effect (w : ServiceState) (turn : Turn Call Bool) (w' : ServiceState) : Prop
  | quiet : decremented w turn = none → w'.shared.keys = w.shared.keys →
      w'.history = w.history → Effect w turn w'
  | unlimited (c : Call) (req : UsageRequest) : decremented w turn = none →
      w'.shared.keys = w.shared.keys → w.shared.keys req.keyID = some none →
      w'.history = (c, .granted req) :: w.history → Effect w turn w'
  | decremented (c : Call) (req : UsageRequest) : 0 ≤ req.cost →
      decremented w turn = some (req.keyID, req.cost) →
      w'.shared.keys = Function.update w.shared.keys req.keyID
        ((w.shared.keys req.keyID).map (creditsDecrement · req.cost)) →
      w'.history = (c, .granted req) :: w.history → Effect w turn w'

theorem Staged.set {w : ServiceState} (hw : Staged w) (i : Nat) {t : Thread Call Op Op.Ret Note}
    (ht : Stage t.prog) : ∀ x ∈ w.threads.set i t, Stage x.prog := by
  intro x hx
  rcases List.mem_or_eq_of_mem_set hx with hx | rfl
  · exact hw x hx
  · exact ht

variable {w w' : ServiceState} {turn : Turn Call Bool}

theorem step_spawn (hw : Staged w) (c : Call) (hstep : fallbackStep w (.spawn c) = some w') :
    Staged w' ∧ Effect w (.spawn c) w' := by
  rw [fallbackStep, worldStep, (stage_fallbackBody c).settle_eq] at hstep
  cases hstep
  refine ⟨?_, .quiet rfl rfl rfl⟩
  intro x hx
  rcases List.mem_append.mp hx with hx | hx
  · exact hw x hx
  · rw [List.mem_singleton.mp hx]
    exact stage_fallbackBody c

theorem step_run (hw : Staged w) (i : Nat) (ok : Bool)
    (hstep : fallbackStep w (.run i ok) = some w') :
    Staged w' ∧ Effect w (.run i ok) w' := by
  rw [fallbackStep, worldStep] at hstep
  cases hthread : w.threads[i]? with
  | none =>
    rw [hthread] at hstep
    cases hstep
  | some t =>
    obtain ⟨c, p⟩ := t
    have hnext : w.next i = p.next := by rw [World.next, hthread, Option.bind_some]
    rw [hthread] at hstep
    have hp : Stage p := hw _ (List.mem_of_getElem? hthread)
    cases hp with
    | returned => cases hstep
    | reading req hcost =>
      have hquiet : decremented w (.run i ok) = none := by
        cases ok <;> simp [decremented, hnext, Prog.next]
      cases hstep
      obtain ⟨hstage, hhistory⟩ :=
        settle_afterRead hcost c (creditsRow ok (w.shared.keys req.keyID)) w.history
      refine ⟨hw.set i hstage, ?_⟩
      rcases hhistory with hsame | ⟨⟨remaining, hread⟩, hgranted⟩
      · exact .quiet hquiet rfl hsame
      · exact .unlimited c req hquiet rfl (keys_of_creditsRow hread) hgranted
    | writing req hcost =>
      cases ok with
      | false =>
        cases hstep
        exact ⟨hw.set i .returned, .quiet rfl rfl rfl⟩
      | true =>
        have hwrites : decremented w (.run i true) = some (req.keyID, req.cost) := by
          simp [decremented, hnext, Prog.next]
        cases hstep
        exact ⟨hw.set i .returned, .decremented c req hcost hwrites rfl rfl⟩

theorem step_effect (hw : Staged w) (hstep : fallbackStep w turn = some w') :
    Staged w' ∧ Effect w turn w' := by
  cases turn with
  | spawn c => exact step_spawn hw c hstep
  | run i ok => exact step_run hw i ok hstep

/-! ### Whole runs -/

def Covered (keyID : String) (w : ServiceState) (turn : Turn Call Bool) : Prop :=
  ∀ x ∈ decremented w turn, x.1 = keyID → ∀ remaining ∈ (w.shared.keys keyID).join, x.2 ≤ remaining

instance (keyID : String) (w : ServiceState) (turn : Turn Call Bool) :
    Decidable (Covered keyID w turn) := by
  unfold Covered
  infer_instance

def Tallied (keyID : String) (c : Int) (past : List (ServiceState × Turn Call Bool))
    (w : ServiceState) : Prop :=
  ∃ remaining, w.shared.keys keyID = some (some remaining) ∧ 0 ≤ remaining ∧
    ((Always (fun _ => Covered keyID) past ∧ granted keyID w.history + remaining = c) ∨
      (¬ Always (fun _ => Covered keyID) past ∧ c < granted keyID w.history))

section Balance

variable {keyID : String} {c : Int} {past : List (ServiceState × Turn Call Bool)}

theorem Tallied.frame (h : Tallied keyID c past w) (hcovered : Covered keyID w turn)
    (hkeys : w'.shared.keys keyID = w.shared.keys keyID)
    (hgranted : granted keyID w'.history = granted keyID w.history) :
    Tallied keyID c ((w, turn) :: past) w' := by
  obtain ⟨remaining, hrow, hnonneg, hbalance⟩ := h
  refine ⟨remaining, hkeys.trans hrow, hnonneg, ?_⟩
  rw [hgranted, Always]
  exact hbalance.imp (fun h => ⟨⟨hcovered, h.1⟩, h.2⟩) (fun h => ⟨fun hall => h.1 hall.2, h.2⟩)

theorem Tallied.decrement (h : Tallied keyID c past w) {cost : Int} (hcost : 0 ≤ cost)
    (hturn : decremented w turn = some (keyID, cost))
    (hkeys : w'.shared.keys keyID =
      (w.shared.keys keyID).map (creditsDecrement · cost))
    (hgranted : granted keyID w'.history = cost + granted keyID w.history) :
    Tallied keyID c ((w, turn) :: past) w' := by
  obtain ⟨remaining, hrow, hnonneg, hbalance⟩ := h
  have hcovered : Covered keyID w turn ↔ cost ≤ remaining := by
    simp [Covered, hturn, hrow]
  rw [hrow, Option.map_some, creditsDecrement] at hkeys
  by_cases hle : cost ≤ remaining
  · rw [if_pos hle] at hkeys
    refine ⟨remaining - cost, hkeys, by omega, ?_⟩
    rw [hgranted, Always, hcovered]
    exact hbalance.imp (fun h => ⟨⟨hle, h.1⟩, by omega⟩) (fun h => ⟨fun hall => h.1 hall.2, by omega⟩)
  · rw [if_neg hle] at hkeys
    refine ⟨0, hkeys, Int.le_refl 0, .inr ⟨fun hall => hle (hcovered.mp hall.1), ?_⟩⟩
    rcases hbalance with ⟨-, hsum⟩ | ⟨-, hover⟩ <;> omega

theorem Tallied.next (h : Tallied keyID c past w) (heffect : Effect w turn w') :
    Tallied keyID c ((w, turn) :: past) w' := by
  have hquiet (hnone : decremented w turn = none) : Covered keyID w turn := by
    simp [Covered, hnone]
  cases heffect with
  | quiet hnone hkeys hhistory => exact h.frame (hquiet hnone) (by rw [hkeys]) (by rw [hhistory])
  | unlimited call req hnone hkeys hunlimited hhistory =>
    have hother : req.keyID ≠ keyID := by
      rintro rfl
      obtain ⟨remaining, hrow, -⟩ := h
      exact absurd (hunlimited.symm.trans hrow) (by simp)
    refine h.frame (hquiet hnone) (by rw [hkeys]) ?_
    rw [hhistory, granted, if_neg hother, Int.zero_add]
  | decremented call req hcost hturn hkeys hhistory =>
    by_cases hkey : req.keyID = keyID
    · subst hkey
      refine h.decrement hcost hturn (by rw [hkeys, Function.update_self]) ?_
      rw [hhistory, granted, if_pos rfl]
    · have hcovered : Covered keyID w turn := by
        rw [Covered, hturn]
        simp [hkey]
      refine h.frame hcovered (by rw [hkeys, Function.update_of_ne (Ne.symm hkey)]) ?_
      rw [hhistory, granted, if_neg hkey, Int.zero_add]

end Balance

/-- The calls answered `Valid` cost at most the credits there were exactly if every decrement of
the key found at least what it took. -/
theorem granted_le_credits_iff {keyID : String} {c : Int} {s : Store}
    (hcredits : s.keys keyID = some (some c)) (hnonneg : 0 ≤ c)
    {past : List (ServiceState × Turn Call Bool)} {w : ServiceState}
    (hrun : Run fallbackStep (World.init s) past w) :
    granted keyID w.history ≤ c ↔ Always (fun _ => Covered keyID) past := by
  have h0 : Staged (World.init s) ∧ Tallied keyID c [] (World.init s) :=
    ⟨by simp [Staged, World.init], c, hcredits, hnonneg, .inl ⟨trivial, Int.zero_add c⟩⟩
  have hinv : Staged w ∧ Tallied keyID c past w := by
    refine hrun.invariant (P := fun past w => Staged w ∧ Tallied keyID c past w) h0 ?_
    intro past w turn w' h hstep
    obtain ⟨hstaged, heffect⟩ := step_effect h.1 hstep
    exact ⟨hstaged, h.2.next heffect⟩
  obtain ⟨remaining, -, hremaining, ⟨hall, hsum⟩ | ⟨hnot, hover⟩⟩ := hinv.2
  · exact iff_of_true (by omega) hall
  · exact iff_of_false (by omega) hnot

def oneKey (credits : Int) : Store :=
  ⟨fun _ => none, fun keyID => if keyID = "key_1" then some (some credits) else none, []⟩

/-- A call of cost two and one of cost three, read and decremented in turn, use up five credits;
a third call is denied. -/
theorem granted_le_credits_in_turn :
    ∃ past w, Run fallbackStep (World.init (oneKey 5)) past w ∧
      Always (fun _ => Covered "key_1") past ∧ granted "key_1" w.history ≤ 5 ∧
      granted "key_1" w.history = 5 := by
  refine Run.exists_of_record (P := fun past w => Always (fun _ => Covered "key_1") past ∧
      granted "key_1" w.history = 5)
    [.spawn (.limit 0 ⟨"key_1", 2⟩), .spawn (.limit 1 ⟨"key_1", 3⟩), .run 0 true, .run 0 true,
      .run 1 true, .run 1 true, .spawn (.limit 0 ⟨"key_1", 1⟩), .run 2 true] (by decide +kernel) ?_
  rintro past w hrun ⟨hcovered, hgranted⟩
  have hle := (granted_le_credits_iff (s := oneKey 5) rfl (by decide) hrun).mpr hcovered
  exact ⟨hcovered, hle, hgranted⟩

/-- Two calls read the last credit before either of them takes it: both are answered `Valid`. -/
theorem last_credit_granted_twice :
    ∃ past w, Run fallbackStep (World.init (oneKey 1)) past w ∧
      granted "key_1" w.history = 2 ∧ w.shared.keys "key_1" = some (some 0) :=
  Run.exists_of_record [.spawn (.limit 0 ⟨"key_1", 1⟩), .spawn (.limit 1 ⟨"key_1", 1⟩),
    .run 0 true, .run 1 true, .run 0 true, .run 1 true] (by decide +kernel) fun _ _ _ h => h

end Unkey.UsageLimiter
