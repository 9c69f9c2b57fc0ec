import Unkey.Base.Ledger
import Unkey.Base.Protocol
import Unkey.UsageLimiter.Limiter

/-!
# Where the credits of a key are

As long as a key has a counter in Redis, the counter is what the credits of the key started from
minus what was granted; while it has none, the database holds that value and no granted credit is on
its way.
-/

namespace Unkey.UsageLimiter

open Unkey.Base

inductive Ghost where
  | idle
  | read (credits : Int)
  | beaten
  | owes (cost : Int)

def Ghost.owed : Ghost → Int
  | .owes cost => cost
  | _ => 0

def Ghost.NeedsCounter : Ghost → Prop
  | .beaten | .owes _ => True
  | .idle | .read _ => False

def Ghost.At (keyID : String) : Ghost → Op → Prop
  | .idle, _ => True
  | .read _, op => ∃ v, op = .setIfNotExists (redisKey keyID) v
  | .beaten, op => ∃ d, op = .decrementIfExists (redisKey keyID) d true
  | .owes cost, op => op = .buffer ⟨keyID, cost⟩ ∨ op = .decrementKeyCredits keyID cost

def Op.Unsettled (keyID : String) : Op → Bool
  | .setIfNotExists key _ => key = redisKey keyID
  | .decrementIfExists key _ again => again && key = redisKey keyID
  | .buffer change => change.keyID = keyID
  | .decrementKeyCredits k _ => k = keyID
  | .delete _ | .expire _ | .findKeyCredits _ | .consume => false

def Op.Removes (keyID : String) : Op → Bool
  | .delete key => key = redisKey keyID
  | .expire key => key = redisKey keyID
  | _ => false

abbrev State := World Store Call Op Op.Ret Note

def waiting (keyID : String) (buffer : List (Nat × CreditChange)) : List Int :=
  (buffer.filter (·.2.keyID = keyID)).map (·.2.cost)

def Settled (keyID : String) (w : State) : Prop :=
  waiting keyID w.shared.buffer = [] ∧
    ∀ t ∈ w.threads, t.prog.next.any (Op.Unsettled keyID) = false

def removing (keyID : String) (w : State) (i : Nat) : Bool :=
  ((w.threads[i]?).bind (·.prog.next)).any (Op.Removes keyID)

def Undisturbed (keyID : String) : Turn Call Bool → Prop
  | .spawn (.invalidate _ k) => k ≠ keyID
  | .spawn (.expire k) => k ≠ keyID
  | .spawn (.limit _ _) | .spawn (.replay _) | .run _ _ => True

def Faultless : Turn Call Bool → Prop
  | .spawn _ => True
  | .run _ ok => ok = true

def RemovedSettled (keyID : String) (w : State) : Turn Call Bool → Prop
  | .spawn _ => True
  | .run i _ => removing keyID w i = true → Settled keyID w

instance (keyID : String) (w : State) : Decidable (Settled keyID w) := by
  unfold Settled
  infer_instance

instance (keyID : String) : (l : Turn Call Bool) → Decidable (Undisturbed keyID l)
  | .spawn (.invalidate _ k) => inferInstanceAs (Decidable (k ≠ keyID))
  | .spawn (.expire k) => inferInstanceAs (Decidable (k ≠ keyID))
  | .spawn (.limit _ _) => .isTrue trivial
  | .spawn (.replay _) => .isTrue trivial
  | .run _ _ => .isTrue trivial

instance (l : Turn Call Bool) : Decidable (Faultless l) := by
  cases l <;> unfold Faultless <;> infer_instance

instance (keyID : String) (w : State) (l : Turn Call Bool) :
    Decidable (RemovedSettled keyID w l) := by
  cases l <;> unfold RemovedSettled <;> infer_instance

structure SpendInv (removable : Bool) (keyID : String) (c : Int) (s : Store)
    (h : List (Call × Note)) (gs : Nat → Ghost) : Prop where
  bounded : granted keyID h ≤ c
  limited : ∃ r, s.keys keyID = some (some r)
  absent : s.redis (redisKey keyID) = none →
    s.keys keyID = some (some (c - granted keyID h)) ∧
      waiting keyID s.buffer = [] ∧ ∀ i, ¬ (gs i).NeedsCounter
  present : ∀ v, s.redis (redisKey keyID) = some v → v = c - granted keyID h
  reads : ∀ i r, gs i = .read r → s.redis (redisKey keyID) = none → r = c - granted keyID h
  owed : ∀ i, 0 ≤ (gs i).owed
  costs : ∀ x ∈ waiting keyID s.buffer, 0 ≤ x
  ledger : removable = true → ∃ t, Total Ghost.owed gs t ∧
    s.keys keyID = some (some (c - granted keyID h + (waiting keyID s.buffer).sum + t))

def spending (removable : Bool) (keyID : String) (c : Int) :
    Protocol Store Call Op Op.Ret Note Bool Ghost where
  Inv := SpendInv removable keyID c
  At := fun _ g op => g.At keyID op
  Guard := fun w l =>
    if removable then Faultless l ∧ RemovedSettled keyID w l else Undisturbed keyID l
  idle := .idle

variable {removable : Bool} {keyID : String} {c : Int} {s : Store} {h : List (Call × Note)}
  {gs : Nat → Ghost} {i : Nat}

theorem redisKey_inj {a b : String} (heq : redisKey a = redisKey b) : a = b := by
  unfold redisKey at heq
  rw [← String.toList_inj] at heq ⊢
  simpa [String.toList_append] using heq

/-! ### What the buffers hold -/

theorem waiting_concat (buffer : List (Nat × CreditChange)) (node : Nat) (change : CreditChange) :
    waiting keyID (buffer ++ [(node, change)])
      = waiting keyID buffer ++ if change.keyID = keyID then [change.cost] else [] := by
  by_cases hk : change.keyID = keyID <;> simp [waiting, List.filter_append, hk]

variable {x : Nat × CreditChange}

theorem waiting_perm_erase (keyID : String) {buffer : List (Nat × CreditChange)} (hx : x ∈ buffer) :
    (waiting keyID buffer).Perm
      ((if x.2.keyID = keyID then [x.2.cost] else []) ++ waiting keyID (buffer.erase x)) := by
  have hperm := ((List.perm_cons_erase hx).filter fun y => decide (y.2.keyID = keyID)).map
    fun y => y.2.cost
  by_cases hk : x.2.keyID = keyID
  · simpa [waiting, hk] using hperm
  · simpa [waiting, hk] using hperm

theorem mem_waiting_erase {buffer : List (Nat × CreditChange)}
    (hx : x ∈ buffer) {d : Int} (hd : d ∈ waiting keyID (buffer.erase x)) :
    d ∈ waiting keyID buffer :=
  (waiting_perm_erase keyID hx).mem_iff.mpr (List.mem_append_right _ hd)

/-! ### The invariant under single changes -/

namespace SpendInv

theorem ghost (hinv : SpendInv removable keyID c s h gs) {g : Ghost}
    (howed : g.owed = (gs i).owed) (hneeds : g.NeedsCounter → s.redis (redisKey keyID) ≠ none)
    (hread : ∀ r, g = .read r → s.redis (redisKey keyID) = none → r = c - granted keyID h) :
    SpendInv removable keyID c s h (Function.update gs i g) := by
  refine ⟨hinv.bounded, hinv.limited, ?_, hinv.present, ?_, ?_, hinv.costs, ?_⟩
  · intro hnone
    obtain ⟨hkeys, hwait, hgs⟩ := hinv.absent hnone
    refine ⟨hkeys, hwait, ?_⟩
    exact forall_update gs (fun _ g => ¬ g.NeedsCounter) hgs fun hg => hneeds hg hnone
  · exact forall_update gs (fun _ g => ∀ r, g = .read r →
      s.redis (redisKey keyID) = none → r = c - granted keyID h) hinv.reads hread
  · exact forall_update gs (fun _ g => 0 ≤ g.owed) hinv.owed (by rw [howed]; exact hinv.owed i)
  · intro hrem
    obtain ⟨t, ht, hkeys⟩ := hinv.ledger hrem
    exact ⟨t, ht.update_of_eq (by omega), hkeys⟩

theorem toIdle (hinv : SpendInv removable keyID c s h gs) (howed : (gs i).owed = 0) :
    SpendInv removable keyID c s h (Function.update gs i .idle) :=
  hinv.ghost (by rw [howed]; rfl) (fun hn => hn.elim) nofun

theorem frame (hinv : SpendInv removable keyID c s h gs) {s' : Store} {h' : List (Call × Note)}
    (hredis : s'.redis (redisKey keyID) = s.redis (redisKey keyID))
    (hkeys : s'.keys keyID = s.keys keyID)
    (hwait : waiting keyID s'.buffer = waiting keyID s.buffer)
    (hgranted : granted keyID h' = granted keyID h) : SpendInv removable keyID c s' h' gs := by
  obtain ⟨bounded, limited, absent, present, reads, owed, costs, ledger⟩ := hinv
  exact ⟨by rwa [hgranted], by rwa [hkeys], by rwa [hredis, hkeys, hwait, hgranted],
    by rwa [hredis, hgranted], by rwa [hredis, hgranted], owed, by rwa [hwait],
    by rwa [hkeys, hwait, hgranted]⟩

theorem grant (hinv : SpendInv removable keyID c s h gs) {call : Call} {req : UsageRequest}
    (hreq : req.keyID = keyID) (hcost : 0 ≤ req.cost) (howed : (gs i).owed = 0) {v : Int}
    (hv : v = c - granted keyID h - req.cost) (hroom : 0 ≤ v) :
    SpendInv removable keyID c { s with redis := Function.update s.redis (redisKey keyID) (some v) }
      ((call, .granted req) :: h) (Function.update gs i (.owes req.cost)) := by
  have hsum : granted keyID ((call, Note.granted req) :: h) = req.cost + granted keyID h := by
    simp [granted, hreq]
  refine ⟨by omega, hinv.limited, ?_, ?_, ?_, ?_, hinv.costs, ?_⟩
  · intro hnone
    simp at hnone
  · intro v' hv'
    simp only [Function.update_self, Option.some.injEq] at hv'
    omega
  · intro j r _ hnone
    simp at hnone
  · exact forall_update gs (fun _ g => 0 ≤ g.owed) hinv.owed hcost
  · intro hrem
    obtain ⟨t, ht, hkeys⟩ := hinv.ledger hrem
    refine ⟨t + req.cost, ht.update_of_eq ?_, ?_⟩
    · show t + req.cost = t - (gs i).owed + req.cost
      omega
    · show s.keys keyID = some (some (c - granted keyID ((call, .granted req) :: h)
        + (waiting keyID s.buffer).sum + (t + req.cost)))
      rw [hkeys, hsum]
      congr 2
      omega

theorem initialised (hinv : SpendInv removable keyID c s h gs) (howed : (gs i).owed = 0) {v : Int}
    (hv : v = c - granted keyID h) :
    SpendInv removable keyID c { s with redis := Function.update s.redis (redisKey keyID) (some v) }
      h (Function.update gs i .idle) := by
  have hidle := hinv.toIdle howed
  refine ⟨hidle.bounded, hidle.limited, ?_, ?_, ?_, hidle.owed, hidle.costs, hidle.ledger⟩
  · intro hnone
    simp at hnone
  · intro v' hv'
    simp only [Function.update_self, Option.some.injEq] at hv'
    omega
  · intro j r _ hnone
    simp at hnone

theorem handOver (hinv : SpendInv removable keyID c s h gs) {cost : Int} (hg : gs i = .owes cost)
    (node : Nat) :
    SpendInv removable keyID c { s with buffer := s.buffer ++ [(node, ⟨keyID, cost⟩)] } h
      (Function.update gs i .idle) := by
  have hthere : s.redis (redisKey keyID) ≠ none := by
    intro hnone
    have := (hinv.absent hnone).2.2 i
    rw [hg] at this
    exact this trivial
  have hwait : waiting keyID (s.buffer ++ [(node, (⟨keyID, cost⟩ : CreditChange))])
      = waiting keyID s.buffer ++ [cost] := by
    rw [waiting_concat, if_pos rfl]
  have hcost : 0 ≤ cost := by
    have := hinv.owed i
    rwa [hg] at this
  refine ⟨hinv.bounded, hinv.limited, fun hnone => absurd hnone hthere, hinv.present,
    fun _ _ _ hnone => absurd hnone hthere, ?_, ?_, ?_⟩
  · exact forall_update gs (fun _ g => 0 ≤ g.owed) hinv.owed (Int.le_refl 0)
  · show ∀ x ∈ waiting keyID _, 0 ≤ x
    rw [hwait]
    intro x hx
    rcases List.mem_append.mp hx with hx | hx
    · exact hinv.costs x hx
    · rw [List.mem_singleton.mp hx]
      exact hcost
  · intro hrem
    obtain ⟨t, ht, hkeys⟩ := hinv.ledger hrem
    refine ⟨t - cost, ht.update_of_eq ?_, ?_⟩
    · rw [hg]
      show t - cost = t - cost + 0
      omega
    · show s.keys keyID = _
      rw [hkeys]
      show _ = some (some (c - granted keyID h + (waiting keyID _).sum + (t - cost)))
      rw [hwait, List.sum_append, List.sum_singleton]
      congr 2
      omega

theorem takeOff (hinv : SpendInv removable keyID c s h gs)
    (hx : x ∈ s.buffer) (hkey : x.2.keyID = keyID) (howed : (gs i).owed = 0) :
    SpendInv removable keyID c { s with buffer := s.buffer.erase x } h
      (Function.update gs i (.owes x.2.cost)) := by
  have hperm := waiting_perm_erase keyID hx
  rw [if_pos hkey] at hperm
  have hmem : x.2.cost ∈ waiting keyID s.buffer := hperm.mem_iff.mpr (List.mem_cons_self ..)
  have hthere : s.redis (redisKey keyID) ≠ none := by
    intro hnone
    rw [(hinv.absent hnone).2.1] at hmem
    cases hmem
  refine ⟨hinv.bounded, hinv.limited, fun hnone => absurd hnone hthere, hinv.present,
    fun _ _ _ hnone => absurd hnone hthere, ?_, ?_, ?_⟩
  · exact forall_update gs (fun _ g => 0 ≤ g.owed) hinv.owed (hinv.costs _ hmem)
  · intro d hd
    exact hinv.costs d (mem_waiting_erase hx hd)
  · intro hrem
    obtain ⟨t, ht, hkeys⟩ := hinv.ledger hrem
    refine ⟨t + x.2.cost, ht.update_of_eq ?_, ?_⟩
    · show t + x.2.cost = t - (gs i).owed + x.2.cost
      omega
    · have hsum := hperm.sum_eq
      simp only [List.singleton_append, List.sum_cons] at hsum
      show s.keys keyID = _
      rw [hkeys]
      congr 2
      show c - granted keyID h + (waiting keyID s.buffer).sum + t
        = c - granted keyID h + (waiting keyID (s.buffer.erase x)).sum + (t + x.2.cost)
      omega

theorem takeOff_other (hinv : SpendInv removable keyID c s h gs)
    (hx : x ∈ s.buffer) (hkey : x.2.keyID ≠ keyID) :
    SpendInv removable keyID c { s with buffer := s.buffer.erase x } h gs := by
  have hperm := waiting_perm_erase keyID hx
  rw [if_neg hkey, List.nil_append] at hperm
  obtain ⟨bounded, limited, absent, present, reads, owed, costs, ledger⟩ := hinv
  refine ⟨bounded, limited, ?_, present, reads, owed,
    fun d hd => costs d (mem_waiting_erase hx hd), ?_⟩
  · intro hnone
    obtain ⟨hkeys, hwait, hgs⟩ := absent hnone
    rw [hwait] at hperm
    exact ⟨hkeys, hperm.symm.eq_nil, hgs⟩
  · intro hrem
    obtain ⟨t, ht, hkeys⟩ := ledger hrem
    refine ⟨t, ht, ?_⟩
    show s.keys keyID = some (some (c - granted keyID h + (waiting keyID (s.buffer.erase x)).sum + t))
    rw [← hperm.sum_eq]
    exact hkeys

theorem written (hinv : SpendInv removable keyID c s h gs) {cost : Int} (hg : gs i = .owes cost) :
    SpendInv removable keyID c
      { s with keys := Function.update s.keys keyID ((s.keys keyID).map (creditsDecrement · cost)) }
      h (Function.update gs i .idle) := by
  have hthere : s.redis (redisKey keyID) ≠ none := by
    intro hnone
    have := (hinv.absent hnone).2.2 i
    rw [hg] at this
    exact this trivial
  obtain ⟨r, hr⟩ := hinv.limited
  refine ⟨hinv.bounded, ?_, fun hnone => absurd hnone hthere, hinv.present,
    fun _ _ _ hnone => absurd hnone hthere, ?_, hinv.costs, ?_⟩
  · show ∃ r, Function.update s.keys keyID _ keyID = some (some r)
    rw [Function.update_self, hr, Option.map_some]
    by_cases hle : cost ≤ r
    · exact ⟨r - cost, by simp [creditsDecrement, hle]⟩
    · exact ⟨0, by simp [creditsDecrement, hle]⟩
  · exact forall_update gs (fun _ g => 0 ≤ g.owed) hinv.owed (Int.le_refl 0)
  · intro hrem
    obtain ⟨t, ht, hkeys⟩ := hinv.ledger hrem
    -- the row still contains the change, so the subtraction does not stop at zero
    have hown : cost ≤ t := by
      have := ht.le hinv.owed i
      rwa [hg] at this
    have hsum : 0 ≤ (waiting keyID s.buffer).sum := List.sum_nonneg hinv.costs
    have hbounded := hinv.bounded
    refine ⟨t - cost, ht.update_of_eq ?_, ?_⟩
    · rw [hg]
      show t - cost = t - cost + 0
      omega
    · show Function.update s.keys keyID _ keyID = _
      rw [Function.update_self, hkeys]
      simp only [Option.map_some, creditsDecrement]
      rw [if_pos (by omega)]
      congr 2
      omega

theorem lost (hinv : SpendInv false keyID c s h gs) :
    SpendInv false keyID c s h (Function.update gs i .idle) := by
  obtain ⟨bounded, limited, absent, present, reads, owed, costs, -⟩ := hinv
  refine ⟨bounded, limited, ?_, present, ?_, ?_, costs, nofun⟩
  · intro hnone
    obtain ⟨hkeys, hwait, hgs⟩ := absent hnone
    exact ⟨hkeys, hwait, forall_update gs (fun _ g => ¬ g.NeedsCounter) hgs fun hn => hn⟩
  · exact forall_update gs (fun _ g => ∀ r, g = .read r →
      s.redis (redisKey keyID) = none → r = c - granted keyID h) reads nofun
  · exact forall_update gs (fun _ g => 0 ≤ g.owed) owed (Int.le_refl 0)

theorem removed (hinv : SpendInv true keyID c s h gs) (hwait : waiting keyID s.buffer = [])
    (hidle : ∀ j, gs j = .idle) :
    SpendInv true keyID c { s with redis := Function.update s.redis (redisKey keyID) none } h gs := by
  obtain ⟨t, ht, hkeys⟩ := hinv.ledger rfl
  have ht0 : t = 0 := ht.eq_zero fun j => by rw [hidle j]; rfl
  refine ⟨hinv.bounded, hinv.limited, ?_, ?_, ?_, hinv.owed, hinv.costs, hinv.ledger⟩
  · intro _
    refine ⟨?_, hwait, fun j => by rw [hidle j]; exact id⟩
    show s.keys keyID = _
    rw [hkeys, hwait, ht0]
    simp
  · intro v hv
    simp at hv
  · intro j r hr
    rw [hidle j] at hr
    cases hr

end SpendInv

end Unkey.UsageLimiter
