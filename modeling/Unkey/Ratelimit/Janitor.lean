import Unkey.Base.Protocol
import Unkey.Ratelimit.Service

/-!
# The janitor and the strict-mode deadlines

`setStrictUntil` and `runJanitorOnce` at the granularity of single operations on the `sync.Map` and
on the `atomic.Int64` its values point to.
-/

namespace Unkey.Ratelimit.Janitor

open Unkey.Base

abbrev Ptr := Nat

/-- The two maps, every pair that `strictUntils` has ever held, and the integers in memory. -/
structure Store where
  counters : CounterKey → Option Ptr
  strictUntils : StrictKey → Option Ptr
  stored : List (StrictKey × Ptr)
  heap : Ptr → Int
  unused : Ptr

def Store.start (counters : CounterKey → Option Ptr) : Store :=
  ⟨counters, fun _ => none, [], fun _ => 0, 0⟩

def Store.loadStrictUntil (s : Store) (key : StrictKey) : Int :=
  match s.strictUntils key with
  | none => 0
  | some val => s.heap val

inductive Op where
  | loadOrStore (key : StrictKey)
  | load (target : Ptr)
  | compareAndSwap (target : Ptr) (old new : Int) (retries : Nat)
  | rangeStrict (key : StrictKey)
  | deleteStrict (key : StrictKey) (value : Ptr)
  | rangeCounter (key : CounterKey)
  | deleteCounter (key : CounterKey) (value : Ptr)
  deriving DecidableEq

def Op.Ret : Op → Type
  | .loadOrStore _ => Ptr
  | .load _ => Int
  | .compareAndSwap _ _ _ _ => Bool
  | .rangeStrict _ => Option Ptr
  | .deleteStrict _ _ => Bool
  | .rangeCounter _ => Option Ptr
  | .deleteCounter _ _ => Bool

inductive Note where
  | set (key : StrictKey) (untilMs : Int)
  | observed (nowMs : Int)
  deriving DecidableEq

abbrev Code := Prog Op Op.Ret Note

/-! ### The programs -/

def loadOrStore (key : StrictKey) : Code Ptr := Prog.perform (Op.loadOrStore key)

def load (target : Ptr) : Code Int := Prog.perform (Op.load target)

def compareAndSwap (target : Ptr) (old new : Int) (retries : Nat) : Code Bool :=
  Prog.perform (Op.compareAndSwap target old new retries)

def rangeStrict (key : StrictKey) : Code (Option Ptr) := Prog.perform (Op.rangeStrict key)

def deleteStrict (key : StrictKey) (value : Ptr) : Code Bool :=
  Prog.perform (Op.deleteStrict key value)

def rangeCounter (key : CounterKey) : Code (Option Ptr) := Prog.perform (Op.rangeCounter key)

def deleteCounter (key : CounterKey) (value : Ptr) : Code Bool :=
  Prog.perform (Op.deleteCounter key value)

/-- The loop of `atomicMax`. -/
def atomicMaxLoop (target : Ptr) (val : Int) : (retries : Nat) → Code Unit
  | 0 => pure ()
  | retries + 1 => do
    let cur ← load target
    if val ≤ cur then pure ()
    else do
      match ← compareAndSwap target cur val retries with
      | true => pure ()
      | false => atomicMaxLoop target val retries

def atomicMax (target : Ptr) (val : Int) : Code Unit := atomicMaxLoop target val maxCASRetries

def setStrictUntil (key : StrictKey) (untilMs : Int) : Code Unit := do
  let val ← loadOrStore key
  atomicMax val untilMs
  Prog.tell (.set key untilMs)

def aged (k : CounterKey) (now : Int) : Bool :=
  decide (k.sequence * k.durationMs * 1000000 + 3 * (k.durationMs * 1000000) < now)

def visitCounter (now : Int) (key : CounterKey) : Code Unit := do
  match ← rangeCounter key with
  | none => pure ()
  | some value =>
    if aged key now then do
      let _ ← deleteCounter key value
      pure ()
    else pure ()

def visitStrict (nowMs : Int) (key : StrictKey) : Code Unit := do
  match ← rangeStrict key with
  | none => pure ()
  | some value => do
    let deadline ← load value
    if deadline < nowMs then do
      let _ ← deleteStrict key value
      pure ()
    else pure ()

def runJanitorOnce (now : Int) (counterKeys : List CounterKey) (strictKeys : List StrictKey) :
    Code Unit := do
  Prog.tell (.observed (unixMilli now))
  counterKeys.forM (visitCounter now)
  strictKeys.forM (visitStrict (unixMilli now))

inductive Call where
  | setStrictUntil (key : StrictKey) (untilMs : Int)
  | runJanitorOnce (now : Int) (counterKeys : List CounterKey) (strictKeys : List StrictKey)
  deriving DecidableEq

def body : Call → Code Unit
  | .setStrictUntil key untilMs => setStrictUntil key untilMs
  | .runJanitorOnce now counterKeys strictKeys => runJanitorOnce now counterKeys strictKeys

/-! ### The operations -/

def Store.insert (s : Store) (key : StrictKey) : Store where
  counters := s.counters
  strictUntils := Function.update s.strictUntils key (some s.unused)
  stored := (key, s.unused) :: s.stored
  heap := Function.update s.heap s.unused 0
  unused := s.unused + 1

/-- One operation. -/
def apply (_ : Call) : (op : Op) → (handed : Option Ptr) → Store → Option (op.Ret × Store)
  | .loadOrStore key, _, s =>
    match s.strictUntils key with
    | some val => some (val, s)
    | none => some (s.unused, s.insert key)
  | .load target, _, s => some (s.heap target, s)
  | .compareAndSwap target old new _, _, s =>
    if s.heap target = old then some (true, { s with heap := Function.update s.heap target new })
    else some (false, s)
  | .rangeStrict _, none, s => some (none, s)
  | .rangeStrict key, some value, s =>
    if (key, value) ∈ s.stored then some (some value, s) else none
  | .deleteStrict key value, _, s =>
    if s.strictUntils key = some value then
      some (true, { s with strictUntils := Function.update s.strictUntils key none })
    else some (false, s)
  | .rangeCounter _, none, s => some (none, s)
  | .rangeCounter key, some value, s =>
    if s.counters key = some value then some (some value, s) else none
  | .deleteCounter key value, _, s =>
    if s.counters key = some value then
      some (true, { s with counters := Function.update s.counters key none })
    else some (false, s)

abbrev State := World Store Call Op Op.Ret Note

abbrev step := worldStep apply body

/-! ### What may be lost -/

def Note.After (untilMs : Int) : Note → Prop
  | .set _ _ => False
  | .observed nowMs => untilMs < nowMs

def Outdated (h : List (Call × Note)) (untilMs : Int) : Prop := ∃ x ∈ h, x.2.After untilMs

def Kept (w : State) : Prop :=
  ∀ x ∈ w.history, ∀ key untilMs, x.2 = .set key untilMs →
    Outdated w.history untilMs ∨ untilMs ≤ w.shared.loadStrictUntil key

def Op.Uses (p : Ptr) : Op → Bool
  | .load target => target = p
  | .compareAndSwap target _ _ _ => target = p
  | _ => false

def holding (p : Ptr) (t : Thread Call Op Op.Ret Note) : Option Int :=
  match t.call with
  | .setStrictUntil _ untilMs => if t.prog.next.any (Op.Uses p) then some untilMs else none
  | .runJanitorOnce _ _ _ => none

def Spent (w : State) (p : Ptr) : Prop :=
  Outdated w.history (w.shared.heap p) ∧
    ∀ t ∈ w.threads, ∀ untilMs ∈ holding p t, Outdated w.history untilMs

/-- What is asked of an operation: a deletion removes a spent address, and the last retry of
`atomicMax` succeeds. -/
def Op.Safe (w : State) : Op → Prop
  | .deleteStrict key value => w.shared.strictUntils key = some value → Spent w value
  | .compareAndSwap target old _ 0 => w.shared.heap target = old
  | _ => True

def Safe (w : State) (turn : Turn Call (Option Ptr)) : Prop := w.Performs (Op.Safe w) turn

instance (untilMs : Int) : DecidablePred (Note.After untilMs)
  | .set _ _ => .isFalse id
  | .observed nowMs => inferInstanceAs (Decidable (untilMs < nowMs))

instance (h : List (Call × Note)) (untilMs : Int) : Decidable (Outdated h untilMs) := by
  unfold Outdated
  infer_instance

instance (w : State) (p : Ptr) : Decidable (Spent w p) := by
  unfold Spent
  infer_instance

instance (w : State) : DecidablePred (Op.Safe w)
  | .deleteStrict key value =>
    inferInstanceAs (Decidable (w.shared.strictUntils key = some value → Spent w value))
  | .compareAndSwap target old _ 0 => inferInstanceAs (Decidable (w.shared.heap target = old))
  | .compareAndSwap _ _ _ (_ + 1) | .loadOrStore _ | .load _ | .rangeStrict _ | .rangeCounter _
  | .deleteCounter _ _ => .isTrue trivial

instance (w : State) (turn : Turn Call (Option Ptr)) : Decidable (Safe w turn) :=
  inferInstanceAs (Decidable (w.Performs (Op.Safe w) turn))

/-! ### The protocol -/

inductive Ghost where
  | idle
  | holds (key : StrictKey) (target : Ptr) (untilMs : Int)
  deriving DecidableEq

def Ghost.At (c : Call) : Ghost → Op → Prop
  | .idle, _ => True
  | .holds key target untilMs, op => c = .setStrictUntil key untilMs ∧ op.Uses target = true

def Ghost.Sound (s : Store) (h : List (Call × Note)) : Ghost → Prop
  | .idle => True
  | .holds key p untilMs => Outdated h untilMs ∨ s.strictUntils key = some p

structure DeadlineInv (s : Store) (h : List (Call × Note)) (gs : Nat → Ghost) : Prop where
  allocated : ∀ key p, s.strictUntils key = some p → p < s.unused
  set : ∀ x ∈ h, ∀ key untilMs, x.2 = .set key untilMs →
    Outdated h untilMs ∨ ∃ p, s.strictUntils key = some p ∧ untilMs ≤ s.heap p
  held : ∀ i, (gs i).Sound s h

def deadlines : Protocol Store Call Op Op.Ret Note (Option Ptr) Ghost where
  Inv := DeadlineInv
  At := Ghost.At
  Guard := Safe
  idle := .idle

theorem Note.After.mono {a b : Int} (hle : a ≤ b) {n : Note} (hn : n.After b) : n.After a := by
  cases n with
  | set => exact hn
  | observed nowMs => exact Int.lt_of_le_of_lt hle hn

variable {untilMs : Int}

theorem Outdated.cons {h : List (Call × Note)} (hout : Outdated h untilMs)
    (x : Call × Note) : Outdated (x :: h) untilMs := by
  obtain ⟨y, hy, hafter⟩ := hout
  exact ⟨y, List.mem_cons_of_mem _ hy, hafter⟩

variable {key : StrictKey} {target : Ptr} {s s' : Store} {h h' : List (Call × Note)}
  {gs : Nat → Ghost} {g : Ghost} {i : Nat}

theorem Ghost.Sound.mono (hg : g.Sound s h) (hout : ∀ untilMs, Outdated h untilMs → Outdated h' untilMs)
    (hkeys : ∀ key p, s.strictUntils key = some p → s'.strictUntils key = some p) :
    g.Sound s' h' := by
  cases g with
  | idle => trivial
  | holds key p untilMs => exact Or.imp (hout untilMs) (hkeys key p) hg

namespace DeadlineInv

theorem update (hinv : DeadlineInv s h gs) (hg : g.Sound s h) :
    DeadlineInv s h (Function.update gs i g) :=
  ⟨hinv.allocated, hinv.set, forall_update gs (fun _ g => g.Sound s h) hinv.held hg⟩

theorem insert (hinv : DeadlineInv s h gs) (hnone : s.strictUntils key = none) :
    DeadlineInv (s.insert key) h gs := by
  -- the other keys keep their addresses, and these are not the new one
  have hother (key' : StrictKey) (p : Ptr) (hp : s.strictUntils key' = some p) :
      (s.insert key).strictUntils key' = some p := by
    refine (Function.update_of_ne ?_ _ _).trans hp
    rintro rfl
    rw [hnone] at hp
    cases hp
  refine ⟨?_, ?_, fun j => (hinv.held j).mono (fun _ => id) hother⟩
  · refine forall_update s.strictUntils (fun _ o => ∀ p, o = some p → p < s.unused + 1) ?_ ?_
    · exact fun key' p hp => Nat.lt_succ_of_lt (hinv.allocated key' p hp)
    · rintro _ ⟨⟩
      exact Nat.lt_succ_self _
  · intro x hx key' untilMs hset
    refine (hinv.set x hx key' untilMs hset).imp_right ?_
    rintro ⟨p, hp, hle⟩
    have hheap : (s.insert key).heap p = s.heap p :=
      Function.update_of_ne (Nat.ne_of_lt (hinv.allocated key' p hp)) _ _
    exact ⟨p, hother key' p hp, by rw [hheap]; exact hle⟩

theorem raise (hinv : DeadlineInv s h gs) {new : Int} (hle : s.heap target ≤ new) :
    DeadlineInv { s with heap := Function.update s.heap target new } h gs := by
  refine ⟨hinv.allocated, ?_, hinv.held⟩
  intro x hx key untilMs hset
  refine (hinv.set x hx key untilMs hset).imp_right ?_
  rintro ⟨p, hp, hge⟩
  refine ⟨p, hp, ?_⟩
  show untilMs ≤ Function.update s.heap target new p
  by_cases htarget : p = target
  · rw [htarget, Function.update_self]
    rw [htarget] at hge
    omega
  · rwa [Function.update_of_ne htarget]

theorem note (hinv : DeadlineInv s h gs) {x : Call × Note} (hx : ∀ key untilMs,
    x.2 = .set key untilMs →
      Outdated h untilMs ∨ ∃ p, s.strictUntils key = some p ∧ untilMs ≤ s.heap p) :
    DeadlineInv s (x :: h) gs := by
  refine ⟨hinv.allocated, List.forall_mem_cons.mpr ⟨?_, ?_⟩, fun j =>
    (hinv.held j).mono (fun _ hout => hout.cons x) fun _ _ hp => hp⟩
  · exact fun key untilMs hset => (hx key untilMs hset).imp_left (·.cons x)
  · exact fun y hy key untilMs hset => (hinv.set y hy key untilMs hset).imp_left (·.cons x)

theorem complete (hinv : DeadlineInv s h gs) {p : Ptr}
    (hi : gs i = .holds key p untilMs) (hle : untilMs ≤ s.heap p) (c : Call) :
    DeadlineInv s ((c, .set key untilMs) :: h) gs := by
  refine hinv.note ?_
  rintro _ _ ⟨⟩
  have hheld := hinv.held i
  rw [hi] at hheld
  exact hheld.imp_right fun hp => ⟨p, hp, hle⟩

theorem delete (hinv : DeadlineInv s h gs) {p : Ptr}
    (hp : s.strictUntils key = some p) (hdeadline : Outdated h (s.heap p))
    (hheld : ∀ j k untilMs, gs j = .holds k p untilMs → Outdated h untilMs) :
    DeadlineInv { s with strictUntils := Function.update s.strictUntils key none } h gs := by
  -- what a key has, it still has, unless it is the address that goes
  have hother (key' : StrictKey) (q : Ptr) (hq : s.strictUntils key' = some q) :
      q = p ∨ Function.update s.strictUntils key none key' = some q := by
    by_cases hkey : key' = key
    · rw [hkey, hp] at hq
      exact .inl (Option.some.inj hq).symm
    · exact .inr ((Function.update_of_ne hkey _ _).trans hq)
  refine ⟨?_, ?_, ?_⟩
  · exact forall_update s.strictUntils (fun _ o => ∀ q, o = some q → q < s.unused) hinv.allocated
      nofun
  · intro x hx key' untilMs hset
    rcases hinv.set x hx key' untilMs hset with hout | ⟨q, hq, hle⟩
    · exact .inl hout
    · rcases hother key' q hq with rfl | hq
      · obtain ⟨y, hy, hafter⟩ := hdeadline
        exact .inl ⟨y, hy, hafter.mono hle⟩
      · exact .inr ⟨q, hq, hle⟩
  · intro j
    cases hj : gs j with
    | idle => trivial
    | holds key' q untilMs =>
      have hsound := hinv.held j
      rw [hj] at hsound
      rcases hsound with hout | hq
      · exact .inl hout
      · rcases hother key' q hq with rfl | hq
        · exact .inl (hheld j key' untilMs hj)
        · exact .inr hq

theorem held_of_spent {w : State} {gs : Nat → Ghost} (hd : deadlines.Describes w gs) {p : Ptr}
    (hspent : Spent w p) {j : Nat}
    (hj : gs j = .holds key p untilMs) : Outdated w.history untilMs := by
  obtain ⟨c, op, hat⟩ := hd.busy j (by rw [hj]; exact nofun)
  have hpos : Ghost.At c (gs j) op := hd.pos j c op hat
  rw [hj] at hpos
  obtain ⟨rfl, huses⟩ := hpos
  obtain ⟨t, ht, hcall, hnext⟩ := hat
  refine hspent.2 t (List.mem_of_getElem? ht) untilMs ?_
  simp [holding, hcall, hnext, huses]

end DeadlineInv

/-! ### The calls keep the protocol -/

section Calls

variable {c : Call}

theorem apply_compareAndSwap {old new : Int} {retries : Nat} {ch : Option Ptr}
    {r : Bool} {s' : Store}
    (happ : apply c (.compareAndSwap target old new retries) ch s = some (r, s')) :
    (s.heap target = old ∧ r = true ∧
        s' = { s with heap := Function.update s.heap target new }) ∨
      (s.heap target ≠ old ∧ r = false ∧ s' = s) := by
  rw [apply] at happ
  split at happ
  · rename_i heq
    cases happ
    exact .inl ⟨heq, rfl, rfl⟩
  · rename_i hne
    cases happ
    exact .inr ⟨hne, rfl, rfl⟩

theorem apply_rangeStrict {ch r : Option Ptr} {s' : Store}
    (happ : apply c (.rangeStrict key) ch s = some (r, s')) : s' = s := by
  cases ch with
  | none =>
    cases happ
    rfl
  | some value =>
    rw [apply] at happ
    split at happ <;> cases happ
    rfl

theorem apply_rangeCounter {key : CounterKey} {ch r : Option Ptr} {s' : Store}
    (happ : apply c (.rangeCounter key) ch s = some (r, s')) : s' = s := by
  cases ch with
  | none =>
    cases happ
    rfl
  | some value =>
    rw [apply] at happ
    split at happ <;> cases happ
    rfl

def Raised (i : Nat) (key : StrictKey) (target : Ptr) (untilMs : Int) :
    Assertion Store Call Note Ghost :=
  fun s h gs => gs i = .holds key target untilMs ∧ DeadlineInv s h gs ∧ untilMs ≤ s.heap target

theorem raises_atomicMaxLoop {retries : Nat} (hretries : retries ≠ 0) :
    deadlines.Triple apply (.setStrictUntil key untilMs) i
      (deadlines.Owns i (.holds key target untilMs)) (atomicMaxLoop target untilMs retries)
      fun _ => Raised i key target untilMs := by
  induction retries with
  | zero => exact absurd rfl hretries
  | succ retries ih =>
    refine .act ⟨rfl, by simp [Op.Uses]⟩ ?_
    intro w gs' ch r s' hd hgi _ _ happ
    cases happ
    split
    · rename_i hle
      exact ⟨hgi, hd.inv, hle⟩
    rename_i hlt
    refine Protocol.Triple.act (P := deadlines) ?_ ?_ (hd.owns hgi)
    · exact ⟨rfl, by simp [Op.Uses]⟩
    intro w gs' ch r s' hd hgi hat hguard happ
    obtain ⟨heq, rfl, rfl⟩ | ⟨hne, rfl, rfl⟩ := apply_compareAndSwap happ
    · refine ⟨hgi, hd.inv.raise (by omega), ?_⟩
      show untilMs ≤ Function.update w.shared.heap target untilMs target
      rw [Function.update_self]
    · refine ih ?_ (hd.owns hgi)
      rintro rfl
      have hsafe : Safe w (.run i ch) := hguard
      exact hne (World.Performs.at hsafe hat)

abbrev StaysIdle (c : Call) (i : Nat) (p : Code Unit) : Prop :=
  deadlines.Keeps apply c i (deadlines.Owns i .idle) p

theorem staysIdle_setStrictUntil (key : StrictKey) (untilMs : Int) :
    StaysIdle (.setStrictUntil key untilMs) i (setStrictUntil key untilMs) := by
  refine .act trivial ?_
  intro w gs' ch r s' hd hgi _ _ happ
  -- the key has the address that the call goes on with
  have hkey : DeadlineInv s' w.history gs' ∧ s'.strictUntils key = some r := by
    rw [apply] at happ
    split at happ
    · rename_i val hval
      cases happ
      exact ⟨hd.inv, hval⟩
    · rename_i hnone
      cases happ
      exact ⟨hd.inv.insert hnone, Function.update_self _ _ _⟩
  refine (raises_atomicMaxLoop (by decide)).bind ?_ (hkey.1.update (.inr hkey.2))
  rintro _ s h gs ⟨hgi, hinv, hle⟩
  exact (hinv.complete hgi hle _).update trivial

theorem staysIdle_visitCounter (now : Int) (key : CounterKey) :
    StaysIdle c i (visitCounter now key) := by
  refine .act trivial ?_
  intro w gs' ch r s' hd hgi _ _ happ
  rw [apply_rangeCounter happ]
  refine (?_ : StaysIdle c i _) (hd.owns hgi)
  cases r with
  | none => exact .skip
  | some value =>
    dsimp only
    split
    · refine .act trivial ?_
      intro w gs' ch r s' hd hgi _ _ happ
      refine Protocol.owns_of_inv (P := deadlines) hgi ?_
      rw [apply] at happ
      split at happ <;> cases happ
      · exact ⟨hd.inv.allocated, hd.inv.set, fun j => (hd.inv.held j).mono (fun _ => id) fun _ _ => id⟩
      · exact hd.inv
    · exact .skip

theorem staysIdle_visitStrict (nowMs : Int) (key : StrictKey) :
    StaysIdle c i (visitStrict nowMs key) := by
  refine .act trivial ?_
  intro w gs' ch r s' hd hgi _ _ happ
  rw [apply_rangeStrict happ]
  refine (?_ : StaysIdle c i _) (hd.owns hgi)
  cases r with
  | none => exact .skip
  | some value =>
    refine .act trivial ?_
    intro w gs' ch r s' hd hgi _ _ happ
    cases happ
    refine (?_ : StaysIdle c i _) (hd.owns hgi)
    split
    · refine .act trivial ?_
      intro w gs' ch r s' hd hgi hat hguard happ
      refine Protocol.owns_of_inv (P := deadlines) hgi ?_
      rw [apply] at happ
      split at happ <;> cases happ
      · rename_i hp
        have hsafe : Safe w (.run i ch) := hguard
        have hspent : Spent w value := World.Performs.at hsafe hat hp
        exact hd.inv.delete hp hspent.1 fun j k untilMs hj =>
          DeadlineInv.held_of_spent hd hspent hj
      · exact hd.inv
    · exact .skip

theorem staysIdle_runJanitorOnce (now : Int) (counterKeys : List CounterKey)
    (strictKeys : List StrictKey) :
    StaysIdle c i (runJanitorOnce now counterKeys strictKeys) := by
  intro s h gs hown
  have hseen : DeadlineInv s ((c, .observed (unixMilli now)) :: h) (Function.update gs i .idle) :=
    DeadlineInv.note hown nofun
  refine (Protocol.Triple.forM (I := fun _ => deadlines.Owns i .idle) counterKeys
    fun _ key _ _ => staysIdle_visitCounter now key).bind (fun _ => ?_) hseen
  exact .forM (I := fun _ => deadlines.Owns i .idle) strictKeys
    fun _ key _ _ => staysIdle_visitStrict _ key

theorem deadlines_obeyed : deadlines.Obeyed apply body := by
  intro w gs c hd hgi _
  cases c with
  | setStrictUntil key untilMs => exact staysIdle_setStrictUntil key untilMs (hd.owns hgi)
  | runJanitorOnce now counterKeys strictKeys =>
    exact staysIdle_runJanitorOnce now counterKeys strictKeys (hd.owns hgi)

end Calls

/-- No interleaving whose operations are all safe loses a deadline. -/
theorem kept_of_safe (counters : CounterKey → Option Ptr)
    {past : List (State × Turn Call (Option Ptr))} {w : State}
    (hrun : Run step (World.init (Store.start counters)) past w)
    (hsafe : Always (fun _ w turn => Safe w turn) past) : Kept w := by
  have h0 : DeadlineInv (Store.start counters) [] (fun _ => .idle) :=
    ⟨by simp [Store.start], by simp, fun _ => trivial⟩
  obtain ⟨gs, hd⟩ := deadlines.sound h0 deadlines_obeyed hrun hsafe
  intro x hx key untilMs hset
  refine (hd.inv.set x hx key untilMs hset).imp_right ?_
  rintro ⟨p, hp, hle⟩
  rw [Store.loadStrictUntil, hp]
  exact hle

/-! ### Two schedules -/

def tuple : StrictKey := ⟨"ws_1", "api", "user_1", 60000⟩

def pass (nowMs : Int) : Call := .runJanitorOnce (nowMs * 1000000) [] [tuple]

/-- A deadline passes, the janitor removes it, and another one is set. -/
theorem kept_after_pass :
    ∃ past w, Run step (World.init (Store.start fun _ => none)) past w ∧
      Always (fun _ w turn => Safe w turn) past ∧ Kept w ∧
      w.shared.loadStrictUntil tuple = 200 ∧ w.shared.stored = [(tuple, 1), (tuple, 0)] := by
  refine Run.exists_of_record (P := fun past w => Always (fun _ w turn => Safe w turn) past ∧
      w.shared.loadStrictUntil tuple = 200 ∧ w.shared.stored = [(tuple, 1), (tuple, 0)])
    [.spawn (.setStrictUntil tuple 100), .run 0 none, .run 0 none, .run 0 none,
      .spawn (pass 150), .run 1 (some 0), .run 1 none, .run 1 none,
      .spawn (.setStrictUntil tuple 200), .run 2 none, .run 2 none, .run 2 none] (by decide +kernel) ?_
  rintro past w hrun ⟨hsafe, hload, hstored⟩
  exact ⟨hsafe, kept_of_safe _ hrun hsafe, hload, hstored⟩

/-- The janitor reads a deadline that has passed; before it deletes the key, the deadline is raised
to a time that no pass has observed. -/
theorem raised_deadline_deleted :
    ∃ past w, Run step (World.init (Store.start fun _ => none)) past w ∧
      (∃ x ∈ w.history, x.2 = .set tuple 200) ∧ ¬ Outdated w.history 200 ∧
      w.shared.loadStrictUntil tuple = 0 :=
  Run.exists_of_record
    [.spawn (.setStrictUntil tuple 100), .run 0 none, .run 0 none, .run 0 none,
      .spawn (pass 150), .run 1 (some 0), .run 1 none,
      .spawn (.setStrictUntil tuple 200), .run 2 none, .run 2 none, .run 2 none, .run 1 none]
    (by decide +kernel) fun _ _ _ h => h

end Unkey.Ratelimit.Janitor
