import Mathlib.Algebra.Order.BigOperators.Group.List
import Mathlib.Algebra.Ring.Int.Defs
import Unkey.Ratelimit.Rules

/-!
# What the goroutines of a node do to the counts

The five kinds of work on a node, seen as a sequence of actions on the counts: a merge, a commit,
the increments of a batch and their rollback, and a push.
-/

namespace Unkey.Ratelimit

open Unkey.Base

abbrev NodeWorld := World Node Task Op Op.Ret Note

def nodeApply (_ : Task) (op : Op) (e : Env) (n : Node) : Option (op.Ret × Node) := n.apply e op

abbrev nodeStep (F : Floats) := worldStep nodeApply (Task.body F)

abbrev History := List (Task × Note)

/-- The cost of one item of a batch on its cell. -/
structure Stake where
  key : CounterKey
  cost : Int
  count : Int

def Item.stake (it : Item) : Stake := ⟨it.cs.cur, it.req.cost, it.newCount⟩

def Item.mark (it : Item) : Stake := ⟨it.cs.cur, it.req.cost, 0⟩

/-- What a thread contributes: the items of its batch whose cost is in `val`, those whose cost is
in `speculative`, whether it has begun to roll back, the `val` a push has loaded and not yet
completed, and the rows a push has collected. -/
structure Ghost where
  stakes : List Stake
  marks : List Stake
  rolling : Bool
  loaded : Option (CounterKey × Int)
  rows : List GlobalRow

def Ghost.idle : Ghost := ⟨[], [], false, none, []⟩

def Ghost.batch (stakes marks : List Stake) (rolling : Bool) : Ghost :=
  ⟨stakes, marks, rolling, none, []⟩

def Ghost.push (loaded : Option (CounterKey × Int)) (rows : List GlobalRow) : Ghost :=
  ⟨[], [], false, loaded, rows⟩

def Task.Names : Task → CounterKey → Prop
  | .ratelimitMany reqs, k => ∃ req ∈ reqs, ∃ now, (req.timed now).curKey = k
  | _, _ => False

/-- A push that has loaded `val` of an entry loads `speculative` of the same entry next, and a
batch has announced cells it names. -/
structure Ghost.At (c : Task) (g : Ghost) (op : Op) : Prop where
  next : ∀ k v, g.loaded = some (k, v) → op = .load (.entry k .speculative) false
  named : ∀ m ∈ g.marks, c.Names m.key

structure Ghost.Free (c : Task) (g : Ghost) : Prop where
  loaded : g.loaded = none
  named : ∀ m ∈ g.marks, c.Names m.key

theorem Ghost.Free.at {c : Task} {g : Ghost} (hg : g.Free c) (op : Op) : g.At c op := by
  refine ⟨?_, hg.named⟩
  intro k v heq
  rw [hg.loaded] at heq
  cases heq

theorem Ghost.Free.idle (c : Task) : Ghost.idle.Free c :=
  ⟨rfl, nofun⟩

theorem Ghost.Free.push (c : Task) (rows : List GlobalRow) : (Ghost.push none rows).Free c :=
  ⟨rfl, nofun⟩

theorem Ghost.Free.batch {c : Task} {items : List Item} (hnamed : ∀ it ∈ items, c.Names it.cs.cur)
    (stakes : List Stake) (rolling : Bool) :
    (Ghost.batch stakes (items.map Item.mark) rolling).Free c := by
  refine ⟨rfl, ?_⟩
  intro m hm
  obtain ⟨it, hit, rfl⟩ := List.mem_map.mp hm
  exact hnamed it hit

def costOn (k : CounterKey) (stakes : List Stake) : Int :=
  ((stakes.filter (·.key = k)).map (·.cost)).sum

@[simp] theorem costOn_nil (k : CounterKey) : costOn k [] = 0 := rfl

theorem costOn_cons (k : CounterKey) (st : Stake) (stakes : List Stake) :
    costOn k (st :: stakes) = (if st.key = k then st.cost else 0) + costOn k stakes := by
  by_cases hk : st.key = k <;> simp [costOn, hk]

theorem costOn_append (k : CounterKey) (stakes more : List Stake) :
    costOn k (stakes ++ more) = costOn k stakes + costOn k more := by
  simp [costOn, List.filter_append]

theorem costOn_concat (k : CounterKey) (stakes : List Stake) (st : Stake) :
    costOn k (stakes ++ [st]) = costOn k stakes + if st.key = k then st.cost else 0 := by
  rw [costOn_append, costOn_cons, costOn_nil, add_zero]

theorem costOn_nonneg {stakes : List Stake} (hcost : ∀ st ∈ stakes, 0 ≤ st.cost)
    (k : CounterKey) : 0 ≤ costOn k stakes := by
  apply List.sum_nonneg
  intro x hx
  obtain ⟨st, hst, rfl⟩ := List.mem_map.mp hx
  exact hcost st (List.mem_of_mem_filter hst)

theorem costOn_stake (k : CounterKey) (items : List Item) :
    costOn k (items.map Item.stake) = costOn k (items.map Item.mark) := by
  induction items with
  | nil => rfl
  | cons it items ih =>
    simp only [List.map_cons, costOn_cons, ih]
    rfl

def committedOn (k : CounterKey) (h : History) : List RatelimitRequest :=
  (h.flatMap fun p => p.2.reqs).filter (·.curKey = k)

def spentOn (k : CounterKey) (h : History) : Int := ((committedOn k h).map (·.cost)).sum

theorem committedOn_committed (k : CounterKey) (c : Task) (reqs : List RatelimitRequest)
    (h : History) : committedOn k ((c, .committed reqs) :: h)
      = reqs.filter (·.curKey = k) ++ committedOn k h := by
  simp [committedOn, Note.reqs]

theorem spentOn_one (k : CounterKey) (c : Task) (req : RatelimitRequest) (h : History) :
    spentOn k ((c, .committed [req]) :: h)
      = (if req.curKey = k then req.cost else 0) + spentOn k h := by
  rw [spentOn, committedOn_committed]
  by_cases hk : req.curKey = k <;> simp [hk, spentOn]

theorem spentOn_batch {items : List Item} (hcheck : ∀ it ∈ items, it.cs.cur = it.req.curKey)
    (k : CounterKey) (c : Task) (h : History) :
    spentOn k ((c, .committed (items.map Item.req)) :: h)
      = costOn k (items.map Item.stake) + spentOn k h := by
  rw [spentOn, committedOn_committed, List.map_append, List.sum_append]
  congr 1
  induction items with
  | nil => rfl
  | cons it items ih =>
    have hit : it.cs.cur = it.req.curKey := hcheck it List.mem_cons_self
    have hrest := ih fun it' hit' => hcheck it' (List.mem_cons_of_mem _ hit')
    rw [List.map_cons, List.map_cons, costOn_cons, ← hrest]
    by_cases hk : it.req.curKey = k <;> simp [Item.stake, hit, hk]

structure Passing (F : Floats) (Good : Int → Prop) (req : RatelimitRequest) (cs : CheckState)
    (count : Int) : Prop where
  valid : validate req = none
  check : cs.For req
  curGlobal : Good cs.curGlobal
  prevGlobal : Good cs.prevGlobal
  fits : ∃ prev, Good prev ∧ cs.slidingWindowCount F count prev ≤ req.limit

variable (F : Floats) (Inv : Assertion Node Task Note Ghost)
  (Guard : NodeWorld → Turn Task Env → Prop) (Good : Int → Prop)

def bookkeeping : Protocol Node Task Op Op.Ret Note Env Ghost where
  Inv := Inv
  At := fun c g op => g.At c op
  Guard := Guard
  idle := .idle

/-- The invariant survives every action on the counts, at turns that meet the guard. -/
structure Bookkeeping : Prop where
  good : ∀ {n : Node} {h gs}, Inv n h gs → ∀ k,
    Good (n.get (.entry k .val)) ∧ Good (n.get (.entry k .globalCount))
  still : ∀ {n n' : Node} {h gs}, Inv n h gs → (∀ t : Target, t.quiet = false → n'.get t = n.get t) →
    n'.written = n.written → Inv n' h gs
  covered : ∀ {w : NodeWorld} {gs i c e k v},
    (bookkeeping Inv Guard).Describes w gs → w.IsAt i c (.load (.entry k .val) true) →
    Guard w (.run i e) → v ≤ w.shared.get (.entry k .val) →
    Inv w.shared ((c, .merged k v) :: w.history) gs
  swapped : ∀ {w : NodeWorld} {gs i c e k v},
    (bookkeeping Inv Guard).Describes w gs →
    w.IsAt i c (.cas (.entry k .val) (w.shared.get (.entry k .val)) v) →
    Guard w (.run i e) → w.shared.get (.entry k .val) < v →
    Inv (w.shared.put (.entry k .val) v) ((c, .merged k v) :: w.history) gs
  imported : ∀ {n : Node} {h gs k v}, Inv n h gs → Good (n.get (.entry k .globalCount)) →
    n.get (.entry k .globalCount) < v → Inv (n.put (.entry k .globalCount) v) h gs
  committedOne : ∀ {w : NodeWorld} {gs i c e req cs},
    (bookkeeping Inv Guard).Describes w gs → gs i = .idle →
    w.IsAt i c (.cas (.entry cs.cur .val) (w.shared.get (.entry cs.cur .val))
      (w.shared.get (.entry cs.cur .val) + req.cost)) → Guard w (.run i e) →
    Passing F Good req cs (w.shared.get (.entry cs.cur .val) + req.cost) →
    Inv (w.shared.put (.entry cs.cur .val) (w.shared.get (.entry cs.cur .val) + req.cost))
      ((c, .committed [req]) :: w.history) gs
  mark : ∀ {n : Node} {h} {gs : Nat → Ghost} {i stakes marks} {m : Stake}, Inv n h gs →
    gs i = .batch stakes marks false → 0 ≤ m.cost →
    Inv (n.put (.entry m.key .speculative) (n.get (.entry m.key .speculative) + m.cost))
      h (Function.update gs i (.batch stakes (marks ++ [m]) false))
  stake : ∀ {n : Node} {h} {gs : Nat → Ghost} {i stakes marks} {s : Stake}, Inv n h gs →
    gs i = .batch stakes marks false → 0 ≤ s.cost →
    s.count = n.get (.entry s.key .val) + s.cost →
    (∀ k, costOn k (stakes ++ [s]) ≤ costOn k marks) →
    Inv (n.put (.entry s.key .val) s.count)
      h (Function.update gs i (.batch (stakes ++ [s]) marks false))
  commit : ∀ {n : Node} {h} {gs : Nat → Ghost} {i c marks} {items : List Item}, Inv n h gs →
    gs i = .batch (items.map Item.stake) marks false →
    (∀ it ∈ items, Passing F Good it.req it.cs it.newCount) →
    Inv n ((c, .committed (items.map Item.req)) :: h) (Function.update gs i (.batch [] marks false))
  roll : ∀ {n : Node} {h} {gs : Nat → Ghost} {i stakes marks}, Inv n h gs →
    gs i = .batch stakes marks false → Inv n h (Function.update gs i (.batch stakes marks true))
  unstake : ∀ {n : Node} {h} {gs : Nat → Ghost} {i stakes marks} {s : Stake}, Inv n h gs →
    gs i = .batch (s :: stakes) marks true → 0 ≤ s.cost →
    Inv (n.put (.entry s.key .val) (n.get (.entry s.key .val) + -s.cost))
      h (Function.update gs i (.batch stakes marks true))
  unmark : ∀ {w : NodeWorld} {gs : Nat → Ghost} {i c e stakes marks rolling} {m : Stake},
    (bookkeeping Inv Guard).Describes w gs → gs i = .batch stakes (m :: marks) rolling →
    w.IsAt i c (.add (.entry m.key .speculative) (-m.cost)) → Guard w (.run i e) →
    0 ≤ m.cost → (∀ k, costOn k stakes ≤ costOn k marks) →
    Inv (w.shared.put (.entry m.key .speculative)
      (w.shared.get (.entry m.key .speculative) + -m.cost))
      w.history (Function.update gs i (.batch stakes marks rolling))
  finish : ∀ {n : Node} {h} {gs : Nat → Ghost} {i rolling}, Inv n h gs →
    gs i = .batch [] [] rolling → Inv n h (Function.update gs i .idle)
  loadVal : ∀ {n : Node} {h} {gs : Nat → Ghost} {i rows k}, Inv n h gs →
    gs i = .push none rows →
    Inv n h (Function.update gs i (.push (some (k, n.get (.entry k .val))) rows))
  loadSpeculative : ∀ {n : Node} {h} {gs : Nat → Ghost} {i v rows} {row : GlobalRow}, Inv n h gs →
    gs i = .push (some (row.key, v)) rows →
    row.count = v - n.get (.entry row.key .speculative) →
    Inv n h (Function.update gs i (.push none (rows ++ [row])))
  written : ∀ {n : Node} {h} {gs : Nat → Ghost} {i rows chunk}, Inv n h gs →
    gs i = .push none rows → (∀ row ∈ chunk, row ∈ rows) →
    Inv { n with written := n.written ++ chunk } h gs
  pushed : ∀ {n : Node} {h} {gs : Nat → Ghost} {i rows}, Inv n h gs →
    gs i = .push none rows → Inv n h (Function.update gs i .idle)

namespace Bookkeeping

variable {F : Floats} {Inv : Assertion Node Task Note Ghost}
  {Guard : NodeWorld → Turn Task Env → Prop} {Good : Int → Prop} {c : Task} {i : Nat} {g : Ghost}
  {n : Node} {h : History} {gs : Nat → Ghost}

def GoodAnswer (Good : Int → Prop) : (op : Op) → op.Ret → Prop
  | .load (.entry _ .val) _, r => Good r
  | .load (.entry _ .globalCount) _, r => Good r
  | _, _ => True

variable (Inv Guard) in
abbrev Has (i : Nat) (g : Ghost) : Assertion Node Task Note Ghost := (bookkeeping Inv Guard).Owns i g

variable (Inv Guard) in
abbrev Spec {α : Type} (c : Task) (i : Nat) (A : Assertion Node Task Note Ghost) (p : Code α)
    (Q : α → Assertion Node Task Note Ghost) : Prop :=
  (bookkeeping Inv Guard).Triple nodeApply c i A p Q

variable (Inv Guard) in
abbrev Stays {α : Type} (c : Task) (i : Nat) (g : Ghost) (p : Code α) : Prop :=
  Spec Inv Guard c i (Has Inv Guard i g) p fun _ => Has Inv Guard i g

theorem owns_of_update {g' : Ghost} {n' : Node} {h' : History}
    (hinv : Inv n' h' (Function.update (Function.update gs i g) i g')) :
    Has Inv Guard i g' n' h' gs := by
  rwa [Function.update_idem] at hinv

variable (K : Bookkeeping F Inv Guard Good)

include K

theorem unmoved (hg : g.Free c) {o : Op} (hwrites : o.writes = none)
    (hup : ∀ rows, o ≠ .upsert rows) : Stays Inv Guard c i g (Prog.perform o) := by
  refine .perform (hg.at o) ?_
  intro w gs e r n' hd hgi _ _ happ
  refine Protocol.owns_of_inv hgi (K.still hd.inv ?_ (Node.apply_written happ hup))
  intro t _
  exact Node.apply_get happ (by rw [hwrites]; nofun)

theorem steady (hg : g.Free c) :
    Steady (bookkeeping Inv Guard) nodeApply c i (Has Inv Guard i g) (GoodAnswer Good) := by
  intro o ho
  refine .perform (hg.at o) ?_
  intro w gs e r n' hd hgi _ _ happ
  refine ⟨?_, Protocol.owns_of_inv hgi (K.still hd.inv ?_
    (Node.apply_written happ (Op.Quiet.ne_upsert ho)))⟩
  · -- what a load of a count answers is the count
    match o, r, happ with
    | .load (.entry k .val) _, r, happ =>
      cases happ
      exact (K.good hd.inv k).1
    | .load (.entry k .globalCount) _, r, happ =>
      cases happ
      exact (K.good hd.inv k).2
    | .load (.entry _ .speculative) _, _, _ | .load (.entry _ .originFreshUntilMs) _, _, _
    | .load (.entry _ .globalPushThreshold) _, _, _ | .load (.entry _ .lastPushed) _, _, _
    | .load (.strict _) _, _, _ | .now, _, _ | .cas _ _ _, _, _ | .add _ _, _, _
    | .hydrated _, _, _ | .setHydrated _, _, _ | .onceEnter _, _, _ | .onceLeave _, _, _
    | .lockStale _, _, _ | .unlockStale _, _, _ | .fetchOrigin _, _, _ | .increment _ _, _, _
    | .buffer _, _, _ | .consume, _, _ | .range, _, _ | .upsert _, _, _
    | .imported _, _, _ => trivial
  · intro t ht
    exact Node.apply_get happ (Op.Quiet.writes_ne ho ht)

/-! ### Merges -/

theorem mergeVal (hg : g.Free c) (k : CounterKey) (v : Int) :
    Stays Inv Guard c i g (atomicMax (.entry k .val) v) := by
  refine keeps_atomicMax (.perform (hg.at _) ?_) fun cur hlt => .perform (hg.at _) ?_
  · intro w gs e cur n' hd hgi hpos hguard happ
    cases happ
    split
    · rename_i hle
      exact Protocol.owns_of_inv hgi (K.covered hd hpos hguard hle)
    · exact hd.owns hgi
  · intro w gs e r n' hd hgi hpos hguard happ
    obtain ⟨hold, rfl, rfl⟩ | ⟨-, rfl, rfl⟩ := Node.apply_cas happ
    · rw [← hold] at hpos hlt
      exact Protocol.owns_of_inv hgi (K.swapped hd hpos hguard hlt)
    · exact hd.owns hgi

theorem mergeGlobal (hg : g.Free c) (k : CounterKey) (v : Int) :
    Stays Inv Guard c i g (atomicMax (.entry k .globalCount) v) := by
  refine keeps_atomicMax (.perform (hg.at _) ?_) fun cur hlt => .perform (hg.at _) ?_
  · intro w gs e cur n' hd hgi _ _ happ
    cases happ
    split <;> exact hd.owns hgi
  · intro w gs e r n' hd hgi _ _ happ
    obtain ⟨hold, rfl, rfl⟩ | ⟨-, rfl, rfl⟩ := Node.apply_cas happ
    · rw [← hold] at hlt
      exact Protocol.owns_of_inv hgi (K.imported hd.inv (K.good hd.inv k).2 hlt)
    · exact hd.owns hgi

theorem fetches (hg : g.Free c) :
    Fetches (bookkeeping Inv Guard) nodeApply c i (Has Inv Guard i g) := by
  intro k
  refine (K.unmoved hg (o := .fetchOrigin k) rfl nofun).bind ?_
  rintro (_ | count)
  · exact .skip
  · exact (K.mergeVal hg k count).bind fun _ => .skip

end Bookkeeping

end Unkey.Ratelimit
