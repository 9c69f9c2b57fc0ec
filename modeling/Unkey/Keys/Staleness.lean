import Unkey.Keys.Migrated

/-!
# How old an answer can be

The table changes while a node answers from its cache.
-/

namespace Unkey.Keys.Staleness

open Unkey.Base

/-- A lookup or a refresh may read the table in one turn and store what it read in a later one. -/
inductive Turn where
  | use (u : Node.Use)
  | read (now : Int)
  | store (now : Int) (hash : String) (row : Option KeyRow)
  | change (keys : List StoredKey)

/-- A use of the cache, the read or the store of a refresh that overlaps, or a change of the table.
-/
def step (L : Lib) (n : Node) : Turn → Option Node
  | .use u => some (n.use L u)
  | .read _ => some n
  | .store now hash row => some (n.write now hash row)
  | .change keys => some { n with keys := keys }

def Turn.time : Turn → Option Int
  | .use (.get now _ _) | .use (.refresh now _) | .read now => some now
  | _ => none

/-- The row was in the table at a turn that read it at most `d` before. -/
def ReadWithin (d : Int) (past : List (Node × Turn)) (now : Int) (hash : String)
    (row : Option KeyRow) : Prop :=
  ∃ x ∈ past, ∃ t, x.2.time = some t ∧ now ≤ t + d ∧ row = findKeyForVerification x.1.keys hash

/-- What is stored was read at most `d` before. -/
def Prompt (d : Int) (past : List (Node × Turn)) (_ : Node) : Turn → Prop
  | .store now hash row => ReadWithin d past now hash row
  | _ => True

def Dated (d : Int) (past : List (Node × Turn)) (n : Node) : Prop :=
  ∀ hash e, n.cache hash = some e → ReadWithin (600000 + d) past e.stale hash (found e)

variable {L : Lib} {n n' : Node} {past : List (Node × Turn)} {now d : Int} {hash : String}
  {row : Option KeyRow}

theorem swr_cases (n : Node) (now : Int) (reachable : Bool) (hash : String) :
    (∃ e, n.cache hash = some e ∧ now < e.stale ∧
      n.swr now reachable hash = (.ok (found e), n)) ∨
    ∃ m, (m = n ∨ m = n.remove hash) ∧ m.keys = n.keys ∧
      n.swr now reachable hash = m.load now reachable hash := by
  rw [Node.swr]
  split
  · exact .inr ⟨n, .inl rfl, rfl, rfl⟩
  · rename_i e he
    split
    · exact .inl ⟨e, he, ‹_›, rfl⟩
    · exact .inr ⟨_, .inr rfl, rfl, rfl⟩

theorem Dated.cons (h : Dated d past n) (x : Node × Turn) : Dated d (x :: past) n := by
  intro hash e he
  obtain ⟨y, hy, hread⟩ := h hash e he
  exact ⟨y, List.mem_cons_of_mem x hy, hread⟩

theorem Dated.remove (h : Dated d past n) (hash : String) : Dated d past (n.remove hash) :=
  forall_update n.cache (fun k y => ∀ e, y = some e → ReadWithin _ past e.stale k (found e)) h
    fun _ he => by cases he

theorem Dated.write (h : Dated d past n) (hrow : ReadWithin d past now hash row) :
    Dated d past (n.write now hash row) := by
  refine forall_update n.cache (fun k y => ∀ e, y = some e → ReadWithin _ past e.stale k (found e))
    h ?_
  rintro e ⟨⟩
  obtain ⟨x, hx, t, ht, hle, hread⟩ := hrow
  refine ⟨x, hx, t, ht, show now + 600000 ≤ _ by omega, ?_⟩
  cases row <;> exact hread

theorem Dated.step (h : Dated d past n) (hd : 0 ≤ d) {turn : Turn}
    (hprompt : Prompt d past n turn) (hstep : step L n turn = some n') :
    Dated d ((n, turn) :: past) n' := by
  have hnow : ∀ {m : Node} {now : Int} {hash : String}, Dated d past m → turn.time = some now →
      Dated d ((n, turn) :: past) (m.write now hash (findKeyForVerification n.keys hash)) :=
    fun hm ht => (hm.cons _).write ⟨_, List.mem_cons_self, _, ht, by omega, rfl⟩
  rcases turn with (⟨now, reachable, hash⟩ | ⟨now, hash⟩ | hash) | now | ⟨now, hash, row⟩ | keys <;>
    cases hstep
  · rw [Node.use, Node.get]
    split
    · exact h.cons _
    · show Dated _ _ (n.swr now reachable hash).2
      obtain ⟨e, -, -, heq⟩ | ⟨m, hm, hkeys, heq⟩ := swr_cases n now reachable hash
      · rw [heq]
        exact h.cons _
      · have hdated : Dated d past m := by
          rcases hm with rfl | rfl
          · exact h
          · exact h.remove hash
        rw [heq, Node.load, hkeys]
        split
        · exact hnow hdated rfl
        · exact hdated.cons _
  · exact hnow h rfl
  · exact (h.cons _).remove hash
  · exact h.cons _
  · exact (h.write hprompt).cons _
  · exact h.cons _

/-- What `Get` answers is in the table, or was at most ten minutes and the delay of a store before. -/
theorem get_recent {n₀ : Node} (hcache : n₀.cache = fun _ => none) (hd : 0 ≤ d)
    (hrun : Run (step L) n₀ past n) (hprompt : Always (Prompt d) past) {reachable : Bool}
    {v : KeyVerifier} (hget : (n.get L now reachable hash).1 = .ok v) :
    ∃ row, v = answer L now row ∧ (row = findKeyForVerification n.keys hash ∨
      ReadWithin (600000 + d) past now hash row) := by
  have hdated : Dated d past n := by
    refine hrun.invariant_always (P := Dated d) ?_ (fun _ _ _ _ h hp hs => h.step hd hp hs)
      hprompt
    intro hash e he
    rw [hcache] at he
    cases he
  rw [Node.get] at hget
  split at hget
  · cases hget
  · obtain ⟨e, he, hlt, heq⟩ | ⟨m, -, hkeys, heq⟩ := swr_cases n now reachable hash
    · rw [heq] at hget
      cases hget
      obtain ⟨x, hx, t, ht, hle, hread⟩ := hdated hash e he
      exact ⟨_, rfl, .inr ⟨x, hx, t, ht, by omega, hread⟩⟩
    · rw [heq, Node.load, hkeys] at hget
      cases reachable <;> cases hget
      exact ⟨_, rfl, .inl rfl⟩

/-- A key is looked up and removed; two seconds later it is still valid. -/
theorem get_recent_removed :
    ∃ past n, Run (step sampleLib) (oneKey (sampleKey none none)) past n ∧ n.keys = [] ∧
      ∃ row, ⟨.valid, "", (sampleKey none none).toKeyRow⟩ = answer sampleLib 2000 row ∧
        (row = findKeyForVerification n.keys "sha256:token" ∨
          ReadWithin (600000 + 0) past 2000 "sha256:token" row) := by
  have hrun : Run (step sampleLib) (oneKey (sampleKey none none))
      [(_, .change []), (_, .use (.get 0 true "sha256:token"))] _ := (Run.start.next rfl).next rfl
  exact ⟨_, _, hrun, rfl, get_recent rfl (Int.le_refl 0) hrun ⟨trivial, trivial, trivial⟩
    (show (Node.get _ _ _ true _).1 = _ by decide)⟩

end Unkey.Keys.Staleness
