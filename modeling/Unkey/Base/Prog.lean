import Unkey.Base.Run

/-!
# Programs over atomic operations and their interleavings

A program is a tree: it ends, or it performs one atomic operation and continues with the answer.
-/

namespace Unkey.Base

/-- A program over the operations `Op`; `Ret op` is the type of the answer to `op`. -/
inductive Prog (Op : Type) (Ret : Op → Type) (Note α : Type) : Type
  | done (a : α)
  | note (n : Note) (rest : Prog Op Ret Note α)
  | act (op : Op) (k : Ret op → Prog Op Ret Note α)

namespace Prog

variable {Op : Type} {Ret : Op → Type} {Note α β : Type}

protected def bind : Prog Op Ret Note α → (α → Prog Op Ret Note β) → Prog Op Ret Note β
  | .done a, f => f a
  | .note n rest, f => .note n (rest.bind f)
  | .act op k, f => .act op fun r => (k r).bind f

instance : Monad (Prog Op Ret Note) where
  pure := .done
  bind := Prog.bind

def perform (op : Op) : Prog Op Ret Note (Ret op) := .act op .done

def tell (n : Note) : Prog Op Ret Note Unit := .note n (.done ())

def next : Prog Op Ret Note α → Option Op
  | .act op _ => some op
  | _ => none

/-- As long as the answers meet `post`, every operation meets `pre`, every note meets `ok`, and
the result meets `Q`. -/
def Meets (pre : Op → Prop) (post : (op : Op) → Ret op → Prop) (ok : Note → Prop) :
    Prog Op Ret Note α → (α → Prop) → Prop
  | .done a, Q => Q a
  | .note n rest, Q => ok n ∧ Meets pre post ok rest Q
  | .act op k, Q => pre op ∧ ∀ r, post op r → Meets pre post ok (k r) Q

section Meets

variable {pre : Op → Prop} {post : (op : Op) → Ret op → Prop} {ok : Note → Prop}

theorem Meets.bind {p : Prog Op Ret Note α} {f : α → Prog Op Ret Note β} {Q : α → Prop}
    {R : β → Prop} (hp : p.Meets pre post ok Q) (hf : ∀ a, Q a → (f a).Meets pre post ok R) :
    (p >>= f).Meets pre post ok R := by
  induction p with
  | done a => exact hf a hp
  | note n rest ih => exact ⟨hp.1, ih hp.2⟩
  | act op k ih => exact ⟨hp.1, fun r hr => ih r (hp.2 r hr)⟩

theorem Meets.perform {op : Op} {Q : Ret op → Prop} (hop : pre op)
    (hQ : ∀ r, post op r → Q r) :
    (Prog.perform op : Prog Op Ret Note (Ret op)).Meets pre post ok Q :=
  ⟨hop, hQ⟩

theorem Meets.perform_bind {op : Op} {f : Ret op → Prog Op Ret Note β} {Q : β → Prop}
    (hop : pre op) (hf : ∀ r, post op r → (f r).Meets pre post ok Q) :
    (Prog.perform op >>= f).Meets pre post ok Q :=
  ⟨hop, hf⟩

end Meets

end Prog

section World

variable {Op : Type} {Ret : Op → Type} {Note σ Call Choice : Type}

structure Thread (Call Op : Type) (Ret : Op → Type) (Note : Type) where
  call : Call
  prog : Prog Op Ret Note Unit

/-- The shared state, the threads in the order in which they were started, and the notes with
the calls that made them, latest first. -/
structure World (σ Call Op : Type) (Ret : Op → Type) (Note : Type) where
  shared : σ
  threads : List (Thread Call Op Ret Note)
  history : List (Call × Note)

/-- What the scheduler chooses: a call that starts, or the thread that goes on together with the
environment's part of the answer. -/
inductive Turn (Call Choice : Type) where
  | spawn (c : Call)
  | run (i : Nat) (ch : Choice)

def settle (c : Call) : Prog Op Ret Note Unit → List (Call × Note) →
    Prog Op Ret Note Unit × List (Call × Note)
  | .note n rest, h => settle c rest ((c, n) :: h)
  | p, h => (p, h)

def worldStep (apply : Call → (op : Op) → Choice → σ → Option (Ret op × σ))
    (body : Call → Prog Op Ret Note Unit) (w : World σ Call Op Ret Note) :
    Turn Call Choice → Option (World σ Call Op Ret Note)
  | .spawn c =>
    let q := settle c (body c) w.history
    some ⟨w.shared, w.threads ++ [⟨c, q.1⟩], q.2⟩
  | .run i ch =>
    match w.threads[i]? with
    | none => none
    | some t =>
      match t.prog with
      | .act op k => (apply t.call op ch w.shared).map fun a =>
        let q := settle t.call (k a.1) w.history
        ⟨a.2, w.threads.set i ⟨t.call, q.1⟩, q.2⟩
      | _ => none

def World.init (s : σ) : World σ Call Op Ret Note := ⟨s, [], []⟩

def World.IsAt (w : World σ Call Op Ret Note) (i : Nat) (c : Call) (op : Op) : Prop :=
  ∃ t, w.threads[i]? = some t ∧ t.call = c ∧ t.prog.next = some op

def World.next (w : World σ Call Op Ret Note) (i : Nat) : Option Op :=
  (w.threads[i]?).bind fun t => t.prog.next

variable {w : World σ Call Op Ret Note}

theorem World.IsAt.next {i : Nat} {c : Call} {op : Op}
    (h : w.IsAt i c op) : w.next i = some op := by
  obtain ⟨t, ht, -, hnext⟩ := h
  rw [World.next, ht, Option.bind_some, hnext]

def World.Performs (w : World σ Call Op Ret Note) (C : Op → Prop) : Turn Call Choice → Prop
  | .spawn _ => True
  | .run i _ => ∀ op ∈ w.next i, C op

instance {w : World σ Call Op Ret Note} {C : Op → Prop} [DecidablePred C] :
    (l : Turn Call Choice) → Decidable (w.Performs C l)
  | .spawn _ => .isTrue trivial
  | .run i _ => inferInstanceAs (Decidable (∀ op ∈ w.next i, C op))

theorem World.Performs.at {C : Op → Prop} {i : Nat} {ch : Choice}
    (hp : w.Performs C (.run i ch)) {c : Call} {op : Op} (hat : w.IsAt i c op) : C op :=
  hp op hat.next

/-- The turn starts a call, or the call and the operation it performs meet `C`. -/
def World.PerformsFor (w : World σ Call Op Ret Note) (C : Call → Op → Prop) :
    Turn Call Choice → Prop
  | .spawn _ => True
  | .run i _ => ∀ t ∈ w.threads[i]?, ∀ op ∈ t.prog.next, C t.call op

instance {w : World σ Call Op Ret Note} {C : Call → Op → Prop} [∀ c op, Decidable (C c op)] :
    (l : Turn Call Choice) → Decidable (w.PerformsFor C l)
  | .spawn _ => .isTrue trivial
  | .run i _ => inferInstanceAs (Decidable (∀ t ∈ w.threads[i]?, ∀ op ∈ t.prog.next, C t.call op))

theorem World.PerformsFor.at {C : Call → Op → Prop} {i : Nat}
    {ch : Choice} (hp : w.PerformsFor C (.run i ch)) {c : Call} {op : Op} (hat : w.IsAt i c op) :
    C c op := by
  obtain ⟨t, ht, rfl, hnext⟩ := hat
  exact hp t ht op hnext

end World

end Unkey.Base
