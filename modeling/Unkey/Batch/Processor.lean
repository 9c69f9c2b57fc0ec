import Mathlib.Algebra.BigOperators.Fin
import Unkey.Base.Run

/-!
# The batch processor

Producers put items on a channel, consumers gather them in batches and flush these.
-/

namespace Unkey.Batch

open Unkey.Base

structure Config where
  drop : Bool
  batchSize : Nat
  bufferSize : Nat

inductive Phase where
  | idle
  | locked
  | sending
  | sent
  | dropped
  | closed
  deriving DecidableEq

def Phase.passed : Phase → Bool
  | .sending | .sent | .dropped => true
  | .idle | .locked | .closed => false

structure Consumer (ι : Type) where
  batch : List ι
  received : List ι
  flushed : List (List ι)
  done : Bool

/-- Items are named by the calls they come from; `readers` hold the lock for reading. -/
structure State (ι : Type) (n : Nat) where
  calls : ι → Phase
  readers : List ι
  channel : List ι
  isClosed : Bool
  consumers : Fin n → Consumer ι

def State.new (ι : Type) (n : Nat) : State ι n :=
  ⟨fun _ => .idle, [], [], false, fun _ => ⟨[], [], [], false⟩⟩

namespace Consumer

variable {ι : Type}

def flush (c : Consumer ι) : Consumer ι :=
  if c.batch = [] then c else { c with flushed := c.flushed ++ [c.batch], batch := [] }

def receive (batchSize : Nat) (c : Consumer ι) (x : ι) : Consumer ι :=
  let c := { c with batch := c.batch ++ [x], received := c.received ++ [x] }
  if batchSize ≤ c.batch.length then c.flush else c

def close (c : Consumer ι) : Consumer ι := { c.flush with done := true }

/-- What a consumer has received is what it flushed, in batches of the allowed size, and its batch.
-/
structure Ok (batchSize : Nat) (c : Consumer ι) : Prop where
  received : c.received = c.flushed.flatten ++ c.batch
  batch : c.batch.length < batchSize
  flushed : ∀ b ∈ c.flushed, b ≠ [] ∧ b.length ≤ batchSize
  done : c.done = true → c.batch = []

variable {batchSize : Nat} {c : Consumer ι}

theorem flush_batch (c : Consumer ι) : c.flush.batch = [] := by
  rw [flush]
  split
  · assumption
  · rfl

theorem flush_received (c : Consumer ι) : c.flush.received = c.received := by
  rw [flush]
  split <;> rfl

theorem flush_done (c : Consumer ι) : c.flush.done = c.done := by
  rw [flush]
  split <;> rfl

theorem ok_flush (hsize : 1 ≤ batchSize) (hreceived : c.received = c.flushed.flatten ++ c.batch)
    (hbatch : c.batch.length ≤ batchSize)
    (hflushed : ∀ b ∈ c.flushed, b ≠ [] ∧ b.length ≤ batchSize) : c.flush.Ok batchSize := by
  refine ⟨?_, by rw [flush_batch]; exact hsize, ?_, fun _ => flush_batch c⟩
  · grind [flush_received, flush_batch, flush]
  · rw [flush]
    split
    · exact hflushed
    · grind

theorem Ok.flush (h : c.Ok batchSize) : c.flush.Ok batchSize :=
  ok_flush (by have := h.batch; omega) h.received h.batch.le h.flushed

theorem receive_received (batchSize : Nat) (c : Consumer ι) (x : ι) :
    (c.receive batchSize x).received = c.received ++ [x] := by
  rw [receive]
  split
  · exact flush_received _
  · rfl

theorem Ok.receive (h : c.Ok batchSize) (hopen : c.done = false) (x : ι) :
    (c.receive batchSize x).Ok batchSize ∧ (c.receive batchSize x).done = false := by
  have hbatch := h.batch
  have hreceived : c.received ++ [x] = c.flushed.flatten ++ (c.batch ++ [x]) := by
    rw [h.received, List.append_assoc]
  rw [Consumer.receive]
  split
  · refine ⟨ok_flush (by omega) hreceived ?_ h.flushed, ?_⟩
    · rw [List.length_append, List.length_singleton]
      omega
    · rw [flush_done]
      exact hopen
  · rename_i hlt
    exact ⟨⟨hreceived, by omega, h.flushed, fun hd => by simp [hopen] at hd⟩, hopen⟩

end Consumer

inductive Label (ι : Type) (n : Nat) where
  | lock (i : ι)
  | check (i : ι)
  | send (i : ι)
  | handOver (i : ι) (j : Fin n)
  | drop (i : ι)
  | receive (j : Fin n)
  | timer (j : Fin n)
  | close
  | finish (j : Fin n)

variable {ι : Type} [DecidableEq ι] {n : Nat}

def State.leave (s : State ι n) (i : ι) (phase : Phase) : State ι n :=
  { s with calls := Function.update s.calls i phase, readers := s.readers.filter (· ≠ i) }

def State.setConsumer (s : State ι n) (j : Fin n) (c : Consumer ι) : State ι n :=
  { s with consumers := Function.update s.consumers j c }

def step (cfg : Config) (s : State ι n) : Label ι n → Option (State ι n)
  | .lock i =>
    if s.calls i = .idle then
      some { s with calls := Function.update s.calls i .locked, readers := i :: s.readers }
    else none
  | .check i =>
    if s.calls i = .locked then
      if s.isClosed then some (s.leave i .closed)
      else some { s with calls := Function.update s.calls i .sending }
    else none
  | .send i =>
    if s.calls i = .sending ∧ s.channel.length < cfg.bufferSize then
      some { s.leave i .sent with channel := s.channel ++ [i] }
    else none
  | .handOver i j =>
    if s.calls i = .sending ∧ s.channel = [] ∧ (s.consumers j).done = false then
      some ((s.leave i .sent).setConsumer j ((s.consumers j).receive cfg.batchSize i))
    else none
  | .drop i =>
    if cfg.drop = true ∧ s.calls i = .sending ∧ cfg.bufferSize ≤ s.channel.length then
      some (s.leave i .dropped)
    else none
  | .receive j =>
    match s.channel with
    | [] => none
    | x :: rest =>
      if (s.consumers j).done = false then
        some ({ s with channel := rest }.setConsumer j
          ((s.consumers j).receive cfg.batchSize x))
      else none
  | .timer j =>
    if (s.consumers j).done = false then some (s.setConsumer j (s.consumers j).flush) else none
  | .close =>
    if s.isClosed = false ∧ s.readers = [] then some { s with isClosed := true } else none
  | .finish j =>
    if s.isClosed = true ∧ s.channel = [] ∧ (s.consumers j).done = false then
      some (s.setConsumer j (s.consumers j).close)
    else none

/-! ### All of them -/

theorem sum_update_received (consumers : Fin n → Consumer ι) (j : Fin n) {c : Consumer ι}
    {xs : List ι} (hc : c.received = (consumers j).received ++ xs) (i : ι) :
    ∑ k, (Function.update consumers j c k).received.count i =
      ∑ k, (consumers k).received.count i + xs.count i := by
  rw [← Finset.add_sum_erase _ _ (Finset.mem_univ j), ← Finset.add_sum_erase _ (fun k =>
    (consumers k).received.count i) (Finset.mem_univ j), Function.update_self, hc,
    List.count_append]
  have hrest : ∑ k ∈ Finset.univ.erase j, (Function.update consumers j c k).received.count i =
      ∑ k ∈ Finset.univ.erase j, (consumers k).received.count i :=
    Finset.sum_congr rfl fun k hk => by rw [Function.update_of_ne (Finset.ne_of_mem_erase hk)]
  omega

omit [DecidableEq ι] in
theorem forall_update_consumer (consumers : Fin n → Consumer ι) (P : Consumer ι → Prop) {j : Fin n}
    {c : Consumer ι} (hother : ∀ k, P (consumers k)) (hc : P c) (k : Fin n) :
    P (Function.update consumers j c k) := by
  by_cases hk : k = j
  · rwa [hk, Function.update_self]
  · rw [Function.update_of_ne hk]
    exact hother k

/-- Every item that was sent is on the channel or at one consumer, exactly once. -/
structure Inv (cfg : Config) (s : State ι n) : Prop where
  counted : ∀ i, s.channel.count i + ∑ j, (s.consumers j).received.count i =
    if s.calls i = .sent then 1 else 0
  consumers : ∀ j, (s.consumers j).Ok cfg.batchSize
  readers : ∀ i, s.calls i = .locked ∨ s.calls i = .sending → i ∈ s.readers
  closed : s.isClosed = true → ∀ i, s.calls i ≠ .sending
  dropped : cfg.drop = false → ∀ i, s.calls i ≠ .dropped
  drained : ∀ j, (s.consumers j).done = true → s.isClosed = true ∧ s.channel = []

variable {cfg : Config} {s s' : State ι n}

theorem forall_update_phase (calls : ι → Phase) (P : ι → Phase → Prop) {i : ι} {p : Phase}
    (hother : ∀ k, k ≠ i → P k (calls k)) (hi : P i p) (k : ι) :
    P k (Function.update calls i p k) := by
  by_cases hk : k = i
  · rw [hk, Function.update_self]
    exact hi
  · rw [Function.update_of_ne hk]
    exact hother k hk

theorem Inv.phase (h : Inv cfg s) {i : ι} {phase : Phase} {readers : List ι}
    (hold : s.calls i ≠ .sent) (hnew : phase ≠ .sent)
    (hreaders : ∀ k, k ≠ i → k ∈ s.readers → k ∈ readers)
    (hself : phase = .locked ∨ phase = .sending → i ∈ readers)
    (hclosed : s.isClosed = true → phase ≠ .sending)
    (hdropped : cfg.drop = false → phase ≠ .dropped) :
    Inv cfg { s with calls := Function.update s.calls i phase, readers := readers } := by
  have hcalls := fun P => forall_update_phase s.calls P (i := i) (p := phase)
  refine ⟨?_, h.consumers, ?_, ?_, ?_, h.drained⟩
  · refine hcalls (fun k p => s.channel.count k + ∑ j, (s.consumers j).received.count k =
      if p = .sent then 1 else 0) (fun k _ => h.counted k) ?_
    rw [if_neg hnew, h.counted i, if_neg hold]
  · exact hcalls (fun k p => p = .locked ∨ p = .sending → k ∈ readers)
      (fun k hk hp => hreaders k hk (h.readers k hp)) hself
  · exact fun hc => hcalls (fun _ p => p ≠ .sending) (fun k _ => h.closed hc k) (hclosed hc)
  · exact fun hd => hcalls (fun _ p => p ≠ .dropped) (fun k _ => h.dropped hd k) (hdropped hd)

theorem Inv.sent (h : Inv cfg s) {i : ι} (hi : s.calls i = .sending) {channel : List ι}
    {consumers : Fin n → Consumer ι}
    (hcount : ∀ k, channel.count k + ∑ j, (consumers j).received.count k =
      s.channel.count k + ∑ j, (s.consumers j).received.count k + [i].count k)
    (hok : ∀ j, (consumers j).Ok cfg.batchSize) (hopen : ∀ j, (consumers j).done = false) :
    Inv cfg { s.leave i .sent with channel := channel, consumers := consumers } := by
  have hcalls := fun P => forall_update_phase s.calls P (i := i) (p := .sent)
  refine ⟨?_, hok, ?_, ?_, ?_, ?_⟩
  · refine hcalls (fun k p => channel.count k + ∑ j, (consumers j).received.count k =
      if p = .sent then 1 else 0) (fun k hk => ?_) ?_
    · rw [hcount, h.counted, List.count_eq_zero_of_not_mem (by simpa using hk), Nat.add_zero]
    · rw [hcount, h.counted, hi, List.count_singleton_self]
      rfl
  · refine hcalls (fun k p => p = .locked ∨ p = .sending → k ∈ s.readers.filter (· ≠ i))
      (fun k hk hp => ?_) (by simp)
    exact List.mem_filter.mpr ⟨h.readers k hp, by simpa using hk⟩
  · exact fun hc => hcalls (fun _ p => p ≠ .sending) (fun k _ => h.closed hc k) (by decide)
  · exact fun hd => hcalls (fun _ p => p ≠ .dropped) (fun k _ => h.dropped hd k) (by decide)
  · intro j hj
    rw [hopen j] at hj
    cases hj

theorem Inv.consumer (h : Inv cfg s) {j : Fin n} {c : Consumer ι} (xs : List ι) {rest : List ι}
    (hxs : s.channel = xs ++ rest) (hc : c.received = (s.consumers j).received ++ xs)
    (hok : c.Ok cfg.batchSize) (hdone : c.done = true → s.isClosed = true ∧ rest = []) :
    Inv cfg ({ s with channel := rest }.setConsumer j c) := by
  have hall := fun P => forall_update_consumer s.consumers P (j := j) (c := c)
  refine ⟨fun i => ?_, hall _ h.consumers hok, h.readers, h.closed, h.dropped, ?_⟩
  · have hcounted := h.counted i
    have hsum := sum_update_received s.consumers j hc i
    rw [hxs, List.count_append] at hcounted
    show rest.count i + ∑ k, (Function.update s.consumers j c k).received.count i =
      if s.calls i = .sent then 1 else 0
    omega
  · refine hall (fun c => c.done = true → s.isClosed = true ∧ rest = []) (fun k hk => ?_) hdone
    obtain ⟨hclosed, hnil⟩ := h.drained k hk
    rw [hxs, List.append_eq_nil_iff] at hnil
    exact ⟨hclosed, hnil.2⟩

theorem Inv.step (h : Inv cfg s) {l : Label ι n}
    (hs : step cfg s l = some s') : Inv cfg s' := by
  have hfilter : ∀ i k, k ≠ i → k ∈ s.readers → k ∈ s.readers.filter (· ≠ i) :=
    fun i k hk hr => List.mem_filter.mpr ⟨hr, by simpa using hk⟩
  have hopen : ∀ i, s.calls i = .sending → ∀ j, (s.consumers j).done = false := by
    intro i hi j
    by_contra hj
    exact h.closed (h.drained j (by simpa using hj)).1 i hi
  cases l with
  | lock i =>
    simp only [Batch.step] at hs
    split_ifs at hs with hi
    cases hs
    exact h.phase (by simp [hi]) (by decide) (fun k _ hr => List.mem_cons_of_mem _ hr)
      (fun _ => List.mem_cons_self) (fun _ => by decide) (fun _ => by decide)
  | check i =>
    simp only [Batch.step] at hs
    split_ifs at hs with hi hclosed
    · cases hs
      exact h.phase (by simp [hi]) (by decide) (hfilter i) (by simp) (fun _ => by decide)
        (fun _ => by decide)
    · cases hs
      exact h.phase (by simp [hi]) (by decide) (fun _ _ hr => hr) (fun _ => h.readers i (.inl hi))
        (fun hc => absurd hc hclosed) (fun _ => by decide)
  | send i =>
    simp only [Batch.step] at hs
    split_ifs at hs with hi
    cases hs
    refine h.sent hi.1 (fun k => ?_) h.consumers (hopen i hi.1)
    show (s.channel ++ [i]).count k + ∑ j, (s.consumers j).received.count k = _
    rw [List.count_append]
    omega
  | handOver i j =>
    simp only [Batch.step] at hs
    split_ifs at hs with hi
    cases hs
    obtain ⟨hok, hdone⟩ := (h.consumers j).receive hi.2.2 i
    refine h.sent hi.1 (fun k => ?_) (fun k => ?_) fun k => ?_
    · have := sum_update_received s.consumers j
        (Consumer.receive_received cfg.batchSize (s.consumers j) i) k
      show s.channel.count k + ∑ l, (Function.update s.consumers j _ l).received.count k = _
      omega
    · exact forall_update_consumer s.consumers (fun c => c.Ok cfg.batchSize) h.consumers hok k
    · exact forall_update_consumer s.consumers (fun c => c.done = false) (hopen i hi.1) hdone k
  | drop i =>
    simp only [Batch.step] at hs
    split_ifs at hs with hi
    cases hs
    exact h.phase (by simp [hi.2.1]) (by decide) (hfilter i) (by simp) (fun _ => by decide)
      (fun hd => by simp [hi.1] at hd)
  | receive j =>
    simp only [Batch.step] at hs
    split at hs
    · cases hs
    · rename_i x rest hchannel
      split_ifs at hs with hj
      cases hs
      obtain ⟨hok, hdone⟩ := (h.consumers j).receive hj x
      exact h.consumer [x] hchannel (Consumer.receive_received ..) hok
        fun hd => by simp [hdone] at hd
  | timer j =>
    simp only [Batch.step] at hs
    split_ifs at hs with hj
    cases hs
    refine h.consumer [] rfl (by rw [Consumer.flush_received, List.append_nil])
      (h.consumers j).flush fun hd => ?_
    rw [Consumer.flush_done, hj] at hd
    cases hd
  | close =>
    simp only [Batch.step] at hs
    split_ifs at hs with hj
    cases hs
    refine ⟨h.counted, h.consumers, h.readers, fun _ i hi => ?_, h.dropped, fun j hj => ?_⟩
    · have := h.readers i (.inr hi)
      rw [hj.2] at this
      cases this
    · exact ⟨rfl, (h.drained j hj).2⟩
  | finish j =>
    simp only [Batch.step] at hs
    split_ifs at hs with hj
    cases hs
    have hok := (h.consumers j).flush
    refine h.consumer [] rfl ?_ ⟨hok.received, hok.batch, hok.flushed, fun _ =>
      Consumer.flush_batch _⟩ fun _ => ⟨hj.1, hj.2.1⟩
    rw [Consumer.close, Consumer.flush_received, List.append_nil]

/-- When the channel is closed and all consumers are done, as when `Close` has returned: every item
that was put on the channel was flushed once, and no other; no batch is empty or too long; each
consumer has flushed what it received in the order it was received; and if nothing is dropped, all
calls that found the buffer open have put their items on the channel. -/
theorem delivered_exactly_once (cfg : Config) (hsize : 1 ≤ cfg.batchSize) (n : Nat) (hn : 0 < n)
    (past : List (State ι n × Label ι n)) (s : State ι n)
    (hr : Run (step cfg) (State.new ι n) past s) (hclosed : s.isClosed = true)
    (hdone : ∀ j, (s.consumers j).done = true) :
    (∀ i, ∑ j, (s.consumers j).flushed.flatten.count i = if s.calls i = .sent then 1 else 0) ∧
    (∀ j, ∀ b ∈ (s.consumers j).flushed, b ≠ [] ∧ b.length ≤ cfg.batchSize) ∧
    (∀ j, (s.consumers j).flushed.flatten = (s.consumers j).received) ∧
    (cfg.drop = false → ∀ i, (s.calls i).passed = true → s.calls i = .sent) := by
  have hinv : Inv cfg s := by
    refine hr.invariant (P := fun _ s => Inv cfg s) ?_ fun _ _ _ _ h hs => h.step hs
    refine ⟨?_, fun j => ⟨rfl, hsize, ?_, fun _ => rfl⟩, ?_, ?_, ?_, ?_⟩ <;> simp [State.new]
  have hreceived : ∀ j, (s.consumers j).flushed.flatten = (s.consumers j).received := by
    intro j
    rw [(hinv.consumers j).received, (hinv.consumers j).done (hdone j), List.append_nil]
  refine ⟨fun i => ?_, fun j => (hinv.consumers j).flushed, hreceived, fun hdrop i hi => ?_⟩
  · have hcounted := hinv.counted i
    rw [(hinv.drained ⟨0, hn⟩ (hdone _)).2, List.count_nil, Nat.zero_add] at hcounted
    rw [← hcounted]
    exact Finset.sum_congr rfl fun j _ => by rw [hreceived]
  · have hsending := hinv.closed hclosed i
    have hdropped := hinv.dropped hdrop i
    cases hphase : s.calls i <;> simp_all [Phase.passed]

/-- Three items in batches of two, the third flushed when the channel is closed. -/
theorem delivered_exactly_once_three :
    ∃ past s, Run (step ⟨false, 2, 1⟩) (State.new (Fin 3) 1) past s ∧
      ∀ i, ∑ j, (s.consumers j).flushed.flatten.count i = 1 := by
  refine Run.exists_of_record (P := fun _ s =>
      s.isClosed = true ∧ (∀ j, (s.consumers j).done = true) ∧ ∀ i, s.calls i = .sent)
    [.lock 0, .check 0, .send 0, .receive 0, .lock 1, .check 1, .handOver 1 0, .lock 2, .check 2,
      .send 2, .close, .receive 0, .finish 0] (by decide) fun past s hr hs i => ?_
  rw [(delivered_exactly_once ⟨false, 2, 1⟩ (by decide) 1 (by decide) past s hr hs.1 hs.2.1).1 i,
    if_pos (hs.2.2 i)]

/-! ### Progress -/

/-- A step of a call in progress or of a consumer's loop, the timer apart. -/
def Label.Proper : Label ι n → Prop
  | .lock _ | .close | .timer _ => False
  | _ => True

/-- The processor is never stuck: while a call holds the lock, an item is on the channel or a
consumer has to end, a call or a consumer can go on. -/
theorem never_stuck (hsize : 1 ≤ cfg.batchSize) (hn : 0 < n) {past : List (State ι n × Label ι n)}
    (hr : Run (step cfg) (State.new ι n) past s)
    (h : (∃ i, s.calls i = .locked ∨ s.calls i = .sending) ∨ s.channel ≠ [] ∨
      s.isClosed = true ∧ ∃ j, (s.consumers j).done = false) :
    ∃ l, l.Proper ∧ (step cfg s l).isSome := by
  have hinv : Inv cfg s := by
    refine hr.invariant (P := fun _ s => Inv cfg s) ?_ fun _ _ _ _ h hs => h.step hs
    refine ⟨?_, fun j => ⟨rfl, hsize, ?_, fun _ => rfl⟩, ?_, ?_, ?_, ?_⟩ <;> simp [State.new]
  have hreceive : s.channel ≠ [] → ∃ l : Label ι n, l.Proper ∧ (step cfg s l).isSome := by
    intro hne
    have hdone : (s.consumers ⟨0, hn⟩).done = false :=
      Bool.eq_false_iff.mpr fun hd => hne (hinv.drained _ hd).2
    refine ⟨.receive ⟨0, hn⟩, trivial, ?_⟩
    rw [step]
    split
    · exact absurd ‹_› hne
    · rw [if_pos hdone]
      rfl
  rcases h with ⟨i, hi | hi⟩ | hne | ⟨hclosed, j, hj⟩
  · refine ⟨.check i, trivial, ?_⟩
    rw [step, if_pos hi]
    split <;> rfl
  · -- the channel has room, or something to receive, or no buffer at all
    by_cases hroom : s.channel.length < cfg.bufferSize
    · refine ⟨.send i, trivial, ?_⟩
      rw [step, if_pos ⟨hi, hroom⟩]
      rfl
    · by_cases hne : s.channel = []
      · have hdone : (s.consumers ⟨0, hn⟩).done = false :=
          Bool.eq_false_iff.mpr fun hd => hinv.closed (hinv.drained _ hd).1 i hi
        refine ⟨.handOver i ⟨0, hn⟩, trivial, ?_⟩
        rw [step, if_pos ⟨hi, hne, hdone⟩]
        rfl
      · exact hreceive hne
  · exact hreceive hne
  · by_cases hne : s.channel = []
    · refine ⟨.finish j, trivial, ?_⟩
      rw [step, if_pos ⟨hclosed, hne, hj⟩]
      rfl
    · exact hreceive hne

theorem never_stuck_locked :
    ∃ past s, Run (step ⟨false, 2, 0⟩) (State.new (Fin 1) 1) past s ∧
      ∃ l : Label (Fin 1) 1, l.Proper ∧ (step ⟨false, 2, 0⟩ s l).isSome :=
  Run.exists_of_record (P := fun _ s => s.calls 0 = .sending) [.lock 0, .check 0] (by decide)
    fun _ _ hr hs => never_stuck (by decide) (by decide) hr (.inl ⟨0, .inr hs⟩)

end Unkey.Batch
