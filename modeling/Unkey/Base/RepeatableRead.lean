import Unkey.Base.Run
import Mathlib.Logic.Function.Basic

/-!
# Transactions under repeatable read

Plain `SELECT`s read the snapshot of the first one and lock nothing; writes and locking reads act
on the latest committed rows and keep their row locked until the transaction ends.
-/

namespace Unkey.Base.RepeatableRead

/-- What is left of a request's statements, over contents `D` with lockable rows `L`. -/
inductive Txn (D L : Type) : Type
  | done
  | look (k : D → Txn D L)
  | select (k : D → Txn D L)
  | write (row : L) (change : D → D) (rest : Txn D L)
  | commit
  | rollback

structure Session (D L : Type) where
  looked : Option D
  snapshot : Option D
  pending : D → D
  rest : Txn D L

structure Database (ι D L : Type) where
  committed : D
  holder : L → Option ι
  sessions : ι → Session D L
  log : List ι

/-- A request goes on, or its transaction is rolled back as the victim of a deadlock or of a
timeout and is started again. -/
inductive Turn (ι : Type)
  | run (i : ι)
  | abort (i : ι)

inductive Effect (L : Type)
  | read
  | lock (row : L)
  | commit
  | rollback

variable {ι D L : Type}

def Txn.ended : Txn D L → Bool
  | .done => true
  | _ => false

def Txn.commits : Txn D L → Bool
  | .commit => true
  | _ => false

def Txn.resume : Txn D L → Option D → Txn D L
  | .look k, some d => k d
  | t, _ => t

def Session.init (t : Txn D L) (looked : Option D) : Session D L := ⟨looked, none, id, t⟩

def Session.advance (d : D) (σ : Session D L) : Option (Effect L × Session D L) :=
  match σ.rest with
  | .done => none
  | .look k => some (.read, { σ with looked := some d, rest := k d })
  | .select k =>
    let seen := σ.snapshot.getD d
    some (.read, { σ with snapshot := some seen, rest := k (σ.pending seen) })
  | .write row change rest =>
    some (.lock row, { σ with pending := change ∘ σ.pending, rest := rest })
  | .commit => some (.commit, { σ with rest := .done })
  | .rollback => some (.rollback, { σ with rest := .done })

section Steps

def Database.init (body : ι → Txn D L) (d : D) : Database ι D L :=
  ⟨d, fun _ => none, fun i => .init (body i) none, []⟩

variable [DecidableEq ι] [DecidableEq L]

def Database.release (s : Database ι D L) (i : ι) (row : L) : Option ι :=
  if s.holder row = some i then none else s.holder row

def Database.apply (s : Database ι D L) (i : ι) (σ : Session D L) :
    Effect L → Option (Database ι D L)
  | .read => some { s with sessions := Function.update s.sessions i σ }
  | .lock row =>
    if s.holder row = none ∨ s.holder row = some i then
      some { s with
        holder := Function.update s.holder row (some i)
        sessions := Function.update s.sessions i σ }
    else none
  | .commit =>
    some ⟨σ.pending s.committed, s.release i, Function.update s.sessions i σ, i :: s.log⟩
  | .rollback =>
    some { s with holder := s.release i, sessions := Function.update s.sessions i σ }

def Database.step (body : ι → Txn D L) (s : Database ι D L) : Turn ι → Option (Database ι D L)
  | .run i => ((s.sessions i).advance s.committed).bind fun x => s.apply i x.2 x.1
  | .abort i =>
    let looked := (s.sessions i).looked
    if (s.sessions i).rest.ended then none
    else s.apply i (.init ((body i).resume looked) looked) .rollback

def Database.Holds (s : Database ι D L) (i : ι) (row : L) : Prop := s.holder row = some i

end Steps

section Apply

variable [DecidableEq ι] [DecidableEq L] {s s' : Database ι D L} {i j : ι} {σ : Session D L}
  {e : Effect L}

theorem Database.apply_others (h : s.apply i σ e = some s') (hne : j ≠ i) :
    s'.sessions j = s.sessions j ∧ s'.Holds j = s.Holds j := by
  have hrelease : ∀ row, (s.release i row = some j) = s.Holds j row := by
    intro row
    unfold Database.release Database.Holds
    split
    · rename_i h
      simp [h, hne.symm]
    · rfl
  cases e with
  | lock row =>
    simp only [Database.apply] at h
    split at h
    · rename_i hfree
      cases h
      refine ⟨Function.update_of_ne hne _ _, funext fun r => ?_⟩
      show (Function.update s.holder row (some i) r = some j) = (s.holder r = some j)
      by_cases hr : r = row
      · subst hr
        rw [Function.update_self]
        rcases hfree with h | h <;> simp [h, hne.symm]
      · rw [Function.update_of_ne hr]
    · cases h
  | read =>
    cases h
    exact ⟨Function.update_of_ne hne _ _, rfl⟩
  | commit | rollback =>
    cases h
    exact ⟨Function.update_of_ne hne _ _, funext hrelease⟩

theorem Database.apply_self (h : s.apply i σ e = some s') : s'.sessions i = σ := by
  cases e with
  | lock row =>
    simp only [Database.apply] at h
    split at h <;> cases h
    exact Function.update_self _ _ _
  | read | commit | rollback =>
    cases h
    exact Function.update_self _ _ _

theorem Database.apply_read (h : s.apply i σ .read = some s') :
    s'.committed = s.committed ∧ s'.log = s.log ∧ s'.Holds i = s.Holds i := by
  cases h
  exact ⟨rfl, rfl, rfl⟩

theorem Database.apply_lock {row : L} (h : s.apply i σ (.lock row) = some s') :
    s'.committed = s.committed ∧ s'.log = s.log ∧
      s'.Holds i = fun r => s.Holds i r ∨ r = row := by
  simp only [Database.apply] at h
  split at h <;> cases h
  refine ⟨rfl, rfl, funext fun r => ?_⟩
  show (Function.update s.holder row (some i) r = some i) = (s.holder r = some i ∨ r = row)
  by_cases hr : r = row <;> simp [hr, Function.update_self]

theorem Database.apply_rollback (h : s.apply i σ .rollback = some s') :
    s'.committed = s.committed ∧ s'.log = s.log ∧ s'.Holds i = fun _ => False := by
  cases h
  refine ⟨rfl, rfl, funext fun r => ?_⟩
  simp only [Database.Holds, Database.release]
  split <;> simp_all

end Apply

/-! ### Assertions about the open sessions -/

/-- An assertion about the contents committed last, the rows a session holds and the session,
which the session's own statements keep. -/
structure Outline (body : ι → Txn D L) (A : ι → D → (L → Prop) → Session D L → Prop) : Prop where
  again : ∀ i d held σ, A i d held σ →
    A i d (fun _ => False) (.init ((body i).resume σ.looked) σ.looked)
  look : ∀ i d held σ k, A i d held σ → σ.rest = .look k →
    A i d held { σ with looked := some d, rest := k d }
  select : ∀ i d held σ k, A i d held σ → σ.rest = .select k →
    A i d held { σ with
      snapshot := some (σ.snapshot.getD d), rest := k (σ.pending (σ.snapshot.getD d)) }
  write : ∀ i d held σ row change rest, A i d held σ → σ.rest = .write row change rest →
    A i d (fun r => held r ∨ r = row) { σ with pending := change ∘ σ.pending, rest := rest }

def Database.Meets (A : ι → D → (L → Prop) → Session D L → Prop) (s : Database ι D L) : Prop :=
  ∀ i, (s.sessions i).rest.ended = false → A i s.committed (s.Holds i) (s.sessions i)

/-- What has to survive the commit of `j`: the assertions of the other sessions. -/
def Database.Survives (A : ι → D → (L → Prop) → Session D L → Prop) (s : Database ι D L)
    (j : ι) : Prop :=
  ∀ i, i ≠ j → (s.sessions i).rest.ended = false →
    A i ((s.sessions j).pending s.committed) (s.Holds i) (s.sessions i)

section Rules

variable [DecidableEq ι] [DecidableEq L] {body : ι → Txn D L} {s s' : Database ι D L} {a : Turn ι}
  {A : ι → D → (L → Prop) → Session D L → Prop}

omit [DecidableEq ι] [DecidableEq L] in
theorem Database.Meets.start {d : D} (h : ∀ i d, A i d (fun _ => False) (.init (body i) none)) :
    (Database.init body d).Meets A := by
  intro i _
  have hheld : (Database.init body d).Holds i = fun _ => False := by
    funext row
    simp [Database.Holds, Database.init]
  rw [hheld]
  exact h i d

theorem Database.Meets.of_apply {i : ι} {σ : Session D L} {e : Effect L} (hm : s.Meets A)
    (h : s.apply i σ e = some s') (hd : s'.committed = s.committed)
    (hi : σ.rest.ended = false → A i s.committed (s'.Holds i) σ) : s'.Meets A := by
  intro j hj
  by_cases hne : j = i
  · subst hne
    rw [Database.apply_self h] at hj ⊢
    rw [hd]
    exact hi hj
  · obtain ⟨hsess, hheld⟩ := Database.apply_others h hne
    rw [hsess] at hj ⊢
    rw [hd, hheld]
    exact hm j hj

theorem Database.step_ended (hs : s.step body a = some s') (i : ι)
    (hi : (s.sessions i).rest.ended = true ∨ a = .run i ∧ (s.sessions i).rest = .commit) :
    (s'.sessions i).rest.ended = true := by
  have hother : ∀ {j σ e}, s.apply j σ e = some s' → i ≠ j →
      (s.sessions i).rest.ended = true → (s'.sessions i).rest.ended = true := by
    intro j σ e happ hne hend
    rwa [(Database.apply_others happ hne).1]
  cases a with
  | abort j => grind [Database.step]
  | run j =>
    obtain ⟨⟨e, σ⟩, hadv, happ⟩ := Option.bind_eq_some_iff.mp hs
    by_cases hne : i = j
    · grind [Database.apply_self, Txn.ended, Session.advance]
    · grind

theorem Outline.step (o : Outline body A) (hm : s.Meets A) (hs : s.step body a = some s')
    (hc : ∀ j, a = .run j → (s.sessions j).rest = .commit → s.Survives A j) :
    s'.Meets A ∧ ((s'.committed = s.committed ∧ s'.log = s.log) ∨
      ∃ i, a = .run i ∧ (s.sessions i).rest = .commit ∧ s'.log = i :: s.log ∧
        s'.committed = (s.sessions i).pending s.committed) := by
  cases a with
  | abort i =>
    simp only [Database.step] at hs
    split at hs
    · cases hs
    · rename_i hopen
      obtain ⟨hd, hlog, hheld⟩ := Database.apply_rollback hs
      refine ⟨hm.of_apply hs hd fun _ => ?_, .inl ⟨hd, hlog⟩⟩
      rw [hheld]
      exact o.again i _ _ _ (hm i (by simpa using hopen))
  | run i =>
    obtain ⟨⟨e, σ⟩, hadv, happ⟩ := Option.bind_eq_some_iff.mp hs
    have hopen := hm i
    cases hrest : (s.sessions i).rest with
    | done => simp [Session.advance, hrest] at hadv
    | look k =>
      simp only [Session.advance, hrest] at hadv
      cases hadv
      obtain ⟨hd, hlog, hheld⟩ := Database.apply_read happ
      refine ⟨hm.of_apply happ hd fun _ => ?_, .inl ⟨hd, hlog⟩⟩
      rw [hheld]
      exact o.look i _ _ _ k (hopen (by rw [hrest]; rfl)) hrest
    | select k =>
      simp only [Session.advance, hrest] at hadv
      cases hadv
      obtain ⟨hd, hlog, hheld⟩ := Database.apply_read happ
      refine ⟨hm.of_apply happ hd fun _ => ?_, .inl ⟨hd, hlog⟩⟩
      rw [hheld]
      exact o.select i _ _ _ k (hopen (by rw [hrest]; rfl)) hrest
    | write row change rest =>
      simp only [Session.advance, hrest] at hadv
      cases hadv
      obtain ⟨hd, hlog, hheld⟩ := Database.apply_lock happ
      refine ⟨hm.of_apply happ hd fun _ => ?_, .inl ⟨hd, hlog⟩⟩
      rw [hheld]
      exact o.write i _ _ _ row change rest (hopen (by rw [hrest]; rfl)) hrest
    | rollback =>
      simp only [Session.advance, hrest] at hadv
      cases hadv
      obtain ⟨hd, hlog, -⟩ := Database.apply_rollback happ
      exact ⟨hm.of_apply happ hd (fun h => by cases h), .inl ⟨hd, hlog⟩⟩
    | commit =>
      simp only [Session.advance, hrest] at hadv
      cases hadv
      refine ⟨fun j hj => ?_, .inr ⟨i, rfl, hrest, ?_⟩⟩
      · by_cases hne : j = i
        · subst hne
          rw [Database.apply_self happ] at hj
          cases hj
        · obtain ⟨hsess, hheld⟩ := Database.apply_others happ hne
          have hd : s'.committed = (s.sessions i).pending s.committed := by cases happ; rfl
          rw [hsess] at hj ⊢
          rw [hd, hheld]
          exact hc i rfl hrest j hne hj
      · cases happ
        exact ⟨rfl, rfl⟩

end Rules

/-! ### Transactions behind one lock -/

def Txn.alone (d : D) : Txn D L → (D → D) → D
  | .done, _ | .rollback, _ => d
  | .look k, p => (k d).alone d p
  | .select k, p => (k (p d)).alone d p
  | .write _ change rest, p => rest.alone d (change ∘ p)
  | .commit, p => p d

/-- The row `gate` is locked before the commit, and before every read unless the request may read
`early`. -/
def Txn.Gated (gate : L) (early : Prop) : Prop → Txn D L → Prop
  | _, .done | _, .rollback => True
  | held, .look k => early ∧ ∀ d, (k d).Gated gate early held
  | held, .select k => (early ∨ held) ∧ ∀ d, (k d).Gated gate early held
  | held, .write row _ rest => rest.Gated gate early (held ∨ gate = row)
  | held, .commit => held

def Session.Reads (σ : Session D L) (d : D) : Prop :=
  (∀ e, σ.looked = some e → e = d) ∧ ∀ e, σ.snapshot = some e → e = d

structure Session.Serial (body : ι → Txn D L) (gate : L) (early : ι → Prop) (i : ι) (d : D)
    (held : L → Prop) (σ : Session D L) : Prop where
  gated : σ.rest.Gated gate (early i) (held gate)
  looked : ∀ e, σ.looked = some e → early i
  snapshot : ∀ e, σ.snapshot = some e → early i ∨ held gate
  reads : σ.Reads d
  alone : ∀ e, σ.Reads e → σ.rest.alone e σ.pending = (body i).alone e id

section Serial

variable {body : ι → Txn D L} {gate : L} {early : ι → Prop}

theorem Session.serial_outline (hbody : ∀ i, (body i).Gated gate (early i) False) :
    Outline body (Session.Serial body gate early) where
  again i d held σ h := by
    refine ⟨?_, h.looked, (fun e he => by cases he), ⟨h.reads.1, (fun e he => by cases he)⟩,
      fun e he => ?_⟩
    · have hg := hbody i
      simp only [Session.init]
      unfold Txn.resume
      split
      · rename_i k d' hk _
        rw [hk] at hg
        exact hg.2 d'
      · exact hg
    · simp only [Session.init]
      unfold Txn.resume
      split
      · rename_i k d' hk hl
        rw [hk, he.1 d' hl]
        rfl
      · rfl
  look i d held σ k h hk := by
    have hg := h.gated
    have ha := h.alone
    rw [hk] at hg ha
    refine ⟨hg.2 d, fun _ _ => hg.1, h.snapshot, ⟨fun e he => ?_, h.reads.2⟩, fun e he => ?_⟩
    · cases he
      rfl
    · obtain rfl : d = e := he.1 d rfl
      exact ha d h.reads
  select i d held σ k h hk := by
    have hseen : σ.snapshot.getD d = d := by
      cases hs : σ.snapshot with
      | none => rfl
      | some e => exact h.reads.2 e hs
    have hg := h.gated
    have ha := h.alone
    rw [hk] at hg ha
    rw [hseen]
    refine ⟨hg.2 _, h.looked, fun _ _ => hg.1, ⟨h.reads.1, fun e he => ?_⟩, fun e he => ?_⟩
    · cases he
      rfl
    · obtain rfl : d = e := he.2 d rfl
      exact ha d h.reads
  write i d held σ row change rest h hk := by
    have hg := h.gated
    have ha := h.alone
    rw [hk] at hg ha
    exact ⟨hg, h.looked, fun e he => (h.snapshot e he).imp_right .inl, h.reads, ha⟩

def Database.Unread (early : ι → Prop) (s : Database ι D L) : Turn ι → Prop
  | .run j => (s.sessions j).rest.commits = true → ∀ i, i ≠ j → early i →
      (s.sessions i).rest.ended = false →
        (s.sessions i).looked.isNone = true ∧ (s.sessions i).snapshot.isNone = true
  | .abort _ => True

theorem Session.serial_start (hbody : ∀ i, (body i).Gated gate (early i) False) (i : ι) (d : D) :
    Session.Serial body gate early i d (fun _ => False) (.init (body i) none) :=
  ⟨hbody i, (fun e he => by cases he), (fun e he => by cases he),
    ⟨(fun e he => by cases he), (fun e he => by cases he)⟩, fun _ _ => rfl⟩

theorem Session.serial_survives {s : Database ι D L} {j : ι}
    (hm : s.Meets (Session.Serial body gate early)) (hunread : s.Unread early (.run j))
    (hj : (s.sessions j).rest = .commit) : s.Survives (Session.Serial body gate early) j := by
  intro i hne hi
  have h := hm i hi
  have hgate : s.Holds j gate := by
    have hg := (hm j (by rw [hj]; rfl)).gated
    rwa [hj] at hg
  have hnot : ¬ s.Holds i gate := fun hheld =>
    hne (Option.some.inj (hheld.symm.trans hgate))
  have hnone := fun he => hunread (by rw [hj]; rfl) i hne he hi
  have hlooked : (s.sessions i).looked = none := by
    by_contra hsome
    obtain ⟨e, he⟩ := Option.ne_none_iff_exists'.mp hsome
    exact hsome (Option.isNone_iff_eq_none.mp (hnone (h.looked e he)).1)
  have hsnapshot : (s.sessions i).snapshot = none := by
    by_contra hsome
    obtain ⟨e, he⟩ := Option.ne_none_iff_exists'.mp hsome
    exact hsome (Option.isNone_iff_eq_none.mp (hnone ((h.snapshot e he).resolve_right hnot)).2)
  refine ⟨h.gated, h.looked, h.snapshot, ⟨fun e he => ?_, fun e he => ?_⟩, h.alone⟩
  · rw [hlooked] at he
    cases he
  · rw [hsnapshot] at he
    cases he

variable [DecidableEq ι] [DecidableEq L]

theorem Database.serial {s : Database ι D L} {d₀ : D} {past : List (Database ι D L × Turn ι)}
    (hbody : ∀ i, (body i).Gated gate (early i) False)
    (hrun : Run (Database.step body) (Database.init body d₀) past s)
    (hc : Always (fun _ s a => s.Unread early a) past) :
    s.log.Nodup ∧ s.committed = s.log.foldr (fun i d => (body i).alone d id) d₀ := by
  have hinv := hrun.invariant_always (P := fun _ s => s.Meets (Session.Serial body gate early) ∧
      (∀ i ∈ s.log, (s.sessions i).rest.ended = true) ∧ s.log.Nodup ∧
      s.committed = s.log.foldr (fun i d => (body i).alone d id) d₀)
    (C := fun _ s a => s.Unread early a) ?_ ?_ hc
  · exact hinv.2.2
  · exact ⟨Database.Meets.start (Session.serial_start hbody), by simp [Database.init]⟩
  · rintro past s a s' ⟨hm, hended, hnodup, hd⟩ hunread hs
    obtain ⟨hm', hlog⟩ := (Session.serial_outline hbody).step hm hs fun j ha hj =>
      Session.serial_survives hm (by subst ha; exact hunread) hj
    refine ⟨hm', ?_⟩
    obtain ⟨hd', hlog⟩ | ⟨i, rfl, hcommit, hlog, hd'⟩ := hlog
    · rw [hd', hlog]
      exact ⟨fun i hi => Database.step_ended hs i (.inl (hended i hi)), hnodup, hd⟩
    · have hopen : (s.sessions i).rest.ended = false := by rw [hcommit]; rfl
      have halone := (hm i hopen).alone _ (hm i hopen).reads
      rw [hcommit] at halone
      rw [hd', hlog, List.foldr_cons, ← hd, ← halone]
      refine ⟨fun j hj => ?_, List.nodup_cons.mpr ⟨fun hi => ?_, hnodup⟩, rfl⟩
      · grind [Database.step_ended]
      · have := hended i hi
        rw [hopen] at this
        cases this

end Serial

/-! ### A check on the snapshot -/

def Txn.Keeps (P : D → Prop) : Txn D L → Prop
  | .done | .rollback | .commit => True
  | .look k | .select k => ∀ d, (k d).Keeps P
  | .write _ change rest => (∀ d, P d → P (change d)) ∧ rest.Keeps P

/-- On the snapshot `e` the transaction writes only if `P` holds there. -/
def Txn.Guarded (P : D → Prop) (e : D) : Txn D L → Prop
  | .done | .rollback | .commit => True
  | .look _ => False
  | .select k => (k e).Guarded P e
  | .write _ _ _ => P e

structure Session.Checked (body : ι → Txn D L) (P : D → Prop) (i₀ i : ι) (d : D)
    (held : L → Prop) (σ : Session D L) : Prop where
  keeps : (body i).Keeps P → σ.rest.Keeps P ∧ ∀ e, P e → P (σ.pending e)
  snapshot : i = i₀ → ∀ e, σ.snapshot = some e → P e → P d
  wrote : i = i₀ → ∀ row, held row → ∃ e, σ.snapshot = some e ∧ P e
  guard : i = i₀ → (∀ row, ¬ held row) → σ.pending = id ∧
    (σ.rest = body i ∧ σ.snapshot = none ∨ ∃ e, σ.snapshot = some e ∧ σ.rest.Guarded P e)

section Checked

variable {body : ι → Txn D L} {P : D → Prop} {i₀ : ι} {k₀ : D → Txn D L}

theorem Session.checked_start (i : ι) (d : D) :
    Session.Checked body P i₀ i d (fun _ => False) (.init (body i) none) :=
  ⟨fun h => ⟨h, fun _ => id⟩, (fun _ _ he => by cases he), (fun _ _ h => h.elim),
    fun _ _ => ⟨rfl, .inl ⟨rfl, rfl⟩⟩⟩

theorem Session.checked_outline (hbody : body i₀ = .select k₀) (hk : ∀ e, (k₀ e).Guarded P e) :
    Outline body (Session.Checked body P i₀) where
  again i d held σ _ := by
    refine ⟨fun hk => ⟨?_, fun _ => id⟩, (fun _ _ he => by cases he), (fun _ _ h => h.elim), ?_⟩
    · simp only [Session.init]
      unfold Txn.resume
      split
      · rename_i k e hb _
        rw [hb] at hk
        exact hk e
      · exact hk
    · rintro rfl -
      refine ⟨rfl, .inl ⟨?_, rfl⟩⟩
      rw [hbody]
      rfl
  look i d held σ k h hrest := by
    refine ⟨fun hb => ⟨?_, (h.keeps hb).2⟩, h.snapshot, h.wrote, fun hi hfree => ?_⟩
    · have := (h.keeps hb).1
      rw [hrest] at this
      exact this d
    · obtain ⟨-, ⟨hstart, -⟩ | ⟨e, -, hg⟩⟩ := h.guard hi hfree
      · rw [hrest, hi, hbody] at hstart
        cases hstart
      · rw [hrest] at hg
        exact hg.elim
  select i d held σ k h hrest := by
    have hkeeps : (body i).Keeps P → (k (σ.pending (σ.snapshot.getD d))).Keeps P := by
      intro hb
      have := (h.keeps hb).1
      rw [hrest] at this
      exact this _
    refine ⟨fun hb => ⟨hkeeps hb, (h.keeps hb).2⟩, fun hi e he hPe => ?_, fun hi row hrow => ?_,
      fun hi hfree => ?_⟩
    · cases hs : σ.snapshot with
      | none =>
        simp only [hs, Option.getD_none, Option.some.injEq] at he
        rwa [he]
      | some e' =>
        simp only [hs, Option.getD_some, Option.some.injEq] at he
        exact h.snapshot hi e (by rw [hs, he]) hPe
    · obtain ⟨e, he, hPe⟩ := h.wrote hi row hrow
      exact ⟨e, by simp [he], hPe⟩
    · obtain ⟨hid, ⟨hstart, hs⟩ | ⟨e, he, hg⟩⟩ := h.guard hi hfree
      · simp_all
      · rw [hrest] at hg
        have hg : (k e).Guarded P e := hg
        exact ⟨hid, .inr ⟨e, by simp [he], by simpa [he, hid] using hg⟩⟩
  write i d held σ row change rest h hrest := by
    refine ⟨fun hb => ?_, h.snapshot, fun hi r hr => ?_, fun _ hfree => ?_⟩
    · obtain ⟨hr, hp⟩ := h.keeps hb
      rw [hrest] at hr
      exact ⟨hr.2, fun e he => hr.1 _ (hp e he)⟩
    · by_cases hfree : ∀ r, ¬ held r
      · obtain ⟨-, ⟨hstart, -⟩ | ⟨e, he, hg⟩⟩ := h.guard hi hfree
        · rw [hrest, hi, hbody] at hstart
          cases hstart
        · rw [hrest] at hg
          exact ⟨e, he, hg⟩
      · obtain ⟨r', hr'⟩ := not_forall_not.mp hfree
        exact h.wrote hi r' hr'
    · exact absurd (.inr rfl) (hfree row)

variable [DecidableEq ι] [DecidableEq L]

theorem Database.checked {s : Database ι D L} {d₀ : D} {past : List (Database ι D L × Turn ι)}
    {row : L} (hbody : body i₀ = .select k₀) (hk : ∀ e, (k₀ e).Guarded P e)
    (hrun : Run (Database.step body) (Database.init body d₀) past s)
    (hc : Always (fun _ s a => ∀ j, a = .run j → (s.sessions j).rest = .commit →
      (body j).Keeps P ∨ (s.sessions i₀).snapshot = none) past)
    (hopen : (s.sessions i₀).rest.ended = false) (hheld : s.Holds i₀ row) : P s.committed := by
  have hm : s.Meets (Session.Checked body P i₀) := by
    refine hrun.invariant_always (P := fun _ s => s.Meets (Session.Checked body P i₀)) ?_ ?_ hc
    · exact Database.Meets.start Session.checked_start
    · intro past s a s' hm hcommit hs
      refine ((Session.checked_outline hbody hk).step hm hs fun j ha hj i hne hi => ?_).1
      have h := hm i hi
      refine ⟨h.keeps, fun heq e he hPe => ?_, h.wrote, h.guard⟩
      obtain hkeep | hnone := hcommit j ha hj
      · exact ((hm j (by rw [hj]; rfl)).keeps hkeep).2 _ (h.snapshot heq e he hPe)
      · rw [heq, hnone] at he
        cases he
  obtain ⟨e, he, hPe⟩ := (hm i₀ hopen).wrote rfl row hheld
  exact (hm i₀ hopen).snapshot rfl e he hPe

end Checked

end Unkey.Base.RepeatableRead
