import Mathlib.Data.List.Perm.Basic
import Mathlib.Data.List.Sort
import Mathlib.Data.String.Basic
import Unkey.Base.GoString
import Unkey.Base.Run

/-!
# Skipped status reports

Pod events and resync ticks report the instances of a ReplicaSet under a lock, unless the
fingerprint of the last report says that nothing changed.
-/

namespace Unkey.Krane.Reports

open Unkey.Base

inductive Status
  | unspecified | pending | running | failed
  deriving DecidableEq

def Status.number : Status → Int
  | .unspecified => 0
  | .pending => 1
  | .running => 2
  | .failed => 3

/-- Names of pods and addresses contain neither of the characters that the fingerprint glues with. -/
structure Instance where
  k8sName : String
  address : String
  status : Status
  name_plain : '|' ∉ k8sName.toList ∧ ';' ∉ k8sName.toList
  address_plain : '|' ∉ address.toList ∧ ';' ∉ address.toList
  deriving DecidableEq

/-- What `buildDeploymentStatus` makes of the pods; no two pods share a name. -/
structure Report where
  instances : List Instance
  nodup : (instances.map Instance.k8sName).Nodup

def Instance.text (i : Instance) : String :=
  i.k8sName ++ "|" ++ i.address ++ "|" ++ itoa i.status.number

/-- The texts of the instances, in the order in which they are hashed. -/
def Report.texts (r : Report) : List String :=
  (r.instances.map Instance.text).insertionSort (· ≤ ·)

/-- What is hashed of a report. -/
def Report.text (r : Report) : String := join ';' r.texts

def instanceFingerprint (sha256 : String → String) (r : Report) : String := sha256 r.text

def upsertInstance (rows : List Instance) (i : Instance) : List Instance :=
  i :: rows.filter (·.k8sName ≠ i.k8sName)

/-- The transaction of `ReportDeploymentStatus` for an update. -/
def store (rows : List Instance) (r : Report) : List Instance :=
  r.instances.foldl upsertInstance (rows.filter fun x => x.k8sName ∈ r.instances.map Instance.k8sName)

/-- Where a thread is: it has read the pods, for `reportIfChanged` or for `ApplyDeployment`; it holds
the lock; it has found a change; its report is stored; or it is about to report a deletion. -/
inductive Phase
  | idle
  | read (locks : Bool) (r : Report)
  | locked (r : Report)
  | changed (r : Report)
  | stored (locks : Bool) (r : Report)
  | deleting

structure World (ι : Type) where
  pods : Report
  rows : List Instance
  fingerprint : Option String
  lock : Option ι
  phase : ι → Phase

inductive Event (ι : Type)
  | pods (r : Report)
  | evict
  | read (i : ι) (locks : Bool)
  | lock (i : ι)
  | check (i : ι)
  | store (i : ι)
  | remember (i : ι)
  | remove (i : ι)
  | delete (i : ι)

variable {ι : Type} [DecidableEq ι] (sha256 : String → String)

def World.set (w : World ι) (i : ι) (p : Phase) : World ι :=
  { w with phase := Function.update w.phase i p }

/-- The pods change, the cache forgets, or a report or removal takes its next step. -/
def step (w : World ι) : Event ι → Option (World ι)
  | .pods r => some { w with pods := r }
  | .evict => some { w with fingerprint := none }
  | .read i locks =>
    match w.phase i with
    | .idle => some (w.set i (.read locks w.pods))
    | _ => none
  | .lock i =>
    match w.phase i, w.lock with
    | .read true r, none => some { w.set i (.locked r) with lock := some i }
    | _, _ => none
  | .check i =>
    match w.phase i with
    | .locked r =>
      if w.fingerprint = some (instanceFingerprint sha256 r) then
        some { w.set i .idle with lock := none }
      else some (w.set i (.changed r))
    | _ => none
  | .store i =>
    match w.phase i with
    | .changed r => some { w.set i (.stored true r) with rows := store w.rows r }
    | .read false r => some { w.set i (.stored false r) with rows := store w.rows r }
    | _ => none
  | .remember i =>
    match w.phase i with
    | .stored locks r => some { w.set i .idle with
        fingerprint := some (instanceFingerprint sha256 r)
        lock := if locks then none else w.lock }
    | _ => none
  | .remove i =>
    match w.phase i with
    | .idle => some { w.set i .deleting with fingerprint := none }
    | _ => none
  | .delete i =>
    match w.phase i with
    | .deleting => some { w.set i .idle with rows := [] }
    | _ => none

def Phase.open : Phase → Bool
  | .stored _ _ | .deleting => true
  | _ => false

def World.Quiet (w : World ι) (i : ι) : Prop := ∀ j, j ≠ i → (w.phase j).open = false

/-- Nothing is checked, stored or removed while another report is between its rows and its
fingerprint. -/
def Exclusive (_ : List (World ι × Event ι)) (w : World ι) : Event ι → Prop
  | .check i | .store i | .remove i => w.Quiet i
  | _ => True

/-! ### Fingerprints -/

theorem Instance.text_inj : Function.Injective Instance.text := by
  intro i j h
  have hfree : ∀ s : Status, '|' ∉ (itoa s.number).toList := by
    intro s hmem
    exact absurd (isDigit_of_mem_itoa (by cases s <;> decide) hmem) (by decide)
  obtain ⟨hrest, hstatus⟩ := glue_inj "|" (c := '|') rfl (hfree _) (hfree _) h
  obtain ⟨hname, haddress⟩ := glue_inj "|" (c := '|') rfl i.address_plain.1 j.address_plain.1 hrest
  have hstatus : i.status = j.status := by
    have := itoa_inj (by cases i.status <;> decide) (by cases j.status <;> decide) hstatus
    revert this
    cases i.status <;> cases j.status <;> decide
  obtain ⟨_, _, _, _, _⟩ := i
  obtain ⟨_, _, _, _, _⟩ := j
  cases hname
  cases haddress
  cases hstatus
  rfl

theorem Instance.text_plain (i : Instance) : ';' ∉ i.text.toList := by
  intro hmem
  simp only [Instance.text, String.toList_append, List.mem_append] at hmem
  rcases hmem with (((hmem | hmem) | hmem) | hmem) | hmem
  · exact i.name_plain.2 hmem
  · simp at hmem
  · exact i.address_plain.2 hmem
  · simp at hmem
  · exact absurd (isDigit_of_mem_itoa (by cases i.status <;> decide) hmem) (by decide)

variable {sha256} {r r' : Report} {x : Instance} {rows : List Instance}

theorem Report.mem_texts {s : String} : s ∈ r.texts ↔ ∃ i ∈ r.instances, i.text = s := by
  rw [texts, List.mem_insertionSort, List.mem_map]

theorem Report.split_text (hne : r.texts ≠ []) : split ';' r.text = r.texts := by
  refine split_join hne fun s hs => ?_
  obtain ⟨i, -, rfl⟩ := Report.mem_texts.mp hs
  exact i.text_plain

theorem Report.text_ne_of_texts_ne_nil (hne : r.texts ≠ []) : r.text ≠ join ';' [] := by
  intro h
  have hsplit := split_text hne
  rw [h, show split ';' (join ';' []) = [""] by decide] at hsplit
  -- the text of an instance is not empty
  obtain ⟨i, -, htext⟩ := Report.mem_texts.mp (hsplit ▸ List.mem_cons_self : "" ∈ r.texts)
  simpa [Instance.text] using congrArg String.toList htext

theorem Report.texts_eq_of_text (h : r.text = r'.text) : r.texts = r'.texts := by
  by_cases hr : r.texts = []
  · by_contra hne
    refine text_ne_of_texts_ne_nil (r := r') (fun hr' => hne (hr.trans hr'.symm)) ?_
    rw [← h, text, hr]
  · by_cases hr' : r'.texts = []
    · exact absurd (by rw [h, text, hr']) (text_ne_of_texts_ne_nil hr)
    · rw [← split_text hr, h, split_text hr']

theorem mem_iff_of_text (h : r.text = r'.text) : x ∈ r.instances ↔ x ∈ r'.instances := by
  have htexts : r.texts = r'.texts := Report.texts_eq_of_text h
  rw [Report.texts, Report.texts] at htexts
  have hperm : (r.instances.map Instance.text).Perm (r'.instances.map Instance.text) :=
    (List.perm_insertionSort (· ≤ ·) _).symm.trans
      (htexts ▸ List.perm_insertionSort (· ≤ ·) _)
  exact ((List.map_perm_map_iff Instance.text_inj).mp hperm).mem_iff

/-! ### The transaction -/

theorem mem_foldl_upsertInstance {is : List Instance} (hnodup : (is.map Instance.k8sName).Nodup) :
    x ∈ is.foldl upsertInstance rows ↔
      x ∈ is ∨ x ∈ rows ∧ x.k8sName ∉ is.map Instance.k8sName := by
  induction is generalizing rows with
  | nil => simp
  | cons i is ih =>
    rw [List.map_cons, List.nodup_cons] at hnodup
    rw [List.foldl_cons, ih hnodup.2, upsertInstance, List.mem_cons, List.mem_filter,
      decide_eq_true_eq, List.map_cons, List.mem_cons, List.mem_cons, not_or]
    constructor
    · grind
    · grind

theorem mem_store (rows : List Instance) (r : Report) : x ∈ store rows r ↔ x ∈ r.instances := by
  rw [store, mem_foldl_upsertInstance r.nodup, List.mem_filter]
  refine ⟨?_, .inl⟩
  rintro (hmem | ⟨⟨-, hin⟩, hnot⟩)
  · exact hmem
  · exact absurd (of_decide_eq_true hin) hnot

/-! ### What the fingerprint stands for -/

def Holds (rows : List Instance) (r : Report) : Prop := ∀ x, x ∈ rows ↔ x ∈ r.instances

/-- The event stores the fingerprint of the report. -/
def Remembers (w : World ι) (e : Event ι) (r : Report) : Prop :=
  ∃ i locks, e = .remember i ∧ w.phase i = .stored locks r

/-- At most one report is between its rows and its fingerprint; otherwise the fingerprint is that of
the rows. -/
structure Inv (sha256 : String → String) (T : Report → Prop) (w : World ι) : Prop where
  alone : ∀ i j, (w.phase i).open = true → (w.phase j).open = true → i = j
  stored : ∀ i locks r, w.phase i = .stored locks r → Holds w.rows r
  deleting : ∀ i, w.phase i = .deleting → w.fingerprint = none
  remembered : (∀ i, (w.phase i).open = false) → ∀ f, w.fingerprint = some f →
    ∃ r, T r ∧ f = instanceFingerprint sha256 r ∧ Holds w.rows r

variable {w w' : World ι} {i : ι} {T : Report → Prop}

theorem Inv.move (hinv : Inv sha256 T w) (pods : Report) (lock : Option ι) {p : Phase}
    (hbefore : (w.phase i).open = false) (hafter : p.open = false) :
    Inv sha256 T { w.set i p with pods := pods, lock := lock } := by
  have hopen : ∀ j, (Function.update w.phase i p j).open = (w.phase j).open := by grind
  have hsame : ∀ j q, q.open = true → Function.update w.phase i p j = q → w.phase j = q := by grind
  refine ⟨fun j k hj hk => hinv.alone j k (hopen j ▸ hj) (hopen k ▸ hk),
    fun j locks r hj => hinv.stored j locks r (hsame j _ rfl hj),
    fun j hj => hinv.deleting j (hsame j _ rfl hj),
    fun hnone => hinv.remembered fun j => (hopen j) ▸ hnone j⟩

theorem Inv.enter (w : World ι) {p : Phase} (hquiet : w.Quiet i) (hopen : p.open = true)
    (rows : List Instance) (fingerprint : Option String)
    (hstored : ∀ locks r, p = .stored locks r → Holds rows r)
    (hdeleting : p = .deleting → fingerprint = none) :
    Inv sha256 T { w.set i p with rows := rows, fingerprint := fingerprint } := by
  have honly : ∀ j, (Function.update w.phase i p j).open = true → j = i := by
    intro j hj
    by_contra hne
    rw [Function.update_of_ne hne, hquiet j hne] at hj
    cases hj
  have hself : ∀ j, j = i → Function.update w.phase i p j = p := by
    rintro j rfl
    rw [Function.update_self]
  refine ⟨fun j k hj hk => (honly j hj).trans (honly k hk).symm, fun j locks r hj => ?_,
    fun j hj => ?_, fun hnone => ?_⟩
  · have hphase : Function.update w.phase i p j = .stored locks r := hj
    have hji := honly j (by rw [hphase]; rfl)
    exact hstored locks r ((hself j hji).symm.trans hphase)
  · have hphase : Function.update w.phase i p j = .deleting := hj
    have hji := honly j (by rw [hphase]; rfl)
    exact hdeleting ((hself j hji).symm.trans hphase)
  · have hclosed : (Function.update w.phase i p i).open = false := hnone i
    rw [hself i rfl, hopen] at hclosed
    cases hclosed

theorem Inv.leave (hinv : Inv sha256 T w) (hopen : (w.phase i).open = true) (rows : List Instance)
    (fingerprint : Option String) (lock : Option ι)
    (hremembered : ∀ f, fingerprint = some f →
      ∃ r, T r ∧ f = instanceFingerprint sha256 r ∧ Holds rows r) :
    Inv sha256 T { w.set i .idle with rows := rows, fingerprint := fingerprint, lock := lock } := by
  have hclosed : ∀ j, (Function.update w.phase i .idle j).open = false := by
    intro j
    by_cases hj : j = i
    · rw [hj, Function.update_self]
      rfl
    · rw [Function.update_of_ne hj]
      refine Bool.eq_false_iff.mpr fun htrue => hj (hinv.alone j i htrue hopen)
  have hnot : ∀ j q, q.open = true → Function.update w.phase i .idle j ≠ q := by
    rintro j q hq rfl
    rw [hclosed j] at hq
    cases hq
  exact ⟨fun j k hj _ => absurd (hj.symm.trans (hclosed j)) (by decide),
    fun j locks r hj => absurd hj (hnot j _ rfl), fun j hj => absurd hj (hnot j _ rfl),
    fun _ => hremembered⟩

theorem Inv.step (past : List (World ι × Event ι)) {e : Event ι} (hinv : Inv sha256 T w)
    (hexcl : Exclusive past w e) (hT : ∀ r, Remembers w e r → T r)
    (h : step sha256 w e = some w') : Inv sha256 T w' := by
  cases e with
  | pods r =>
    cases h
    exact ⟨hinv.alone, hinv.stored, hinv.deleting, hinv.remembered⟩
  | evict =>
    cases h
    exact ⟨hinv.alone, hinv.stored, fun _ _ => rfl, fun _ f hf => by cases hf⟩
  | read i locks =>
    simp only [Reports.step] at h
    split at h <;> cases h
    rename_i hidle
    exact hinv.move w.pods w.lock (by rw [hidle]; rfl) rfl
  | lock i =>
    simp only [Reports.step] at h
    split at h <;> cases h
    rename_i hread _
    exact hinv.move w.pods (some i) (by rw [hread]; rfl) rfl
  | check i =>
    simp only [Reports.step] at h
    split at h
    · rename_i hlocked
      split at h <;> cases h
      · exact hinv.move w.pods none (by rw [hlocked]; rfl) rfl
      · exact hinv.move w.pods w.lock (by rw [hlocked]; rfl) rfl
    · cases h
  | store i =>
    simp only [Reports.step] at h
    split at h <;> cases h
    all_goals
      rename_i r _
      refine Inv.enter w hexcl rfl (store w.rows r) w.fingerprint ?_ (fun hp => by cases hp)
      rintro locks r' heq
      cases heq
      exact fun x => mem_store w.rows r
  | remember i =>
    simp only [Reports.step] at h
    split at h <;> cases h
    rename_i locks r hstored
    refine hinv.leave (by rw [hstored]; rfl) w.rows _ _ fun f hf => ?_
    exact ⟨r, hT r ⟨i, locks, rfl, hstored⟩, (Option.some.inj hf).symm,
      hinv.stored i locks r hstored⟩
  | remove i =>
    simp only [Reports.step] at h
    split at h <;> cases h
    exact Inv.enter w hexcl rfl w.rows none (fun _ _ heq => by cases heq) fun _ => rfl
  | delete i =>
    simp only [Reports.step] at h
    split at h <;> cases h
    rename_i hdeleting
    refine hinv.leave (by rw [hdeleting]; rfl) [] w.fingerprint w.lock fun f hf => ?_
    rw [hinv.deleting i hdeleting] at hf
    cases hf

def initial (pods : Report) (rows : List Instance) : World ι :=
  ⟨pods, rows, none, none, fun _ => .idle⟩

/-- If no report is stored, skipped or preceded by a removal while another one is between its rows
and its fingerprint, then a report is skipped only when the rows are those of the report, provided
that its text does not collide with one whose hash was stored in the run. -/
theorem skipped_redundant (pods : Report) (rows : List Instance)
    {past : List (World ι × Event ι)} {w : World ι}
    (hrun : Run (step sha256) (initial pods rows) past w) (hexcl : Always Exclusive past) {i : ι}
    {r : Report} (hsha : ∀ x ∈ past, ∀ r', Remembers x.1 x.2 r' →
      sha256 r'.text = sha256 r.text → r'.text = r.text)
    (hlocked : w.phase i = .locked r) (hquiet : w.Quiet i)
    (hskip : w.fingerprint = some (instanceFingerprint sha256 r)) :
    ∀ x, x ∈ w.rows ↔ x ∈ r.instances := by
  have hremembered : Always (fun _ w e => ∀ r, Remembers w e r → ∃ x ∈ past, Remembers x.1 x.2 r)
      past := Always.of_mem fun x hx r hr => ⟨x, hx, hr⟩
  have hinv : Inv sha256 (fun r => ∃ x ∈ past, Remembers x.1 x.2 r) w := by
    refine hrun.invariant_always (P := fun _ w => Inv sha256 _ w) ?_
      (fun _ _ _ _ hinv hturn h => hinv.step _ hturn.1 hturn.2 h) (hexcl.and hremembered)
    exact ⟨(fun _ _ h => by cases h), (fun _ _ _ h => by cases h), (fun _ h => by cases h),
      (fun _ f hf => by cases hf)⟩
  have hclosed : ∀ j, (w.phase j).open = false := by
    intro j
    by_cases hj : j = i
    · rw [hj, hlocked]
      rfl
    · exact hquiet j hj
  obtain ⟨r', ⟨turn, hturn, hr'⟩, hsame, hrows⟩ := hinv.remembered hclosed _ hskip
  intro x
  rw [hrows x]
  exact mem_iff_of_text (hsha turn hturn r' hr' hsame.symm)

def podOne : Report where
  instances := [⟨"pod-1", "10.0.0.1:8080", .running, by decide, by decide⟩]
  nodup := by decide

/-- A report follows another of the same pods, and is skipped. -/
theorem skipped_redundant_again :
    ∃ (past : List (World Unit × Event Unit)) (w : World Unit),
      Run (step id) (initial podOne []) past w ∧ ∀ x, x ∈ w.rows ↔ x ∈ podOne.instances := by
  have hquiet : ∀ w : World Unit, w.Quiet () := fun _ j hj => absurd rfl hj
  have hrun : ∃ past w, Run (step id) (initial podOne [] : World Unit) past w ∧
      w.phase () = .locked podOne ∧ w.fingerprint = some (instanceFingerprint id podOne) :=
    ⟨_, _, (((((((Run.start.next (a := .read () true) rfl).next (a := .lock ()) rfl).next
      (a := .check ()) rfl).next (a := .store ()) rfl).next (a := .remember ()) rfl).next
      (a := .read () true) rfl).next (a := .lock ()) rfl), rfl, rfl⟩
  obtain ⟨past, w, hrun, hlocked, hskip⟩ := hrun
  have hexcl : Always Exclusive past := Always.of_forall (fun _ w e => by
    cases e <;> first | exact hquiet w | trivial) past
  exact ⟨past, w, hrun, skipped_redundant podOne [] hrun hexcl (fun _ _ _ _ h => h) hlocked
    (hquiet w) hskip⟩

/-- A deletion that overlaps with a report: the rows go after the fingerprint was written, and the
next report of the same pods is skipped. -/
theorem skipped_after_delete :
    (exec (step id) (initial podOne [] : World Bool) [.read true true, .lock true, .check true,
      .remove false, .store true, .remember true, .delete false, .read true true, .lock true,
      .check true]).map (fun w => (w.lock, w.rows, w.pods.instances.length)) =
        some (none, [], 1) := by
  decide

end Unkey.Krane.Reports
