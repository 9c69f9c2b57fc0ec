import Unkey.Base.RepeatableRead
import Unkey.Base.GoMap
import Mathlib.Data.List.Perm.Basic

/-!
# Replacing the rate limits of an identity or a key

Both handlers compare the new list with rows they have read and then delete, update and insert the
difference under a lock of the owner's row.
-/

namespace Unkey.Keys.ReplaceLimits

open Unkey.Base Unkey.Base.RepeatableRead

structure Limit where
  name : String
  limit : Nat
  duration : Nat
  autoApply : Bool
  deriving DecidableEq

/-- The ids of the rows stored at the start and those that `uid.New` draws for a request. -/
inductive Id (ι : Type)
  | old (n : Nat)
  | new (request : ι) (name : String)
  deriving DecidableEq

structure Row (ι : Type) extends Limit where
  id : Id ι
  deriving DecidableEq

abbrev Table (ι : Type) := List (Row ι)

inductive Lock
  | owner
  | identity (externalId : String)
  deriving DecidableEq

def lastEntries : List Limit → List Limit
  | [] => []
  | l :: ls => if ls.any (·.name == l.name) then lastEntries ls else l :: lastEntries ls

structure Request where
  limits : List Limit
  ranged : List Limit
  perm : ranged.Perm (lastEntries limits)

section Statements

variable {ι : Type} [DecidableEq ι]

def deleteManyRatelimitsByIDs (ids : List (Id ι)) (t : Table ι) : Table ι :=
  t.filter fun r => !ids.contains r.id

def updateRatelimit (id : Id ι) (l : Limit) (t : Table ι) : Table ι :=
  t.map fun r => if r.id = id then ⟨l, r.id⟩ else r

/-- `INSERT … ON DUPLICATE KEY UPDATE` under the unique keys `id` and `(owner, name)`. -/
def insertOrUpdate (onDuplicate : Row ι → Row ι → Row ι) (t : Table ι) (row : Row ι) : Table ι :=
  if t.any (·.id = row.id) then t.map fun r => if r.id = row.id then onDuplicate r row else r
  else if t.any (·.name = row.name) then
    t.map fun r => if r.name = row.name then onDuplicate r row else r
  else t ++ [row]

def insertIdentityRatelimit : Table ι → Row ι → Table ι :=
  insertOrUpdate fun r row => ⟨row.toLimit, r.id⟩

def insertKeyRatelimit : Table ι → Row ι → Table ι :=
  insertOrUpdate fun r row => ⟨{ row.toLimit with name := r.name }, r.id⟩

def existingRatelimit (existing : Table ι) (l : Limit) : Option (Row ι) :=
  existing.find? (·.name == l.name)

def rateLimitsToDelete (existing : Table ι) (ranged : List Limit) : List (Id ι) :=
  (existing.filter fun r => !ranged.any (·.name == r.name)).map (·.id)

def rowFor (i : ι) (existing : Table ι) (l : Limit) : Row ι :=
  ⟨l, ((existingRatelimit existing l).map (·.id)).getD (.new i l.name)⟩

def deleteMissing (existing : Table ι) (ranged : List Limit) : List (Table ι → Table ι) :=
  let ids := rateLimitsToDelete existing ranged
  if ids.isEmpty then [] else [deleteManyRatelimitsByIDs ids]

def insertAll (insert : Table ι → Row ι → Table ι) (rows : List (Row ι)) :
    List (Table ι → Table ι) :=
  if rows.isEmpty then [] else [fun t => rows.foldl insert t]

/-- The writes of `updateIdentity`: one `UPDATE` for every limit that exists. -/
def identityWrites (i : ι) (ranged : List Limit) (existing : Table ι) :
    List (Table ι → Table ι) :=
  let known := fun l => (existingRatelimit existing l).isSome
  deleteMissing existing ranged ++
    ((ranged.filter known).map fun l => updateRatelimit (rowFor i existing l).id l) ++
    insertAll insertIdentityRatelimit ((ranged.filter (!known ·)).map (rowFor i existing))

def keyWrites (i : ι) (ranged : List Limit) (existing : Table ι) : List (Table ι → Table ι) :=
  deleteMissing existing ranged ++ insertAll insertKeyRatelimit (ranged.map (rowFor i existing))

def writes (changes : List (Table ι → Table ι)) : Txn (Table ι) Lock :=
  changes.foldr (fun change rest => .write .owner change rest) .commit

def updateIdentity (i : ι) (req : Request) : Txn (Table ι) Lock :=
  .look fun existing => .write .owner id (writes (identityWrites i req.ranged existing))

def replaceKeyLimits (i : ι) (req : Request) : Txn (Table ι) Lock :=
  .write .owner id (.select fun existing => writes (keyWrites i req.ranged existing))

/-- With an external id `UpsertIdentity` and `FindIdentityByExternalID` come first. -/
def updateKey (i : ι) (req : Request) : Option String → Txn (Table ι) Lock
  | none => replaceKeyLimits i req
  | some externalId =>
    .write (.identity externalId) id (.select fun _ => replaceKeyLimits i req)

/-- The handler all requests go to: that of one identity, or that of one key with the external ids
of the requests. -/
inductive Handler (ι : Type)
  | identity
  | key (externalId : ι → Option String)

def Handler.body (h : Handler ι) (req : ι → Request) (i : ι) : Txn (Table ι) Lock :=
  match h with
  | .identity => updateIdentity i (req i)
  | .key externalId => updateKey i (req i) (externalId i)

def Handler.readsEarly : Handler ι → ι → Prop
  | .identity, _ => True
  | .key externalId, i => externalId i ≠ none

instance Handler.readsEarly.decidable (h : Handler ι) (i : ι) : Decidable (h.readsEarly i) :=
  match h with
  | .identity => .isTrue trivial
  | .key externalId => inferInstanceAs (Decidable (externalId i ≠ none))

end Statements

def Stores {ι : Type} (t : Table ι) (limits : List Limit) : Prop :=
  (t.map Row.toLimit).Perm (lastEntries limits)

structure Keyed {ι : Type} (t : Table ι) : Prop where
  names : (t.map (·.name)).Nodup
  ids : ∀ r ∈ t, ∀ r' ∈ t, r.id = r'.id → r.name = r'.name

section Sequential

variable {ι : Type} [DecidableEq ι]

structure Puts (t t' : Table ι) (row : Row ι) : Prop where
  mem : ∀ r, r ∈ t' ↔ (r ∈ t ∧ r.name ≠ row.name) ∨ r = row
  names : (t.map (·.name)).Nodup → (t'.map (·.name)).Nodup

def Fits (t : Table ι) (row : Row ι) : Prop := ∀ r ∈ t, r.id = row.id ↔ r.name = row.name

theorem puts_map {t : Table ι} {row r₀ : Row ι} {f : Row ι → Row ι} (hfit : Fits t row)
    (hr₀ : r₀ ∈ t) (hname : r₀.name = row.name)
    (hf : ∀ r, r.id = row.id → r.name = row.name → f r = row) :
    Puts t (t.map fun r => if r.id = row.id then f r else r) row := by
  have hmap : t.map (fun r => if r.id = row.id then f r else r) =
      t.map (fun r => if r.name = row.name then row else r) := by
    refine List.map_congr_left fun r hr => ?_
    by_cases hid : r.id = row.id
    · simp [hid, (hfit r hr).mp hid, hf r hid ((hfit r hr).mp hid)]
    · simp [hid, mt (hfit r hr).mpr hid]
  rw [hmap]
  refine ⟨fun r => ?_, fun hnodup => ?_⟩
  · grind
  · grind

theorem puts_update {t : Table ι} {row r₀ : Row ι} (hfit : Fits t row) (hr₀ : r₀ ∈ t)
    (hname : r₀.name = row.name) : Puts t (updateRatelimit row.id row.toLimit t) row :=
  puts_map hfit hr₀ hname fun r hid _ => by rw [hid]

theorem puts_insert {t : Table ι} {row : Row ι} {onDuplicate : Row ι → Row ι → Row ι}
    (hdup : ∀ r, r.id = row.id → r.name = row.name → onDuplicate r row = row) (hfit : Fits t row) :
    Puts t (insertOrUpdate onDuplicate t row) row := by
  unfold insertOrUpdate
  split
  · rename_i hid
    obtain ⟨r₀, hr₀, hid⟩ := List.any_eq_true.mp hid
    have hid : r₀.id = row.id := by simpa using hid
    exact puts_map hfit hr₀ ((hfit r₀ hr₀).mp hid) hdup
  · rename_i hid
    have hname : ∀ r ∈ t, r.name ≠ row.name := by
      intro r hr hname
      exact hid (List.any_eq_true.mpr ⟨r, hr, by simpa using (hfit r hr).mpr hname⟩)
    rw [if_neg (by simpa using hname)]
    refine ⟨fun r => ?_, fun hnodup => ?_⟩
    · rw [List.mem_append, List.mem_singleton]
      exact or_congr_left ⟨fun hr => ⟨hr, hname r hr⟩, And.left⟩
    · grind

omit [DecidableEq ι] in
theorem puts_foldl {f : Table ι → Row ι → Table ι} (rows : List (Row ι)) {t : Table ι}
    {I : Table ι → Prop}
    (hrows : ∀ r ∈ rows, ∀ r' ∈ rows, r.id = r'.id ↔ r.name = r'.name)
    (hI : ∀ t t' row, I t → Puts t t' row → I t')
    (hf : ∀ t, ∀ row ∈ rows, I t → Fits t row → Puts t (f t row) row)
    (ht : I t) (hfit : ∀ row ∈ rows, Fits t row) (hnodup : (rows.map (·.name)).Nodup) :
    (∀ r, r ∈ rows.foldl f t ↔ (r ∈ t ∧ ∀ row ∈ rows, r.name ≠ row.name) ∨ r ∈ rows) ∧
      ((t.map (·.name)).Nodup → ((rows.foldl f t).map (·.name)).Nodup) := by
  induction rows generalizing t with
  | nil => simp
  | cons row rows ih =>
    have hput := hf t row (List.mem_cons_self ..) ht (hfit row (List.mem_cons_self ..))
    obtain ⟨hnot, hnodup⟩ := List.nodup_cons.mp hnodup
    have hfit' : ∀ row' ∈ rows, Fits (f t row) row' := by
      intro row' hrow' r hr
      obtain ⟨hr, -⟩ | rfl := (hput.mem r).mp hr
      · exact hfit row' (List.mem_cons_of_mem _ hrow') r hr
      · exact hrows r (List.mem_cons_self ..) row' (List.mem_cons_of_mem _ hrow')
    obtain ⟨hmem, hnames⟩ := ih
      (fun r hr r' hr' => hrows r (List.mem_cons_of_mem _ hr) r' (List.mem_cons_of_mem _ hr'))
      (fun t row' hrow' => hf t row' (List.mem_cons_of_mem _ hrow')) (hI _ _ _ ht hput) hfit' hnodup
    refine ⟨fun r => ?_, fun h => hnames (hput.names h)⟩
    rw [List.foldl_cons, hmem r, hput.mem r]
    simp only [List.mem_cons, forall_eq_or_imp]
    constructor
    · grind
    · grind

section Replace

variable {t : Table ι} {i : ι} {ranged : List Limit}

def Drawn (log : List ι) (t : Table ι) : Prop := ∀ r ∈ t, ∀ j n, r.id = .new j n → j ∈ log

omit [DecidableEq ι] in
theorem existingRatelimit_some {l : Limit} {e : Row ι} (h : existingRatelimit t l = some e) :
    e ∈ t ∧ e.name = l.name :=
  ⟨List.mem_of_find?_eq_some h, by simpa using List.find?_some h⟩

omit [DecidableEq ι] in
theorem existingRatelimit_none {l : Limit} (h : existingRatelimit t l = none) :
    ∀ r ∈ t, r.name ≠ l.name := by
  simpa using List.find?_eq_none.mp h

omit [DecidableEq ι] in
theorem rowFor_fits (ht : Keyed t) (hi : ∀ r ∈ t, ∀ n, r.id ≠ .new i n) (l : Limit) :
    Fits t (rowFor i t l) := by
  intro r hr
  show r.id = ((existingRatelimit t l).map (·.id)).getD (.new i l.name) ↔ r.name = l.name
  cases he : existingRatelimit t l with
  | none => exact iff_of_false (hi r hr l.name) (existingRatelimit_none he r hr)
  | some e =>
    obtain ⟨hmem, hname⟩ := existingRatelimit_some he
    refine ⟨fun hid => (ht.ids r hr e hmem hid).trans hname, fun hn => ?_⟩
    rw [List.inj_on_of_nodup_map ht.names hr hmem (hn.trans hname.symm)]
    rfl

omit [DecidableEq ι] in
theorem rowFor_id_iff (ht : Keyed t) (hi : ∀ r ∈ t, ∀ n, r.id ≠ .new i n) (l l' : Limit) :
    (rowFor i t l).id = (rowFor i t l').id ↔ l.name = l'.name := by
  cases he : existingRatelimit t l with
  | some e =>
    obtain ⟨hmem, hname⟩ := existingRatelimit_some he
    have hid : (rowFor i t l).id = e.id := by simp [rowFor, he]
    rw [hid, ← hname]
    exact rowFor_fits ht hi l' e hmem
  | none =>
    have hid : (rowFor i t l).id = .new i l.name := by simp [rowFor, he]
    cases he' : existingRatelimit t l' with
    | some e' =>
      obtain ⟨hmem, hname⟩ := existingRatelimit_some he'
      have hid' : (rowFor i t l').id = e'.id := by simp [rowFor, he']
      rw [hid', ← hname, eq_comm, eq_comm (b := e'.name)]
      exact rowFor_fits ht hi l e' hmem
    | none =>
      have hid' : (rowFor i t l').id = .new i l'.name := by simp [rowFor, he']
      simp [hid, hid']

theorem mem_deleteMissing (ht : Keyed t) {r : Row ι} :
    r ∈ deleteManyRatelimitsByIDs (rateLimitsToDelete t ranged) t ↔
      r ∈ t ∧ ∃ l ∈ ranged, l.name = r.name := by
  have hids : r ∈ t → (r.id ∈ rateLimitsToDelete t ranged ↔ ∀ l ∈ ranged, l.name ≠ r.name) := by
    intro hr
    simp only [rateLimitsToDelete, List.mem_map, List.mem_filter, Bool.not_eq_true',
      List.any_eq_false, beq_iff_eq]
    constructor
    · rintro ⟨e, ⟨he, hnot⟩, hid⟩ l hl
      rw [← ht.ids e he r hr hid]
      exact hnot l hl
    · intro hnot
      exact ⟨r, ⟨hr, hnot⟩, rfl⟩
  simp only [deleteManyRatelimitsByIDs, List.mem_filter, Bool.not_eq_true',
    List.contains_eq_mem, decide_eq_false_iff_not]
  refine and_congr_right fun hr => ?_
  rw [hids hr]
  push Not
  rfl

/-- What is stored after the writes of a request that has read the rows it writes to. -/
structure Replaced (i : ι) (ranged : List Limit) (t t' : Table ι) : Prop where
  mem : ∀ r, r ∈ t' ↔ ∃ l ∈ ranged, r = rowFor i t l
  names : (t'.map (·.name)).Nodup

theorem replaced_foldl {f : Table ι → Row ι → Table ι} {ls : List Limit} {I : Table ι → Prop}
    (ht : Keyed t) (hi : ∀ r ∈ t, ∀ n, r.id ≠ .new i n) (hls : ls.Perm ranged)
    (hranged : (ranged.map (·.name)).Nodup) (hI : ∀ t t' row, I t → Puts t t' row → I t')
    (hf : ∀ t', ∀ l ∈ ls, I t' → Fits t' (rowFor i t l) →
      Puts t' (f t' (rowFor i t l)) (rowFor i t l))
    (hstart : I (deleteManyRatelimitsByIDs (rateLimitsToDelete t ranged) t)) :
    Replaced i ranged t ((ls.map (rowFor i t)).foldl f
      (deleteManyRatelimitsByIDs (rateLimitsToDelete t ranged) t)) := by
  obtain ⟨hmem, hnames⟩ := puts_foldl (f := f) (ls.map (rowFor i t)) (I := I)
    (by
      simp only [List.mem_map]
      rintro _ ⟨l, -, rfl⟩ _ ⟨l', -, rfl⟩
      exact rowFor_id_iff ht hi l l')
    hI
    (by
      intro t' row hrow
      obtain ⟨l, hl, rfl⟩ := List.mem_map.mp hrow
      exact hf t' l hl)
    hstart
    (by
      intro row hrow r hr
      obtain ⟨l, hl, rfl⟩ := List.mem_map.mp hrow
      exact rowFor_fits ht hi l r ((mem_deleteMissing ht).mp hr).1)
    (by
      rw [List.map_map]
      exact (hls.map _).nodup_iff.mpr hranged)
  refine ⟨fun r => ?_, hnames (ht.names.sublist ((List.filter_sublist ..).map _))⟩
  rw [hmem r, mem_deleteMissing ht]
  constructor
  · rintro (⟨⟨hr, l, hl, hname⟩, hnot⟩ | hr)
    · exact absurd hname.symm (hnot _ (List.mem_map.mpr ⟨l, hls.mem_iff.mpr hl, rfl⟩))
    · obtain ⟨l, hl, rfl⟩ := List.mem_map.mp hr
      exact ⟨l, hls.mem_iff.mp hl, rfl⟩
  · rintro ⟨l, hl, rfl⟩
    exact .inr (List.mem_map.mpr ⟨l, hls.mem_iff.mpr hl, rfl⟩)

def applyAll (changes : List (Table ι → Table ι)) (t : Table ι) : Table ι :=
  changes.foldl (fun t change => change t) t

theorem applyAll_deleteMissing (rest : List (Table ι → Table ι)) (t' : Table ι) :
    applyAll (deleteMissing t ranged ++ rest) t' =
      applyAll rest (deleteManyRatelimitsByIDs (rateLimitsToDelete t ranged) t') := by
  simp only [deleteMissing]
  split
  · rename_i hnil
    rw [List.isEmpty_iff.mp hnil]
    simp [deleteManyRatelimitsByIDs]
  · rfl

omit [DecidableEq ι] in
theorem applyAll_insertAll (insert : Table ι → Row ι → Table ι) (rows : List (Row ι))
    (t' : Table ι) : applyAll (insertAll insert rows) t' = rows.foldl insert t' := by
  unfold insertAll
  split
  · rename_i hnil
    rw [List.isEmpty_iff.mp hnil]
    rfl
  · rfl

theorem replaced_keyWrites (ht : Keyed t) (hi : ∀ r ∈ t, ∀ n, r.id ≠ .new i n)
    (hranged : (ranged.map (·.name)).Nodup) :
    Replaced i ranged t (applyAll (keyWrites i ranged t) t) := by
  unfold keyWrites
  rw [applyAll_deleteMissing, applyAll_insertAll]
  refine replaced_foldl (I := fun _ => True) ht hi .rfl hranged (fun _ _ _ _ _ => trivial)
    (fun t' l _ _ hfit => puts_insert (fun r hid hname => ?_) hfit) trivial
  rw [hid, hname]

def storeIdentity (existing t : Table ι) (row : Row ι) : Table ι :=
  if (existingRatelimit existing row.toLimit).isSome then updateRatelimit row.id row.toLimit t
  else insertIdentityRatelimit t row

theorem applyAll_identityWrites (t' : Table ι) :
    applyAll (identityWrites i ranged t) t' =
      ((ranged.filter (fun l => (existingRatelimit t l).isSome) ++
        ranged.filter (fun l => !(existingRatelimit t l).isSome)).map (rowFor i t)).foldl
        (storeIdentity t) (deleteManyRatelimitsByIDs (rateLimitsToDelete t ranged) t') := by
  unfold identityWrites
  rw [List.append_assoc, applyAll_deleteMissing, List.map_append, List.foldl_append]
  generalize deleteManyRatelimitsByIDs (rateLimitsToDelete t ranged) t' = t₀
  show applyAll _ _ = _
  unfold applyAll
  rw [List.foldl_append, List.foldl_map, List.foldl_map, ← applyAll, applyAll_insertAll]
  rw [List.foldl_map, List.foldl_map]
  have hknown : ∀ t' : Table ι, ∀ l ∈ ranged.filter (fun l => (existingRatelimit t l).isSome),
      updateRatelimit (rowFor i t l).id l t' = storeIdentity t t' (rowFor i t l) := by
    intro t' l hl
    exact (if_pos (List.mem_filter.mp hl).2).symm
  have hnew : ∀ t' : Table ι, ∀ l ∈ ranged.filter (fun l => !(existingRatelimit t l).isSome),
      insertIdentityRatelimit t' (rowFor i t l) = storeIdentity t t' (rowFor i t l) := by
    intro t' l hl
    have hnot : ¬ (existingRatelimit t l).isSome = true := by
      simpa using (List.mem_filter.mp hl).2
    exact (if_neg hnot).symm
  rw [List.foldl_ext _ _ _ hknown, List.foldl_ext _ _ _ hnew]

theorem replaced_identityWrites (ht : Keyed t) (hi : ∀ r ∈ t, ∀ n, r.id ≠ .new i n)
    (hranged : (ranged.map (·.name)).Nodup) :
    Replaced i ranged t (applyAll (identityWrites i ranged t) t) := by
  rw [applyAll_identityWrites]
  -- a limit that exists keeps a row with its name until it is updated
  refine replaced_foldl (I := fun t' => ∀ l ∈ ranged, (existingRatelimit t l).isSome = true →
    ∃ r ∈ t', r.name = l.name) ht hi (List.filter_append_perm ..) hranged ?_ ?_ ?_
  · intro t₁ t₂ row hI hput l hl hknown
    obtain ⟨r, hr, hname⟩ := hI l hl hknown
    by_cases hrow : r.name = row.name
    · exact ⟨row, (hput.mem row).mpr (.inr rfl), hrow.symm.trans hname⟩
    · exact ⟨r, (hput.mem r).mpr (.inl ⟨hr, hrow⟩), hname⟩
  · intro t' l hl hI hfit
    have hl : l ∈ ranged := (List.filter_append_perm _ ranged).mem_iff.mp hl
    unfold storeIdentity
    split
    · rename_i hknown
      obtain ⟨r, hr, hname⟩ := hI l hl hknown
      exact puts_update hfit hr hname
    · refine puts_insert (fun r hid _ => ?_) hfit
      rw [hid]
  · intro l hl hknown
    obtain ⟨e, he⟩ := Option.isSome_iff_exists.mp hknown
    obtain ⟨hmem, hname⟩ := existingRatelimit_some he
    exact ⟨e, (mem_deleteMissing ht).mpr ⟨hmem, l, hl, hname.symm⟩, hname⟩

end Replace

/-! ### Requests one after another -/

theorem mem_names_lastEntries {n : String} {limits : List Limit}
    (h : n ∈ (lastEntries limits).map (·.name)) : n ∈ limits.map (·.name) := by
  induction limits with
  | nil => exact h
  | cons l ls ih =>
    unfold lastEntries at h
    split at h
    · exact List.mem_cons_of_mem _ (ih h)
    · exact (List.mem_cons.mp h).elim (fun h => h ▸ List.mem_cons_self ..)
        fun h => List.mem_cons_of_mem _ (ih h)

theorem nodup_names_lastEntries : (limits : List Limit) →
    ((lastEntries limits).map (·.name)).Nodup
  | [] => List.nodup_nil
  | l :: ls => by
    unfold lastEntries
    split
    · exact nodup_names_lastEntries ls
    · rename_i hany
      refine List.nodup_cons.mpr ⟨fun hmem => hany ?_, nodup_names_lastEntries ls⟩
      obtain ⟨l', hl', hname⟩ := List.mem_map.mp (mem_names_lastEntries hmem)
      exact List.any_eq_true.mpr ⟨l', hl', by simpa using hname⟩

theorem Request.nodup_ranged (req : Request) : (req.ranged.map (·.name)).Nodup :=
  (req.perm.map _).nodup_iff.mpr (nodup_names_lastEntries req.limits)

omit [DecidableEq ι] in
theorem alone_writes (t : Table ι) (changes : List (Table ι → Table ι)) (p : Table ι → Table ι) :
    (writes changes).alone t p = applyAll changes (p t) := by
  induction changes generalizing p with
  | nil => rfl
  | cons change changes ih => exact ih _

omit [DecidableEq ι] in
theorem gated_writes {early held : Prop} (hheld : held) (changes : List (Table ι → Table ι)) :
    (writes changes).Gated Lock.owner early held := by
  induction changes generalizing held with
  | nil => exact hheld
  | cons change changes ih => exact ih (.inl hheld)

theorem body_gated (h : Handler ι) (req : ι → Request) (i : ι) :
    (h.body req i).Gated Lock.owner (h.readsEarly i) False := by
  cases h with
  | identity => exact ⟨trivial, fun _ => gated_writes (.inr rfl) _⟩
  | key externalId =>
    show (updateKey i (req i) (externalId i)).Gated _ _ _
    cases he : externalId i with
    | none => exact ⟨.inr (.inr rfl), fun _ => gated_writes (.inr rfl) _⟩
    | some e =>
      have hearly : (Handler.key externalId).readsEarly i := by simp [Handler.readsEarly, he]
      exact ⟨.inl hearly, fun _ => ⟨.inl hearly, fun _ => gated_writes (.inr rfl) _⟩⟩

theorem body_replaced {h : Handler ι} {req : ι → Request} {i : ι} {t : Table ι} (ht : Keyed t)
    (hi : ∀ r ∈ t, ∀ n, r.id ≠ .new i n) :
    Replaced i (req i).ranged t ((h.body req i).alone t id) := by
  have hranged := (req i).nodup_ranged
  cases h with
  | identity =>
    show Replaced i _ t ((writes _).alone t id)
    rw [alone_writes]
    exact replaced_identityWrites ht hi hranged
  | key externalId =>
    show Replaced i _ t ((updateKey i (req i) (externalId i)).alone t id)
    cases externalId i with
    | none | some e =>
      show Replaced i _ t ((writes _).alone t id)
      rw [alone_writes]
      exact replaced_keyWrites ht hi hranged

omit [DecidableEq ι] in
theorem Replaced.keyed {i : ι} {ranged : List Limit} {t t' : Table ι} {log : List ι}
    (h : Replaced i ranged t t') (ht : Keyed t) (hdrawn : Drawn log t) (hi : i ∉ log) :
    Keyed t' ∧ Drawn (i :: log) t' := by
  have hnew : ∀ r ∈ t, ∀ n, r.id ≠ .new i n := fun r hr n hid => hi (hdrawn r hr i n hid)
  refine ⟨⟨h.names, fun r hr r' hr' hid => ?_⟩, fun r hr j n hid => ?_⟩
  · obtain ⟨l, -, rfl⟩ := (h.mem r).mp hr
    obtain ⟨l', -, rfl⟩ := (h.mem r').mp hr'
    exact (rowFor_id_iff ht hnew l l').mp hid
  · obtain ⟨l, -, rfl⟩ := (h.mem r).mp hr
    cases he : existingRatelimit t l with
    | none =>
      simp only [rowFor, he, Option.map_none, Option.getD_none, Id.new.injEq] at hid
      rw [hid.1]
      exact List.mem_cons_self ..
    | some e =>
      simp only [rowFor, he, Option.map_some, Option.getD_some] at hid
      exact List.mem_cons_of_mem _ (hdrawn e (existingRatelimit_some he).1 j n hid)

omit [DecidableEq ι] in
theorem Replaced.stores {i : ι} {req : Request} {t t' : Table ι}
    (h : Replaced i req.ranged t t') : Stores t' req.limits := by
  have hnodup : (t'.map Row.toLimit).Nodup := by
    refine List.Nodup.of_map (·.name) ?_
    rw [List.map_map]
    exact h.names
  refine ((List.perm_ext_iff_of_nodup hnodup (List.Nodup.of_map _ req.nodup_ranged)).mpr
    fun l => ?_).trans req.perm
  simp only [List.mem_map, h.mem]
  constructor
  · rintro ⟨_, ⟨l', hl', rfl⟩, rfl⟩
    exact hl'
  · intro hl
    exact ⟨_, ⟨l, hl, rfl⟩, rfl⟩

theorem keyed_foldr {h : Handler ι} (req : ι → Request) {t : Table ι} (ht : Keyed t)
    (hdrawn : Drawn [] t) {log : List ι} (hlog : log.Nodup) :
    Keyed (log.foldr (fun i d => (h.body req i).alone d id) t) ∧
      Drawn log (log.foldr (fun i d => (h.body req i).alone d id) t) := by
  induction log with
  | nil => exact ⟨ht, hdrawn⟩
  | cons i log ih =>
    obtain ⟨hi, hlog⟩ := List.nodup_cons.mp hlog
    obtain ⟨hk, hd⟩ := ih hlog
    exact (body_replaced hk fun r hr n hid => hi (hd r hr i n hid)).keyed hk hd hi

/-- After any number of requests for one identity or one key, in any interleaving, the stored
limits are those of the request that committed last, provided that no request commits after
another has read the rows early and before that one has the lock. -/
theorem limits_of_last_commit {h : Handler ι} {req : ι → Request} {t : Table ι}
    {past : List (Database ι (Table ι) Lock × Turn ι)} {s : Database ι (Table ι) Lock} {i : ι}
    {earlier : List ι} (ht : Keyed t) (hdrawn : Drawn [] t)
    (hrun : Run (Database.step (h.body req)) (Database.init (h.body req) t) past s)
    (hread : Always (fun _ s a => s.Unread h.readsEarly a) past) (hlog : s.log = i :: earlier) :
    Stores s.committed (req i).limits := by
  obtain ⟨hnodup, hcommitted⟩ := Database.serial (body_gated h req) hrun hread
  rw [hlog] at hnodup hcommitted
  obtain ⟨hi, hearlier⟩ := List.nodup_cons.mp hnodup
  obtain ⟨hk, hd⟩ := keyed_foldr (h := h) req ht hdrawn hearlier
  rw [hcommitted]
  exact (body_replaced hk fun r hr n hid => hi (hd r hr i n hid)).stores

end Sequential

instance Unread.decidable {n : Nat} (h : Handler (Fin n))
    (s : Database (Fin n) (Table (Fin n)) Lock) :
    (a : Turn (Fin n)) → Decidable (s.Unread h.readsEarly a)
  | .run j => inferInstanceAs (Decidable ((s.sessions j).rest.commits = true →
      ∀ i, i ≠ j → h.readsEarly i → (s.sessions i).rest.ended = false →
        (s.sessions i).looked.isNone = true ∧ (s.sessions i).snapshot.isNone = true))
  | .abort _ => .isTrue trivial

instance Stores.decidable {ι : Type} (t : Table ι) (limits : List Limit) :
    Decidable (Stores t limits) :=
  inferInstanceAs (Decidable (List.Perm _ _))

def sampleExternalIds (i : Fin 2) : Option String := some (if i = 0 then "x" else "y")

def sampleRequests (i : Fin 2) : Request where
  limits := [⟨if i = 0 then "a" else "b", 10, 1000, true⟩]
  ranged := [⟨if i = 0 then "a" else "b", 10, 1000, true⟩]
  perm := .refl _

theorem limits_of_last_commit_key : ∃ past s,
    Run (Database.step ((Handler.key fun _ => none).body sampleRequests))
      (Database.init ((Handler.key fun _ => none).body sampleRequests) []) past s ∧
    Always (fun _ s a => s.Unread (Handler.key fun _ => none).readsEarly a) past ∧
    s.log = [1, 0] ∧ Stores s.committed (sampleRequests 1).limits := by
  refine Run.exists_of_record (P := fun past s =>
    Always (fun _ s a => s.Unread (Handler.key fun _ => none).readsEarly a) past ∧ s.log = [1, 0])
    [.run 0, .run 0, .run 0, .run 0, .run 1, .abort 1, .run 1, .run 1, .run 1, .run 1, .run 1]
    (by decide) ?_
  rintro past s hrun ⟨hread, hlog⟩
  have hkeyed : Keyed ([] : Table (Fin 2)) := ⟨List.nodup_nil, by simp⟩
  exact ⟨hread, hlog, limits_of_last_commit hkeyed (by simp [Drawn]) hrun hread hlog⟩

/-- Two requests that have both read before the first of them commits: the limit of the first
stays beside that of the second. The same happens to a key when they name two external ids. -/
theorem limits_left_over :
    (∃ past s, Run (Database.step (Handler.identity.body sampleRequests))
        (Database.init (Handler.identity.body sampleRequests) []) past s ∧
      s.log = [1, 0] ∧ ¬ Stores s.committed (sampleRequests 1).limits) ∧
    ∃ past s, Run (Database.step ((Handler.key sampleExternalIds).body sampleRequests))
        (Database.init ((Handler.key sampleExternalIds).body sampleRequests) []) past s ∧
      s.log = [1, 0] ∧ ¬ Stores s.committed (sampleRequests 1).limits := by
  constructor
  · exact Run.exists_of_record (P := fun _ s =>
      s.log = [1, 0] ∧ ¬ Stores s.committed (sampleRequests 1).limits)
      [.run 0, .run 1, .run 0, .run 0, .run 0, .run 1, .run 1, .run 1] (by decide)
      fun _ _ _ h => h
  · exact Run.exists_of_record (P := fun _ s =>
      s.log = [1, 0] ∧ ¬ Stores s.committed (sampleRequests 1).limits)
      [.run 0, .run 0, .run 1, .run 1, .run 0, .run 0, .run 0, .run 0,
        .run 1, .run 1, .run 1, .run 1] (by decide) fun _ _ _ h => h

end Unkey.Keys.ReplaceLimits
