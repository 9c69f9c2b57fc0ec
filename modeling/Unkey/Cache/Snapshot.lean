import Unkey.Base.GoMap
import Unkey.Cache.Swr

/-!
# Dump and restore

`Dump` writes the entries of a cache with their deadlines and hit kinds; `Restore` enters what is
not yet dead through the ordinary `Set`, which knows neither.
-/

namespace Unkey.Swr

open Unkey.Base

variable {K V Req Text : Type}

structure Codec (K V Text : Type) where
  marshal : GoMap K (SwrEntry V) → Option Text
  unmarshal : Text → Option (GoMap K (SwrEntry V))
  faithful : ∀ m text, marshal m = some text →
    ∃ m', unmarshal text = some m' ∧ ∀ x, x ∈ m'.entries ↔ x ∈ m.entries

namespace Cache

variable [DecidableEq K]

def get [Inhabited V] (c : Cache K V Req) (now : Int) (key : K) :
    (V × CacheHit) × Cache K V Req :=
  match c.entries key with
  | none => ((default, .miss), c)
  | some e =>
    if now < e.stale then ((e.value, e.hit), c)
    else ((default, .miss), { c with entries := Function.update c.entries key none })

def newEntry (cfg : Config) (now : Int) (value : V) : SwrEntry V :=
  ⟨value, now + cfg.fresh, now + cfg.stale, .hit⟩

def setAt (cfg : Config) (now : Int) (c : Cache K V Req) (key : K) (value : V) : Cache K V Req :=
  { c with entries := Function.update c.entries key (some (newEntry cfg now value)) }

def Ranges (c : Cache K V Req) (data : GoMap K (SwrEntry V)) : Prop :=
  ∀ key e, (key, e) ∈ data.entries ↔ c.entries key = some e

def dump (codec : Codec K V Text) (data : GoMap K (SwrEntry V)) : Option Text :=
  codec.marshal data

def Restorable (now : Int) (e : SwrEntry V) : Prop := now < e.fresh ∨ now < e.stale

instance (now : Int) (e : SwrEntry V) : Decidable (Restorable now e) :=
  inferInstanceAs (Decidable (_ ∨ _))

def restoreEntry (cfg : Config) (now : Int) (c : Cache K V Req) (x : K × SwrEntry V) :
    Cache K V Req :=
  if Restorable now x.2 then c.setAt cfg now x.1 x.2.value else c

def restore (codec : Codec K V Text) (cfg : Config) (now : Int) (c : Cache K V Req) (b : Text) :
    Option (Cache K V Req) :=
  (codec.unmarshal b).map fun data => data.entries.foldl (restoreEntry cfg now) c

/-! ### What is restored -/

theorem restoreEntry_self (cfg : Config) (now : Int) (c : Cache K V Req) (key : K)
    (e : SwrEntry V) : (c.restoreEntry cfg now (key, e)).entries key =
      if Restorable now e then some (newEntry cfg now e.value) else c.entries key := by
  rw [restoreEntry]
  split
  · exact Function.update_self key _ _
  · rfl

theorem restoreEntry_of_ne (cfg : Config) (now : Int) (c : Cache K V Req) {key : K}
    {x : K × SwrEntry V} (hne : key ≠ x.1) :
    (c.restoreEntry cfg now x).entries key = c.entries key := by
  rw [restoreEntry]
  split
  · exact Function.update_of_ne hne _ _
  · rfl

theorem foldl_restoreEntry_of_not_mem (cfg : Config) (now : Int) {key : K} :
    ∀ (xs : List (K × SwrEntry V)) (c : Cache K V Req), key ∉ xs.map Prod.fst →
      (xs.foldl (restoreEntry cfg now) c).entries key = c.entries key
  | [], _, _ => rfl
  | x :: xs, c, hkey => by
    rw [List.map_cons, List.mem_cons, not_or] at hkey
    rw [List.foldl_cons, foldl_restoreEntry_of_not_mem cfg now xs _ hkey.2,
      restoreEntry_of_ne cfg now c hkey.1]

variable {e : SwrEntry V}

theorem foldl_restoreEntry_of_mem (cfg : Config) (now : Int) {key : K} :
    ∀ (xs : List (K × SwrEntry V)) (c : Cache K V Req), (xs.map Prod.fst).Nodup →
      (key, e) ∈ xs → (xs.foldl (restoreEntry cfg now) c).entries key =
        if Restorable now e then some (newEntry cfg now e.value) else c.entries key
  | x :: xs, c, hnodup, hmem => by
    rw [List.map_cons, List.nodup_cons] at hnodup
    rw [List.foldl_cons]
    rcases List.mem_cons.mp hmem with rfl | hmem
    · rw [foldl_restoreEntry_of_not_mem cfg now xs _ hnodup.1, restoreEntry_self]
    · have hne : key ≠ x.1 := fun heq => hnodup.1 (heq ▸ List.mem_map_of_mem hmem)
      rw [foldl_restoreEntry_of_mem cfg now xs _ hnodup.2 hmem, restoreEntry_of_ne cfg now c hne]

theorem entries_restore {codec : Codec K V Text} {c : Cache K V Req}
    {data : GoMap K (SwrEntry V)} (hranges : c.Ranges data) {text : Text}
    (hdump : dump codec data = some text) (cfg : Config) (now : Int) :
    ∃ c' : Cache K V Req, Cache.empty.restore codec cfg now text = some c' ∧
      ∀ key, c'.entries key = (c.entries key).bind fun e =>
        if Restorable now e then some (newEntry cfg now e.value) else none := by
  obtain ⟨data', hread, hsame⟩ := codec.faithful data text hdump
  refine ⟨_, by rw [restore, hread, Option.map_some], ?_⟩
  intro key
  cases hentry : c.entries key with
  | none =>
    refine foldl_restoreEntry_of_not_mem cfg now _ _ ?_
    intro hmem
    obtain ⟨⟨k, e⟩, hx, rfl⟩ := List.mem_map.mp hmem
    have hsome := (hranges k e).mp ((hsame _).mp hx)
    exact absurd (hentry.symm.trans hsome) (by simp)
  | some e =>
    have hmem : (key, e) ∈ data'.entries := (hsame _).mpr ((hranges key e).mpr hentry)
    exact foldl_restoreEntry_of_mem cfg now _ _ data'.unique hmem

/-! ### What lookups say afterwards -/

variable [Inhabited V]

def answer (now : Int) : Option (SwrEntry V) → V × CacheHit
  | none => (default, .miss)
  | some e => if now < e.stale then (e.value, e.hit) else (default, .miss)

theorem get_fst (c : Cache K V Req) (now : Int) (key : K) :
    (c.get now key).1 = answer now (c.entries key) := by
  rw [get]
  cases c.entries key with
  | none => rfl
  | some e =>
    dsimp only [answer]
    split <;> rfl

/-- The entry is one that `Set` would make now, or it is never served again, and neither is what
`Set` makes. -/
def Survives (cfg : Config) (now : Int) (e : SwrEntry V) : Prop :=
  Restorable now e →
    (e.hit = .hit ∧ e.stale = now + cfg.stale) ∨ (e.stale ≤ now ∧ cfg.stale ≤ 0)

theorem answer_eq_miss_iff (hkind : e.hit ≠ .miss) (t : Int) :
    (answer t (some e)).2 = .miss ↔ e.stale ≤ t := by
  rw [answer]
  split
  · exact iff_of_false hkind (by omega)
  · exact iff_of_true rfl (by omega)

theorem answer_congr_iff {e' : SwrEntry V} (hvalue : e'.value = e.value) (hkind : e.hit ≠ .miss)
    (hkind' : e'.hit ≠ .miss) (now : Int) :
    (∀ t, now ≤ t → answer t (some e') = answer t (some e)) ↔
      (e'.hit = e.hit ∧ e'.stale = e.stale) ∨ (e'.stale ≤ now ∧ e.stale ≤ now) := by
  constructor
  · intro hsame
    have hdead : ∀ t, now ≤ t → (e'.stale ≤ t ↔ e.stale ≤ t) := by
      intro t ht
      rw [← answer_eq_miss_iff hkind t, ← answer_eq_miss_iff hkind' t, hsame t ht]
    by_cases hboth : e'.stale ≤ now ∧ e.stale ≤ now
    · exact .inr hboth
    · -- the deadlines are told apart at the earlier of the two
      have h := hdead (max now e.stale) (by omega)
      have h' := hdead (max now e'.stale) (by omega)
      have hstale : e'.stale = e.stale := by omega
      have hnow := hsame now (by omega)
      rw [answer, answer, if_pos (by omega), if_pos (by omega)] at hnow
      exact .inl ⟨congrArg Prod.snd hnow, hstale⟩
  · rintro (⟨hhit, hstale⟩ | ⟨hdead', hdead⟩) t ht
    · rw [answer, answer, hvalue, hhit, hstale]
    · rw [answer, answer, if_neg (by omega), if_neg (by omega)]

theorem answer_restored_iff (cfg : Config) (now : Int) (hkind : e.hit ≠ .miss) :
    (∀ t, now ≤ t → answer t (if Restorable now e then some (newEntry cfg now e.value) else none) =
      answer t (some e)) ↔ Survives cfg now e := by
  by_cases hrestorable : Restorable now e
  · have hnew : (newEntry cfg now e.value).hit ≠ .miss := by simp [newEntry]
    have hcongr := answer_congr_iff (e := e) (rfl : (newEntry cfg now e.value).value = e.value)
      hkind hnew now
    rw [if_pos hrestorable, hcongr, Survives, newEntry]
    simp only [hrestorable, true_imp_iff]
    refine or_congr (and_congr eq_comm eq_comm) ?_
    omega
  · rw [if_neg hrestorable]
    refine iff_of_true (fun t ht => ?_) (fun h => absurd h hrestorable)
    rw [Restorable, not_or] at hrestorable
    rw [answer, answer, if_neg (by omega)]

/-- A restored cache says what the dumped one would have said, at every key and every later time,
exactly if every entry survives. -/
theorem restore_dump_iff {codec : Codec K V Text} {c : Cache K V Req}
    {data : GoMap K (SwrEntry V)} (hranges : c.Ranges data)
    (hkinds : ∀ key e, c.entries key = some e → e.hit ≠ .miss) {text : Text}
    (hdump : dump codec data = some text) (cfg : Config) (now : Int) :
    (∃ c' : Cache K V Req, Cache.empty.restore codec cfg now text = some c' ∧
        ∀ key t, now ≤ t → (c'.get t key).1 = (c.get t key).1) ↔
      ∀ key e, c.entries key = some e → Survives cfg now e := by
  obtain ⟨c', hrestore, hentries⟩ := entries_restore hranges hdump cfg now
  have hkey (key : K) (e : SwrEntry V) (he : c.entries key = some e) :
      (∀ t, now ≤ t → (c'.get t key).1 = (c.get t key).1) ↔ Survives cfg now e := by
    simp only [get_fst, hentries, he, Option.bind_some]
    exact answer_restored_iff cfg now (hkinds key e he)
  constructor
  · rintro ⟨c'', hrestore', hsame⟩ key e he
    cases hrestore.symm.trans hrestore'
    exact (hkey key e he).mp (hsame key)
  · intro hsurvive
    refine ⟨c', hrestore, fun key => ?_⟩
    cases he : c.entries key with
    | none =>
      intro t _
      rw [get_fst, get_fst, hentries, he, Option.bind_none]
    | some e => exact (hkey key e he).mpr (hsurvive key e he)

end Cache

/-! ### Examples -/

section Examples

open Cache

def plainCodec (K V : Type) : Codec K V (GoMap K (SwrEntry V)) where
  marshal := some
  unmarshal := some
  faithful := by
    rintro m text ⟨rfl⟩
    exact ⟨m, rfl, fun _ => Iff.rfl⟩

def minute : Config := ⟨10, 60⟩

def oneEntry (e : SwrEntry Nat) : Cache Nat Nat Unit :=
  ⟨fun key => if key = 1 then some e else none, fun _ => false, []⟩

def oneEntryData (e : SwrEntry Nat) : GoMap Nat (SwrEntry Nat) := ⟨[(1, e)], by simp⟩

theorem ranges_oneEntry (e : SwrEntry Nat) : (oneEntry e).Ranges (oneEntryData e) := by
  intro key e'
  by_cases hkey : key = 1
  · simp [oneEntry, oneEntryData, hkey, eq_comm]
  · simp [oneEntry, oneEntryData, hkey]

theorem entries_oneEntry {e e' : SwrEntry Nat} {key : Nat}
    (h : (oneEntry e).entries key = some e') : e = e' := by
  by_cases hkey : key = 1
  · simpa [oneEntry, hkey] using h
  · simp [oneEntry, hkey] at h

/-- A value that was set at the very moment of the restore survives it. -/
theorem restore_dump_just_set :
    Survives minute 100 (⟨7, 110, 160, .hit⟩ : SwrEntry Nat) ∧
      ∃ c' : Cache Nat Nat Unit,
        Cache.empty.restore (plainCodec Nat Nat) minute 100
          (oneEntryData ⟨7, 110, 160, .hit⟩) = some c' ∧
        ∀ key t, 100 ≤ t →
          (c'.get t key).1 = ((oneEntry ⟨7, 110, 160, .hit⟩).get t key).1 := by
  have hsurvives : Survives minute 100 (⟨7, 110, 160, .hit⟩ : SwrEntry Nat) :=
    fun _ => .inl ⟨rfl, rfl⟩
  refine ⟨hsurvives, (restore_dump_iff (ranges_oneEntry _) ?_ rfl minute 100).mpr ?_⟩
  · intro key e he
    rw [← entries_oneEntry he]
    decide
  · intro key e he
    rw [← entries_oneEntry he]
    exact hsurvives

/-- What was known to be absent comes back as a hit, and a value that had to be discarded at 160 is
served at 200. -/
theorem restore_dump_forgets :
    (∃ c' : Cache Nat Nat Unit,
      Cache.empty.restore (plainCodec Nat Nat) minute 120
        (oneEntryData ⟨0, 110, 160, .null⟩) = some c' ∧
      (c'.get 130 1).1 = (0, .hit) ∧
      ((oneEntry ⟨0, 110, 160, .null⟩).get 130 1).1 = (0, .null)) ∧
    ∃ c' : Cache Nat Nat Unit,
      Cache.empty.restore (plainCodec Nat Nat) minute 150
        (oneEntryData ⟨7, 110, 160, .hit⟩) = some c' ∧
      (c'.get 200 1).1 = (7, .hit) ∧
      ((oneEntry ⟨7, 110, 160, .hit⟩).get 200 1).1 = (0, .miss) :=
  ⟨⟨_, rfl, rfl, rfl⟩, _, rfl, rfl, rfl⟩

end Examples

end Unkey.Swr
