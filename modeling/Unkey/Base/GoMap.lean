import Mathlib.Data.List.Nodup

/-!
# Maps with unique keys

A map as the entries a run ranges over, in the order of that run.
-/

namespace Unkey.Base

theorem find?_of_nodup_map {α β : Type} [DecidableEq β] {f : α → β} {xs : List α}
    (h : (xs.map f).Nodup) {x : α} (hx : x ∈ xs) : xs.find? (f · == f x) = some x := by
  cases hfound : xs.find? (f · == f x) with
  | none => exact absurd (List.find?_eq_none.mp hfound x hx) (by simp)
  | some y =>
    have hkey : f y = f x := by simpa using List.find?_some hfound
    rw [List.inj_on_of_nodup_map h (List.mem_of_find?_eq_some hfound) hx hkey]

structure GoMap (κ ν : Type) where
  entries : List (κ × ν)
  unique : (entries.map Prod.fst).Nodup

namespace GoMap

variable {κ ν : Type} [DecidableEq κ]

def keys (m : GoMap κ ν) : List κ := m.entries.map Prod.fst

def get (m : GoMap κ ν) (zero : ν) (key : κ) : ν :=
  ((m.entries.find? (·.1 == key)).map Prod.snd).getD zero

theorem get_of_mem {m : GoMap κ ν} {entry : κ × ν} (h : entry ∈ m.entries) (zero : ν) :
    m.get zero entry.1 = entry.2 := by
  rw [get, find?_of_nodup_map m.unique h]
  rfl

theorem map_get_keys (m : GoMap κ ν) (zero : ν) :
    m.keys.map (fun key => (key, m.get zero key)) = m.entries := by
  rw [keys, List.map_map]
  refine (List.map_congr_left ?_).trans (List.map_id m.entries)
  intro entry hentry
  exact Prod.ext rfl (get_of_mem hentry zero)

def set (m : GoMap κ ν) (key : κ) (value : ν) : GoMap κ ν where
  entries := m.entries.filter (·.1 ≠ key) ++ [(key, value)]
  unique := by
    rw [List.map_append, List.nodup_append]
    refine ⟨(List.filter_sublist.map Prod.fst).nodup m.unique, List.nodup_singleton key, ?_⟩
    intro k hk k' hk'
    obtain ⟨entry, hentry, rfl⟩ := List.mem_map.mp hk
    rw [List.mem_singleton.mp hk']
    simpa using (List.mem_filter.mp hentry).2

theorem entries_set {m : GoMap κ ν} {key : κ} (h : key ∉ m.keys) (value : ν) :
    (m.set key value).entries = m.entries ++ [(key, value)] := by
  have hkept : m.entries.filter (·.1 ≠ key) = m.entries := by
    refine List.filter_eq_self.mpr fun entry hentry => ?_
    refine decide_eq_true fun hkey => h ?_
    exact hkey ▸ List.mem_map_of_mem hentry
  exact congrArg (· ++ [(key, value)]) hkept

end GoMap

end Unkey.Base
