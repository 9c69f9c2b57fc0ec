import Unkey.Frontline.Proxy

/-!
# The session of a request

The address of the client as `Location` derives it from an inbound request.
-/

namespace Unkey.Frontline

open Unkey.Base

def forwardedFor := "X-Forwarded-For"

/-! ### Headers -/

variable {h : Header} {a b : String}

theorem lookup_filter {p : String → Bool} (hb : p b = true) :
    (h.filter fun kv => p kv.1).lookup b = h.lookup b := by
  induction h with
  | nil => rfl
  | cons kv h ih => grind

theorem lookup_filter_none {p : String → Bool} (hb : p b = false) :
    (h.filter fun kv => p kv.1).lookup b = none := by
  rw [List.lookup_eq_none_iff]
  intro kv hkv
  obtain ⟨-, hkeep⟩ := List.mem_filter.mp hkv
  rw [bne_iff_ne]
  rintro rfl
  rw [hb] at hkeep
  cases hkeep

theorem lookup_set_self (v : String) : (h.set a v).lookup a = some [v] := by
  simp [Header.set]

theorem lookup_set_of_ne (v : String) (hab : b ≠ a) : (h.set a v).lookup b = h.lookup b := by
  have hne : (b == a) = false := by simpa using hab
  rw [Header.set, List.lookup_cons, hne]
  exact lookup_filter (p := fun k => k != a) (by simpa using hab)

theorem lookup_foldl_set {written : List (String × String)} (hw : ∀ kv ∈ written, b ≠ kv.1) :
    (written.foldl (fun h kv => h.set kv.1 kv.2) h).lookup b = h.lookup b := by
  induction written generalizing h with
  | nil => rfl
  | cons kv written ih =>
    rw [List.foldl_cons, ih fun kv hkv => hw kv (List.mem_cons_of_mem _ hkv),
      lookup_set_of_ne _ (hw kv List.mem_cons_self)]

theorem get_of_lookup {v : String} (hl : h.lookup a = some [v]) : h.get a = v := by
  simp [Header.get, hl]

/-! ### Addresses -/

def lastColon (s : String) : Option (String × String) :=
  let rest := s.toList.reverse
  if ':' ∈ rest then
    some (String.ofList ((rest.dropWhile (· ≠ ':')).drop 1).reverse,
      String.ofList (rest.takeWhile (· ≠ ':')).reverse)
  else none

/-- `net.SplitHostPort`. -/
def splitHostPort (hostport : String) : Option (String × String) :=
  (lastColon hostport).bind fun (host, port) =>
    match host.toList with
    | '[' :: inner =>
      if inner.getLast? = some ']' ∧ ']' ∉ inner.dropLast ∧ '[' ∉ inner ∧ '[' ∉ port.toList ∧
          ']' ∉ port.toList then
        some (String.ofList inner.dropLast, port)
      else none
    | cs => if ':' ∈ cs ∨ '[' ∈ hostport.toList ∨ ']' ∈ hostport.toList then none
      else some (host, port)

def stripPort (addr : String) : String := ((splitHostPort addr).map Prod.fst).getD addr

structure Session where
  remoteAddr : String
  request : Request
  path : String

def Session.location (s : Session) : String :=
  let ips := (split ',' (s.request.header.get forwardedFor)).map trimSpace
  match ips.find? (· ≠ "") with
  | some ip => stripPort ip
  | none => stripPort s.remoteAddr

end Unkey.Frontline
