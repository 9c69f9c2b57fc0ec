import Unkey.Base.GoString
import Unkey.Cache.Swr

/-!
# Key verification

`Get` of `internal/services/keys`: a row of the table `keys`, read through a cache by the hash of
the raw key, and the checks that decide its status.
-/

namespace Unkey.Keys

open Unkey.Base
open Unkey.Swr (SwrEntry CacheHit)

/-- What the package uses of the standard library. `sha256` is the hash that is stored, in base64;
`sha256Hex` is the one in hexadecimal, which is longer. -/
structure Lib where
  sha256 : String → String
  sha256Hex : String → String
  rfc3339 : Int → String
  sha256Hex_ne : ∀ s t, sha256Hex s ≠ sha256 t

structure KeyRow where
  id : String
  workspaceID : String
  forWorkspaceID : Option String
  expires : Option Int
  deletedAtM : Option Int
  enabled : Bool
  pendingMigrationID : Option String
  apiDeletedAtM : Option Int
  workspaceEnabled : Bool
  forWorkspaceEnabled : Option Bool
  deriving DecidableEq, Inhabited

structure StoredKey extends KeyRow where
  hash : String
  start : String
  deriving DecidableEq

inductive Status where
  | valid
  | notFound
  | workspaceNotFound
  | workspaceDisabled
  | disabled
  | expired
  deriving DecidableEq

structure KeyVerifier where
  status : Status
  message : String
  key : KeyRow
  deriving DecidableEq

/-- The checks of `Get` on a row, in their order: workspaces, deletion, enabled, expiry. -/
def verdict (L : Lib) (startTime : Int) (key : KeyRow) : Status × String :=
  if key.workspaceEnabled = false ∨ key.forWorkspaceEnabled = some false then
    (.workspaceDisabled, "workspace is disabled")
  else if key.deletedAtM.isSome then (.notFound, "key is deleted")
  else if key.apiDeletedAtM.isSome then (.notFound, "key is deleted")
  else if key.enabled = false then (.disabled, "key is disabled")
  else
    match key.expires with
    | none => (.valid, "")
    | some expires =>
      if expires < startTime then (.expired, "the key has expired on " ++ L.rfc3339 expires)
      else (.valid, "")

def verify (L : Lib) (startTime : Int) (key : KeyRow) : KeyVerifier :=
  if key.forWorkspaceID.isSome ∧ key.forWorkspaceEnabled = none then
    ⟨.workspaceNotFound, "workspace not found", default⟩
  else ⟨(verdict L startTime key).1, (verdict L startTime key).2, key⟩

def answer (L : Lib) (startTime : Int) : Option KeyRow → KeyVerifier
  | none => ⟨.notFound, "key does not exist", default⟩
  | some key => verify L startTime key

structure Node where
  keys : List StoredKey
  cache : String → Option (SwrEntry KeyRow)

def findKeyForVerification (keys : List StoredKey) (hash : String) : Option KeyRow :=
  (keys.find? fun k => k.hash = hash ∧ k.deletedAtM = none).map (·.toKeyRow)

def found (e : SwrEntry KeyRow) : Option KeyRow := if e.hit = .null then none else some e.value

namespace Node

def write (n : Node) (now : Int) (hash : String) (row : Option KeyRow) : Node :=
  { n with cache := Function.update n.cache hash (some
    ⟨row.getD default, now + 10000, now + 600000, if row.isSome then .hit else .null⟩) }

def remove (n : Node) (hash : String) : Node :=
  { n with cache := Function.update n.cache hash none }

def load (n : Node) (now : Int) (reachable : Bool) (hash : String) :
    Except String (Option KeyRow) × Node :=
  if reachable then
    let row := findKeyForVerification n.keys hash
    (.ok row, n.write now hash row)
  else (.error "unable to load key", n)

def swr (n : Node) (now : Int) (reachable : Bool) (hash : String) :
    Except String (Option KeyRow) × Node :=
  match n.cache hash with
  | none => n.load now reachable hash
  | some e => if now < e.stale then (.ok (found e), n) else (n.remove hash).load now reachable hash

def get (n : Node) (L : Lib) (now : Int) (reachable : Bool) (hash : String) :
    Except String KeyVerifier × Node :=
  if hash = "" then (.error "sha256Hash is empty", n)
  else
    let (row, n) := n.swr now reachable hash
    (row.map (answer L now), n)

inductive Use where
  | get (now : Int) (reachable : Bool) (hash : String)
  | refresh (now : Int) (hash : String)
  | evict (hash : String)

def use (n : Node) (L : Lib) : Use → Node
  | .get now reachable hash => (n.get L now reachable hash).2
  | .refresh now hash => n.write now hash (findKeyForVerification n.keys hash)
  | .evict hash => n.remove hash

/-! ### What the cache holds -/

def Caches (P : String → Option KeyRow → Prop) (n : Node) : Prop :=
  ∀ hash e, n.cache hash = some e → P hash (found e)

variable {P : String → Option KeyRow → Prop} {n : Node} {now : Int} {hash : String}

theorem Caches.write (h : n.Caches P) {row : Option KeyRow} (hrow : P hash row) :
    (n.write now hash row).Caches P := by
  refine forall_update n.cache (fun hash x => ∀ e, x = some e → P hash (found e)) h ?_
  rintro _ ⟨⟩
  cases row with
  | none => exact hrow
  | some row => exact hrow

theorem Caches.remove (h : n.Caches P) : (n.remove hash).Caches P :=
  forall_update n.cache (fun hash x => ∀ e, x = some e → P hash (found e)) h fun _ he => by cases he

variable (horigin : ∀ hash, P hash (findKeyForVerification n.keys hash))
include horigin

theorem Caches.get (h : n.Caches P) (L : Lib) (now : Int) (reachable : Bool) (hash : String) :
    (n.get L now reachable hash).2.keys = n.keys ∧ (n.get L now reachable hash).2.Caches P ∧
      ∀ v, (n.get L now reachable hash).1 = .ok v → ∃ row, P hash row ∧ v = answer L now row := by
  have hload : ∀ n' : Node, n'.keys = n.keys → n'.Caches P →
      (n'.load now reachable hash).2.keys = n.keys ∧ (n'.load now reachable hash).2.Caches P ∧
        ∀ row, (n'.load now reachable hash).1 = .ok row → P hash row := by
    intro n' hkeys h'
    rw [load]
    split
    · rw [hkeys]
      refine ⟨hkeys, h'.write (horigin hash), ?_⟩
      rintro _ ⟨⟩
      exact horigin hash
    · exact ⟨hkeys, h', fun _ hrow => by cases hrow⟩
  have hswr : (n.swr now reachable hash).2.keys = n.keys ∧
      (n.swr now reachable hash).2.Caches P ∧
      ∀ row, (n.swr now reachable hash).1 = .ok row → P hash row := by
    rw [swr]
    split
    · exact hload n rfl h
    · rename_i e he
      split
      · refine ⟨rfl, h, ?_⟩
        rintro _ ⟨⟩
        exact h hash e he
      · exact hload _ rfl h.remove
  rw [Node.get]
  split
  · exact ⟨rfl, h, fun _ hv => by cases hv⟩
  · refine ⟨hswr.1, hswr.2.1, fun v hv => ?_⟩
    cases hrow : (n.swr now reachable hash).1 with
    | error e => simp [hrow, Except.map] at hv
    | ok row =>
      simp only [hrow, Except.map, Except.ok.injEq] at hv
      exact ⟨row, hswr.2.2 row hrow, hv.symm⟩

theorem Caches.use (h : n.Caches P) (L : Lib) (u : Use) :
    (n.use L u).keys = n.keys ∧ (n.use L u).Caches P := by
  cases u with
  | get now reachable hash =>
    exact ⟨(h.get horigin L now reachable hash).1, (h.get horigin L now reachable hash).2.1⟩
  | refresh now hash => exact ⟨rfl, h.write (horigin hash)⟩
  | evict hash => exact ⟨rfl, h.remove⟩

end Node

theorem answer_key (L : Lib) (now : Int) (row : Option KeyRow) :
    (answer L now row).key = default ∨ row = some (answer L now row).key := by
  cases row with
  | none => exact .inl rfl
  | some key =>
    rw [answer, verify]
    split
    · exact .inl rfl
    · exact .inr rfl

theorem answer_valid {L : Lib} {now : Int} {row : Option KeyRow}
    (h : (answer L now row).status = .valid) :
    ∃ key, row = some key ∧ (answer L now row).key = key ∧ ∀ e, key.expires = some e → now ≤ e := by
  cases row with
  | none => cases h
  | some key =>
    rw [answer, verify] at h ⊢
    split_ifs at h ⊢
    refine ⟨key, rfl, rfl, fun e he => ?_⟩
    unfold verdict at h
    simp only [he] at h
    split_ifs at h with _ _ _ _ hlt
    omega

theorem exists_of_findKeyForVerification {keys : List StoredKey} {hash : String} {row : KeyRow}
    (h : findKeyForVerification keys hash = some row) :
    ∃ k ∈ keys, k.hash = hash ∧ k.toKeyRow = row := by
  obtain ⟨k, hk, rfl⟩ := Option.map_eq_some_iff.mp h
  have hhash := List.find?_some hk
  exact ⟨k, List.mem_of_find?_eq_some hk, (decide_eq_true_eq.mp hhash).1, rfl⟩

end Unkey.Keys
