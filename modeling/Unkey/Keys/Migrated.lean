import Mathlib.Data.List.Nodup
import Unkey.Keys.Verify

/-!
# Keys of another hashing scheme

`GetMigrated` looks a key up by the hash of the last segment of the raw key, in hexadecimal, and
stores the hash of the whole raw key, in base64, once it has found one that is pending the migration.
-/

namespace Unkey.Keys

open Unkey.Base

inductive Algorithm where
  | githubcomSeamapiPrefixedApiKey
  | sha256
  | other (name : String)
  deriving DecidableEq

structure Migration where
  id : String
  workspaceID : String
  algorithm : Algorithm
  deriving DecidableEq

/-- Which of the database calls of a `GetMigrated` succeed. -/
structure Reachable where
  migration : Bool
  key : Bool
  update : Bool

def prefixedApiKey (rawKey : String) : Except String (String × String) :=
  match (split '_' rawKey).reverse with
  | longToken :: shortToken :: first :: rest =>
    let actualKey := shortToken ++ "_" ++ longToken
    .ok (longToken, join '_' (first :: rest).reverse ++ "_" ++
      String.ofList (actualKey.toList.take 4))
  | parts => .error ("expected at least 3 segments, got " ++ itoa parts.length)

def StoredKey.rehash (id hash start : String) (k : StoredKey) : StoredKey :=
  if k.id = id then { k with hash := hash, start := start, pendingMigrationID := none } else k

namespace Node

def updateKeyHashAndMigration (n : Node) (id hash start : String) : Option Node :=
  if ∃ k ∈ n.keys, k.hash = hash ∧ k.id ≠ id then none
  else some { n with keys := n.keys.map (·.rehash id hash start) }

def getMigrated (n : Node) (L : Lib) (migrations : List Migration) (workspaceID : String)
    (now : Int) (reachable : Reachable) (rawKey migrationID : String) :
    Except String KeyVerifier × Node :=
  if rawKey = "" then (.error "rawKey is empty", n)
  else if reachable.migration = false then (.error "unable to load migration", n)
  else
    match migrations.find? fun m => m.id = migrationID ∧ m.workspaceID = workspaceID with
    | none => (.ok ⟨.notFound, "migration does not exist", default⟩, n)
    | some migration =>
      match migration.algorithm with
      | .sha256 => (.ok ⟨.notFound, "key does not exist", default⟩, n)
      | .other name => (.error ("unsupported migration algorithm " ++ name), n)
      | .githubcomSeamapiPrefixedApiKey =>
        match prefixedApiKey rawKey with
        | .error err => (.error err, n)
        | .ok (longToken, start) =>
          let h := L.sha256Hex longToken
          let newHash := L.sha256 rawKey
          match n.get L now reachable.key h with
          | (.error err, n) => (.error err, n)
          | (.ok key, n) =>
            if key.key.pendingMigrationID = some migrationID then
              match n.updateKeyHashAndMigration key.key.id newHash start with
              | some n' =>
                if reachable.update then (.ok key, (n'.remove h).remove newHash)
                else (.error "We could not update the key hash and migration id", n)
              | none => (.error "We could not update the key hash and migration id", n)
            else (.ok key, n)

end Node

inductive Event where
  | getMigrated (workspaceID : String) (now : Int) (reachable : Reachable)
      (rawKey migrationID : String)
  | use (u : Node.Use)

def Node.step (L : Lib) (migrations : List Migration) (n : Node) : Event → Node
  | .getMigrated workspaceID now reachable rawKey migrationID =>
    (n.getMigrated L migrations workspaceID now reachable rawKey migrationID).2
  | .use u => n.use L u

/-! ### One call -/

theorem getMigrated_cases (L : Lib) (migrations : List Migration) (n : Node) (workspaceID : String)
    (now : Int) (reachable : Reachable) (rawKey migrationID : String) :
    let result := n.getMigrated L migrations workspaceID now reachable rawKey migrationID
    (result.2 = n ∧ ∀ v, result.1 = .ok v → v.status ≠ .valid) ∨
    ∃ longToken start, prefixedApiKey rawKey = .ok (longToken, start) ∧
      let got := n.get L now reachable.key (L.sha256Hex longToken)
      (∀ v, result.1 = .ok v → got.1 = .ok v) ∧
      (result.2 = got.2 ∨ ∃ key n', got.1 = .ok key ∧
        key.key.pendingMigrationID = some migrationID ∧
        got.2.updateKeyHashAndMigration key.key.id (L.sha256 rawKey) start = some n' ∧
        result.2 = (n'.remove (L.sha256Hex longToken)).remove (L.sha256 rawKey)) := by
  unfold Node.getMigrated
  split
  · exact .inl ⟨rfl, fun _ h => by cases h⟩
  split
  · exact .inl ⟨rfl, fun _ h => by cases h⟩
  split
  · exact .inl ⟨rfl, fun _ h => by cases h; decide⟩
  split
  · exact .inl ⟨rfl, fun _ h => by cases h; decide⟩
  · exact .inl ⟨rfl, fun _ h => by cases h⟩
  split
  · exact .inl ⟨rfl, fun _ h => by cases h⟩
  · rename_i longToken start htoken
    refine .inr ⟨longToken, start, htoken, ?_⟩
    dsimp only
    split
    · rename_i hgot
      rw [hgot]
      exact ⟨(fun _ h => by cases h), .inl rfl⟩
    · rename_i key n₁ hgot
      rw [hgot]
      split
      · rename_i hpending
        split
        · rename_i n' hupdate
          split
          · exact ⟨fun _ h => h, .inr ⟨key, n', rfl, hpending, hupdate, rfl⟩⟩
          · exact ⟨(fun _ h => by cases h), .inl rfl⟩
        · exact ⟨(fun _ h => by cases h), .inl rfl⟩
      · exact ⟨fun _ h => h, .inl rfl⟩

/-! ### The table and the cache -/

def Agrees (keys : List StoredKey) (hash : String) (row : Option KeyRow) : Prop :=
  row = findKeyForVerification keys hash

/-- Ids are unique, and what is cached is what the table has. -/
structure Node.Coherent (n : Node) : Prop where
  ids : (n.keys.map (·.id)).Nodup
  cached : n.Caches (Agrees n.keys)

variable {L : Lib} {migrations : List Migration} {n : Node} {rawKey migrationID r : String}

theorem agrees_find (hash : String) : Agrees n.keys hash (findKeyForVerification n.keys hash) := rfl

theorem find_update {keys : List StoredKey} {id hash start other : String}
    (hother : ∀ k ∈ keys, k.id = id → k.hash ≠ other) (hne : hash ≠ other) :
    findKeyForVerification (keys.map (·.rehash id hash start)) other =
      findKeyForVerification keys other := by
  induction keys with
  | nil => rfl
  | cons k keys ih =>
    rw [List.forall_mem_cons] at hother
    have ih := ih hother.2
    unfold findKeyForVerification StoredKey.rehash at ih ⊢
    by_cases hid : k.id = id
    · simpa [hid, hne, hother.1 hid] using ih
    · by_cases hk : k.hash = other ∧ k.deletedAtM = none
      · simp [hid, hk]
      · simpa [hid, hk, List.find?_cons] using ih

/-- Native keys have the hash of a raw key, and a key that is pending under the hash of the last
segment of `r` is pending the migration. -/
def Settled (L : Lib) (migrationID r : String) (keys : List StoredKey) : Prop :=
  ∀ k ∈ keys, (k.pendingMigrationID = none → ∃ raw : String, k.hash = L.sha256 raw) ∧
    ∀ pending token start, k.pendingMigrationID = some pending →
      prefixedApiKey r = .ok (token, start) → k.hash = L.sha256Hex token → pending = migrationID

structure Node.Inv (L : Lib) (migrationID r : String) (n : Node) : Prop extends n.Coherent where
  settled : Settled L migrationID r n.keys

theorem Node.Inv.migrate (hn : n.Inv L migrationID r) {row : KeyRow} {token start : String}
    {n' : Node} (hrow : findKeyForVerification n.keys (L.sha256Hex token) = some row)
    (hupdate : n.updateKeyHashAndMigration row.id (L.sha256 rawKey) start = some n') :
    ((n'.remove (L.sha256Hex token)).remove (L.sha256 rawKey)).Inv L migrationID r := by
  unfold Node.updateKeyHashAndMigration at hupdate
  split at hupdate
  · cases hupdate
  cases hupdate
  obtain ⟨k, hk, hhash, rfl⟩ := exists_of_findKeyForVerification hrow
  refine ⟨⟨?_, ?_⟩, ?_⟩
  · have hid : ∀ k', (StoredKey.rehash k.id (L.sha256 rawKey) start k').id = k'.id := by
      intro k'
      rw [StoredKey.rehash]
      split <;> rfl
    simpa [Node.remove, Function.comp_def, hid] using hn.ids
  · intro hash e he
    have hne : L.sha256 rawKey ≠ hash := by
      rintro rfl
      simp [Node.remove] at he
    have hne' : L.sha256Hex token ≠ hash := by
      rintro rfl
      simp [Node.remove, Function.update_of_ne hne.symm] at he
    simp only [Node.remove, Function.update_of_ne hne.symm, Function.update_of_ne hne'.symm] at he
    refine (hn.cached hash e he).trans (find_update (fun k' hk' hid => ?_) hne).symm
    rwa [List.inj_on_of_nodup_map hn.ids hk' hk hid, hhash]
  · intro k' hk'
    obtain ⟨k₀, hk₀, rfl⟩ := List.mem_map.mp hk'
    rw [StoredKey.rehash]
    split
    · exact ⟨fun _ => ⟨rawKey, rfl⟩, fun _ _ _ h => by cases h⟩
    · exact hn.settled k₀ hk₀

theorem Node.Inv.congr (hn : n.Inv L migrationID r) {n' : Node} (hkeys : n'.keys = n.keys)
    (hcached : n'.Caches (Agrees n.keys)) :
    n'.Inv L migrationID r :=
  ⟨⟨hkeys ▸ hn.ids, hkeys ▸ hcached⟩, hkeys ▸ hn.settled⟩

theorem Node.Inv.step (hn : n.Inv L migrationID r) (event : Event) :
    (n.step L migrations event).Inv L migrationID r := by
  have hget := hn.cached.get agrees_find L
  cases event with
  | use u => exact hn.congr (hn.cached.use agrees_find L u).1 (hn.cached.use agrees_find L u).2
  | getMigrated workspaceID now reachable rawKey id =>
    rw [Node.step]
    rcases getMigrated_cases L migrations n workspaceID now reachable rawKey id with
      ⟨hsame, -⟩ | ⟨longToken, start, -, -, hstate⟩
    · rwa [hsame]
    · obtain ⟨hkeys, hcached, hanswer⟩ := hget now reachable.key (L.sha256Hex longToken)
      have hgot := hn.congr hkeys hcached
      rcases hstate with hstate | ⟨key, n', hkey, hpending, hupdate, hstate⟩
      · rwa [hstate]
      · obtain ⟨row, hrow, rfl⟩ := hanswer key hkey
        rw [hstate]
        rcases answer_key L now row with hdefault | hsome
        · rw [hdefault] at hpending
          cases hpending
        · exact hgot.migrate (hkeys ▸ hrow ▸ hsome) hupdate

/-- Where the keys that are pending under the last segment of a raw key are pending the migration: in
every state that calls lead to, if the raw key is valid for this migration then as a key that was
pending it. -/
theorem getMigrated_valid_pending (L : Lib) (migrations : List Migration) (n : Node)
    (migrationID rawKey : String) (hn : n.Coherent) (hsettled : Settled L migrationID rawKey n.keys)
    (events : List Event) (workspaceID : String) (now : Int) (reachable : Reachable)
    (v : KeyVerifier) (hv : ((events.foldl (Node.step L migrations) n).getMigrated L migrations
      workspaceID now reachable rawKey migrationID).1 = .ok v)
    (hvalid : v.status = .valid) :
    ∃ k ∈ (events.foldl (Node.step L migrations) n).keys, k.toKeyRow = v.key ∧
      k.pendingMigrationID = some migrationID := by
  have hinv : (events.foldl (Node.step L migrations) n).Inv L migrationID rawKey := by
    have : n.Inv L migrationID rawKey := ⟨hn, hsettled⟩
    clear hv
    induction events generalizing n with
    | nil => exact this
    | cons event events ih =>
      exact ih _ (this.step event).toCoherent (this.step event).settled (this.step event)
  generalize events.foldl (Node.step L migrations) n = n' at hv hinv
  rcases getMigrated_cases L migrations n' workspaceID now reachable rawKey migrationID with
    ⟨-, hnot⟩ | ⟨longToken, start, htoken, hsame, -⟩
  · exact absurd hvalid (hnot v hv)
  · obtain ⟨-, -, hanswer⟩ := hinv.cached.get agrees_find L now reachable.key (L.sha256Hex longToken)
    obtain ⟨row, hrow, rfl⟩ := hanswer v (hsame v hv)
    obtain ⟨key, hsome, hkey, -⟩ := answer_valid hvalid
    obtain ⟨k, hk, hhash, rfl⟩ := exists_of_findKeyForVerification (hrow ▸ hsome)
    refine ⟨k, hk, hkey.symm, ?_⟩
    cases hpending : k.pendingMigrationID with
    | some pending => exact congrArg some ((hinv.settled k hk).2 pending _ _ hpending htoken hhash)
    | none =>
      -- the hash of a native key is not one in hexadecimal
      obtain ⟨raw, hraw⟩ := (hinv.settled k hk).1 hpending
      exact absurd (hhash.symm.trans hraw) (L.sha256Hex_ne _ _)

/-! ### A token that belongs to another key -/

def sampleLib : Lib where
  sha256 := ("sha256:" ++ ·)
  sha256Hex := ("hex:" ++ ·)
  rfc3339 _ := ""
  sha256Hex_ne s t h := by simpa using congrArg (·.toList.head?) h

def sampleMigrations : List Migration := [⟨"mig_1", "ws_1", .githubcomSeamapiPrefixedApiKey⟩]

def sampleKey (pendingMigrationID : Option String) (expires : Option Int) : StoredKey :=
  ⟨⟨"key_1", "ws_1", none, expires, none, true, pendingMigrationID, none, true, none⟩,
    sampleLib.sha256 "token", "token"⟩

def oneKey (key : StoredKey) : Node := ⟨[key], fun _ => none⟩

def pendingKey (migrationID : String) : StoredKey :=
  { sampleKey (some migrationID) none with hash := sampleLib.sha256Hex "token" }

/-- A key that is pending another migration is valid for the first one. -/
theorem getMigrated_alias_valid :
    ∃ v, ((oneKey (pendingKey "mig_2")).getMigrated sampleLib sampleMigrations "ws_1" 0
        ⟨true, true, true⟩ "my_app_token" "mig_1").1 = .ok v ∧ v.status = .valid ∧
      v.key = (pendingKey "mig_2").toKeyRow ∧
      (pendingKey "mig_2").hash ≠ sampleLib.sha256 "my_app_token" :=
  ⟨⟨.valid, "", (pendingKey "mig_2").toKeyRow⟩, by decide, rfl, rfl, by decide⟩

theorem getMigrated_valid_pending_first :
    ∃ k ∈ (oneKey (pendingKey "mig_1")).keys,
      k.toKeyRow = (pendingKey "mig_1").toKeyRow ∧ k.pendingMigrationID = some "mig_1" :=
  getMigrated_valid_pending sampleLib sampleMigrations (oneKey (pendingKey "mig_1")) "mig_1"
    "my_app_token" ⟨by decide, fun _ _ h => by cases h⟩
    (List.forall_mem_singleton.mpr
      ⟨(fun h => by cases h), fun _ _ _ h _ _ => (Option.some.inj h).symm⟩)
    [] "ws_1" 0 ⟨true, true, true⟩ ⟨.valid, "", (pendingKey "mig_1").toKeyRow⟩ (by decide) rfl

end Unkey.Keys
