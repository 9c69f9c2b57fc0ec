import Unkey.Keys.Migrated

/-!
# Rerolling a key

`RerollKey` inserts a copy of a key under a new hash, and gives the old key a new expiry.
-/

namespace Unkey.Keys

/-- `Truncate(time.Minute)`, rounded up instead. -/
def roundUpMinute (time : Int) : Int :=
  if time % 60000 = 0 then time else time - time % 60000 + 60000

structure RerollRequest where
  keyId : String
  expiration : Int

def RerollRequest.expires (req : RerollRequest) (now : Int) : Int :=
  if req.expiration = 0 then now else roundUpMinute (now + req.expiration)

namespace Node

/-- The transaction of one attempt, which the unique indexes on `id` and `hash` may reject. -/
def rerollTx (n : Node) (req : RerollRequest) (key : StoredKey) (hash start : String)
    (keyID : String) (now : Int) : Option Node :=
  if ∃ k ∈ n.keys, k.id = keyID ∨ k.hash = hash then none
  else
    let copy := { key with
      id := keyID, hash := hash, start := start, pendingMigrationID := none, deletedAtM := none }
    some { n with keys := (n.keys ++ [copy]).map fun k =>
      if k.id = req.keyId then { k with expires := some (req.expires now) } else k }

def rerollAttempts (n : Node) (req : RerollRequest) (key : StoredKey) (hash start : String) :
    List (String × Int) → Except String (String × Node)
  | [] => .error "Failed to create key."
  | (keyID, now) :: attempts =>
    match n.rerollTx req key hash start keyID now with
    | some n' => .ok (keyID, n')
    | none => n.rerollAttempts req key hash start attempts

def rerollKey (n : Node) (workspaceID : String) (req : RerollRequest) (key : StoredKey)
    (hash start : String) (attempts : List (String × Int)) : Except String (String × Node) :=
  if key.workspaceID ≠ workspaceID then .error "reroll key workspace must match principal"
  else if key.id ≠ req.keyId then .error "preloaded reroll key must match request"
  else n.rerollAttempts req key hash start (attempts.take 5)

end Node

theorem exists_rerollTx {n n' : Node} {workspaceID : String} {req : RerollRequest}
    {key : StoredKey} {hash start keyID : String} {attempts : List (String × Int)}
    (h : n.rerollKey workspaceID req key hash start attempts = .ok (keyID, n')) :
    key.id = req.keyId ∧ ∃ now, (keyID, now) ∈ attempts ∧
      n.rerollTx req key hash start keyID now = some n' := by
  have hattempts : ∀ attempts, n.rerollAttempts req key hash start attempts = .ok (keyID, n') →
      ∃ now, (keyID, now) ∈ attempts ∧ n.rerollTx req key hash start keyID now = some n' := by
    intro attempts
    induction attempts with
    | nil => exact fun h => by cases h
    | cons attempt attempts ih =>
      intro h
      rw [Node.rerollAttempts] at h
      split at h
      · rename_i htx
        cases h
        exact ⟨attempt.2, List.mem_cons_self, htx⟩
      · obtain ⟨now, hmem, htx⟩ := ih h
        exact ⟨now, List.mem_cons_of_mem _ hmem, htx⟩
  unfold Node.rerollKey at h
  split_ifs at h with _ hid
  obtain ⟨now, hmem, htx⟩ := hattempts _ h
  exact ⟨not_not.mp hid, now, List.mem_of_mem_take hmem, htx⟩

theorem expires_of_rerollTx {n n' : Node} {req : RerollRequest} {key : StoredKey}
    {hash start keyID : String} {now : Int} (hkey : key ∈ n.keys)
    (hhashes : (n.keys.map (·.hash)).Nodup) (hid : key.id = req.keyId)
    (htx : n.rerollTx req key hash start keyID now = some n') {row : KeyRow}
    (hrow : findKeyForVerification n'.keys key.hash = some row) :
    row.expires = some (req.expires now) := by
  unfold Node.rerollTx at htx
  split at htx
  · cases htx
  rename_i hfresh
  cases htx
  obtain ⟨k, hk, hhash, rfl⟩ := exists_of_findKeyForVerification hrow
  obtain ⟨k₀, hk₀, rfl⟩ := List.mem_map.mp hk
  have hk₀hash : k₀.hash = key.hash := by
    rw [← hhash]
    split <;> rfl
  rcases List.mem_append.mp hk₀ with hold | hnew
  · rw [List.inj_on_of_nodup_map hhashes hold hkey hk₀hash, if_pos hid]
  · rw [List.mem_singleton.mp hnew] at hk₀hash
    exact absurd ⟨key, hkey, .inr hk₀hash.symm⟩ hfresh

theorem cache_of_rerollTx {n n' : Node} {req : RerollRequest} {key : StoredKey}
    {hash start keyID : String} {now : Int}
    (htx : n.rerollTx req key hash start keyID now = some n') : n'.cache = n.cache := by
  unfold Node.rerollTx at htx
  split at htx <;> cases htx
  rfl

theorem roundUpMinute_mono {x y : Int} (h : x ≤ y) : roundUpMinute x ≤ roundUpMinute y := by
  unfold roundUpMinute
  split_ifs <;> omega

theorem RerollRequest.expires_mono (req : RerollRequest) {x y : Int} (h : x ≤ y) :
    req.expires x ≤ req.expires y := by
  unfold RerollRequest.expires
  split_ifs
  · exact h
  · exact roundUpMinute_mono (by omega)

/-- Where the node has nothing cached for the old key, and the old key would not expire earlier by
itself: whatever the node looks up after the reroll, the old key is not valid after the end of its
grace period, and not after its old expiry. -/
theorem reroll_not_widened (L : Lib) (n : Node) (workspaceID : String) (req : RerollRequest)
    (hgrace : 0 ≤ req.expiration) (key : StoredKey) (hkey : key ∈ n.keys)
    (hhashes : (n.keys.map (·.hash)).Nodup) (hcache : n.cache key.hash = none)
    (hash start keyID : String) (attempts : List (String × Int)) (T : Int)
    (hT : ∀ attempt ∈ attempts, attempt.2 ≤ T)
    (hexpires : ∀ e, key.expires = some e → req.expires T ≤ e) (n' : Node)
    (hreroll : n.rerollKey workspaceID req key hash start attempts = .ok (keyID, n'))
    (uses : List Node.Use) (t : Int) (ht : T < t) (reachable : Bool) (v : KeyVerifier)
    (hv : ((uses.foldl (·.use L ·) n').get L t reachable key.hash).1 = .ok v)
    (hvalid : v.status = .valid) :
    0 < req.expiration ∧ t ≤ roundUpMinute (T + req.expiration) ∧
      ∀ e, key.expires = some e → t ≤ e := by
  obtain ⟨hid, now, hattempt, htx⟩ := exists_rerollTx hreroll
  -- every entry for the hash of the old key was read after the transaction
  let P : String → Option KeyRow → Prop := fun h row =>
    h = key.hash → ∀ r, row = some r → r.expires = some (req.expires now)
  have horigin : ∀ h, P h (findKeyForVerification n'.keys h) := by
    rintro h rfl r hr
    exact expires_of_rerollTx hkey hhashes hid htx hr
  have hrun : ∀ (uses : List Node.Use) (m : Node), m.keys = n'.keys → m.Caches P →
      (uses.foldl (·.use L ·) m).keys = n'.keys ∧ (uses.foldl (·.use L ·) m).Caches P := by
    intro uses
    induction uses with
    | nil => exact fun m hm hc => ⟨hm, hc⟩
    | cons u uses ih =>
      intro m hm hc
      obtain ⟨hkeys, hcached⟩ := hc.use (hm ▸ horigin) L u
      exact ih _ (hkeys.trans hm) hcached
  have hstart : n'.Caches P := by
    rintro h e he rfl
    rw [cache_of_rerollTx htx, hcache] at he
    cases he
  obtain ⟨hkeys, hcached⟩ := hrun uses n' rfl hstart
  obtain ⟨row, hrow, rfl⟩ := (hcached.get (hkeys ▸ horigin) L t reachable key.hash).2.2 v hv
  obtain ⟨r, hr, -, hle⟩ := answer_valid hvalid
  have hbound : t ≤ req.expires T :=
    Int.le_trans (hle _ (hrow rfl r hr)) (req.expires_mono (hT _ hattempt))
  refine ⟨?_, ?_, fun e he => Int.le_trans hbound (hexpires e he)⟩
  · by_contra hnot
    rw [RerollRequest.expires, if_pos (by omega)] at hbound
    omega
  · unfold RerollRequest.expires at hbound
    split_ifs at hbound
    · omega
    · exact hbound

/-! ### A key that stays valid -/

/-- A key is rerolled at one second. If it was looked up before, it stays valid although it has no
grace period; and if it expires after a minute, a grace period makes it valid for longer. -/
theorem reroll_still_valid :
    (∃ n' v, ((oneKey (sampleKey none none)).use sampleLib (.get 0 true (sampleLib.sha256
        "token"))).rerollKey "ws_1" ⟨"key_1", 0⟩ (sampleKey none none) "hash" "start"
        [("key_2", 1000)] = .ok ("key_2", n') ∧
      (n'.get sampleLib 2000 true (sampleLib.sha256 "token")).1 = .ok v ∧ v.status = .valid) ∧
    ∃ n' v, (oneKey (sampleKey none (some 60000))).rerollKey "ws_1" ⟨"key_1", 600000⟩
        (sampleKey none (some 60000)) "hash" "start" [("key_2", 1000)] = .ok ("key_2", n') ∧
      (n'.get sampleLib 300000 true (sampleLib.sha256 "token")).1 = .ok v ∧ v.status = .valid := by
  refine ⟨⟨_, ⟨.valid, "", (sampleKey none none).toKeyRow⟩, rfl, by decide, rfl⟩,
    ⟨_, ⟨.valid, "", (sampleKey none (some 660000)).toKeyRow⟩, rfl, by decide, rfl⟩⟩

/-- Within its grace period the old key is valid. -/
theorem reroll_not_widened_minute :
    (0 : Int) < 5000 ∧ (6000 : Int) ≤ roundUpMinute (1000 + 5000) ∧
      ∀ e, (sampleKey none none).expires = some e → 6000 ≤ e :=
  reroll_not_widened sampleLib (oneKey (sampleKey none none)) "ws_1" ⟨"key_1", 5000⟩ (by decide)
    (sampleKey none none) List.mem_cons_self (by decide) rfl "hash" "start" "key_2"
    [("key_2", 1000)] 1000 (by decide) (fun _ h => by cases h) _ rfl
    [.get 2000 true (sampleLib.sha256 "token")] 6000 (by decide) true
    ⟨.valid, "", (sampleKey none (some 60000)).toKeyRow⟩ (by decide) rfl

end Unkey.Keys
