import Mathlib.Data.List.ProdSigma
import Mathlib.Data.List.Sort
import Unkey.Vault.Keyring
import Unkey.Vault.Symbolic

/-!
# Rotating the master key

`RollDeks` rewrites every object it is told about under the current master key.
-/

namespace Unkey.Vault

open Unkey.Base

variable {B : Type} {P : Primitives B}

def pageSize : Nat := 1000

/-- One `ListObjectsV2` call: the keys under a prefix, sorted and cut at the page size. -/
def listObjectsV2 (store : Storage B) (keyPrefix : String) : List String :=
  ((store.keys.filter fun key => hasPrefix key keyPrefix).insertionSort (· ≤ ·)).take pageSize

/-- `ListObjectKeys` of the S3 storage: a single call, whose continuation token is dropped. -/
def listObjectKeys (store : Storage B) (fails : Bool) (keyPrefix : String) :
    Except Err (List String) :=
  if fails then .error (errorf "failed to list objects") else .ok (listObjectsV2 store keyPrefix)

structure Rolling (P : Primitives B) where
  listFails : Bool
  getFails : String → Bool
  putFails : String → Bool
  nonce : String → Nonce P
  now : String → Int

def rollDek (k : Keyring P) (o : Rolling P) (store : Storage B) (objectKey : String) :
    Except Err (Storage B) :=
  match getObject store (o.getFails objectKey) objectKey with
  | .error e => .error (e.wrap "failed to get object")
  | .ok none => .error errObjectNotFound
  | .ok (some b) =>
    match decodeAndDecryptKey k b with
    | .error e => .error (e.wrap "failed to decode and decrypt key")
    | .ok (dek, kekID) =>
      if kekID = k.encryptionKey.id then .ok store
      else
        match encryptAndEncodeKey k (o.nonce objectKey) (o.now objectKey) dek with
        | .error e => .error (e.wrap "failed to re-encrypt key")
        | .ok reencrypted =>
          match putObject store (o.putFails objectKey) objectKey reencrypted with
          | .error e => .error (e.wrap "failed to put re-encrypted key")
          | .ok store => .ok store

def rollEach (k : Keyring P) (o : Rolling P) : Storage B → List String → Storage B × Option Err
  | store, [] => (store, none)
  | store, objectKey :: rest =>
    match rollDek k o store objectKey with
    | .error e => (store, some e)
    | .ok store => rollEach k o store rest

/-- `RollDeks`; no error is Go's `nil`. -/
def rollDeks (k : Keyring P) (o : Rolling P) (store : Storage B) : Storage B × Option Err :=
  match listObjectKeys store o.listFails "keyring/" with
  | .error e => (store, some (e.wrap "failed to list keys"))
  | .ok lookupKeys => rollEach k o store lookupKeys

inductive Rolled (k : Keyring P) (b : B) (after : Option B) : Prop
  | skipped (dek : DataEncryptionKey B)
      (read : decodeAndDecryptKey k b = .ok (dek, k.encryptionKey.id)) (kept : after = some b)
  | rewritten (dek : DataEncryptionKey B) (kekID : String) (nonce : Nonce P) (now : Int) (b' : B)
      (read : decodeAndDecryptKey k b = .ok (dek, kekID)) (other : kekID ≠ k.encryptionKey.id)
      (written : encryptAndEncodeKey k nonce now dek = .ok b') (put : after = some b')

variable {k : Keyring P}

theorem rollDek_ok {o : Rolling P} {store store' : Storage B} {objectKey : String}
    (h : rollDek k o store objectKey = .ok store') :
    (∃ b, store.lookup objectKey = some b ∧ Rolled k b (store'.lookup objectKey)) ∧
      ∀ key, key ≠ objectKey → store'.lookup key = store.lookup key := by
  unfold rollDek getObject at h
  cases hf : o.getFails objectKey with
  | true => simp [hf] at h
  | false =>
    cases hl : store.lookup objectKey with
    | none => simp [hf, hl] at h
    | some b =>
      simp only [hf, hl, Bool.false_eq_true, if_false] at h
      cases hd : decodeAndDecryptKey k b with
      | error e => simp [hd] at h
      | ok r =>
        obtain ⟨dek, kekID⟩ := r
        simp only [hd] at h
        split at h
        · next hid =>
          cases h
          exact ⟨⟨b, rfl, .skipped dek (by rw [hd, hid]) hl⟩, fun _ _ => rfl⟩
        · next hid =>
          cases he : encryptAndEncodeKey k (o.nonce objectKey) (o.now objectKey) dek with
          | error e => simp [he] at h
          | ok b' =>
            cases hp : o.putFails objectKey with
            | true => simp [he, putObject, hp] at h
            | false =>
              simp only [he, putObject, hp, Bool.false_eq_true, if_false, Except.ok.injEq] at h
              subst h
              refine ⟨⟨b, rfl, .rewritten dek kekID _ _ b' hd hid he ?_⟩, fun key hk => ?_⟩
              · exact AList.lookup_insert store
              · exact AList.lookup_insert_ne hk

theorem rollEach_ok {o : Rolling P} {keys : List String} {store store' : Storage B}
    (hn : keys.Nodup) (h : rollEach k o store keys = (store', none)) :
    (∀ key ∈ keys, ∃ b, store.lookup key = some b ∧ Rolled k b (store'.lookup key)) ∧
      ∀ key, key ∉ keys → store'.lookup key = store.lookup key := by
  induction keys generalizing store with
  | nil =>
    cases h
    exact ⟨fun _ hk => by simp at hk, fun _ _ => rfl⟩
  | cons objectKey rest ih =>
    obtain ⟨hnot, hrest⟩ := List.nodup_cons.mp hn
    unfold rollEach at h
    cases hr : rollDek k o store objectKey with
    | error e => simp [hr] at h
    | ok mid =>
      simp only [hr] at h
      obtain ⟨⟨b, hb, hrolled⟩, hothers⟩ := rollDek_ok hr
      obtain ⟨hin, hout⟩ := ih hrest h
      constructor
      · intro key hk
        by_cases heq : key = objectKey
        · subst heq
          exact ⟨b, hb, by rw [hout key hnot]; exact hrolled⟩
        · rw [← hothers key heq]
          exact hin key ((List.mem_cons.mp hk).resolve_left heq)
      · intro key hk
        rw [List.mem_cons, not_or] at hk
        rw [hout key hk.2, hothers key hk.1]

theorem listObjectsV2_nodup (store : Storage B) (keyPrefix : String) :
    (listObjectsV2 store keyPrefix).Nodup := by
  refine List.Nodup.sublist (List.take_sublist _ _) ?_
  exact ((List.perm_insertionSort _ _).nodup_iff).mpr (store.keys_nodup.filter _)

theorem mem_of_mem_listObjectsV2 {store : Storage B} {keyPrefix key : String}
    (h : key ∈ listObjectsV2 store keyPrefix) :
    key ∈ store ∧ hasPrefix key keyPrefix = true := by
  have h' := (List.perm_insertionSort _ _).mem_iff.mp (List.mem_of_mem_take h)
  exact List.mem_filter.mp h'

/-- Every object under `keyring/` can be read with the previous or the current master key. -/
def Readable (k : Keyring P) (store : Storage B) : Prop :=
  ∀ key b, hasPrefix key "keyring/" = true → store.lookup key = some b →
    ∃ dek kekID, decodeAndDecryptKey k b = .ok (dek, kekID)

theorem rollEach_total {o : Rolling P} (hget : ∀ key, o.getFails key = false)
    (hput : ∀ key, o.putFails key = false) {keys : List String} {store : Storage B}
    (hn : keys.Nodup)
    (hread : ∀ key ∈ keys, ∃ b r, store.lookup key = some b ∧ decodeAndDecryptKey k b = .ok r) :
    ∃ store', rollEach k o store keys = (store', none) := by
  induction keys generalizing store with
  | nil => exact ⟨store, rfl⟩
  | cons objectKey rest ih =>
    obtain ⟨hnot, hrest⟩ := List.nodup_cons.mp hn
    obtain ⟨b, ⟨dek, kekID⟩, hb, hd⟩ := hread objectKey (by simp)
    have hmid : ∃ mid, rollDek k o store objectKey = .ok mid := by
      simp only [rollDek, getObject, hget, hb, hd, encryptAndEncodeKey_eq, putObject, hput,
        Bool.false_eq_true, if_false]
      split
      · exact ⟨_, rfl⟩
      · exact ⟨_, rfl⟩
    obtain ⟨mid, hmid⟩ := hmid
    simp only [rollEach, hmid]
    refine ih hrest fun key hk => ?_
    have hne : key ≠ objectKey := by
      rintro rfl
      exact hnot hk
    rw [(rollDek_ok hmid).2 key hne]
    exact hread key (by simp [hk])

theorem rollDeks_total {o : Rolling P} {store : Storage B}
    (hlist : o.listFails = false) (hget : ∀ key, o.getFails key = false)
    (hput : ∀ key, o.putFails key = false) (hread : Readable k store) :
    ∃ store', rollDeks k o store = (store', none) := by
  simp only [rollDeks, listObjectKeys, hlist, Bool.false_eq_true, if_false]
  refine rollEach_total hget hput (listObjectsV2_nodup store _) fun key hk => ?_
  obtain ⟨hmem, hpre⟩ := mem_of_mem_listObjectsV2 hk
  obtain ⟨b, hb⟩ := Option.isSome_iff_exists.mp (AList.lookup_isSome.mpr hmem)
  obtain ⟨dek, kekID, hd⟩ := hread key b hpre hb
  exact ⟨b, _, hb, hd⟩

/-- The bucket after a rotation to `master` has the objects of the bucket before it,
and `master` alone reads in each the data key that was there. -/
structure Rotated (master : KeyEncryptionKey P) (previous : Option (KeyEncryptionKey P))
    (before after : Storage B) : Prop where
  kept : ∀ key, hasPrefix key "keyring/" = true →
    (after.lookup key).isSome = (before.lookup key).isSome
  current : ∀ key b b', hasPrefix key "keyring/" = true → before.lookup key = some b →
    after.lookup key = some b' → ∃ dek kekID,
      decodeAndDecryptKey (loadMasterKeys master previous) b = .ok (dek, kekID) ∧
      decodeAndDecryptKey (loadMasterKeys master none) b' = .ok (dek, master.id)

def Settled (master : KeyEncryptionKey P) (previous : Option (KeyEncryptionKey P))
    (store : Storage B) : Prop :=
  ∀ key b dek kekID, hasPrefix key "keyring/" = true → store.lookup key = some b →
    decodeAndDecryptKey (loadMasterKeys master previous) b = .ok (dek, kekID) →
    key ∉ listObjectsV2 store "keyring/" ∨ kekID = master.id →
    decodeAndDecryptKey (loadMasterKeys master none) b = .ok (dek, master.id)

@[simp] theorem loadMasterKeys_encryptionKey (master : KeyEncryptionKey P)
    (previous : Option (KeyEncryptionKey P)) :
    (loadMasterKeys master previous).encryptionKey = master := by
  cases previous <;> rfl

theorem loadMasterKeys_none_self (master : KeyEncryptionKey P) :
    (loadMasterKeys master none).decryptionKeys master.id = some master := by
  simp [loadMasterKeys]

theorem rollDeks_ok {o : Rolling P} {store store' : Storage B}
    (h : rollDeks k o store = (store', none)) :
    (∀ key ∈ listObjectsV2 store "keyring/",
        ∃ b, store.lookup key = some b ∧ Rolled k b (store'.lookup key)) ∧
      ∀ key, key ∉ listObjectsV2 store "keyring/" → store'.lookup key = store.lookup key := by
  unfold rollDeks listObjectKeys at h
  cases hf : o.listFails with
  | true => simp [hf] at h
  | false =>
    simp only [hf, Bool.false_eq_true, if_false] at h
    exact rollEach_ok (listObjectsV2_nodup store _) h

section Rotation

variable {master : KeyEncryptionKey P} {previous : Option (KeyEncryptionKey P)} {o : Rolling P}
  {store store' : Storage B}

theorem settled_of_rotated (h : rollDeks (loadMasterKeys master previous) o store = (store', none))
    (hr : Rotated master previous store store') : Settled master previous store := by
  intro key b dek kekID hpre hb hd hcase
  obtain ⟨hin, hout⟩ := rollDeks_ok h
  -- in both cases the rotation leaves the object alone
  have hkept : store'.lookup key = some b := by
    by_cases hmem : key ∈ listObjectsV2 store "keyring/"
    · obtain ⟨b₀, hb₀, hrolled⟩ := hin key hmem
      cases hb.symm.trans hb₀
      cases hrolled with
      | skipped dek' read kept => exact kept
      | rewritten dek' kekID' nonce now b' read other written put =>
        rw [hd] at read
        cases read
        exact absurd (hcase.resolve_left (not_not_intro hmem)) (by simpa using other)
    · rw [hout key hmem, hb]
  obtain ⟨dek', kekID', hd', hcur⟩ := hr.current key b b hpre hb hkept
  rw [hd] at hd'
  cases hd'
  exact hcur

theorem rolled_of_settled (hread : Readable (loadMasterKeys master previous) store)
    (h : rollDeks (loadMasterKeys master previous) o store = (store', none))
    (hs : Settled master previous store) {key : String} {b : B}
    (hpre : hasPrefix key "keyring/" = true) (hb : store.lookup key = some b) :
    ∃ b' dek kekID, store'.lookup key = some b' ∧
      decodeAndDecryptKey (loadMasterKeys master previous) b = .ok (dek, kekID) ∧
      decodeAndDecryptKey (loadMasterKeys master none) b' = .ok (dek, master.id) := by
  obtain ⟨hin, hout⟩ := rollDeks_ok h
  by_cases hmem : key ∈ listObjectsV2 store "keyring/"
  · obtain ⟨b₀, hb₀, hrolled⟩ := hin key hmem
    cases hb.symm.trans hb₀
    cases hrolled with
    | skipped dek read kept =>
      rw [loadMasterKeys_encryptionKey] at read
      exact ⟨b, dek, master.id, kept, read, hs key b dek _ hpre hb read (.inr rfl)⟩
    | rewritten dek kekID nonce now b' read other written put =>
      refine ⟨b', dek, kekID, put, read, ?_⟩
      have hk : (loadMasterKeys master none).decryptionKeys
          (loadMasterKeys master previous).encryptionKey.id =
            some (loadMasterKeys master previous).encryptionKey := by
        simpa using loadMasterKeys_none_self master
      simpa using decodeAndDecryptKey_encrypted hk written
  · obtain ⟨dek, kekID, hd⟩ := hread key b hpre hb
    have hcur := hs key b dek kekID hpre hb hd (.inl hmem)
    exact ⟨b, dek, kekID, by rw [hout key hmem, hb], hd, hcur⟩

theorem rotated_of_settled (hread : Readable (loadMasterKeys master previous) store)
    (h : rollDeks (loadMasterKeys master previous) o store = (store', none))
    (hs : Settled master previous store) : Rotated master previous store store' := by
  obtain ⟨hin, hout⟩ := rollDeks_ok h
  refine ⟨fun key hpre => ?_, fun key b b' hpre hb hb' => ?_⟩
  · cases hb : store.lookup key with
    | some b =>
      obtain ⟨b', _, _, hb', _⟩ := rolled_of_settled hread h hs hpre hb
      rw [hb']
      rfl
    | none =>
      have hmem : key ∉ listObjectsV2 store "keyring/" := by
        intro hmem
        obtain ⟨b, hb', _⟩ := hin key hmem
        rw [hb] at hb'
        cases hb'
      rw [hout key hmem, hb]
  · obtain ⟨b₁, dek, kekID, hb₁, hd, hcur⟩ := rolled_of_settled hread h hs hpre hb
    cases hb'.symm.trans hb₁
    exact ⟨dek, kekID, hd, hcur⟩

/-- A completed rotation leaves nothing behind exactly when all objects that the
first page of the listing leaves out were under the current master key already. -/
theorem rollDeks_rotated_iff_settled (hread : Readable (loadMasterKeys master previous) store)
    (h : rollDeks (loadMasterKeys master previous) o store = (store', none)) :
    Rotated master previous store store' ↔ Settled master previous store :=
  ⟨settled_of_rotated h, rotated_of_settled hread h⟩

end Rotation

def oldMaster : KeyEncryptionKey symbolic := ⟨"kek_old", .bytes "old" 32, rfl⟩
def newMaster : KeyEncryptionKey symbolic := ⟨"kek_new", .bytes "new" 32, rfl⟩

def smooth : Rolling symbolic where
  listFails := false
  getFails _ := false
  putFails _ := false
  nonce _ := symbolicNonce
  now _ := 0

/-- The object that a vault with only `oldMaster` writes for a data key. -/
def oldObject (dek : DataEncryptionKey Term) : Term :=
  .encryptedDek dek.id dek.createdAt symbolicNonce.1
    (.sealed oldMaster.key symbolicNonce.1 (.dek dek.id dek.createdAt dek.key)) oldMaster.id 0

theorem decodeAndDecryptKey_oldObject (dek : DataEncryptionKey Term) :
    decodeAndDecryptKey (loadMasterKeys newMaster (some oldMaster)) (oldObject dek) =
      .ok (dek, "kek_old") := rfl

theorem decodeAndDecryptKey_oldObject_dropped (dek : DataEncryptionKey Term) :
    decodeAndDecryptKey (loadMasterKeys newMaster none) (oldObject dek) =
      .error (errorf "no kek found for key id: kek_old") := rfl

theorem readable_of_old {store : Storage Term}
    (h : ∀ e ∈ store.entries, ∃ dek, e.2 = oldObject dek) :
    Readable (loadMasterKeys newMaster (some oldMaster)) store := by
  intro key b _ hb
  obtain ⟨dek, hdek⟩ := h _ (AList.mem_lookup_iff.mp hb)
  cases hdek
  exact ⟨dek, "kek_old", decodeAndDecryptKey_oldObject dek⟩

def lone : Storage Term :=
  (∅ : Storage Term).insert (buildLookupKey "ring" "dek_000000000")
    (oldObject ⟨"dek_000000000", 0, .bytes "dek" 32⟩)

theorem rollDeks_rotated_iff_settled_lone :
    Readable (loadMasterKeys newMaster (some oldMaster)) lone ∧
    (rollDeks (loadMasterKeys newMaster (some oldMaster)) smooth lone).2 = none ∧
    (Rotated newMaster (some oldMaster) lone
        (rollDeks (loadMasterKeys newMaster (some oldMaster)) smooth lone).1 ↔
      Settled newMaster (some oldMaster) lone) := by
  have hread : Readable (loadMasterKeys newMaster (some oldMaster)) lone :=
    readable_of_old (fun e he => ⟨_, by cases List.mem_singleton.mp he; rfl⟩)
  have hok : (rollDeks (loadMasterKeys newMaster (some oldMaster)) smooth lone).2 = none := by
    decide
  exact ⟨hread, hok, rollDeks_rotated_iff_settled hread (Prod.ext rfl hok)⟩

def crowdRing (i j : Nat) : String :=
  String.ofList (List.replicate i 'a' ++ 'b' :: List.replicate j 'a')

theorem crowdRing_inj {i j i' j' : Nat} (h : crowdRing i j = crowdRing i' j') :
    i = i' ∧ j = j' := by
  have hl := String.ofList_inj.mp h
  rw [List.append_cons_inj_of_notMem (by simp) (by simp)] at hl
  exact ⟨by simpa using congrArg List.length hl.1, by simpa using congrArg List.length hl.2.2⟩

def crowdIndex : List ((Nat × Nat) × String) :=
  (List.range 32 ×ˢ List.range 16) ×ˢ ["dek_000000000", "LATEST"]

/-- The two objects that `CreateKey` writes for the one data key of a keyring. -/
def crowdEntry (n : (Nat × Nat) × String) : Sigma (fun _ : String => Term) :=
  ⟨buildLookupKey (crowdRing n.1.1 n.1.2) n.2,
    oldObject ⟨"dek_000000000", 0, .bytes (crowdRing n.1.1 n.1.2) 32⟩⟩

theorem crowd_nodupKeys : (crowdIndex.map crowdEntry).NodupKeys := by
  have hslash : ∀ n ∈ crowdIndex, '/' ∉ n.2.toList := by
    intro n hn
    have hd := (List.mem_product.mp hn).2
    simp only [List.mem_cons, List.not_mem_nil, or_false] at hd
    rcases hd with hd | hd <;> rw [hd] <;> decide
  unfold List.NodupKeys List.keys
  rw [List.map_map]
  refine List.Nodup.map_on ?_ ((List.nodup_range.product List.nodup_range).product (by decide))
  intro n hn n' hn' h
  obtain ⟨hring, hd⟩ := buildLookupKey_inj (hslash n hn) (hslash n' hn') h
  obtain ⟨hi, hj⟩ := crowdRing_inj hring
  exact Prod.ext (Prod.ext hi hj) hd

def crowd : Storage Term := ⟨crowdIndex.map crowdEntry, crowd_nodupKeys⟩

theorem mem_crowd {key : String} (h : key ∈ crowd) :
    hasPrefix key "keyring/" = true ∧ ∃ dek, crowd.lookup key = some (oldObject dek) := by
  obtain ⟨e, he, rfl⟩ := List.mem_map.mp h
  obtain ⟨n, hn, rfl⟩ := List.mem_map.mp he
  refine ⟨hasPrefix_iff.mpr ?_, _, AList.mem_lookup_iff.mpr he⟩
  simp [crowdEntry, buildLookupKey]

theorem crowd_unlisted : ∃ key ∈ crowd, key ∉ listObjectsV2 crowd "keyring/" := by
  by_contra! h
  have hle := (List.subperm_of_subset crowd.keys_nodup h).length_le
  have hlen : crowd.keys.length = 1024 := by
    simp [AList.keys, List.keys, crowd, crowdIndex, List.length_product]
  have hpage : (listObjectsV2 crowd "keyring/").length ≤ 1000 := List.length_take_le _ _
  omega

/-- `RollDeks` returns nil over 1024 readable objects and leaves some to the old master key. -/
theorem crowd_not_rotated :
    Readable (loadMasterKeys newMaster (some oldMaster)) crowd ∧
    ∃ after, rollDeks (loadMasterKeys newMaster (some oldMaster)) smooth crowd = (after, none) ∧
      ¬ Rotated newMaster (some oldMaster) crowd after := by
  have hread : Readable (loadMasterKeys newMaster (some oldMaster)) crowd := by
    refine readable_of_old fun e he => ?_
    obtain ⟨n, hn, rfl⟩ := List.mem_map.mp he
    exact ⟨_, rfl⟩
  obtain ⟨after, hok⟩ := rollDeks_total (o := smooth) rfl (fun _ => rfl) (fun _ => rfl) hread
  refine ⟨hread, after, hok, fun hrot => ?_⟩
  obtain ⟨key, hkey, hnot⟩ := crowd_unlisted
  obtain ⟨hpre, dek, hb⟩ := mem_crowd hkey
  have hcur := settled_of_rotated hok hrot key _ dek _ hpre hb
    (decodeAndDecryptKey_oldObject dek) (.inl hnot)
  rw [decodeAndDecryptKey_oldObject_dropped] at hcur
  cases hcur

end Unkey.Vault
