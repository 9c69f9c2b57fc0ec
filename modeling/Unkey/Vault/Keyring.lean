import Unkey.Vault.Messages

/-!
# Keyrings

Data keys are objects of a bucket that knows nothing about keyrings: the keyring is a part of the
object's key.
-/

namespace Unkey.Vault

open Unkey.Base

variable {B : Type} {P : Primitives B}

abbrev Storage (B : Type) := AList (fun _ : String => B)

structure Keyring (P : Primitives B) where
  encryptionKey : KeyEncryptionKey P
  decryptionKeys : String → Option (KeyEncryptionKey P)

def loadMasterKeys (master : KeyEncryptionKey P) (previous : Option (KeyEncryptionKey P)) :
    Keyring P :=
  let current := Function.update (fun _ => none) master.id (some master)
  match previous with
  | none => ⟨master, current⟩
  | some old => ⟨master, Function.update current old.id (some old)⟩

def buildLookupKey (ringID dekID : String) : String := "keyring/" ++ ringID ++ "/" ++ dekID

theorem buildLookupKey_inj {r r' d d' : String} (hd : '/' ∉ d.toList) (hd' : '/' ∉ d'.toList)
    (h : buildLookupKey r d = buildLookupKey r' d') : r = r' ∧ d = d' := by
  obtain ⟨hr, hd⟩ := glue_inj "/" rfl hd hd' h
  exact ⟨by simpa [← String.toList_inj] using hr, hd⟩

def encryptAndEncodeKey (k : Keyring P) (nonce : Nonce P) (time : Int)
    (dek : DataEncryptionKey B) : Except Err B :=
  match Encryption.encrypt P nonce k.encryptionKey.key (P.marshalKey dek) with
  | .error e => .error (e.wrap "failed to encrypt dek")
  | .ok (nonce, ciphertext) =>
    .ok (P.marshalEncryptedKey
      { id := dek.id
        createdAt := dek.createdAt
        encrypted := ⟨nonce, ciphertext, k.encryptionKey.id, time⟩ })

def decodeAndDecryptKey (k : Keyring P) (b : B) : Except Err (DataEncryptionKey B × String) :=
  match P.unmarshalEncryptedKey b with
  | none => .error (errorf "failed to unmarshal encrypted dek")
  | some e =>
    match k.decryptionKeys e.encrypted.encryptionKeyId with
    | none => .error (errorf ("no kek found for key id: " ++ e.encrypted.encryptionKeyId))
    | some kek =>
      match Encryption.decrypt P kek.key e.encrypted.nonce e.encrypted.ciphertext with
      | .error err => .error (err.wrap "failed to decrypt ciphertext")
      | .ok plaintext =>
        match P.unmarshalKey plaintext with
        | none => .error (errorf "failed to unmarshal dek")
        | some dek => .ok (dek, e.encrypted.encryptionKeyId)

def getObject (store : Storage B) (fails : Bool) (key : String) : Except Err (Option B) :=
  if fails then .error (errorf "failed to get object") else .ok (store.lookup key)

def putObject (store : Storage B) (fails : Bool) (key : String) (data : B) :
    Except Err (Storage B) :=
  if fails then .error (errorf "failed to put object") else .ok (store.insert key data)

def getKey (k : Keyring P) (store : Storage B) (getFails : Bool) (ringID keyID : String) :
    Except Err (DataEncryptionKey B) :=
  match getObject store getFails (buildLookupKey ringID keyID) with
  | .error e => .error (e.wrap "failed to get object")
  | .ok none => .error errObjectNotFound
  | .ok (some b) =>
    match decodeAndDecryptKey k b with
    | .error e => .error (e.wrap "failed to decode and decrypt key")
    | .ok (dek, _) => .ok dek

/-- An id of `uid.New("dek")`: the prefix, an underscore and nine letters or digits. -/
structure DekId where
  suffix : List Char
  length : suffix.length = 9
  alphanum : suffix.all Char.isAlphanum = true

def DekId.toString (i : DekId) : String := "dek_" ++ String.ofList i.suffix

/-- What one `CreateKey` call draws and meets: the generated key, the nonce that
seals it, the clock, and whether one of its two writes fails. -/
structure Draw (P : Primitives B) where
  keyId : DekId
  key : B
  size : P.len key = 32
  nonce : Nonce P
  now : Int
  putFails : Bool
  putLatestFails : Bool

def Draw.dek (d : Draw P) : DataEncryptionKey B := ⟨d.keyId.toString, d.now, d.key⟩

def createKey (k : Keyring P) (store : Storage B) (d : Draw P) (ringID : String) :
    Storage B × Except Err (DataEncryptionKey B) :=
  match encryptAndEncodeKey k d.nonce d.now d.dek with
  | .error e => (store, .error (e.wrap "failed to encrypt and encode dek"))
  | .ok b =>
    match putObject store d.putFails (buildLookupKey ringID d.dek.id) b with
    | .error e => (store, .error (e.wrap "failed to put encrypted dek"))
    | .ok store =>
      match putObject store d.putLatestFails (buildLookupKey ringID "LATEST") b with
      | .error e => (store, .error (e.wrap "failed to put encrypted dek"))
      | .ok store => (store, .ok d.dek)

def Holds (P : Primitives B) (b : B) (dek : DataEncryptionKey B) : Prop :=
  ∃ (k : Keyring P) (nonce : Nonce P) (time : Int), encryptAndEncodeKey k nonce time dek = .ok b

theorem encryptAndEncodeKey_eq (k : Keyring P) (nonce : Nonce P) (time : Int)
    (dek : DataEncryptionKey B) :
    encryptAndEncodeKey k nonce time dek = .ok (P.marshalEncryptedKey
      { id := dek.id
        createdAt := dek.createdAt
        encrypted := ⟨nonce.1, P.gcmSeal k.encryptionKey.key nonce.1 (P.marshalKey dek),
          k.encryptionKey.id, time⟩ }) := by
  simp only [encryptAndEncodeKey, Encryption.encrypt_kek]

variable {dek : DataEncryptionKey B} {k : Keyring P}

theorem Holds.decode {b : B} {dek' : DataEncryptionKey B} {id : String}
    (h : Holds P b dek) (hd : decodeAndDecryptKey k b = .ok (dek', id)) : dek' = dek := by
  obtain ⟨k₀, nonce, time, hb⟩ := h
  rw [encryptAndEncodeKey_eq] at hb
  cases hb
  simp only [decodeAndDecryptKey, P.unmarshalEncryptedKey_marshalEncryptedKey] at hd
  split at hd
  · cases hd
  split at hd
  · cases hd
  · next hopen =>
    rw [Encryption.decrypt_gcmSeal_ok hopen, P.unmarshalKey_marshalKey] at hd
    cases hd
    rfl

theorem decodeAndDecryptKey_encrypted {k' : Keyring P} {nonce : Nonce P} {time : Int} {b : B}
    (hk : k'.decryptionKeys k.encryptionKey.id = some k.encryptionKey)
    (h : encryptAndEncodeKey k nonce time dek = .ok b) :
    decodeAndDecryptKey k' b = .ok (dek, k.encryptionKey.id) := by
  rw [encryptAndEncodeKey_eq] at h
  cases h
  simp only [decodeAndDecryptKey, P.unmarshalEncryptedKey_marshalEncryptedKey, hk,
    Encryption.decrypt_gcmSeal, P.unmarshalKey_marshalKey]

theorem getKey_ok {store : Storage B} {fails : Bool} {ringID keyID : String}
    (h : getKey k store fails ringID keyID = .ok dek) :
    ∃ b id, store.lookup (buildLookupKey ringID keyID) = some b ∧
      decodeAndDecryptKey k b = .ok (dek, id) := by
  unfold getKey getObject at h
  cases fails with
  | true => cases h
  | false =>
    cases hl : store.lookup (buildLookupKey ringID keyID) with
    | none => simp [hl] at h
    | some b =>
      cases hd : decodeAndDecryptKey k b with
      | error e => simp [hl, hd] at h
      | ok r =>
        simp only [hl, hd, Bool.false_eq_true, if_false, Except.ok.injEq] at h
        exact ⟨b, r.2, rfl, by rw [← h, hd]⟩

theorem createKey_lookup {store : Storage B} {d : Draw P} {ringID key : String}
    {b : B} (h : (createKey k store d ringID).1.lookup key = some b) :
    store.lookup key = some b ∨ Holds P b d.dek ∧
      ∃ id, (id = d.dek.id ∨ id = "LATEST") ∧ key = buildLookupKey ringID id := by
  obtain ⟨b', hb'⟩ : ∃ b', encryptAndEncodeKey k d.nonce d.now d.dek = .ok b' :=
    ⟨_, encryptAndEncodeKey_eq k d.nonce d.now d.dek⟩
  have hholds : Holds P b' d.dek := ⟨k, d.nonce, d.now, hb'⟩
  have hput : ∀ (store : Storage B) id, (id = d.dek.id ∨ id = "LATEST") →
      (store.insert (buildLookupKey ringID id) b').lookup key = some b →
      store.lookup key = some b ∨ Holds P b d.dek ∧
        ∃ id, (id = d.dek.id ∨ id = "LATEST") ∧ key = buildLookupKey ringID id := by
    intro store id hid hl
    by_cases hk : key = buildLookupKey ringID id
    · rw [hk, AList.lookup_insert] at hl
      cases hl
      exact .inr ⟨hholds, id, hid, hk⟩
    · rw [AList.lookup_insert_ne hk] at hl
      exact .inl hl
  unfold createKey putObject at h
  simp only [hb'] at h
  cases hf : d.putFails with
  | true => exact .inl (by simpa [hf] using h)
  | false =>
    cases hg : d.putLatestFails with
    | true =>
      simp only [hf, hg, Bool.false_eq_true, if_false, if_true] at h
      exact hput _ _ (.inl rfl) h
    | false =>
      simp only [hf, hg, Bool.false_eq_true, if_false] at h
      rcases hput _ _ (.inr rfl) h with h | h
      · exact hput _ _ (.inl rfl) h
      · exact .inr h

theorem createKey_ok {store : Storage B} {d : Draw P} {ringID : String}
    (h : (createKey k store d ringID).2 = .ok dek) : dek = d.dek := by
  unfold createKey at h
  split at h
  · cases h
  split at h
  · cases h
  split at h
  · cases h
  · cases h
    rfl

end Unkey.Vault
