import Mathlib.Data.List.AList
import Unkey.Base.GoString

/-!
# Messages and primitives of the vault

Byte strings, AES-GCM, protobuf and base64 are not part of the repository.
-/

namespace Unkey.Vault

/-- A Go error: its text, and whether `errors.Is` finds `storage.ErrObjectNotFound` in it. -/
structure Err where
  msg : String
  isNotFound : Bool
  deriving DecidableEq

def errorf (msg : String) : Err := ⟨msg, false⟩

def Err.wrap (ctx : String) (e : Err) : Err := ⟨ctx ++ ": " ++ e.msg, e.isNotFound⟩

def errObjectNotFound : Err := ⟨"object not found", true⟩

structure DataEncryptionKey (B : Type) where
  id : String
  createdAt : Int
  key : B
  deriving DecidableEq

/-- The unauthenticated envelope of a ciphertext; the algorithm is always AES-256-GCM. -/
structure Encrypted (B : Type) where
  nonce : B
  ciphertext : B
  encryptionKeyId : String
  time : Int
  deriving DecidableEq

structure EncryptedDataEncryptionKey (B : Type) where
  id : String
  createdAt : Int
  encrypted : Encrypted B
  deriving DecidableEq

structure Primitives (B : Type) where
  len : B → Nat
  gcmSeal : (key nonce plaintext : B) → B
  gcmOpen : (key nonce ciphertext : B) → Option B
  gcmOpen_gcmSeal : ∀ key nonce plaintext, gcmOpen key nonce (gcmSeal key nonce plaintext) = some plaintext
  eq_gcmSeal_of_gcmOpen : ∀ key nonce ciphertext plaintext,
    gcmOpen key nonce ciphertext = some plaintext → ciphertext = gcmSeal key nonce plaintext
  gcmSeal_key : ∀ key nonce plaintext key' plaintext',
    gcmSeal key nonce plaintext = gcmSeal key' nonce plaintext' → key = key'
  marshalKey : DataEncryptionKey B → B
  unmarshalKey : B → Option (DataEncryptionKey B)
  unmarshalKey_marshalKey : ∀ dek, unmarshalKey (marshalKey dek) = some dek
  marshalEncryptedKey : EncryptedDataEncryptionKey B → B
  unmarshalEncryptedKey : B → Option (EncryptedDataEncryptionKey B)
  unmarshalEncryptedKey_marshalEncryptedKey : ∀ e,
    unmarshalEncryptedKey (marshalEncryptedKey e) = some e
  marshalEncrypted : Encrypted B → B
  unmarshalEncrypted : B → Option (Encrypted B)
  unmarshalEncrypted_marshalEncrypted : ∀ e, unmarshalEncrypted (marshalEncrypted e) = some e
  base64Encode : B → B
  base64Decode : B → Option B
  base64Decode_base64Encode : ∀ b, base64Decode (base64Encode b) = some b

variable {B : Type} (P : Primitives B)

def Nonce := { n : B // P.len n = 12 }

/-- A master key. -/
structure KeyEncryptionKey where
  id : String
  key : B
  size : P.len key = 32

namespace Encryption

def encrypt (nonce : Nonce P) (key plaintext : B) : Except Err (B × B) :=
  if P.len key = 16 ∨ P.len key = 24 ∨ P.len key = 32 then
    .ok (nonce.1, P.gcmSeal key nonce.1 plaintext)
  else .error (errorf "failed to create cipher")

def decrypt (key nonce ciphertext : B) : Except Err B :=
  if P.len nonce ≠ 12 then .error (errorf "nonce must be 12 bytes for AES-GCM")
  else if P.len key ≠ 32 then .error (errorf "key size must be 32 bytes")
  else
    match P.gcmOpen key nonce ciphertext with
    | none => .error (errorf "failed to decrypt data")
    | some plaintext => .ok plaintext

variable {P}

theorem decrypt_ok {key nonce ciphertext plaintext : B}
    (h : decrypt P key nonce ciphertext = .ok plaintext) :
    ciphertext = P.gcmSeal key nonce plaintext := by
  unfold decrypt at h
  split at h
  · cases h
  split at h
  · cases h
  split at h
  · cases h
  · next hu =>
    cases h
    exact P.eq_gcmSeal_of_gcmOpen _ _ _ _ hu

theorem decrypt_gcmSeal (kek : KeyEncryptionKey P) (nonce : Nonce P) (plaintext : B) :
    decrypt P kek.key nonce.1 (P.gcmSeal kek.key nonce.1 plaintext) = .ok plaintext := by
  simp [decrypt, kek.size, nonce.2, P.gcmOpen_gcmSeal]

theorem decrypt_gcmSeal_ok {key key' nonce plaintext plaintext' : B}
    (h : decrypt P key' nonce (P.gcmSeal key nonce plaintext) = .ok plaintext') :
    plaintext' = plaintext := by
  have hs := decrypt_ok h
  have hk : key = key' := P.gcmSeal_key _ _ _ _ _ hs
  subst hk
  have ho := P.gcmOpen_gcmSeal key nonce plaintext
  rw [hs, P.gcmOpen_gcmSeal] at ho
  exact Option.some.inj ho

theorem encrypt_kek (kek : KeyEncryptionKey P) (nonce : Nonce P) (plaintext : B) :
    encrypt P nonce kek.key plaintext = .ok (nonce.1, P.gcmSeal kek.key nonce.1 plaintext) := by
  simp [encrypt, kek.size]

end Encryption

end Unkey.Vault
