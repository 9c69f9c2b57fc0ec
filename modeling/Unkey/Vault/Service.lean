import Mathlib.Logic.Function.Basic
import Unkey.Base.Run
import Unkey.Vault.Keyring

/-!
# The vault service

The calls of the vault over its two shared pieces of state, the bucket and the cache of data keys.
-/

namespace Unkey.Vault

variable {B : Type} {P : Primitives B}

def latest : String := "LATEST"

structure State (B : Type) where
  storage : Storage B
  keyCache : String → Option (DataEncryptionKey B)
  created : List (String × DataEncryptionKey B)

def State.empty : State B := ⟨∅, fun _ => none, []⟩

namespace Service

def cacheKey (keyring keyId : String) : String := keyring ++ "-" ++ keyId

def setCache (s : State B) (key : String) (dek : DataEncryptionKey B) : State B :=
  { s with keyCache := Function.update s.keyCache key (some dek) }

def createKey (k : Keyring P) (s : State B) (d : Draw P) (keyring : String) :
    State B × Except Err (DataEncryptionKey B) :=
  let r := Vault.createKey k s.storage d keyring
  ({ s with storage := r.1, created := (keyring, d.dek) :: s.created }, r.2)

def getOrCreateKey (k : Keyring P) (s : State B) (getFails : Bool) (d : Draw P)
    (keyring keyId : String) : State B × Except Err (DataEncryptionKey B) :=
  match getKey k s.storage getFails keyring keyId with
  | .ok dek => (s, .ok dek)
  | .error e =>
    if e.isNotFound then createKey k s d keyring
    else (s, .error (e.wrap "failed to get key"))

/-- The data key that `encrypt` uses: the cached one, or the latest of the keyring. -/
def latestKey (k : Keyring P) (s : State B) (getFails : Bool) (d : Draw P) (keyring : String) :
    State B × Except Err (DataEncryptionKey B) :=
  match s.keyCache (cacheKey keyring latest) with
  | some dek => (s, .ok dek)
  | none =>
    match getOrCreateKey k s getFails d keyring latest with
    | (s, .error e) => (s, .error (e.wrap ("failed to get latest dek in keyring " ++ keyring)))
    | (s, .ok dek) => (setCache s (cacheKey keyring latest) dek, .ok dek)

def encrypt (k : Keyring P) (s : State B) (getFails : Bool) (d : Draw P) (nonce : Nonce P)
    (now : Int) (keyring : String) (data : B) : State B × Except Err (B × String) :=
  match latestKey k s getFails d keyring with
  | (s, .error e) => (s, .error e)
  | (s, .ok dek) =>
    match Encryption.encrypt P nonce dek.key data with
    | .error e => (s, .error (e.wrap "failed to encrypt data"))
    | .ok (nonce, ciphertext) =>
      (s, .ok (P.base64Encode (P.marshalEncrypted ⟨nonce, ciphertext, dek.id, now⟩), dek.id))

def validateEncrypted (P : Primitives B) (e : Encrypted B) : Except Err Unit :=
  if P.len e.nonce ≠ 12 then .error (errorf ("invalid nonce length: expected 12 bytes, got " ++
    toString (P.len e.nonce)))
  else if P.len e.ciphertext < 16 then .error (errorf
    ("invalid ciphertext length: expected at least 16 bytes, got " ++ toString (P.len e.ciphertext)))
  else if e.encryptionKeyId = "" then .error (errorf "encryption key ID is required")
  else .ok ()

def decodeEncrypted (P : Primitives B) (encrypted : B) : Except Err (Encrypted B) :=
  match P.base64Decode encrypted with
  | none => .error (errorf "failed to decode encrypted data")
  | some b =>
    match P.unmarshalEncrypted b with
    | none => .error (errorf "failed to unmarshal encrypted data")
    | some e => .ok e

/-- The data key that `decrypt` uses: the cached one, or the one the blob names. -/
def namedKey (k : Keyring P) (s : State B) (getFails : Bool) (keyring keyId : String) :
    State B × Except Err (DataEncryptionKey B) :=
  match s.keyCache (cacheKey keyring keyId) with
  | some dek => (s, .ok dek)
  | none =>
    match getKey k s.storage getFails keyring keyId with
    | .error e => (s, .error (e.wrap ("failed to get dek in keyring " ++ keyring)))
    | .ok dek => (setCache s (cacheKey keyring keyId) dek, .ok dek)

def decrypt (k : Keyring P) (s : State B) (getFails : Bool) (keyring : String) (encrypted : B) :
    State B × Except Err B :=
  match decodeEncrypted P encrypted with
  | .error e => (s, .error e)
  | .ok e =>
    match validateEncrypted P e with
    | .error err => (s, .error (err.wrap "invalid encrypted message"))
    | .ok () =>
      match namedKey k s getFails keyring e.encryptionKeyId with
      | (s, .error err) => (s, .error err)
      | (s, .ok dek) =>
        match Encryption.decrypt P dek.key e.nonce e.ciphertext with
        | .error err => (s, .error (err.wrap "failed to decrypt ciphertext"))
        | .ok plaintext => (s, .ok plaintext)

/-- `DecryptBulk`, over the items in the order in which the map yields them. -/
def decryptBulk (k : Keyring P) (getFails : String → Bool) (keyring : String) :
    State B → List (String × B) → State B × Except Err (List (String × B))
  | s, [] => (s, .ok [])
  | s, (id, encrypted) :: items =>
    match decrypt k s (getFails id) keyring encrypted with
    | (s, .error e) => (s, .error (e.wrap ("failed to decrypt item " ++ id)))
    | (s, .ok plaintext) =>
      match decryptBulk k getFails keyring s items with
      | (s, .error e) => (s, .error e)
      | (s, .ok rest) => (s, .ok ((id, plaintext) :: rest))

end Service

/-- The calls of a history, each with what it draws and meets. -/
inductive Call (P : Primitives B)
  | encrypt (keyring : String) (data : B) (getFails : Bool) (d : Draw P) (nonce : Nonce P)
      (now : Int)
  | decrypt (keyring : String) (encrypted : B) (getFails : Bool)
  | decryptBulk (keyring : String) (items : List (String × B)) (getFails : String → Bool)
  | createDEK (keyring : String) (d : Draw P)
  | expire (key : String)

def step (k : Keyring P) (s : State B) : Call P → Option (State B)
  | .encrypt keyring data getFails d nonce now =>
    some (Service.encrypt k s getFails d nonce now keyring data).1
  | .decrypt keyring encrypted getFails => some (Service.decrypt k s getFails keyring encrypted).1
  | .decryptBulk keyring items getFails =>
    some (Service.decryptBulk k getFails keyring s items).1
  | .createDEK keyring d => some (Service.createKey k s d keyring).1
  | .expire key => some { s with keyCache := Function.update s.keyCache key none }

end Unkey.Vault
