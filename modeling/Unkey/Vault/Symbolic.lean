import Unkey.Vault.Messages

/-!
# Symbolic primitives

The term model of `Primitives`: a ciphertext is the term that made it, and opens only under its key
and nonce.
-/

namespace Unkey.Vault

inductive Term
  | bytes (name : String) (size : Nat)
  | sealed (key nonce plaintext : Term)
  | dek (id : String) (createdAt : Int) (key : Term)
  | encryptedDek (id : String) (createdAt : Int) (nonce ciphertext : Term)
      (encryptionKeyId : String) (time : Int)
  | encrypted (nonce ciphertext : Term) (encryptionKeyId : String) (time : Int)
  | base64 (content : Term)
  deriving DecidableEq

namespace Term

def len : Term → Nat
  | bytes _ size => size
  | sealed _ _ plaintext => plaintext.len + 16
  | _ => 64

def openWith (key nonce : Term) : Term → Option Term
  | sealed key' nonce' plaintext =>
    if key' = key ∧ nonce' = nonce then some plaintext else none
  | _ => none

end Term

def symbolic : Primitives Term where
  len := Term.len
  gcmSeal := Term.sealed
  gcmOpen := Term.openWith
  gcmOpen_gcmSeal key nonce plaintext := by simp [Term.openWith]
  eq_gcmSeal_of_gcmOpen key nonce ciphertext plaintext h := by
    cases ciphertext with
    | sealed key' nonce' plaintext' =>
      simp only [Term.openWith, Option.ite_none_right_eq_some, Option.some.injEq] at h
      obtain ⟨⟨rfl, rfl⟩, rfl⟩ := h
      rfl
    | _ => cases h
  gcmSeal_key key nonce plaintext key' plaintext' h := (Term.sealed.inj h).1
  marshalKey dek := .dek dek.id dek.createdAt dek.key
  unmarshalKey
    | .dek id createdAt key => some ⟨id, createdAt, key⟩
    | _ => none
  unmarshalKey_marshalKey _ := rfl
  marshalEncryptedKey e := .encryptedDek e.id e.createdAt e.encrypted.nonce
    e.encrypted.ciphertext e.encrypted.encryptionKeyId e.encrypted.time
  unmarshalEncryptedKey
    | .encryptedDek id createdAt nonce ciphertext encryptionKeyId time =>
      some ⟨id, createdAt, ⟨nonce, ciphertext, encryptionKeyId, time⟩⟩
    | _ => none
  unmarshalEncryptedKey_marshalEncryptedKey _ := rfl
  marshalEncrypted e := .encrypted e.nonce e.ciphertext e.encryptionKeyId e.time
  unmarshalEncrypted
    | .encrypted nonce ciphertext encryptionKeyId time =>
      some ⟨nonce, ciphertext, encryptionKeyId, time⟩
    | _ => none
  unmarshalEncrypted_marshalEncrypted _ := rfl
  base64Encode := .base64
  base64Decode
    | .base64 content => some content
    | _ => none
  base64Decode_base64Encode _ := rfl

def symbolicNonce : Nonce symbolic := ⟨.bytes "nonce" 12, rfl⟩

end Unkey.Vault
