import Unkey.Base.Growing
import Unkey.Vault.Isolation
import Unkey.Vault.RollDeks

/-!
# Vault instances over one bucket

The calls of any number of instances, interleaved at their storage and cache operations.
-/

namespace Unkey.Vault.Fleet

open Unkey.Base Service

variable {B : Type} {P : Primitives B} {ι : Type}

structure Ring where
  name : String
  plain : Plain name

inductive Op (B : Type)
  | generateKey (ring : Ring)
  | nonce
  | getObject (key : String)
  | putObject (key : String) (data : B)
  | listObjectKeys (keyPrefix : String)
  | cacheGet (key : String)
  | cacheSet (key : String) (dek : DataEncryptionKey B)
  | cacheClear

abbrev Op.Ret (P : Primitives B) : Op B → Type
  | .generateKey _ => DataEncryptionKey B
  | .nonce => Nonce P × Int
  | .getObject _ => Except Err (Option B)
  | .putObject _ _ => Except Err Unit
  | .listObjectKeys _ => Except Err (List String)
  | .cacheGet _ => Option (DataEncryptionKey B)
  | .cacheSet _ _ | .cacheClear => Unit

/-- What an operation meets: storage that fails, an entry that the cache drops, and what is drawn. -/
inductive Choice (P : Primitives B)
  | works
  | fails
  | key (keyId : DekId) (key : B) (size : P.len key = 32) (now : Int)
  | nonce (nonce : Nonce P) (now : Int)

inductive Note (B : Type)
  | returned (ring : Ring) (plaintext encrypted : B)

abbrev Act (P : Primitives B) := Prog (Op B) (Op.Ret P) (Note B)

structure Shared (ι B : Type) where
  storage : Storage B
  caches : ι → String → Option (DataEncryptionKey B)
  created : List (String × DataEncryptionKey B)

def Shared.empty : Shared ι B := ⟨∅, fun _ _ => none, []⟩

def Shared.at (s : Shared ι B) (i : ι) : State B := ⟨s.storage, s.caches i, s.created⟩

inductive Request (B : Type)
  | encrypt (ring : Ring) (data : B)
  | decrypt (ring : Ring) (encrypted : B)
  | reEncrypt (ring : Ring) (encrypted : B)
  | createDEK (ring : Ring)
  | rollDeks

structure Call (ι B : Type) where
  node : ι
  request : Request B

def apply [DecidableEq ι] (c : Call ι B) (op : Op B) (ch : Choice P) (s : Shared ι B) :
    Option (op.Ret P × Shared ι B) :=
  match op, ch with
  | .generateKey ring, .key keyId key _ now =>
    let dek : DataEncryptionKey B := ⟨keyId.toString, now, key⟩
    if s.created.any (·.2.id = dek.id) then none
    else some (dek, { s with created := (ring.name, dek) :: s.created })
  | .nonce, .nonce nonce now => some ((nonce, now), s)
  | .getObject key, .works => some (Vault.getObject s.storage false key, s)
  | .getObject key, .fails => some (Vault.getObject s.storage true key, s)
  | .putObject key data, .works => some (.ok (), { s with storage := s.storage.insert key data })
  | .putObject _ _, .fails => some (.error (errorf "failed to put object"), s)
  | .listObjectKeys keyPrefix, .works =>
    some (Vault.listObjectKeys s.storage false keyPrefix, s)
  | .listObjectKeys keyPrefix, .fails => some (Vault.listObjectKeys s.storage true keyPrefix, s)
  | .cacheGet key, .works => some (s.caches c.node key, s)
  | .cacheGet key, .fails =>
    some (none, { s with
      caches := Function.update s.caches c.node
        (Function.update (s.caches c.node) key none) })
  | .cacheSet key dek, .works =>
    some ((), { s with
      caches := Function.update s.caches c.node
        (Function.update (s.caches c.node) key (some dek)) })
  | .cacheClear, .works =>
    some ((), { s with caches := Function.update s.caches c.node fun _ => none })
  | _, _ => none

/-! ### The calls -/

def perform (op : Op B) : Act P (op.Ret P) := Prog.perform op

def wrapped {α : Type} (ctx : String) (p : Act P (Except Err α)) : Act P (Except Err α) :=
  p >>= fun r => .done (r.mapError (Err.wrap ctx))

def andThen {α β : Type} (p : Act P (Except Err α)) (f : α → Act P (Except Err β)) :
    Act P (Except Err β) :=
  p >>= fun
    | .error e => .done (.error e)
    | .ok a => f a

def getKey (k : Keyring P) (ringID keyID : String) : Act P (Except Err (DataEncryptionKey B)) :=
  andThen (wrapped "failed to get object" (perform (.getObject (buildLookupKey ringID keyID))))
    fun
    | none => .done (.error errObjectNotFound)
    | some b =>
      .done ((decodeAndDecryptKey k b).map Prod.fst |>.mapError
        (Err.wrap "failed to decode and decrypt key"))

def createKey (k : Keyring P) (ring : Ring) : Act P (Except Err (DataEncryptionKey B)) :=
  perform (.generateKey ring) >>= fun dek => perform .nonce >>= fun drawn =>
  andThen (wrapped "failed to encrypt and encode dek"
    (.done (encryptAndEncodeKey k drawn.1 drawn.2 dek))) fun b =>
  andThen (wrapped "failed to put encrypted dek"
    (perform (.putObject (buildLookupKey ring.name dek.id) b))) fun _ =>
  andThen (wrapped "failed to put encrypted dek"
    (perform (.putObject (buildLookupKey ring.name latest) b))) fun _ => .done (.ok dek)

def getOrCreateKey (k : Keyring P) (ring : Ring) (keyID : String) :
    Act P (Except Err (DataEncryptionKey B)) :=
  getKey k ring.name keyID >>= fun
    | .ok dek => .done (.ok dek)
    | .error e =>
      if e.isNotFound then createKey k ring else .done (.error (e.wrap "failed to get key"))

def cachedKey (key : String) (lookUp : Act P (Except Err (DataEncryptionKey B))) :
    Act P (Except Err (DataEncryptionKey B)) :=
  perform (.cacheGet key) >>= fun
    | some dek => .done (.ok dek)
    | none => andThen lookUp fun dek =>
      perform (.cacheSet key dek) >>= fun _ => .done (.ok dek)

def encrypt (k : Keyring P) (ring : Ring) (data : B) : Act P (Except Err (B × String)) :=
  andThen (cachedKey (cacheKey ring.name latest)
    (wrapped ("failed to get latest dek in keyring " ++ ring.name)
      (getOrCreateKey k ring latest))) fun dek =>
  perform .nonce >>= fun drawn =>
  andThen (wrapped "failed to encrypt data"
    (.done (Encryption.encrypt P drawn.1 dek.key data))) fun sealed =>
  .done (.ok (P.base64Encode (P.marshalEncrypted ⟨sealed.1, sealed.2, dek.id, drawn.2⟩), dek.id))

def decrypt (k : Keyring P) (ring : Ring) (encrypted : B) : Act P (Except Err B) :=
  andThen (.done (decodeEncrypted P encrypted)) fun e =>
  andThen (wrapped "invalid encrypted message" (.done (validateEncrypted P e))) fun _ =>
  andThen (cachedKey (cacheKey ring.name e.encryptionKeyId)
    (wrapped ("failed to get dek in keyring " ++ ring.name)
      (getKey k ring.name e.encryptionKeyId))) fun dek =>
  wrapped "failed to decrypt ciphertext" (.done (Encryption.decrypt P dek.key e.nonce e.ciphertext))

def encryptRPC (k : Keyring P) (ring : Ring) (data : B) : Act P (Except Err Unit) :=
  andThen (encrypt k ring data) fun res =>
  Prog.tell (.returned ring data res.1) >>= fun _ => .done (.ok ())

def reEncrypt (k : Keyring P) (ring : Ring) (encrypted : B) : Act P (Except Err Unit) :=
  andThen (wrapped "failed to decrypt" (decrypt k ring encrypted)) fun plaintext =>
  perform .cacheClear >>= fun _ =>
  andThen (wrapped "failed to encrypt" (encrypt k ring plaintext)) fun res =>
  Prog.tell (.returned ring plaintext res.1) >>= fun _ => .done (.ok ())

def rollEach (k : Keyring P) : List String → Act P (Except Err Unit)
  | [] => .done (.ok ())
  | objectKey :: rest =>
    andThen (wrapped "failed to get object" (perform (.getObject objectKey))) fun
      | none => .done (.error errObjectNotFound)
      | some b =>
        andThen (wrapped "failed to decode and decrypt key" (.done (decodeAndDecryptKey k b)))
          fun found =>
        if found.2 = k.encryptionKey.id then rollEach k rest
        else
          perform .nonce >>= fun drawn =>
          andThen (wrapped "failed to re-encrypt key"
            (.done (encryptAndEncodeKey k drawn.1 drawn.2 found.1))) fun reencrypted =>
          andThen (wrapped "failed to put re-encrypted key"
            (perform (.putObject objectKey reencrypted))) fun _ => rollEach k rest

def rollDeks (k : Keyring P) : Act P (Except Err Unit) :=
  andThen (wrapped "failed to list keys" (perform (.listObjectKeys "keyring/"))) (rollEach k)

def body (cfg : ι → Keyring P) (c : Call ι B) : Act P Unit :=
  let k := cfg c.node
  match c.request with
  | .encrypt ring data => encryptRPC k ring data >>= fun _ => .done ()
  | .decrypt ring encrypted => decrypt k ring encrypted >>= fun _ => .done ()
  | .reEncrypt ring encrypted => reEncrypt k ring encrypted >>= fun _ => .done ()
  | .createDEK ring => createKey k ring >>= fun _ => .done ()
  | .rollDeks => rollDeks k >>= fun _ => .done ()

/-! ### What is stored -/

variable (cfg : ι → Keyring P) (s t : Shared ι B)

def Stored (ring : String) (dek : DataEncryptionKey B) : Prop :=
  (ring, dek) ∈ s.created ∧ (s.storage.lookup (buildLookupKey ring dek.id)).isSome = true

/-- An object key under which a data key may be written: its own, or `LATEST` once it is stored. -/
def Fits (key : String) (dek : DataEncryptionKey B) : Prop :=
  ∃ ring, (ring, dek) ∈ s.created ∧ (key = buildLookupKey ring dek.id ∨
    key = buildLookupKey ring latest ∧ Stored s ring dek)

def Found (ring : Ring) (id : String) (dek : DataEncryptionKey B) : Prop :=
  Stored s ring.name dek ∧ (id = dek.id ∨ id = latest)

def Written (b : B) (dek : DataEncryptionKey B) : Prop :=
  ∃ i nonce time, encryptAndEncodeKey (cfg i) nonce time dek = .ok b

structure Inv : Prop where
  created : ∀ e ∈ s.created, Plain e.1 ∧ Plain e.2.id ∧ e.2.id ≠ latest ∧ e.2.id ≠ "" ∧
    P.len e.2.key = 32
  distinct : ∀ e ∈ s.created, ∀ e' ∈ s.created, e.2.id = e'.2.id → e = e'
  stored : ∀ key b, s.storage.lookup key = some b → ∃ dek, Fits s key dek ∧ Written cfg b dek
  cached : ∀ i key dek, s.caches i key = some dek → ∃ ring id, Plain ring ∧
    key = cacheKey ring id ∧ Stored s ring dek ∧ (id = dek.id ∨ id = latest)

def Extends : Prop :=
  s.created ⊆ t.created ∧
    ∀ key, (s.storage.lookup key).isSome = true → (t.storage.lookup key).isSome = true

def Noted (_ : Call ι B) : Note B → Prop
  | .returned ring plaintext encrypted => ∃ dek, ∃ nonce : Nonce P, ∃ now : Int,
      Stored s ring.name dek ∧ encrypted = P.base64Encode (P.marshalEncrypted
        ⟨nonce.1, P.gcmSeal dek.key nonce.1 plaintext, dek.id, now⟩)

def Configured (j : ι) : Prop :=
  ∀ key b i nonce time dek, s.storage.lookup key = some b →
    encryptAndEncodeKey (cfg i) nonce time dek = .ok b →
    (cfg j).decryptionKeys (cfg i).encryptionKey.id = some (cfg i).encryptionKey

theorem cacheKey_inj {r r' id id' : String} (hr : Plain r) (hr' : Plain r')
    (h : cacheKey r id = cacheKey r' id') : r = r' ∧ id = id' := by
  have hl : r.toList ++ '-' :: id.toList = r'.toList ++ '-' :: id'.toList := by
    simpa [cacheKey] using congrArg String.toList h
  obtain ⟨hr, hid⟩ := append_cons_inj hr.1 hr'.1 hl
  exact ⟨String.toList_inj.mp hr, String.toList_inj.mp hid⟩

theorem lookupKey_inj {r r' id id' : String} (hr : Plain r) (hr' : Plain r')
    (h : buildLookupKey r id = buildLookupKey r' id') : r = r' ∧ id = id' := by
  have hl : r.toList ++ '/' :: id.toList = r'.toList ++ '/' :: id'.toList := by
    simpa [buildLookupKey] using congrArg String.toList h
  obtain ⟨hr, hid⟩ := append_cons_inj hr.2 hr'.2 hl
  exact ⟨String.toList_inj.mp hr, String.toList_inj.mp hid⟩

variable {cfg s t} {u : Shared ι B} {dek : DataEncryptionKey B} {ring : String}

theorem Stored.mono (hle : Extends s t) (h : Stored s ring dek) : Stored t ring dek :=
  ⟨hle.1 h.1, hle.2 _ h.2⟩

theorem Fits.mono {key : String} (hle : Extends s t) (h : Fits s key dek) : Fits t key dek := by
  obtain ⟨ring, hdek, hkey⟩ := h
  exact ⟨ring, hle.1 hdek, hkey.imp_right fun h => ⟨h.1, h.2.mono hle⟩⟩

theorem Extends.refl (s : Shared ι B) : Extends s s := ⟨fun _ h => h, fun _ h => h⟩

variable (cfg) in
def growing : Growing (Shared ι B) (Call ι B) (Note B) where
  Inv := Inv cfg
  Extends := Extends
  Noted s := Noted (P := P) s
  refl := Extends.refl
  trans h h' := ⟨fun _ hx => h'.1 (h.1 hx), fun _ hx => h'.2 _ (h.2 _ hx)⟩
  noted {s t c n} hle h := by
    obtain ⟨ring, plaintext, encrypted⟩ := n
    obtain ⟨dek, nonce, now, hdek, henc⟩ := h
    exact ⟨dek, nonce, now, hdek.mono hle, henc⟩

/-! ### One operation -/

theorem DekId.toString_ne (i : DekId) : i.toString ≠ latest ∧ i.toString ≠ "" := by
  constructor <;> intro h <;> simpa [DekId.toString, latest] using congrArg String.toList h

theorem inv_empty : Inv cfg (Shared.empty : Shared ι B) := by
  constructor <;> simp [Shared.empty]

theorem inv_caches {caches : ι → String → Option (DataEncryptionKey B)} (h : Inv cfg s)
    (hc : ∀ i key dek, caches i key = some dek → s.caches i key = some dek ∨
      ∃ ring id, Plain ring ∧ key = cacheKey ring id ∧ Stored s ring dek ∧
        (id = dek.id ∨ id = latest)) : Inv cfg { s with caches := caches } :=
  ⟨h.created, h.distinct, h.stored, fun i key dek hk =>
    (hc i key dek hk).elim (h.cached i key dek) fun hk => hk⟩

theorem inv_put {key : String} {b : B} (h : Inv cfg s) (hfit : Fits s key dek)
    (hb : Written cfg b dek) :
    Extends s { s with storage := s.storage.insert key b } ∧
      Inv cfg { s with storage := s.storage.insert key b } := by
  have hle : Extends s { s with storage := s.storage.insert key b } := by
    refine ⟨fun _ hx => hx, fun key' hk => ?_⟩
    by_cases heq : key' = key
    · rw [heq, AList.lookup_insert]
      rfl
    · rwa [AList.lookup_insert_ne heq]
  refine ⟨hle, h.created, h.distinct, fun key' b' hb' => ?_, fun i key' dek' hk => ?_⟩
  · by_cases heq : key' = key
    · subst heq
      rw [AList.lookup_insert] at hb'
      cases hb'
      exact ⟨dek, hfit.mono hle, hb⟩
    · rw [AList.lookup_insert_ne heq] at hb'
      obtain ⟨dek', hfit', hwritten⟩ := h.stored key' b' hb'
      exact ⟨dek', hfit'.mono hle, hwritten⟩
  · obtain ⟨ring, id, hring, hkey, hstored, hid⟩ := h.cached i key' dek' hk
    exact ⟨ring, id, hring, hkey, hstored.mono hle, hid⟩

theorem inv_generate {r : Ring} {keyId : DekId} {key : B} (now : Int) (h : Inv cfg s)
    (hsize : P.len key = 32) (hnew : ∀ e ∈ s.created, e.2.id ≠ keyId.toString) :
    Extends s { s with created := (r.name, ⟨keyId.toString, now, key⟩) :: s.created } ∧
      Inv cfg { s with created := (r.name, ⟨keyId.toString, now, key⟩) :: s.created } := by
  have hle : Extends s { s with created := (r.name, ⟨keyId.toString, now, key⟩) :: s.created } :=
    ⟨List.subset_cons_self _ _, fun _ hk => hk⟩
  refine ⟨hle, fun e he => ?_, fun e he e' he' hid => ?_, fun key' b hb => ?_,
    fun i key' dek hk => ?_⟩
  · rcases List.mem_cons.mp he with rfl | he
    · exact ⟨r.plain, keyId.plain, (DekId.toString_ne keyId).1, (DekId.toString_ne keyId).2, hsize⟩
    · exact h.created e he
  · rcases List.mem_cons.mp he with rfl | he <;> rcases List.mem_cons.mp he' with rfl | he'
    · rfl
    · exact absurd hid.symm (hnew e' he')
    · exact absurd hid (hnew e he)
    · exact h.distinct e he e' he' hid
  · obtain ⟨dek, hfit, hwritten⟩ := h.stored key' b hb
    exact ⟨dek, hfit.mono hle, hwritten⟩
  · obtain ⟨ring, id, hring, hkey, hstored, hid⟩ := h.cached i key' dek hk
    exact ⟨ring, id, hring, hkey, hstored.mono hle, hid⟩

theorem Inv.read {r : Ring} {id : String} {b : B} (h : Inv cfg s)
    (hb : s.storage.lookup (buildLookupKey r.name id) = some b) :
    ∃ dek, Written cfg b dek ∧ Found s r id dek := by
  obtain ⟨dek, ⟨ring, hdek, hkey⟩, hwritten⟩ := h.stored _ b hb
  have hring := (h.created _ hdek).1
  obtain hkey | ⟨hkey, hstored⟩ := hkey <;> obtain ⟨rfl, rfl⟩ := lookupKey_inj r.plain hring hkey
  · exact ⟨dek, hwritten, ⟨hdek, by rw [hb]; rfl⟩, .inl rfl⟩
  · exact ⟨dek, hwritten, hstored, .inr rfl⟩

theorem Inv.hit {r : Ring} {id : String} {i : ι} (h : Inv cfg s)
    (hk : s.caches i (cacheKey r.name id) = some dek) : Found s r id dek := by
  obtain ⟨ring, id', hring, hkey, hstored, hid⟩ := h.cached _ _ _ hk
  obtain ⟨rfl, rfl⟩ := cacheKey_inj r.plain hring hkey
  exact ⟨hstored, hid⟩

theorem Written.decode {k : Keyring P} {b : B} {found : DataEncryptionKey B × String}
    (h : Written cfg b dek) (hd : decodeAndDecryptKey k b = .ok found) : found.1 = dek := by
  obtain ⟨i, nonce, time, hb⟩ := h
  obtain ⟨dek', id⟩ := found
  exact Holds.decode ⟨cfg i, nonce, time, hb⟩ hd

theorem decrypt_returned (htag : ∀ key nonce plaintext, 16 ≤ P.len (P.gcmSeal key nonce plaintext))
    {c : Call ι B} {r : Ring} {plaintext encrypted : B} {j : ι} (h : Inv cfg s)
    (hnote : Noted (P := P) s c (.returned r plaintext encrypted)) (hconf : Configured cfg s j) :
    (Service.decrypt (cfg j) (s.at j) false r.name encrypted).2 = .ok plaintext := by
  obtain ⟨dek, nonce, now, hstored, rfl⟩ := hnote
  obtain ⟨-, -, hlatest, hempty, hsize⟩ := h.created _ hstored.1
  have hopen : Encryption.decrypt P dek.key nonce.1 (P.gcmSeal dek.key nonce.1 plaintext) =
      .ok plaintext := by
    simp [Encryption.decrypt, hsize, nonce.2, P.gcmOpen_gcmSeal]
  have hunique : ∀ dek', Found s r dek.id dek' → dek' = dek := by
    rintro dek' ⟨hstored', hid⟩
    exact congrArg Prod.snd (h.distinct _ hstored'.1 _ hstored.1 (hid.resolve_right hlatest).symm)
  have hkey : (namedKey (cfg j) (s.at j) false r.name dek.id).2 = .ok dek := by
    unfold namedKey
    cases hc : (s.at j).keyCache (cacheKey r.name dek.id) with
    | some dek' =>
      rw [hunique dek' (h.hit hc)]
    | none =>
      obtain ⟨b, hb⟩ := Option.isSome_iff_exists.mp hstored.2
      obtain ⟨dek', ⟨i, n, time, hwritten⟩, hfound⟩ := h.read hb
      rw [hunique dek' hfound] at hwritten
      have hread := decodeAndDecryptKey_encrypted (hconf _ b i n time dek hb hwritten) hwritten
      simp [Vault.getKey, Vault.getObject, Shared.at, hb, hread]
  unfold Service.decrypt
  simp only [decodeEncrypted, P.base64Decode_base64Encode, P.unmarshalEncrypted_marshalEncrypted,
    validateEncrypted, nonce.2, Nat.not_lt.mpr (htag _ _ _), hempty, ne_eq, not_true_eq_false,
    if_false]
  generalize namedKey (cfg j) (s.at j) false r.name dek.id = res at hkey
  obtain ⟨s', res⟩ := res
  simp only at hkey
  subst hkey
  simp only [hopen]

/-! ### The calls, one after another operation -/

section Safe

variable [DecidableEq ι] {c : Call ι B} {α β : Type}

/-- A result that is not an error meets `Q`. -/
def Ok (Q : α → Shared ι B → Prop) : Except Err α → Shared ι B → Prop
  | .ok a, s => Q a s
  | .error _, _ => True

variable (cfg) in
abbrev Safe (c : Call ι B) (Q : α → Shared ι B → Prop) (p : Act P α) (s : Shared ι B) : Prop :=
  (growing cfg).Safe apply c Q p s

theorem safe_wrapped {Q : α → Shared ι B → Prop} {p : Act P (Except Err α)} (ctx : String)
    (hp : Safe cfg c (Ok Q) p s) : Safe cfg c (Ok Q) (wrapped ctx p) s := by
  refine hp.bind fun r t hr => ?_
  cases r with
  | error e => exact trivial
  | ok a => exact hr

theorem safe_andThen {Q : α → Shared ι B → Prop} {R : β → Shared ι B → Prop}
    {p : Act P (Except Err α)} {f : α → Act P (Except Err β)} (hp : Safe cfg c (Ok Q) p s)
    (hf : ∀ a t, Q a t → Safe cfg c (Ok R) (f a) t) : Safe cfg c (Ok R) (andThen p f) s := by
  refine hp.bind fun r t hr => ?_
  cases r with
  | error e => exact trivial
  | ok a => exact hf a t hr

theorem safe_nonce {R : β → Shared ι B → Prop} {f : Nonce P × Int → Act P β}
    (hf : ∀ drawn t, Extends s t → Safe cfg c R (f drawn) t) :
    Safe cfg c R (perform .nonce >>= f) s := by
  intro t ch r u hle hinv happ
  cases ch with
  | nonce nonce now =>
    cases happ
    exact ⟨Extends.refl _, hinv, hf _ _ hle⟩
  | works | fails | key => cases happ

theorem safe_getObject {key : String} {Q : Option B → Shared ι B → Prop}
    (hQ : ∀ t, Extends s t → Inv cfg t → Q (t.storage.lookup key) t) :
    Safe cfg c (Ok Q) (perform (.getObject key)) s := by
  intro t ch r u hle hinv happ
  cases ch with
  | works =>
    cases happ
    exact ⟨Extends.refl _, hinv, hQ _ hle hinv⟩
  | fails =>
    cases happ
    exact ⟨Extends.refl _, hinv, trivial⟩
  | nonce | key => cases happ

theorem safe_putObject {key : String} {b : B} (hfit : Fits s key dek) (hb : Written cfg b dek) :
    Safe cfg c (Ok fun _ t => Extends s t ∧ (t.storage.lookup key).isSome = true)
      (perform (.putObject key b)) s := by
  intro t ch r u hle hinv happ
  cases ch with
  | works =>
    cases happ
    obtain ⟨hle', hinv'⟩ := inv_put hinv (hfit.mono hle) hb
    refine ⟨hle', hinv', (growing cfg).trans hle hle', ?_⟩
    rw [AList.lookup_insert]
    rfl
  | fails =>
    cases happ
    exact ⟨Extends.refl _, hinv, trivial⟩
  | nonce | key => cases happ

theorem safe_getKey (k : Keyring P) (r : Ring) (id : String) :
    Safe cfg c (Ok fun dek t => Found t r id dek) (getKey k r.name id) s := by
  refine safe_andThen (safe_wrapped _ (safe_getObject fun t _ hinv => ?_)) (Q := fun o t =>
    ∀ b, o = some b → ∃ dek, Written cfg b dek ∧ Found t r id dek) fun o t ho => ?_
  · intro b hb
    exact hinv.read hb
  · cases o with
    | none => exact trivial
    | some b =>
      obtain ⟨dek, hwritten, hfound⟩ := ho b rfl
      show Ok _ _ t
      cases hd : decodeAndDecryptKey k b with
      | error e => exact trivial
      | ok found =>
        show Found t r id found.1
        rw [hwritten.decode hd]
        exact hfound

theorem safe_createKey (i : ι) (r : Ring) :
    Safe cfg c (Ok fun dek t => Found t r latest dek) (createKey (cfg i) r) s := by
  intro t ch dek u hle hinv happ
  cases ch with
  | works | fails | nonce => cases happ
  | key keyId key size now =>
    simp only [apply, Option.ite_none_left_eq_some, Option.some.injEq, Prod.mk.injEq] at happ
    obtain ⟨hnew, rfl, rfl⟩ := happ
    obtain ⟨hle', hinv'⟩ := inv_generate (r := r) now hinv size (by simpa using hnew)
    refine ⟨hle', hinv', safe_nonce fun drawn t hle => ?_⟩
    generalize hdek : (⟨keyId.toString, now, key⟩ : DataEncryptionKey B) = dek at hle ⊢
    have hcreated : (r.name, dek) ∈ t.created := hle.1 List.mem_cons_self
    refine safe_andThen (safe_wrapped _ ?_) (Q := fun b t' => t' = t ∧ Written cfg b dek) ?_
    · rw [encryptAndEncodeKey_eq]
      exact ⟨rfl, i, drawn.1, drawn.2, encryptAndEncodeKey_eq _ _ _ _⟩
    · rintro b _ ⟨rfl, hb⟩
      refine safe_andThen (safe_wrapped _ (safe_putObject ⟨_, hcreated, .inl rfl⟩ hb)) ?_
      rintro - t' ⟨hle', hfound⟩
      have hstored : Stored t' r.name dek := ⟨hle'.1 hcreated, hfound⟩
      refine safe_andThen (safe_wrapped _
        (safe_putObject ⟨_, hstored.1, .inr ⟨rfl, hstored⟩⟩ hb)) ?_
      rintro - t'' ⟨hle'', -⟩
      exact ⟨hstored.mono hle'', .inr rfl⟩

theorem safe_getOrCreateKey (i : ι) (r : Ring) :
    Safe cfg c (Ok fun dek t => Found t r latest dek) (getOrCreateKey (cfg i) r latest) s := by
  refine (safe_getKey (cfg i) r latest).bind fun res t hres => ?_
  cases res with
  | ok dek => exact hres
  | error e =>
    dsimp only
    split
    · exact safe_createKey i r
    · exact trivial

theorem safe_cachedKey {r : Ring} {id : String} {lookUp : Act P (Except Err (DataEncryptionKey B))}
    (h : ∀ t, Safe cfg c (Ok fun dek t => Found t r id dek) lookUp t) :
    Safe cfg c (Ok fun dek t => Found t r id dek) (cachedKey (cacheKey r.name id) lookUp) s := by
  intro t ch res u hle hinv happ
  have hmiss : Safe cfg c (Ok fun dek t => Found t r id dek) (andThen lookUp fun dek =>
      perform (.cacheSet (cacheKey r.name id) dek) >>= fun _ => .done (.ok dek)) u := by
    refine safe_andThen (h u) fun dek t hfound t' ch res u hle hinv happ => ?_
    cases ch with
    | works =>
      cases happ
      have hfound' : Found t' r id dek := ⟨hfound.1.mono hle, hfound.2⟩
      refine ⟨⟨fun _ hx => hx, fun _ hx => hx⟩, inv_caches hinv fun i key dek' hk => ?_, hfound'⟩
      by_cases hi : i = c.node
      · subst hi
        rw [Function.update_self] at hk
        by_cases hkey : key = cacheKey r.name id
        · rw [hkey, Function.update_self] at hk
          cases hk
          exact .inr ⟨r.name, id, r.plain, hkey, hfound'⟩
        · rw [Function.update_of_ne hkey] at hk
          exact .inl hk
      · rw [Function.update_of_ne hi] at hk
        exact .inl hk
    | fails | nonce | key => cases happ
  cases ch with
  | works =>
    cases happ
    refine ⟨Extends.refl _, hinv, ?_⟩
    cases hc : t.caches c.node (cacheKey r.name id) with
    | some dek => exact hinv.hit hc
    | none => exact hmiss
  | fails =>
    cases happ
    refine ⟨⟨fun _ hx => hx, fun _ hx => hx⟩, inv_caches hinv fun i key dek hk => .inl ?_, hmiss⟩
    by_cases hi : i = c.node
    · subst hi
      rw [Function.update_self] at hk
      by_cases hkey : key = cacheKey r.name id
      · rw [hkey, Function.update_self] at hk
        cases hk
      · rwa [Function.update_of_ne hkey] at hk
    · rwa [Function.update_of_ne hi] at hk
  | nonce | key => cases happ

theorem safe_encrypt (i : ι) (r : Ring) (data : B) :
    Safe cfg c (Ok fun res t => Noted (P := P) t c (.returned r data res.1))
      (encrypt (cfg i) r data) s := by
  refine safe_andThen (safe_cachedKey fun t => safe_wrapped _ (safe_getOrCreateKey i r))
    fun dek t hfound => safe_nonce fun drawn t' hle => ?_
  unfold Encryption.encrypt
  split
  · exact ⟨dek, drawn.1, drawn.2, hfound.1.mono hle, rfl⟩
  · exact trivial

theorem safe_decrypt (k : Keyring P) (r : Ring) (encrypted : B) :
    Safe cfg c (Ok fun _ _ => True) (decrypt k r encrypted) s := by
  have hdone : ∀ {α : Type} (r : Except Err α) (t : Shared ι B),
      Safe cfg c (P := P) (Ok fun _ _ => True) (.done r) t := by
    intro α r t
    cases r <;> exact trivial
  refine safe_andThen (hdone _ s) fun e t _ =>
    safe_andThen (safe_wrapped _ (hdone _ t)) fun _ t _ =>
    safe_andThen (safe_cachedKey fun t => safe_wrapped _ (safe_getKey k r _)) fun dek t _ =>
    safe_wrapped _ (hdone _ t)

theorem safe_encryptRPC (i : ι) (r : Ring) (data : B) :
    Safe cfg c (Ok fun _ _ => True) (encryptRPC (cfg i) r data) s :=
  safe_andThen (safe_encrypt i r data) fun _ _ hnote => ⟨hnote, trivial⟩

theorem safe_reEncrypt (i : ι) (r : Ring) (encrypted : B) :
    Safe cfg c (Ok fun _ _ => True) (reEncrypt (cfg i) r encrypted) s := by
  refine safe_andThen (safe_wrapped _ (safe_decrypt (cfg i) r encrypted))
    fun plaintext t _ t' ch res u hle hinv happ => ?_
  cases ch with
  | works =>
    cases happ
    refine ⟨⟨fun _ hx => hx, fun _ hx => hx⟩, inv_caches hinv fun i key dek hk => .inl ?_,
      safe_andThen (safe_wrapped _ (safe_encrypt i r plaintext)) fun _ _ hnote => ⟨hnote, trivial⟩⟩
    by_cases hi : i = c.node
    · subst hi
      rw [Function.update_self] at hk
      cases hk
    · rwa [Function.update_of_ne hi] at hk
  | fails | nonce | key => cases happ

theorem safe_rollEach (i : ι) (keys : List String) (s : Shared ι B) :
    Safe cfg c (Ok fun _ _ => True) (rollEach (cfg i) keys) s := by
  induction keys generalizing s with
  | nil => exact trivial
  | cons objectKey rest ih =>
    refine safe_andThen (safe_wrapped _ (safe_getObject fun t _ hinv => ?_)) (Q := fun o t =>
      ∀ b, o = some b → ∃ dek, Fits t objectKey dek ∧ Written cfg b dek) fun o t ho => ?_
    · intro b hb
      exact hinv.stored objectKey b hb
    · cases o with
      | none => exact trivial
      | some b =>
        obtain ⟨dek, hfit, hb⟩ := ho b rfl
        refine safe_andThen (safe_wrapped _ ?_) (Q := fun found t' => t' = t ∧ found.1 = dek) ?_
        · cases hd : decodeAndDecryptKey (cfg i) b with
          | error e => exact trivial
          | ok found => exact ⟨rfl, hb.decode hd⟩
        · rintro found _ ⟨rfl, hdek⟩
          split
          · exact ih _
          · refine safe_nonce fun drawn t' hle => ?_
            refine safe_andThen (safe_wrapped _ ?_) (Q := fun b' u => u = t' ∧ Written cfg b' dek) ?_
            · rw [encryptAndEncodeKey_eq, hdek]
              exact ⟨rfl, i, drawn.1, drawn.2, encryptAndEncodeKey_eq _ _ _ _⟩
            · rintro b' _ ⟨rfl, hb'⟩
              exact safe_andThen (safe_wrapped _ (safe_putObject (hfit.mono hle) hb'))
                fun _ u _ => ih u

theorem safe_rollDeks (i : ι) : Safe cfg c (Ok fun _ _ => True) (rollDeks (cfg i)) s := by
  refine safe_andThen (safe_wrapped _ ?_) (Q := fun _ _ => True)
    fun keys t _ => safe_rollEach i keys t
  intro t ch r u hle hinv happ
  cases ch with
  | works | fails =>
    cases happ
    exact ⟨Extends.refl _, hinv, by cases h : listObjectKeys _ _ _ <;> exact trivial⟩
  | nonce | key => cases happ

theorem safe_body (c : Call ι B) (s : Shared ι B) :
    Safe cfg c (fun _ _ => True) (body cfg c) s := by
  unfold body
  cases c.request with
  | encrypt ring data => exact (safe_encryptRPC _ ring data).bind fun _ _ _ => trivial
  | decrypt ring encrypted => exact (safe_decrypt _ ring encrypted).bind fun _ _ _ => trivial
  | reEncrypt ring encrypted => exact (safe_reEncrypt _ ring encrypted).bind fun _ _ _ => trivial
  | createDEK ring => exact (safe_createKey _ ring).bind fun _ _ _ => trivial
  | rollDeks => exact (safe_rollDeks _).bind fun _ _ _ => trivial

/-- No ciphertext becomes unreadable: what `Encrypt` or `ReEncrypt` has returned decrypts to its
plaintext in every later state, at every instance that has the master keys in use. -/
theorem returned_stays_readable
    (htag : ∀ key nonce plaintext, 16 ≤ P.len (P.gcmSeal key nonce plaintext))
    {past : List (World (Shared ι B) (Call ι B) (Op B) (Op.Ret P) (Note B) ×
      Turn (Call ι B) (Choice P))}
    {w : World (Shared ι B) (Call ι B) (Op B) (Op.Ret P) (Note B)}
    (hrun : Run (worldStep apply (body cfg)) (World.init Shared.empty) past w)
    {ring : Ring} {plaintext encrypted : B}
    (hreturned : (c, .returned ring plaintext encrypted) ∈ w.history) {j : ι}
    (hconf : Configured cfg w.shared j) :
    (Service.decrypt (cfg j) (w.shared.at j) false ring.name encrypted).2 = .ok plaintext := by
  obtain ⟨hinv, hnoted⟩ := (growing cfg).sound inv_empty (fun c s _ => safe_body c s) hrun
  exact decrypt_returned (c := c) htag hinv (hnoted _ hreturned) hconf

end Safe

section Rolled

def team : Ring := ⟨"team", by decide, by decide⟩

def twoInstances : Bool → Keyring symbolic
  | false => loadMasterKeys oldMaster none
  | true => loadMasterKeys newMaster (some oldMaster)

/-- The rotation reads the data key between the two writes of `CreateKey`, and writes it after. -/
def rolledTurns : List (Turn (Call Bool Term) (Choice symbolic)) :=
  [.spawn ⟨false, .encrypt team secret⟩, .spawn ⟨true, .rollDeks⟩,
    .run 0 .works, .run 0 .works, .run 0 (.key demoDraw.keyId demoDraw.key rfl 0),
    .run 0 (.nonce symbolicNonce 0), .run 0 .works, .run 1 .works, .run 1 .works,
    .run 0 .works, .run 1 (.nonce symbolicNonce 0), .run 1 .works, .run 0 .works,
    .run 0 (.nonce symbolicNonce 0)]

theorem configured_new (s : Shared Bool Term) : Configured twoInstances s true := by
  intro key b i nonce time dek _ _
  cases i <;> rfl

theorem returned_stays_readable_rolled : ∃ past w,
    Run (worldStep apply (body twoInstances)) (World.init Shared.empty) past w ∧
    w.history = [(⟨false, .encrypt team secret⟩,
      .returned team secret (blobNaming "dek_aaaaaaaaa"))] ∧
    (Service.decrypt (twoInstances true) (w.shared.at true) false "team"
      (blobNaming "dek_aaaaaaaaa")).2 = .ok secret := by
  have hend : (record (worldStep apply (body twoInstances)) [] (World.init Shared.empty)
      rolledTurns).map (fun x => x.2.history) = some [(⟨false, .encrypt team secret⟩,
        .returned team secret (blobNaming "dek_aaaaaaaaa"))] := rfl
  obtain ⟨⟨past, w⟩, hrec, hhistory⟩ := Option.map_eq_some_iff.mp hend
  have hrun : Run (worldStep apply (body twoInstances)) (World.init Shared.empty) past w :=
    Run.start.of_record hrec
  have hreturned : (⟨false, .encrypt team secret⟩,
      .returned team secret (blobNaming "dek_aaaaaaaaa")) ∈ w.history := by
    rw [hhistory]
    exact List.mem_singleton_self _
  exact ⟨past, w, hrun, hhistory, returned_stays_readable (P := symbolic)
    (fun _ _ _ => Nat.le_add_left _ _) hrun hreturned (configured_new w.shared)⟩

end Rolled

end Unkey.Vault.Fleet
