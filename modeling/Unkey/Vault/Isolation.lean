import Unkey.Vault.Service
import Unkey.Vault.Symbolic

/-!
# Keyring isolation

Cache keys and object keys are glued from a keyring and a key id, and the key id of a decrypt
request comes out of an unauthenticated blob.
-/

namespace Unkey.Vault

open Unkey.Base Service

variable {B : Type} {P : Primitives B}

def blobKeyId (P : Primitives B) (blob : B) : Option String :=
  (decodeEncrypted P blob).toOption.map Encrypted.encryptionKeyId

def blobPairs (P : Primitives B) (keyring : String) (blob : B) : List (String × String) :=
  ((blobKeyId P blob).map fun id => (keyring, id)).toList

variable {keyring : String}

theorem blobPairs_keyring {blob : B} {q : String × String}
    (h : q ∈ blobPairs P keyring blob) : q.1 = keyring := by
  simp only [blobPairs, Option.mem_toList, Option.map_eq_some_iff] at h
  obtain ⟨_, _, rfl⟩ := h
  rfl

def Call.asked : Call P → List (String × String)
  | .decrypt keyring blob _ => blobPairs P keyring blob
  | .decryptBulk keyring items _ => items.flatMap fun item => blobPairs P keyring item.2
  | _ => []

def Call.cached : Call P → List (String × String)
  | .encrypt keyring _ _ _ _ _ => [(keyring, latest)]
  | c => c.asked

def seen (past : List (State B × Call P)) : List (String × String) :=
  past.flatMap fun e => e.2.cached

/-- Neither of the keys glued from `keyring` and `keyId` is also glued from another
keyring: the cache key from the pairs of `pairs`, the object key from the ids of
created keys. -/
def Apart (pairs : List (String × String)) (created : List (String × DataEncryptionKey B))
    (keyring keyId : String) : Prop :=
  (∀ q ∈ pairs, cacheKey keyring keyId = cacheKey q.1 q.2 → keyring = q.1) ∧
  ∀ e ∈ created, ∀ id, id = e.2.id ∨ id = latest →
    buildLookupKey keyring keyId = buildLookupKey e.1 id → keyring = e.1

def Unambiguous (past : List (State B × Call P)) (s : State B) (c : Call P) : Prop :=
  ∀ q ∈ c.asked, Apart (seen past) s.created q.1 q.2

def decrypted (k : Keyring P) (s : State B) : Call P → List (String × B)
  | .decrypt keyring blob getFails =>
    if (Service.decrypt k s getFails keyring blob).2.isOk then [(keyring, blob)] else []
  | .decryptBulk keyring items getFails =>
    if (Service.decryptBulk k getFails keyring s items).2.isOk then
      items.map fun item => (keyring, item.2)
    else []
  | _ => []

/-- The ciphertext of the blob was produced under a data key that `CreateKey`
created for the keyring. -/
def OwnKey (P : Primitives B) (s : State B) (keyring : String) (blob : B) : Prop :=
  ∃ e, decodeEncrypted P blob = .ok e ∧ ∃ dek plaintext,
    (keyring, dek) ∈ s.created ∧ e.ciphertext = P.gcmSeal dek.key e.nonce plaintext

def Isolated (k : Keyring P) (_past : List (State B × Call P)) (s : State B) (c : Call P) : Prop :=
  ∀ q ∈ decrypted k s c, OwnKey P s q.1 q.2

/-- What a history leaves behind: objects under the keys of the keyrings they were
created for, and cached data keys under a pair of the keyring they were created for. -/
structure Inv (pairs : List (String × String)) (s : State B) (P : Primitives B) : Prop where
  slash : ∀ e ∈ s.created, '/' ∉ e.2.id.toList
  stored : ∀ key b, s.storage.lookup key = some b → ∃ e ∈ s.created, Holds P b e.2 ∧
    ∃ id, (id = e.2.id ∨ id = latest) ∧ key = buildLookupKey e.1 id
  cached : ∀ key dek, s.keyCache key = some dek → ∃ q ∈ pairs, key = cacheKey q.1 q.2 ∧
    (q.1, dek) ∈ s.created

variable {pairs : List (String × String)} {s : State B}

theorem Inv.mono {pairs' : List (String × String)} (h : Inv pairs s P)
    (hsub : pairs ⊆ pairs') : Inv pairs' s P :=
  ⟨h.slash, h.stored, fun key dek hk =>
    let ⟨q, hq, hrest⟩ := h.cached key dek hk
    ⟨q, hsub hq, hrest⟩⟩

theorem inv_empty : Inv [] (State.empty : State B) P :=
  ⟨by simp [State.empty], by simp [State.empty], by simp [State.empty]⟩

variable {keyId : String}

theorem inv_setCache (h : Inv pairs s P)
    {dek : DataEncryptionKey B} (hdek : (keyring, dek) ∈ s.created) :
    Inv ((keyring, keyId) :: pairs) (setCache s (cacheKey keyring keyId) dek) P := by
  refine ⟨h.slash, h.stored, fun key dek' hk => ?_⟩
  by_cases hkey : key = cacheKey keyring keyId
  · subst hkey
    simp only [Service.setCache, Function.update_self, Option.some.injEq] at hk
    subst hk
    exact ⟨_, List.mem_cons_self, rfl, hdek⟩
  · simp only [Service.setCache, Function.update_of_ne hkey] at hk
    obtain ⟨q, hq, hrest⟩ := h.cached key dek' hk
    exact ⟨q, List.mem_cons_of_mem _ hq, hrest⟩

variable {k : Keyring P}

theorem inv_getKey (h : Inv pairs s P) {getFails : Bool} {dek : DataEncryptionKey B}
    (hget : getKey k s.storage getFails keyring keyId = .ok dek) :
    ∃ e ∈ s.created, e.2 = dek ∧ ∃ id, (id = dek.id ∨ id = latest) ∧
      buildLookupKey keyring keyId = buildLookupKey e.1 id := by
  obtain ⟨b, _, hb, hd⟩ := getKey_ok hget
  obtain ⟨e, he, hholds, id, hid, hkey⟩ := h.stored _ b hb
  have hdek := hholds.decode hd
  subst hdek
  exact ⟨e, he, rfl, id, hid, hkey⟩

def Plain (id : String) : Prop := '-' ∉ id.toList ∧ '/' ∉ id.toList

theorem plain_latest : Plain latest := by
  unfold Plain
  decide

theorem DekId.plain (i : DekId) : Plain i.toString := by
  have hsep : ∀ c ∈ i.toString.toList, c ≠ '-' ∧ c ≠ '/' := by
    intro c hc
    simp only [DekId.toString, String.toList_append, List.mem_append, String.toList_ofList] at hc
    rcases hc with hc | hc
    · have hlit : c ∈ ['d', 'e', 'k', '_'] := hc
      simp only [List.mem_cons, List.not_mem_nil, or_false] at hlit
      rcases hlit with rfl | rfl | rfl | rfl <;> exact ⟨by decide, by decide⟩
    · have halnum := List.all_eq_true.mp i.alphanum c hc
      constructor <;> rintro rfl <;> exact absurd halnum (by decide)
  exact ⟨fun h => (hsep _ h).1 rfl, fun h => (hsep _ h).2 rfl⟩

theorem inv_createKey (h : Inv pairs s P) (k : Keyring P) (d : Draw P) (keyring : String) :
    Inv pairs (Service.createKey k s d keyring).1 P := by
  refine ⟨fun e he => ?_, fun key b hb => ?_, fun key dek hk => ?_⟩
  · rcases List.mem_cons.mp he with rfl | he
    · exact d.keyId.plain.2
    · exact h.slash e he
  · rcases createKey_lookup hb with hb | ⟨hholds, hkey⟩
    · obtain ⟨e, he, hrest⟩ := h.stored key b hb
      exact ⟨e, List.mem_cons_of_mem _ he, hrest⟩
    · exact ⟨(keyring, d.dek), List.mem_cons_self, hholds, hkey⟩
  · obtain ⟨q, hq, hkey, hdek⟩ := h.cached key dek hk
    exact ⟨q, hq, hkey, List.mem_cons_of_mem _ hdek⟩

theorem inv_getOrCreateKey (h : Inv pairs s P)
    (k : Keyring P) (getFails : Bool) (d : Draw P) (keyring : String) :
    Inv pairs (getOrCreateKey k s getFails d keyring latest).1 P ∧
      ∀ dek, (getOrCreateKey k s getFails d keyring latest).2 = .ok dek →
        (keyring, dek) ∈ (getOrCreateKey k s getFails d keyring latest).1.created := by
  unfold Service.getOrCreateKey
  cases hget : getKey k s.storage getFails keyring latest with
  | ok dek =>
    refine ⟨h, fun dek' hdek' => ?_⟩
    cases hdek'
    obtain ⟨⟨ring, _⟩, he, rfl, id, hid, hkey⟩ := inv_getKey h hget
    -- `LATEST` and generated ids have no slash, so the object key names the keyring
    have hslash : '/' ∉ id.toList := by
      rcases hid with rfl | rfl
      · exact h.slash _ he
      · exact plain_latest.2
    obtain ⟨rfl, -⟩ := buildLookupKey_inj plain_latest.2 hslash hkey
    exact he
  | error e =>
    by_cases hnf : e.isNotFound = true
    · simp only [hnf, if_true]
      refine ⟨inv_createKey h k d keyring, fun dek hdek => ?_⟩
      rw [createKey_ok hdek]
      exact List.mem_cons_self
    · simp only [hnf]
      exact ⟨h, nofun⟩

theorem inv_latestKey (h : Inv pairs s P)
    (k : Keyring P) (getFails : Bool) (d : Draw P) (keyring : String) :
    Inv ((keyring, latest) :: pairs) (latestKey k s getFails d keyring).1 P := by
  unfold Service.latestKey
  cases s.keyCache (cacheKey keyring latest) with
  | some dek => exact h.mono (List.subset_cons_self _ _)
  | none =>
    obtain ⟨hinv, hown⟩ := inv_getOrCreateKey h k getFails d keyring
    generalize Service.getOrCreateKey k s getFails d keyring latest = r at hinv hown
    obtain ⟨s', r⟩ := r
    cases r with
    | error e => exact hinv.mono (List.subset_cons_self _ _)
    | ok dek => exact inv_setCache hinv (hown dek rfl)

theorem encrypt_state (k : Keyring P) (s : State B) (getFails : Bool) (d : Draw P)
    (nonce : Nonce P) (now : Int) (keyring : String) (data : B) :
    (Service.encrypt k s getFails d nonce now keyring data).1 =
      (latestKey k s getFails d keyring).1 := by
  unfold Service.encrypt
  generalize Service.latestKey k s getFails d keyring = r
  obtain ⟨s', r⟩ := r
  cases r with
  | error e => rfl
  | ok dek =>
    simp only
    cases Encryption.encrypt P nonce dek.key data <;> rfl

theorem inv_namedKey (h : Inv pairs s P) (k : Keyring P) (getFails : Bool)
    (hapart : Apart pairs s.created keyring keyId) :
    Inv ((keyring, keyId) :: pairs) (namedKey k s getFails keyring keyId).1 P ∧
      (namedKey k s getFails keyring keyId).1.created = s.created ∧
      ∀ dek, (namedKey k s getFails keyring keyId).2 = .ok dek → (keyring, dek) ∈ s.created := by
  unfold Service.namedKey
  cases hc : s.keyCache (cacheKey keyring keyId) with
  | some dek =>
    refine ⟨h.mono (List.subset_cons_self _ _), rfl, fun dek' hdek' => ?_⟩
    cases hdek'
    obtain ⟨q, hq, hkey, hdek⟩ := h.cached _ dek hc
    rwa [hapart.1 q hq hkey]
  | none =>
    cases hget : getKey k s.storage getFails keyring keyId with
    | error e => exact ⟨h.mono (List.subset_cons_self _ _), rfl, fun dek hdek => by cases hdek⟩
    | ok dek =>
      obtain ⟨e, he, rfl, id, hid, hkey⟩ := inv_getKey h hget
      have hown : (keyring, e.2) ∈ s.created := by
        rw [hapart.2 e he id hid hkey]
        exact he
      exact ⟨inv_setCache h hown, rfl, fun dek hdek => by cases hdek; exact hown⟩

theorem inv_decrypt (h : Inv pairs s P) (k : Keyring P) (getFails : Bool) {blob : B}
    (hapart : ∀ q ∈ blobPairs P keyring blob, Apart pairs s.created q.1 q.2) :
    Inv (blobPairs P keyring blob ++ pairs) (Service.decrypt k s getFails keyring blob).1 P ∧
      (Service.decrypt k s getFails keyring blob).1.created = s.created ∧
      ((Service.decrypt k s getFails keyring blob).2.isOk = true → OwnKey P s keyring blob) := by
  unfold Service.decrypt
  cases hdec : decodeEncrypted P blob with
  | error e => exact ⟨h.mono (List.subset_append_right _ _), rfl, nofun⟩
  | ok e =>
    have hpairs : blobPairs P keyring blob = [(keyring, e.encryptionKeyId)] := by
      simp [blobPairs, blobKeyId, hdec, Except.toOption]
    simp only
    cases hval : validateEncrypted P e with
    | error err => exact ⟨h.mono (List.subset_append_right _ _), rfl, nofun⟩
    | ok u =>
      simp only
      obtain ⟨hinv, hcreated, hown⟩ :=
        inv_namedKey h k getFails (hapart (keyring, e.encryptionKeyId) (by simp [hpairs]))
      generalize Service.namedKey k s getFails keyring e.encryptionKeyId = r at hinv hcreated hown
      obtain ⟨s', r⟩ := r
      rw [hpairs]
      cases r with
      | error err => exact ⟨hinv, hcreated, nofun⟩
      | ok dek =>
        simp only
        cases hopen : Encryption.decrypt P dek.key e.nonce e.ciphertext with
        | error err => exact ⟨hinv, hcreated, nofun⟩
        | ok plaintext =>
          exact ⟨hinv, hcreated, fun _ =>
            ⟨e, hdec, dek, plaintext, hown dek rfl, Encryption.decrypt_ok hopen⟩⟩

theorem Apart.same_keyring {created : List (String × DataEncryptionKey B)}
    (h : Apart pairs created keyring keyId) {own : List (String × String)}
    (hown : ∀ q ∈ own, q.1 = keyring) : Apart (own ++ pairs) created keyring keyId := by
  refine ⟨fun q hq hkey => ?_, h.2⟩
  rcases List.mem_append.mp hq with hq | hq
  · exact (hown q hq).symm
  · exact h.1 q hq hkey

theorem inv_decryptBulk {getFails : String → Bool} {items : List (String × B)} (h : Inv pairs s P)
    (hapart : ∀ q ∈ items.flatMap fun item => blobPairs P keyring item.2,
      Apart pairs s.created q.1 q.2) :
    Inv ((items.flatMap fun item => blobPairs P keyring item.2) ++ pairs)
        (Service.decryptBulk k getFails keyring s items).1 P ∧
      ((Service.decryptBulk k getFails keyring s items).2.isOk = true →
        ∀ item ∈ items, OwnKey P s keyring item.2) := by
  induction items generalizing pairs s with
  | nil => exact ⟨h, fun _ item hitem => by simp at hitem⟩
  | cons item items ih =>
    obtain ⟨id, blob⟩ := item
    obtain ⟨hinv, hcreated, hown⟩ := inv_decrypt h k (getFails id)
      (fun q hq => hapart q (List.mem_flatMap.mpr ⟨(id, blob), by simp, hq⟩))
    unfold Service.decryptBulk
    generalize Service.decrypt k s (getFails id) keyring blob = r at hinv hcreated hown
    obtain ⟨s', r⟩ := r
    cases r with
    | error e =>
      refine ⟨hinv.mono ?_, fun hok => by cases hok⟩
      simp [List.flatMap_cons]
    | ok plaintext =>
      simp only
      obtain ⟨hrest, hall⟩ := ih hinv (fun q hq => by
        obtain ⟨item', hitem', hq'⟩ := List.mem_flatMap.mp hq
        rw [hcreated]
        refine (hapart q (List.mem_flatMap.mpr ⟨item', by simp [hitem'], hq'⟩)).same_keyring ?_
        intro own hown'
        rw [blobPairs_keyring hown', blobPairs_keyring hq'])
      generalize Service.decryptBulk k getFails keyring s' items = rest at hrest hall
      obtain ⟨s'', rest⟩ := rest
      have hsub : (items.flatMap fun item => blobPairs P keyring item.2) ++
          (blobPairs P keyring blob ++ pairs) ⊆
          (((id, blob) :: items).flatMap fun item => blobPairs P keyring item.2) ++ pairs := by
        intro q hq
        simp only [List.flatMap_cons, List.mem_append] at hq ⊢
        tauto
      cases rest with
      | error e => exact ⟨hrest.mono hsub, fun hok => by cases hok⟩
      | ok rest =>
        refine ⟨hrest.mono hsub, fun _ item hitem => ?_⟩
        rcases List.mem_cons.mp hitem with rfl | hitem
        · exact hown rfl
        · obtain ⟨e, hdec, dek, plaintext', hdek, hseal⟩ := hall rfl item hitem
          exact ⟨e, hdec, dek, plaintext', hcreated ▸ hdek, hseal⟩

variable {past : List (State B × Call P)}

theorem inv_step {s' : State B} {c : Call P}
    (h : Inv (seen past) s P) (hc : Unambiguous past s c) (hs : step k s c = some s') :
    Inv (seen ((s, c) :: past)) s' P := by
  cases c with
  | encrypt keyring data getFails d nonce now =>
    cases hs
    rw [encrypt_state]
    exact inv_latestKey h k getFails d keyring
  | decrypt keyring blob getFails =>
    cases hs
    exact (inv_decrypt h k getFails hc).1
  | decryptBulk keyring items getFails =>
    cases hs
    exact (inv_decryptBulk h hc).1
  | createDEK keyring d =>
    cases hs
    exact inv_createKey h k d keyring
  | expire key =>
    cases hs
    refine ⟨h.slash, h.stored, fun key' dek hk => ?_⟩
    by_cases hkey : key' = key
    · subst hkey
      simp at hk
    · simp only [Function.update_of_ne hkey] at hk
      exact h.cached key' dek hk

theorem isolated_of_unambiguous
    {c : Call P} (h : Inv (seen past) s P) (hc : Unambiguous past s c) : Isolated k past s c := by
  intro q hq
  cases c with
  | decrypt keyring blob getFails =>
    simp only [decrypted] at hq
    split at hq
    · next hok =>
      cases List.mem_singleton.mp hq
      exact (inv_decrypt h k getFails hc).2.2 hok
    · simp at hq
  | decryptBulk keyring items getFails =>
    simp only [decrypted] at hq
    split at hq
    · next hok =>
      obtain ⟨item, hitem, rfl⟩ := List.mem_map.mp hq
      exact (inv_decryptBulk h hc).2 hok item hitem
    · simp at hq
  | _ => simp [decrypted] at hq

/-- The call names only key ids without separators, as those that `Encrypt` returns. -/
def PlainIds (_past : List (State B × Call P)) (_s : State B) (c : Call P) : Prop :=
  ∀ q ∈ c.asked, Plain q.2

theorem plain_cached {c : Call P} (h : PlainIds past s c) : ∀ q ∈ c.cached, Plain q.2 := by
  intro q hq
  cases c with
  | encrypt keyring data getFails d nonce now =>
    cases List.mem_singleton.mp hq
    exact plain_latest
  | _ => exact h q hq

theorem unambiguous_of_plainIds {c : Call P}
    (h : Inv (seen past) s P) (hseen : ∀ q ∈ seen past, Plain q.2) (hc : PlainIds past s c) :
    Unambiguous past s c := by
  intro q hq
  refine ⟨fun q' hq' hkey => ?_, fun e he id hid hkey => ?_⟩
  · exact (glue_inj "-" rfl (hc q hq).1 (hseen q' hq').1 hkey).1
  · have hslash : '/' ∉ id.toList := by
      rcases hid with rfl | rfl
      · exact h.slash e he
      · exact plain_latest.2
    exact (buildLookupKey_inj (hc q hq).2 hslash hkey).1

theorem always_unambiguous (h : Run (step k) State.empty past s) (hc : Always PlainIds past) :
    Always Unambiguous past := by
  refine h.always (P := fun past s => Inv (seen past) s P ∧ ∀ q ∈ seen past, Plain q.2)
    ⟨inv_empty, by simp [seen]⟩ ?_ ?_ hc
  · rintro past s c s' ⟨hinv, hseen⟩ hplain hs
    refine ⟨inv_step hinv (unambiguous_of_plainIds hinv hseen hplain) hs, fun q hq => ?_⟩
    rcases List.mem_append.mp hq with hq | hq
    · exact plain_cached hplain q hq
    · exact hseen q hq
  · rintro past s c ⟨hinv, hseen⟩ hplain
    exact unambiguous_of_plainIds hinv hseen hplain

/-- In every history whose decrypt requests are all unambiguous, every plaintext
comes from a data key of the keyring that was named. -/
theorem isolated_run {k : Keyring P} {past : List (State B × Call P)} {s : State B}
    (h : Run (step k) State.empty past s) (hc : Always Unambiguous past) :
    Always (Isolated k) past := by
  refine h.always (P := fun past s => Inv (seen past) s P) inv_empty ?_ ?_ hc
  · intro past s c s' hinv hun hs
    exact inv_step hinv hun hs
  · intro past s c hinv hun
    exact isolated_of_unambiguous hinv hun

section Histories

def demoKeyring : Keyring symbolic := loadMasterKeys ⟨"kek_1", .bytes "kek" 32, rfl⟩ none

def demoDraw : Draw symbolic where
  keyId := ⟨"aaaaaaaaa".toList, rfl, rfl⟩
  key := .bytes "dek" 32
  size := rfl
  nonce := symbolicNonce
  now := 0
  putFails := false
  putLatestFails := false

def secret : Term := .bytes "secret" 6

/-- A blob with the ciphertext of `secret` and a key id of the sender's choice. -/
def blobNaming (keyId : String) : Term :=
  .base64 (.encrypted symbolicNonce.1 (.sealed demoDraw.key symbolicNonce.1 secret) keyId 0)

def encryptSecret (keyring : String) : Call symbolic :=
  .encrypt keyring secret false demoDraw symbolicNonce 0

def sealedState (keyring : String) : State Term :=
  (Service.encrypt demoKeyring State.empty false demoDraw symbolicNonce 0 keyring secret).1

theorem isolated_run_roundtrip :
    (Service.decrypt demoKeyring (sealedState "team") false "team"
      (blobNaming "dek_aaaaaaaaa")).2 = .ok secret ∧
    Always (Isolated demoKeyring)
      [(sealedState "team", .decrypt "team" (blobNaming "dek_aaaaaaaaa") false),
        (State.empty, encryptSecret "team")] := by
  refine ⟨rfl, ?_⟩
  have hrun : Run (step demoKeyring) State.empty [(State.empty, encryptSecret "team")]
      (sealedState "team") := Run.start.next rfl
  have hrun' := hrun.next (a := .decrypt "team" (blobNaming "dek_aaaaaaaaa") false) rfl
  refine isolated_run hrun' (always_unambiguous hrun' ⟨?_, ?_, trivial⟩)
  · intro q hq
    cases List.mem_singleton.mp hq
    exact ⟨by decide, by decide⟩
  · intro q hq
    cases hq

/-- A secret of keyring `a/b` comes out of keyring `a`, and so does one of `a-b`
once its data key is cached. -/
theorem forged_key_id_crosses_keyrings :
    (∃ s, exec (step demoKeyring) State.empty [encryptSecret "a/b"] = some s ∧
      (Service.decrypt demoKeyring s false "a" (blobNaming "b/dek_aaaaaaaaa")).2 = .ok secret ∧
      ¬ OwnKey symbolic s "a" (blobNaming "b/dek_aaaaaaaaa")) ∧
    ∃ s, exec (step demoKeyring) State.empty
        [encryptSecret "a-b", .decrypt "a-b" (blobNaming "dek_aaaaaaaaa") false] = some s ∧
      (Service.decrypt demoKeyring s false "a" (blobNaming "b-dek_aaaaaaaaa")).2 = .ok secret ∧
      ¬ OwnKey symbolic s "a" (blobNaming "b-dek_aaaaaaaaa") := by
  refine ⟨⟨_, rfl, rfl, ?_⟩, ⟨_, rfl, rfl, ?_⟩⟩
  · rintro ⟨e, -, dek, plaintext, hdek, -⟩
    have hring : "a" = "a/b" := congrArg Prod.fst (List.mem_singleton.mp hdek)
    exact absurd hring (by decide)
  · rintro ⟨e, -, dek, plaintext, hdek, -⟩
    have hring : "a" = "a-b" := congrArg Prod.fst (List.mem_singleton.mp hdek)
    exact absurd hring (by decide)

end Histories

end Unkey.Vault
