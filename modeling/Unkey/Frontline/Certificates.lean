import Mathlib.Data.List.Sort
import Unkey.Cache.Swr

/-!
# Certificates of Frontline

`GetCertificate` of `internal/certmanager`: the lookup of the certificate of a domain through the
cache, with the query `FindBestCertificateByCandidates`, the vault and the parser of key pairs as
origin.
-/

namespace Unkey.Frontline.Certmanager

open Unkey.Base Unkey.Swr

/-! ### Candidates -/

def immediateWildcard (domain : String) : Option String :=
  match domain.toList.dropWhile (· ≠ '.') with
  | [] => none
  | _ :: rest => some ("*." ++ String.ofList rest)

def candidates (domain : String) : List String := domain :: (immediateWildcard domain).toList

example : candidates "api.example.com" = ["api.example.com", "*.example.com"] := by decide +kernel

/-! ### The origin -/

structure CertificateRow where
  hostname : String
  workspaceID : String
  certificate : String
  encryptedPrivateKey : String
  deriving DecidableEq

def Precedes (exactHostname : String) (a b : CertificateRow) : Prop :=
  b.hostname = exactHostname → a.hostname = exactHostname

instance (exactHostname : String) : DecidableRel (Precedes exactHostname) :=
  fun a b => inferInstanceAs (Decidable (b.hostname = exactHostname → a.hostname = exactHostname))

instance (exactHostname : String) : Std.Total (Precedes exactHostname) where
  total := fun a b => by
    unfold Precedes
    tauto

instance (exactHostname : String) : IsTrans CertificateRow (Precedes exactHostname) where
  trans := fun _ _ _ hab hbc hc => hab (hbc hc)

def findBestCertificateByCandidates (certificates : List CertificateRow) (hostnames : List String)
    (exactHostname : String) : Option CertificateRow :=
  ((certificates.filter (·.hostname ∈ hostnames)).insertionSort (Precedes exactHostname)).head?

inductive Ask where
  | findBestCertificateByCandidates (hostnames : List String) (exactHostname : String)
  | decrypt (keyring encrypted : String)
  deriving DecidableEq

abbrev Ask.Ans : Ask → Type
  | .findBestCertificateByCandidates _ _ => Except OriginError CertificateRow
  | .decrypt _ _ => Except OriginError String

/-- The table, the vault and `tls.X509KeyPair`, and the error of a call that does not reach the
database or the vault. -/
structure Origin (Cert : Type) where
  certificates : List CertificateRow
  decrypt : String → String → Except String String
  x509KeyPair : String → String → Except String Cert
  outage : String

variable {Cert : Type}

namespace Origin

def answer (o : Origin Cert) : (q : Ask) → Bool → q.Ans
  | .findBestCertificateByCandidates hostnames exactHostname, true =>
    match Certmanager.findBestCertificateByCandidates o.certificates hostnames exactHostname with
    | some row => .ok row
    | none => .error .notFound
  | .decrypt keyring encrypted, true =>
    match o.decrypt keyring encrypted with
    | .ok plaintext => .ok plaintext
    | .error message => .error (.failed message)
  | .findBestCertificateByCandidates _ _, false => .error (.failed o.outage)
  | .decrypt _ _, false => .error (.failed o.outage)

def find (o : Origin Cert) (hostname : String) : Option CertificateRow :=
  o.certificates.find? (·.hostname = hostname)

def load (o : Origin Cert) (row : CertificateRow) : Except String Cert :=
  match o.decrypt row.workspaceID row.encryptedPrivateKey with
  | .ok pem => o.x509KeyPair row.certificate pem
  | .error message => .error message

def best (o : Origin Cert) (domain : String) : Option CertificateRow :=
  match o.find domain with
  | some row => some row
  | none => (immediateWildcard domain).bind o.find

end Origin

/-! ### The query -/

section Query

variable {o : Origin Cert} {domain : String}

theorem mem_candidates {key : String} :
    key ∈ candidates domain ↔ key = domain ∨ immediateWildcard domain = some key := by
  rw [candidates, List.mem_cons, Option.mem_toList]

variable {row : CertificateRow}

theorem Origin.find_eq_some {hostname : String}
    (hfind : o.find hostname = some row) : row ∈ o.certificates ∧ row.hostname = hostname :=
  ⟨List.mem_of_find?_eq_some hfind, by simpa using List.find?_some hfind⟩

theorem Origin.find_hostname (hdistinct : (o.certificates.map (·.hostname)).Nodup)
    (hrow : row ∈ o.certificates) : o.find row.hostname = some row := by
  obtain ⟨found, hfound⟩ : ∃ found, o.find row.hostname = some found := by
    rw [← Option.isSome_iff_exists, Origin.find, List.find?_isSome]
    exact ⟨row, hrow, decide_eq_true rfl⟩
  obtain ⟨hmem, hname⟩ := Origin.find_eq_some hfound
  rw [hfound, List.inj_on_of_nodup_map hdistinct hmem hrow hname]

theorem findBest_eq_some {certificates : List CertificateRow} {hostnames : List String}
    {exactHostname : String}
    (hbest : findBestCertificateByCandidates certificates hostnames exactHostname = some row) :
    row ∈ certificates ∧ row.hostname ∈ hostnames ∧
      ∀ x ∈ certificates, x.hostname ∈ hostnames → x.hostname = exactHostname →
        row.hostname = exactHostname := by
  obtain ⟨rest, hsorted⟩ := List.head?_eq_some_iff.mp hbest
  have hmem : ∀ x, x ∈ row :: rest ↔ x ∈ certificates ∧ x.hostname ∈ hostnames := by
    intro x
    rw [← hsorted, List.mem_insertionSort, List.mem_filter, decide_eq_true_eq]
  have hfirst : ∀ x ∈ rest, Precedes exactHostname row x := by
    grind [List.pairwise_insertionSort, Precedes, List.rel_of_pairwise_cons]
  obtain ⟨hrow, hname⟩ := (hmem row).mp List.mem_cons_self
  refine ⟨hrow, hname, ?_⟩
  intro x hx hxname hexact
  rcases List.mem_cons.mp ((hmem x).mpr ⟨hx, hxname⟩) with rfl | hrest
  · exact hexact
  · exact hfirst x hrest hexact

theorem findBest_eq_none {certificates : List CertificateRow} {hostnames : List String}
    {exactHostname : String}
    (hbest : findBestCertificateByCandidates certificates hostnames exactHostname = none) :
    ∀ x ∈ certificates, x.hostname ∉ hostnames := by
  intro x hx hname
  have hsorted := List.head?_eq_none_iff.mp hbest
  have hmem : x ∈ ([] : List CertificateRow) := by
    rw [← hsorted, List.mem_insertionSort, List.mem_filter, decide_eq_true_eq]
    exact ⟨hx, hname⟩
  cases hmem

theorem findBest_eq_best (hdistinct : (o.certificates.map (·.hostname)).Nodup) :
    findBestCertificateByCandidates o.certificates (candidates domain) domain = o.best domain := by
  unfold Origin.best
  cases hbest : findBestCertificateByCandidates o.certificates (candidates domain) domain with
  | none =>
    have hnone := findBest_eq_none hbest
    -- a row that were found by its hostname would be a candidate
    have hfind : ∀ hostname ∈ candidates domain, o.find hostname = none := by
      intro hostname hcandidate
      rw [Option.eq_none_iff_forall_ne_some]
      intro row hfind
      obtain ⟨hmem, rfl⟩ := Origin.find_eq_some hfind
      exact hnone row hmem hcandidate
    rw [hfind domain (mem_candidates.mpr (.inl rfl))]
    cases hwild : immediateWildcard domain with
    | none => rfl
    | some wildcard => exact (hfind wildcard (mem_candidates.mpr (.inr hwild))).symm
  | some row =>
    obtain ⟨hmem, hname, hexact⟩ := findBest_eq_some hbest
    cases hfind : o.find domain with
    | some own =>
      obtain ⟨hown, hownName⟩ := Origin.find_eq_some hfind
      have hrow := hexact own hown (mem_candidates.mpr (.inl hownName)) hownName
      rw [← hfind, ← hrow, Origin.find_hostname hdistinct hmem]
    | none => grind [Origin.find_hostname, mem_candidates]

theorem Origin.best_eq_some (hbest : o.best domain = some row) : row ∈ o.certificates := by
  unfold Origin.best at hbest
  split at hbest
  · rename_i own hfind
    cases hbest
    exact (Origin.find_eq_some hfind).1
  · obtain ⟨wildcard, -, hfind⟩ := Option.bind_eq_some_iff.mp hbest
    exact (Origin.find_eq_some hfind).1

end Query

/-! ### `GetCertificate` -/

inductive CertError where
  | notFound (message : String)
  | failed (message : String)
  deriving DecidableEq

inductive Note (Cert : Type) where
  | answered (r : Except CertError Cert)
  deriving DecidableEq

abbrev CertCode (Cert : Type) := Code String Cert String (Note Cert) Ask.Ans

def notFoundMessage (domain : String) : String :=
  "certificate not found for [[" ++ " ".intercalate (candidates domain) ++ "]]"

def findBest (hostnames : List String) (exactHostname : String) :
    CertCode Cert (Except OriginError CertificateRow) :=
  ask (Ask.findBestCertificateByCandidates hostnames exactHostname)

def decrypt (keyring encrypted : String) : CertCode Cert (Except OriginError String) :=
  ask (Ask.decrypt keyring encrypted)

variable [Inhabited Cert]

def refreshFromOrigin (o : Origin Cert) (domain : String) : CertCode Cert (Fetched String Cert) := do
  match ← findBest (candidates domain) domain with
  | .error err => pure ⟨default, "", some err⟩
  | .ok certMaterial => do
    match ← decrypt certMaterial.workspaceID certMaterial.encryptedPrivateKey with
    | .error err => pure ⟨default, "", some err⟩
    | .ok pem =>
      match o.x509KeyPair certMaterial.certificate pem with
      | .error message => pure ⟨default, "", some (.failed message)⟩
      | .ok tlsCert => pure ⟨tlsCert, certMaterial.hostname, none⟩

def certificateOf (domain : String) :
    Except OriginError (Cert × CacheHit) → Except CertError Cert
  | .error (.failed message) => .error (.failed message)
  | .error .notFound => .error (.notFound (notFoundMessage domain))
  | .ok (_, .null) => .error (.notFound (notFoundMessage domain))
  | .ok (cert, .hit) | .ok (cert, .miss) => .ok cert

def getCertificate (cfg : Config) (o : Origin Cert) (domain : String) :
    CertCode Cert (Except CertError Cert) := do
  let r ← swrWithFallback cfg (candidates domain) domain (refreshFromOrigin o domain)
    defaultFindFirstOp
  pure (certificateOf domain r)

inductive Call where
  | getCertificate (domain : String)
  | revalidate
  | evict (key : String)
  deriving DecidableEq

def body (cfg : Config) (o : Origin Cert) : Call → CertCode Cert Unit
  | .getCertificate domain => do
    let r ← getCertificate cfg o domain
    Prog.tell (.answered r)
  | .revalidate => do
    let job ← take
    revalidateWithCanonicalKey cfg job.1 (refreshFromOrigin o job.2) defaultFindFirstOp
  | .evict key => delete key

abbrev CertWorld (Cert : Type) :=
  World (Cache String Cert String) Call (Swr.Op String Cert String Ask) (Op.Ret Ask.Ans) (Note Cert)

abbrev certStep (cfg : Config) (o : Origin Cert) :=
  worldStep (fun _ : Call => Swr.apply o.answer) (body cfg o)

def Origin.uncached (o : Origin Cert) (domain : String) : Except CertError Cert :=
  match o.best domain with
  | none => .error (.notFound (notFoundMessage domain))
  | some row =>
    match o.load row with
    | .ok cert => .ok cert
    | .error message => .error (.failed message)

/-! ### Interleavings -/

section Interleavings

variable {cfg : Config} {o : Origin Cert}

def Belongs (o : Origin Cert) (key : String) (cert : Cert) : Prop :=
  ∃ row, o.find key = some row ∧ o.load row = .ok cert

def Queued (o : Origin Cert) (key domain : String) : Prop :=
  key ∈ candidates domain ∧ (o.find key).isSome = true

def Uncached (o : Origin Cert) : Call → Note Cert → Prop
  | .getCertificate domain, .answered r => r = o.uncached domain
  | _, _ => True

def Unshadowed (o : Origin Cert) (s : Cache String Cert String) :
    Call → Swr.Op String Cert String Ask → Prop
  | .getCertificate domain, .look now key =>
    key ≠ domain → (o.find domain).isSome = true → (s.look now key).live = false
  | _, _ => True

instance (o : Origin Cert) (s : Cache String Cert String) :
    (c : Call) → (op : Swr.Op String Cert String Ask) → Decidable (Unshadowed o s c op)
  | .getCertificate domain, .look now key => inferInstanceAs (Decidable
    (key ≠ domain → (o.find domain).isSome = true → (s.look now key).live = false))
  | .getCertificate _, .now | .getCertificate _, .delete _ | .getCertificate _, .store _ _
  | .getCertificate _, .enqueue _ _ | .getCertificate _, .take | .getCertificate _, .refreshed _
  | .getCertificate _, .ask _ | .revalidate, _ | .evict _, _ => .isTrue trivial

def Reached : Turn Call Env → Prop
  | .spawn _ => True
  | .run _ e => e.reachable = true

instance (l : Turn Call Env) : Decidable (Reached l) := by
  cases l <;> unfold Reached <;> infer_instance

def Direct (o : Origin Cert) (w : CertWorld Cert) (l : Turn Call Env) : Prop :=
  Reached l ∧ w.PerformsFor (Unshadowed o w.shared) l

abbrev certificates (o : Origin Cert) :=
  keeping (Belongs o) (Queued o) (Uncached o) (Direct o)

def FetchedFor (o : Origin Cert) (domain : String) (x : Fetched String Cert) : Prop :=
  match o.best domain with
  | none => x.err = some .notFound
  | some row =>
    match o.load row with
    | .ok cert => x = ⟨cert, row.hostname, none⟩
    | .error message => x.err = some (.failed message)

omit [Inhabited Cert]

variable {x : Fetched String Cert}

theorem FetchedFor.belongs (hdistinct : (o.certificates.map (·.hostname)).Nodup) {domain : String}
    (hx : FetchedFor o domain x) (herr : x.err = none) :
    Belongs o x.canonicalKey x.value := by
  unfold FetchedFor at hx
  split at hx
  · rw [hx] at herr
    cases herr
  · rename_i row hbest
    split at hx
    · rename_i cert hload
      subst hx
      exact ⟨row, Origin.find_hostname hdistinct (Origin.best_eq_some hbest), hload⟩
    · rw [hx] at herr
      cases herr

theorem FetchedFor.found {key domain : String}
    (hx : FetchedFor o domain x) (hjob : Queued o key domain) : x.err ≠ some .notFound := by
  obtain ⟨hcandidate, hsome⟩ := hjob
  obtain ⟨row, hfind⟩ := Option.isSome_iff_exists.mp hsome
  obtain ⟨best, hbest⟩ : ∃ best, o.best domain = some best := by
    unfold Origin.best
    cases hown : o.find domain with
    | some own => exact ⟨own, rfl⟩
    | none =>
      rcases mem_candidates.mp hcandidate with rfl | hwild
      · rw [hown] at hfind
        cases hfind
      · exact ⟨row, by rw [hwild]; exact hfind⟩
  unfold FetchedFor at hx
  rw [hbest] at hx
  dsimp only at hx
  intro herr
  split at hx <;> simp [hx] at herr

theorem uncached_of_belongs {key domain : String} {cert : Cert}
    (hcandidate : key ∈ candidates domain) (hown : key ≠ domain → o.find domain = none)
    (hbelongs : Belongs o key cert) : o.uncached domain = .ok cert := by
  obtain ⟨row, hfind, hload⟩ := hbelongs
  have hbest : o.best domain = some row := by
    unfold Origin.best
    by_cases hkey : key = domain
    · rw [← hkey, hfind]
    · grind [mem_candidates]
  unfold Origin.uncached
  rw [hbest]
  dsimp only
  rw [hload]

theorem FetchedFor.uncached {domain : String} (hx : FetchedFor o domain x) :
    certificateOf domain (match x.err with
      | none => .ok (x.value, .hit)
      | some err => .error err) = o.uncached domain := by
  unfold FetchedFor at hx
  unfold Origin.uncached
  split at hx
  · rw [hx]
    rfl
  · split at hx <;> rw [hx] <;> rfl

variable {c : Call} {i : Nat} {s : Cache String Cert String} {h : List (Call × Note Cert)}
  {gs : Nat → Unit}

theorem answer_findBest (hdistinct : (o.certificates.map (·.hostname)).Nodup) (domain : String) :
    o.answer (.findBestCertificateByCandidates (candidates domain) domain) true
      = match o.best domain with
        | some row => .ok row
        | none => .error .notFound := by
  rw [← findBest_eq_best hdistinct]
  rfl

variable [Inhabited Cert]

theorem gives_refreshFromOrigin (hdistinct : (o.certificates.map (·.hostname)).Nodup)
    (domain : String) :
    Gives (certificates o) o.answer c i (refreshFromOrigin o domain) (FetchedFor o domain) := by
  refine (Gives.ask (Ask.findBestCertificateByCandidates (candidates domain) domain)).bind ?_
  rintro _ ⟨w, e, hguard, rfl⟩
  rw [show e.reachable = true from hguard.1, answer_findBest hdistinct]
  unfold FetchedFor
  cases o.best domain with
  | none => exact .pure rfl
  | some row =>
    refine (Gives.ask (Ask.decrypt row.workspaceID row.encryptedPrivateKey)).bind ?_
    rintro _ ⟨w, e, hguard, rfl⟩
    rw [show e.reachable = true from hguard.1]
    unfold Origin.load Origin.answer
    dsimp only
    cases o.decrypt row.workspaceID row.encryptedPrivateKey with
    | error message => exact .pure rfl
    | ok pem =>
      dsimp only
      cases o.x509KeyPair row.certificate pem with
      | error message => exact .pure rfl
      | ok cert => exact .pure rfl

theorem gives_getCertificate (hdistinct : (o.certificates.map (·.hostname)).Nodup)
    (domain : String) :
    Gives (certificates o) o.answer (.getCertificate domain) i (getCertificate cfg o domain)
      (· = o.uncached domain) := by
  refine (gives_swrWithFallback (S := fun key => key ≠ domain → o.find domain = none)
    ?_ ?_ (gives_refreshFromOrigin hdistinct domain) (fun x hx => hx.belongs hdistinct)).bind ?_
  · -- a live entry of another key: the domain has no certificate of its own
    intro w e now key hat hguard hlive hkey
    have hunshadowed : Unshadowed o w.shared (.getCertificate domain) (.look now key) :=
      hguard.2.at hat
    rw [← Option.not_isSome_iff_eq_none]
    intro hsome
    rw [hunshadowed hkey hsome] at hlive
    cases hlive
  · rintro key hcandidate cert ⟨row, hfind, -⟩
    exact ⟨hcandidate, by rw [hfind]; rfl⟩
  · rintro r (⟨cert, rfl, key, hcandidate, hown, hbelongs⟩ | ⟨x, hx, rfl⟩)
    · exact .pure (uncached_of_belongs hcandidate hown hbelongs).symm
    · exact .pure hx.uncached

theorem certificates_obeyed (hdistinct : (o.certificates.map (·.hostname)).Nodup) :
    (certificates o).Obeyed (fun _ => Swr.apply o.answer) (body cfg o) := by
  intro w gs c hd _ _
  cases c with
  | getCertificate domain =>
    refine Protocol.Triple.bind (gives_getCertificate hdistinct domain) ?_ hd.inv
    rintro r s h gs ⟨hr, hsound, htold⟩
    exact ⟨hsound, List.forall_mem_cons.mpr ⟨hr, htold⟩⟩
  | revalidate =>
    refine Protocol.Triple.mono ((Gives.perform (o := .take) trivial).bind (H := fun _ => True) ?_)
      (fun _ _ _ _ => And.right) hd.inv
    rintro job ⟨w, e, s', -, -, hsound, happ⟩
    have hjob := hsound.taken happ
    exact gives_revalidateWithCanonicalKey (gives_refreshFromOrigin hdistinct job.2)
      (fun x hx => hx.belongs hdistinct) (fun x hx => hx.found hjob)
  | evict key =>
    exact Protocol.Triple.mono (Gives.perform (o := .delete key) trivial) (fun _ _ _ _ => And.right)
      hd.inv

end Interleavings

/-! ### A domain with its own certificate beside a wildcard -/

def exampleConfig : Config := ⟨10, 100⟩

def exampleOrigin : Origin String where
  certificates := [⟨"*.example.com", "ws_1", "wildcard certificate", "key 1"⟩,
    ⟨"api.example.com", "ws_1", "api certificate", "key 2"⟩]
  decrypt := fun _ encrypted => .ok encrypted
  x509KeyPair := fun certificate _ => .ok certificate
  outage := "unreachable"

def workAt (now : Int) (i : Nat) (c : Call) (steps : Nat) : List (Turn Call Env) :=
  .spawn c :: List.replicate steps (.run i ⟨now, true⟩)

def ownFirst : List (Turn Call Env) :=
  workAt 0 0 (.getCertificate "api.example.com") 7
    ++ workAt 5 1 (.getCertificate "foo.example.com") 7
    ++ workAt 50 2 (.getCertificate "api.example.com") 3 ++ workAt 51 3 .revalidate 6

def siblingFirst : List (Turn Call Env) :=
  workAt 0 0 (.getCertificate "foo.example.com") 7
    ++ workAt 5 1 (.getCertificate "api.example.com") 3

end Unkey.Frontline.Certmanager
