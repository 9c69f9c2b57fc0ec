import Mathlib.Data.List.Sort
import Unkey.Base.GoMap
import Unkey.Base.Shell

/-!
# Build secrets as an environment file

`buildEnvFileSecret` writes the variables of a build into a file that the customer's Dockerfile
sources.
-/

namespace Unkey.Deploy

open Unkey.Base Unkey.Base.Shell
open scoped List

/-! ### Writing the file -/

abbrev EnvVars := GoMap Bytes Bytes

def envValueBareAllowed (b : UInt8) : Bool :=
  if byte 'A' ≤ b ∧ b ≤ byte 'Z' then true
  else if byte 'a' ≤ b ∧ b ≤ byte 'z' then true
  else if byte '0' ≤ b ∧ b ≤ byte '9' then true
  else b ∈ [byte '_', byte '@', byte '%', byte '+', byte '=', byte ':', byte ',', byte '.',
    byte '/', byte '-']

def isBareEnvValue (v : Bytes) : Bool := v.all envValueBareAllowed

def escapeByte (c : UInt8) : Bytes :=
  if c = byte '\\' ∨ c = byte '"' ∨ c = byte '$' ∨ c = byte '`' then [byte '\\', c] else [c]

def quoteEnvValue (v : Bytes) : Bytes :=
  if isBareEnvValue v then v
  else if byte '\'' ∉ v then byte '\'' :: v ++ [byte '\'']
  else byte '"' :: v.flatMap escapeByte ++ [byte '"']

def sortedKeys (envVars : EnvVars) : List Bytes := envVars.keys.insertionSort (· ≤ ·)

def envLine (key value : Bytes) : Bytes := key ++ byte '=' :: quoteEnvValue value ++ [byte '\n']

def buildEnvFileSecret (envVars : EnvVars) : Option Bytes :=
  if envVars.entries.length = 0 then none
  else some ((sortedKeys envVars).flatMap fun key => envLine key (envVars.get [] key))

/-! ### Reading it back -/

theorem plain_of_bareAllowed {b : UInt8} (h : envValueBareAllowed b = true) :
    role b = .plain ∧ b ≠ byte '~' := by
  have hall := forall_byte (p := fun b => !envValueBareAllowed b ||
    (role b == .plain && b != byte '~')) (by decide +kernel) b
  simpa [h] using hall

theorem readsQuoted_escapeByte {v : Bytes} (h0 : 0 ∉ v) :
    ReadsQuoted (v.flatMap escapeByte) (quoted v) := by
  induction v with
  | nil => exact readsQuoted_nil
  | cons c v ih =>
    rw [List.mem_cons, not_or] at h0
    have hbyte : ReadsQuoted (escapeByte c) (quoted [c]) := by
      unfold escapeByte
      -- the bytes that get a backslash are the bytes that need one
      split
      · rename_i hspecial
        refine readsQuoted_escaped ?_
        rcases hspecial with rfl | rfl | rfl | rfl <;> decide
      · grind [readsQuoted_plain, isEscapable]
    exact hbyte.append (ih h0.2)

theorem reads_quoteEnvValue {v : Bytes} (h0 : 0 ∉ v) :
    ∃ value : Word, Reads (quoteEnvValue v) value ∧ value.bytes = v ∧
      hasTilde true value = false := by
  have hliteral : Word.bytes (literal v) = v := by simp [Word.bytes, literal, Function.comp_def]
  have hquoted : Word.bytes (quoted v) = v := by simp [Word.bytes, quoted, Function.comp_def]
  have htilde : hasTilde true (quoted v) = false :=
    hasTilde_eq_false (by simp [quoted]) true
  unfold quoteEnvValue
  split
  · -- bare: every byte is plain, and none is a tilde
    rename_i hbare
    have hbytes := fun b hb => plain_of_bareAllowed (List.all_eq_true.mp hbare b hb)
    refine ⟨literal v, reads_plain fun b hb => (hbytes b hb).1, hliteral, ?_⟩
    refine hasTilde_eq_false ?_ true
    intro hmem
    obtain ⟨b, hb, heq⟩ := List.mem_map.mp hmem
    exact (hbytes b hb).2 (Piece.mk.inj heq).1
  · split
    · rename_i hsingle
      exact ⟨quoted v, reads_single h0 hsingle, hquoted, htilde⟩
    · -- a value with a single quote in it
      exact ⟨quoted v, (readsQuoted_escapeByte h0).reads, hquoted, htilde⟩

theorem foldl_envLine {key value : Bytes} (hkey : isName key = true) (h0 : 0 ∉ value)
    (events : List Event) :
    (envLine key value).foldl State.step (.ready events) =
      .ready (events ++ [.assign key value]) := by
  obtain ⟨word, hreads, hbytes, htilde⟩ := reads_quoteEnvValue h0
  rw [envLine, foldl_assignment hkey hreads htilde, hbytes]

theorem foldl_envLines {pairs : List (Bytes × Bytes)} (hnames : ∀ p ∈ pairs, isName p.1 = true)
    (h0 : ∀ p ∈ pairs, 0 ∉ p.2) (events : List Event) :
    (pairs.flatMap fun p => envLine p.1 p.2).foldl State.step (.ready events) =
      .ready (events ++ pairs.map fun p => .assign p.1 p.2) := by
  induction pairs generalizing events with
  | nil => rw [List.flatMap_nil, List.foldl_nil, List.map_nil, List.append_nil]
  | cons p pairs ih =>
    rw [List.forall_mem_cons] at hnames h0
    rw [List.flatMap_cons, List.foldl_append, foldl_envLine hnames.1 h0.1, ih hnames.2 h0.2,
      List.append_assoc]
    rfl

def filePairs (envVars : EnvVars) : List (Bytes × Bytes) :=
  (sortedKeys envVars).map fun key => (key, envVars.get [] key)

theorem filePairs_perm (envVars : EnvVars) : filePairs envVars ~ envVars.entries := by
  have hsorted := (List.perm_insertionSort (· ≤ ·) envVars.keys).map
    fun key => (key, envVars.get [] key)
  rwa [envVars.map_get_keys] at hsorted

/-- Sourcing the file performs the assignments of the map, each once, and does nothing else: no
command is run and nothing is expanded. -/
theorem source_buildEnvFileSecret (envVars : EnvVars)
    (hnames : ∀ p ∈ envVars.entries, isName p.1 = true)
    (hnul : ∀ p ∈ envVars.entries, 0 ∉ p.2) :
    ∃ pairs, pairs ~ envVars.entries ∧
      source ((buildEnvFileSecret envVars).getD []) = pairs.map fun p => .assign p.1 p.2 := by
  have hperm := filePairs_perm envVars
  refine ⟨filePairs envVars, hperm, ?_⟩
  unfold buildEnvFileSecret
  split
  · rename_i hempty
    have hnil : filePairs envVars = [] := by
      rw [List.length_eq_zero_iff] at hempty
      rw [hempty] at hperm
      exact hperm.eq_nil
    rw [hnil]
    rfl
  · have hlines : (sortedKeys envVars).flatMap (fun key => envLine key (envVars.get [] key)) =
        (filePairs envVars).flatMap fun p => envLine p.1 p.2 := by
      rw [filePairs, List.flatMap_map]
    have hread := foldl_envLines (fun p hp => hnames p (hperm.subset hp))
      (fun p hp => hnul p (hperm.subset hp)) []
    rw [Option.getD_some, hlines, source, hread]
    exact List.append_nil _

def threeForms : EnvVars where
  entries := [("QUOTED".toList.map byte, "it's $HOME\\\n`id`".toList.map byte),
    ("BARE".toList.map byte, "a=b".toList.map byte), ("LINES".toList.map byte, [10, 36, 34])]
  unique := by decide +kernel

theorem source_buildEnvFileSecret_threeForms : ∃ pairs, pairs ~ threeForms.entries ∧
    source ((buildEnvFileSecret threeForms).getD []) = pairs.map fun p => .assign p.1 p.2 :=
  source_buildEnvFileSecret threeForms (List.forall_iff_forall_mem.mp (by decide +kernel))
    (List.forall_iff_forall_mem.mp (by decide +kernel))

/-! ### The hash of the variables -/

def decimal (n : Nat) : Bytes := (Nat.toDigits 10 n).map byte

def lengthPrefixed (s : Bytes) : Bytes := decimal s.length ++ byte ':' :: s

def hashRecord (key value : Bytes) : Bytes :=
  lengthPrefixed key ++ byte '=' :: (lengthPrefixed value ++ [byte ';'])

def hashInput (envVars : EnvVars) : Bytes :=
  (sortedKeys envVars).flatMap fun key => hashRecord key (envVars.get [] key)

def hexDigit (n : UInt8) : UInt8 := if n < 10 then byte '0' + n else byte 'a' + (n - 10)

def encodeToString (digest : Bytes) : Bytes :=
  digest.flatMap fun b => [hexDigit (b / 16), hexDigit (b % 16)]

def hashEnvVars (sha256 : Bytes → { digest : Bytes // digest.length = 32 }) (envVars : EnvVars) :
    Bytes :=
  if envVars.entries.length = 0 then [] else encodeToString (sha256 (hashInput envVars)).1

theorem toNat_byte_of_mem_toDigits {n : Nat} {c : Char} (hc : c ∈ Nat.toDigits 10 n) :
    (byte c).toNat = c.toNat ∧ c.toNat ≤ 57 := by
  have hdigit := Nat.isDigit_of_mem_toDigits (by decide) (by decide) hc
  have hle : c.toNat ≤ 57 := (Char.isDigit_iff_toNat.mp hdigit).2
  refine ⟨?_, hle⟩
  rw [byte, Nat.toUInt8_eq, UInt8.toNat_ofNat']
  omega

theorem decimal_inj {m n : Nat} (h : decimal m = decimal n) : m = n := by
  have hread : ∀ n, (decimal n).map (fun b => Char.ofNat b.toNat) = Nat.toDigits 10 n := by
    intro n
    rw [decimal, List.map_map]
    refine (List.map_congr_left fun c hc => ?_).trans (List.map_id _)
    rw [Function.comp_apply, (toNat_byte_of_mem_toDigits hc).1, Char.ofNat_toNat]
    rfl
  have hdigits := congrArg (List.map fun b => Char.ofNat b.toNat) h
  rw [hread, hread] at hdigits
  have hvalue := congrArg (fun ds => Nat.ofDigitChars 10 ds 0) hdigits
  simpa only [Nat.ofDigitChars_toDigits (show 1 < 10 by decide) (Nat.le_refl 10)] using hvalue

theorem lengthPrefixed_append_inj {s t x y : Bytes}
    (h : lengthPrefixed s ++ x = lengthPrefixed t ++ y) : s = t ∧ x = y := by
  have hcolon : ∀ n, ∀ b ∈ decimal n, (b != byte ':') = true := by
    intro n b hb
    obtain ⟨c, hc, rfl⟩ := List.mem_map.mp hb
    obtain ⟨heq, hle⟩ := toNat_byte_of_mem_toDigits hc
    refine bne_iff_ne.mpr fun hbyte => ?_
    rw [hbyte] at heq
    have : (byte ':').toNat = 58 := by decide
    omega
  simp only [lengthPrefixed, List.append_assoc, List.cons_append] at h
  have htake := congrArg (List.takeWhile (· != byte ':')) h
  rw [List.takeWhile_append_of_pos (hcolon _), List.takeWhile_append_of_pos (hcolon _)] at htake
  have hlength : s.length = t.length := decimal_inj (by simpa using htake)
  rw [hlength] at h
  exact List.append_inj (List.cons.inj (List.append_cancel_left h)).2 hlength

theorem hashRecords_inj {pairs pairs' : List (Bytes × Bytes)}
    (h : pairs.flatMap (fun p => hashRecord p.1 p.2) =
      pairs'.flatMap fun p => hashRecord p.1 p.2) : pairs = pairs' := by
  induction pairs generalizing pairs' with
  | nil =>
    cases pairs' with
    | nil => rfl
    | cons p' pairs' => simp [hashRecord] at h
  | cons p pairs ih =>
    cases pairs' with
    | nil => simp [hashRecord] at h
    | cons p' pairs' =>
      simp only [List.flatMap_cons, hashRecord, List.append_assoc, List.cons_append] at h
      obtain ⟨hkey, h⟩ := lengthPrefixed_append_inj h
      obtain ⟨hvalue, h⟩ := lengthPrefixed_append_inj (List.cons.inj h).2
      rw [Prod.ext hkey hvalue, ih (List.cons.inj h).2]

theorem hexDigits_inj {b c : UInt8} (hhigh : hexDigit (b / 16) = hexDigit (c / 16))
    (hlow : hexDigit (b % 16) = hexDigit (c % 16)) : b = c := by
  have hread : ∀ b : UInt8, (hexDigit (b / 16) - byte '0') % 39 * 16 +
      (hexDigit (b % 16) - byte '0') % 39 = b := fun b =>
    beq_iff_eq.mp (forall_byte (p := fun b => (hexDigit (b / 16) - byte '0') % 39 * 16 +
      (hexDigit (b % 16) - byte '0') % 39 == b) (by decide +kernel) b)
  rw [← hread b, hhigh, hlow, hread]

theorem encodeToString_inj {d e : Bytes} (h : encodeToString d = encodeToString e) : d = e := by
  induction d generalizing e with
  | nil =>
    cases e with
    | nil => rfl
    | cons c e => cases h
  | cons b d ih =>
    cases e with
    | nil => cases h
    | cons c e =>
      obtain ⟨hhigh, h⟩ := List.cons.inj h
      obtain ⟨hlow, h⟩ := List.cons.inj h
      rw [hexDigits_inj hhigh hlow, ih h]

/-- Maps that give SHA-256 the same bytes are the same, and so are maps with the same hash unless
SHA-256 has a collision on them. -/
theorem hashInput_injective (m₁ m₂ : EnvVars) :
    (hashInput m₁ = hashInput m₂ → m₁.entries ~ m₂.entries) ∧
    ∀ sha256 : Bytes → { digest : Bytes // digest.length = 32 },
      (sha256 (hashInput m₁) = sha256 (hashInput m₂) → hashInput m₁ = hashInput m₂) →
      hashEnvVars sha256 m₁ = hashEnvVars sha256 m₂ → m₁.entries ~ m₂.entries := by
  have hinput : hashInput m₁ = hashInput m₂ → m₁.entries ~ m₂.entries := by
    intro h
    have hpairs : filePairs m₁ = filePairs m₂ := by
      apply hashRecords_inj
      rw [filePairs, filePairs, List.flatMap_map, List.flatMap_map]
      exact h
    exact (filePairs_perm m₁).symm.trans (hpairs ▸ filePairs_perm m₂)
  refine ⟨hinput, fun sha256 hfree hhash => ?_⟩
  have hne : ∀ d : { digest : Bytes // digest.length = 32 }, encodeToString d.1 ≠ [] := by
    intro d hnil
    have := encodeToString_inj (e := []) hnil
    exact absurd d.2 (by rw [this]; decide)
  unfold hashEnvVars at hhash
  split_ifs at hhash with h₁ h₂ h₂
  · rw [List.length_eq_zero_iff.mp h₁, List.length_eq_zero_iff.mp h₂]
  · exact absurd hhash.symm (hne _)
  · exact absurd hhash (hne _)
  · exact hinput (hfree (Subtype.ext (encodeToString_inj hhash)))

/-- The order of the entries does not change what is written. -/
theorem hashInput_injective_reversed :
    threeForms.entries ~ threeForms.entries.reverse ∧
      hashInput threeForms = hashInput ⟨threeForms.entries.reverse, by decide +kernel⟩ := by
  have h : hashInput threeForms = hashInput ⟨threeForms.entries.reverse, by decide +kernel⟩ := by
    decide +kernel
  exact ⟨(hashInput_injective threeForms _).1 h, h⟩

end Unkey.Deploy
