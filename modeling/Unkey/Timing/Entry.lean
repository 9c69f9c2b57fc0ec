import Mathlib
import Unkey.Base.Fallible
import Unkey.Base.GoMap
import Unkey.Base.GoString

/-!
# Timing headers

An entry is written as `name{key=value,…}=number unit`; entries are joined by commas and read back
by a splitter that counts braces and a descent over names, labels and values.
-/

namespace Unkey.Timing

open Unkey.Base
open scoped List

abbrev Text := List Char

structure Entry where
  name : Text
  attributes : GoMap Text Text
  duration : Int

def reject (condition : Bool) (message : String) : Except String Unit :=
  if condition then .error message else .ok ()

/-! ### Validation -/

def isNameStart (b : Char) : Bool :=
  ('a' ≤ b && b ≤ 'z') || ('A' ≤ b && b ≤ 'Z') || b == '_'

def isNameChar (b : Char) : Bool := isNameStart b || ('0' ≤ b && b ≤ '9') || b == ':'

def isWhitespace (b : Char) : Bool := b == ' ' || b == '\t' || b == '\n' || b == '\r'

def hasWhitespace (input : Text) : Bool := input.any isWhitespace

def checkName (empty invalid : String) : Text → Except String Unit
  | [] => .error empty
  | b :: rest => if isNameStart b && rest.all isNameChar then .ok () else .error invalid

def checkByte (b : Char) : Except String Unit :=
  if isWhitespace b then .error "label value contains whitespace"
  else if b = '\x7b' ∨ b = '\x7d' ∨ b = ',' ∨ b = '=' then
    .error "label value contains invalid character"
  else if b.toNat < 0x21 ∨ 0x7e < b.toNat then
    .error "label value contains non-printable character"
  else .ok ()

def checkValue (value : Text) : Except String Unit :=
  if value = [] then .error "label value is empty" else value.forM checkByte

def checkAttribute (pair : Text × Text) : Except String Unit := do
  checkName "label key is empty" "invalid label key" pair.1
  checkValue pair.2

def validate (e : Entry) : Except String Unit := do
  checkName "entry name is empty" "invalid entry name" e.name
  reject (e.duration < 0) "duration must be non-negative"
  e.attributes.entries.forM checkAttribute

/-! ### Numbers -/

def IsDigits (text : Text) : Prop := text ≠ [] ∧ ∀ b ∈ text, '0' ≤ b ∧ b ≤ '9'

/-- Digits with at most one dot strictly between digits. -/
def IsDecimal (text : Text) : Prop :=
  IsDigits text ∨ ∃ whole fraction, IsDigits whole ∧ IsDigits fraction ∧
    text = whole ++ '.' :: fraction

/-- What is assumed of `strconv` and of floating point. -/
structure Strconv (F : Type) where
  quotient : Int → Int → F
  scaled : F → Int → Int
  formatFloat : F → Text
  parseFloat : Text → Except String F
  NonNegative : F → Prop
  quotient_nonNegative : ∀ {duration unit}, 0 ≤ duration → 0 < unit →
    NonNegative (quotient duration unit)
  format_decimal : ∀ {value}, NonNegative value → IsDecimal (formatFloat value)
  parse_format : ∀ {value}, NonNegative value → ∃ back, parseFloat (formatFloat value) = .ok back

variable {F : Type} (S : Strconv F)

def nanosecond : Int := 1
def microsecond : Int := 1000 * nanosecond
def millisecond : Int := 1000 * microsecond
def second : Int := 1000 * millisecond

/-! ### Writing -/

def formatDurationUnit (duration unit : Int) (suffix : Text) : Text :=
  S.formatFloat (S.quotient duration unit) ++ suffix

def formatDuration (duration : Int) : Text :=
  if second ≤ duration then formatDurationUnit S duration second ['s']
  else if millisecond ≤ duration then formatDurationUnit S duration millisecond ['m', 's']
  else if microsecond ≤ duration then formatDurationUnit S duration microsecond ['u', 's']
  else formatDurationUnit S duration nanosecond ['n', 's']

def joined : List Text → Text
  | [] => []
  | [part] => part
  | part :: parts => part ++ ',' :: joined parts

def sortedAttributes (attributes : GoMap Text Text) : List (Text × Text) :=
  (attributes.keys.insertionSort (· ≤ ·)).map fun key => (key, attributes.get [] key)

def label (pair : Text × Text) : Text := pair.1 ++ '=' :: pair.2

def formatAttributes (attributes : GoMap Text Text) : Text :=
  if attributes.entries.length > 0 then
    '\x7b' :: joined ((sortedAttributes attributes).map label) ++ ['\x7d']
  else []

def format (e : Entry) : Text :=
  e.name ++ (formatAttributes e.attributes ++ '=' :: formatDuration S e.duration)

/-! ### Reading -/

def parseName : Text → Except String (Text × Text)
  | [] => .error "entry is empty"
  | b :: rest =>
    if isNameStart b then .ok (b :: rest.takeWhile isNameChar, rest.dropWhile isNameChar)
    else .error "invalid entry name"

def inValue (b : Char) : Bool := b != ',' && b != '\x7d'

def parseLabelValue (input : Text) : Except String (Text × Text) := do
  checkValue (input.takeWhile inValue)
  return (input.takeWhile inValue, input.dropWhile inValue)

def expectEquals (missing : String) : Text → Except String Text
  | '=' :: rest => .ok rest
  | _ => .error missing

def skipComma : Text → Except String Text
  | ',' :: input =>
    if input = [] ∨ input.head? = some '\x7d' then .error "label missing after comma"
    else .ok input
  | input => .ok input

-- Every round reads at least one byte, so the length of the text bounds the rounds.
def labelLoop : Nat → GoMap Text Text → Text → Except String (GoMap Text Text × Text)
  | 0, _, _ => .error "entry is empty"
  | rounds + 1, labels, input =>
    if input.head? = some '\x7d' then
      if labels.entries = [] then .error "labels must not be empty" else .ok (labels, input.tail)
    else do
      let (key, rest) ← (parseName input).mapError ("invalid label key: " ++ ·)
      let rest ← expectEquals "label missing '='" rest
      let (value, remaining) ← parseLabelValue rest
      let input ← skipComma remaining
      labelLoop rounds (labels.set key value) input

def noLabels : GoMap Text Text := ⟨[], List.nodup_nil⟩

def parseLabels : Text → Except String (GoMap Text Text × Text)
  | '\x7b' :: [] => .error "labels missing closing '\x7d'"
  | '\x7b' :: input => labelLoop (input.length + 1) noLabels input
  | _ => .error "labels must start with '\x7b'"

def units : List (Text × Int) :=
  [(['m', 's'], millisecond), (['u', 's'], microsecond), (['n', 's'], nanosecond), (['s'], second)]

def splitValueUnit (input : Text) : Except String (Int × Text) :=
  match units.find? fun candidate => candidate.1.isSuffixOf input with
  | none => .error "unsupported unit"
  | some (suffix, unit) =>
    let number := input.take (input.length - suffix.length)
    if number = [] then .error "entry missing numeric value" else .ok (unit, number)

def digitLoop (first seenDot : Bool) : Text → Except String Unit
  | [] => .ok ()
  | b :: rest =>
    if b = '.' then
      if seenDot then .error "invalid value: multiple decimals"
      else if first || rest.isEmpty then
        .error "invalid value: decimal must be between digits"
      else digitLoop false true rest
    else if '0' ≤ b ∧ b ≤ '9' then digitLoop false seenDot rest
    else .error "invalid value: contains non-digit"

def validateNumber (number : Text) : Except String Unit :=
  if number = [] then .error "entry missing numeric value" else digitLoop true false number

def parseDuration (input : Text) : Except String Int := do
  reject input.isEmpty "entry missing value"
  let (unit, number) ← splitValueUnit input
  validateNumber number
  let value ← (S.parseFloat number).mapError ("invalid value: " ++ ·)
  return S.scaled value unit

def parseAttributes (rest : Text) : Except String (GoMap Text Text × Text) :=
  if rest.head? = some '\x7b' then parseLabels rest else .ok (noLabels, rest)

def parseEntry (input : Text) : Except String Entry := do
  reject input.isEmpty "entry is empty"
  reject (hasWhitespace input) "entry contains whitespace"
  let (name, rest) ← parseName input
  let (attributes, rest) ← parseAttributes rest
  let rest ← expectEquals "entry missing '='" rest
  reject rest.isEmpty "entry missing value"
  let duration ← parseDuration S rest
  return ⟨name, attributes, duration⟩

def splitLoop (part : Text) (braceDepth : Nat) : Text → Except String (List Text)
  | [] =>
    if braceDepth ≠ 0 then .error "unterminated labels"
    else if part = [] then .error "empty entry"
    else .ok [part]
  | b :: rest =>
    if b = '\x7b' then splitLoop (part ++ [b]) (braceDepth + 1) rest
    else if b = '\x7d' then
      if braceDepth = 0 then .error "unexpected closing brace"
      else splitLoop (part ++ [b]) (braceDepth - 1) rest
    else if b = ',' ∧ braceDepth = 0 then
      if part = [] then .error "empty entry" else (part :: ·) <$> splitLoop [] 0 rest
    else splitLoop (part ++ [b]) braceDepth rest

def splitEntries (input : Text) : Except String (List Text) := splitLoop [] 0 input

def parseEntries (input : Text) : Except String (List Entry) := do
  reject (input.all isSpaceRune) "header value is empty"
  reject (hasWhitespace input) "header value contains whitespace"
  let parts ← splitEntries input
  parts.mapM (parseEntry S)

/-! ### What is written -/

/-- Neither whitespace nor a brace. -/
def Plain (b : Char) : Prop := isWhitespace b = false ∧ b ≠ '\x7b' ∧ b ≠ '\x7d'

instance (b : Char) : Decidable (Plain b) := inferInstanceAs (Decidable (_ ∧ _))

def IsName (text : Text) : Prop :=
  ∃ b rest, text = b :: rest ∧ isNameStart b = true ∧ ∀ c ∈ rest, isNameChar c = true

theorem isName_of_checkName {empty invalid : String} {text : Text}
    (h : checkName empty invalid text = .ok ()) : IsName text := by
  cases text with
  | nil => cases h
  | cons b rest =>
    simp only [checkName] at h
    split at h
    next hname =>
      rw [Bool.and_eq_true, List.all_eq_true] at hname
      exact ⟨b, rest, rfl, hname⟩
    next => cases h

theorem isNameChar_of_isNameStart {b : Char} (h : isNameStart b = true) : isNameChar b = true := by
  simp [isNameChar, h]

theorem isNameChar_of_mem {text : Text} (h : IsName text) {b : Char} (hb : b ∈ text) :
    isNameChar b = true := by
  obtain ⟨first, rest, rfl, hfirst, hrest⟩ := h
  obtain rfl | hb := List.mem_cons.mp hb
  · exact isNameChar_of_isNameStart hfirst
  · exact hrest b hb

theorem ne_of_isNameChar {b c : Char} (h : isNameChar b = true) (hc : isNameChar c = false) :
    b ≠ c := by
  rintro rfl
  rw [h] at hc
  cases hc

theorem plain_of_isNameChar {b : Char} (h : isNameChar b = true) : Plain b ∧ b ≠ ',' := by
  have hne := fun c hc => ne_of_isNameChar (c := c) h hc
  refine ⟨⟨?_, hne _ (by decide), hne _ (by decide)⟩, hne _ (by decide)⟩
  simp [isWhitespace, hne ' ' (by decide), hne '\t' (by decide), hne '\n' (by decide),
    hne '\r' (by decide)]

theorem isNameChar_of_digit {b : Char} (h : '0' ≤ b ∧ b ≤ '9') : isNameChar b = true := by
  simp [isNameChar, h.1, h.2]

theorem isSpaceRune_of_isNameStart {b : Char} (h : isNameStart b = true) :
    isSpaceRune b = false := by
  simp only [isNameStart, Bool.or_eq_true, Bool.and_eq_true, decide_eq_true_eq, beq_iff_eq,
    Char.le_def, UInt32.le_iff_toNat_le] at h
  have hrange : 65 ≤ b.toNat ∧ b.toNat ≤ 122 := by
    obtain (⟨h, h'⟩ | ⟨h, h'⟩) | rfl := h
    · exact ⟨Nat.le_trans (by decide) h, h'⟩
    · exact ⟨h, Nat.le_trans h' (by decide)⟩
    · decide
  simp [isSpaceRune]
  omega

/-- Bytes `checkValue` lets through. -/
def IsValue (text : Text) : Prop := text ≠ [] ∧ ∀ b ∈ text, checkByte b = .ok ()

theorem isValue_of_checkValue {value : Text} (h : checkValue value = .ok ()) : IsValue value := by
  unfold checkValue at h
  split at h
  next => cases h
  next hne => exact ⟨hne, forM_eq_ok h⟩

theorem checkValue_of_isValue {value : Text} (h : IsValue value) : checkValue value = .ok () := by
  rw [checkValue, if_neg h.1]
  have hbytes := h.2
  clear h
  induction value with
  | nil => rfl
  | cons b rest ih =>
    change (checkByte b >>= fun _ => rest.forM checkByte) = _
    rw [hbytes b List.mem_cons_self]
    exact ih fun c hc => hbytes c (List.mem_cons_of_mem b hc)

theorem plain_of_checkByte {b : Char} (h : checkByte b = .ok ()) :
    Plain b ∧ inValue b = true := by
  unfold checkByte at h
  split at h
  next => cases h
  next hspace =>
    split at h
    next => cases h
    next hmark =>
      push Not at hmark
      exact ⟨⟨Bool.eq_false_iff.mpr hspace, hmark.1, hmark.2.1⟩, by
        simp [inValue, hmark.2.1, hmark.2.2.1]⟩

structure IsAttribute (pair : Text × Text) : Prop where
  key : IsName pair.1
  value : IsValue pair.2

theorem isAttribute_of_checkAttribute {pair : Text × Text}
    (h : checkAttribute pair = .ok ()) : IsAttribute pair := by
  obtain ⟨_, hkey, hvalue⟩ := bind_eq_ok h
  exact ⟨isName_of_checkName hkey, isValue_of_checkValue hvalue⟩

theorem plain_of_mem_label {pair : Text × Text} (h : IsAttribute pair) {b : Char}
    (hb : b ∈ label pair) : Plain b := by
  obtain hb | hb := List.mem_append.mp hb
  · exact (plain_of_isNameChar (isNameChar_of_mem h.key hb)).1
  · obtain rfl | hb := List.mem_cons.mp hb
    · decide
    · exact (plain_of_checkByte (h.value.2 b hb)).1

theorem joined_cons (part next : Text) (parts : List Text) :
    joined (part :: next :: parts) = part ++ ',' :: joined (next :: parts) := rfl

theorem exists_joined_cons (part : Text) (parts : List Text) :
    ∃ tail, joined (part :: parts) = part ++ tail := by
  cases parts with
  | nil => exact ⟨[], (List.append_nil part).symm⟩
  | cons next parts => exact ⟨_, joined_cons part next parts⟩

theorem mem_joined {parts : List Text} {b : Char} (hb : b ∈ joined parts) :
    b = ',' ∨ ∃ part ∈ parts, b ∈ part := by
  induction parts with
  | nil => cases hb
  | cons part parts ih =>
    cases parts with
    | nil => exact .inr ⟨part, List.mem_cons_self, hb⟩
    | cons next parts =>
      rw [joined_cons, List.mem_append, List.mem_cons] at hb
      obtain hb | rfl | hb := hb
      · exact .inr ⟨part, List.mem_cons_self, hb⟩
      · exact .inl rfl
      · obtain rfl | ⟨other, hother, hb⟩ := ih hb
        · exact .inl rfl
        · exact .inr ⟨other, List.mem_cons_of_mem part hother, hb⟩

/-! ### Reading names and labels -/

theorem parseName_append {name rest : Text} (h : IsName name)
    (hrest : ∀ b ∈ rest.head?, isNameChar b = false) :
    parseName (name ++ rest) = .ok (name, rest) := by
  obtain ⟨b, tail, rfl, hb, htail⟩ := h
  have hstop : rest.takeWhile isNameChar = [] ∧ rest.dropWhile isNameChar = rest := by
    cases rest with
    | nil => exact ⟨rfl, rfl⟩
    | cons c cs => simp [hrest c rfl]
  rw [List.cons_append, parseName, if_pos hb, List.takeWhile_append_of_pos htail,
    List.dropWhile_append_of_pos htail, hstop.1, hstop.2, List.append_nil]

theorem parseLabelValue_append {value rest : Text} (h : IsValue value)
    (hrest : ∀ b ∈ rest.head?, inValue b = false) :
    parseLabelValue (value ++ rest) = .ok (value, rest) := by
  have hall : ∀ b ∈ value, inValue b = true := fun b hb => (plain_of_checkByte (h.2 b hb)).2
  have hstop : rest.takeWhile inValue = [] ∧ rest.dropWhile inValue = rest := by
    cases rest with
    | nil => exact ⟨rfl, rfl⟩
    | cons c cs => simp [hrest c rfl]
  rw [parseLabelValue, List.takeWhile_append_of_pos hall, List.dropWhile_append_of_pos hall,
    hstop.1, hstop.2, List.append_nil, checkValue_of_isValue h, ok_bind]
  rfl

theorem labelLoop_label {pair : Text × Text} (h : IsAttribute pair) (rounds : Nat)
    (labels : GoMap Text Text) {rest : Text} (hrest : ∀ b ∈ rest.head?, inValue b = false) :
    labelLoop (rounds + 1) labels (label pair ++ rest) =
      skipComma rest >>= labelLoop rounds (labels.set pair.1 pair.2) := by
  have hfirst : ¬ (label pair ++ rest).head? = some '\x7d' := by
    obtain ⟨b, tail, hkey, hb, -⟩ := h.key
    rw [label, hkey, List.cons_append, List.cons_append, List.head?_cons, Option.some.injEq]
    exact ne_of_isNameChar (isNameChar_of_isNameStart hb) (by decide)
  have hname : parseName (pair.1 ++ '=' :: (pair.2 ++ rest)) =
      .ok (pair.1, '=' :: (pair.2 ++ rest)) := parseName_append h.key (by rintro b ⟨⟩; decide)
  rw [labelLoop, if_neg hfirst, label, List.append_assoc, List.cons_append, hname]
  simp only [Except.mapError, ok_bind, expectEquals, parseLabelValue_append h.value hrest]

theorem labelLoop_joined (rest : Text) : ∀ (attributes : List (Text × Text)) (rounds : Nat)
    (labels : GoMap Text Text), attributes ≠ [] → attributes.length < rounds →
    (∀ pair ∈ attributes, IsAttribute pair) →
    (labels.keys ++ attributes.map Prod.fst).Nodup →
    ∃ read, labelLoop rounds labels (joined (attributes.map label) ++ '\x7d' :: rest) =
      .ok (read, rest) ∧ read.entries = labels.entries ++ attributes := by
  intro attributes
  induction attributes with
  | nil => exact fun _ _ hne => absurd rfl hne
  | cons pair attributes ih =>
    intro rounds labels _ hrounds hvalid hnodup
    obtain ⟨rounds, rfl⟩ : ∃ n, rounds = n + 1 := ⟨rounds - 1, by omega⟩
    have hpair := hvalid pair List.mem_cons_self
    have hfresh : pair.1 ∉ labels.keys := fun hmem =>
      (List.nodup_append.mp hnodup).2.2 pair.1 hmem pair.1 List.mem_cons_self rfl
    have hset := GoMap.entries_set hfresh pair.2
    cases attributes with
    | nil =>
      obtain ⟨rounds, rfl⟩ : ∃ n, rounds = n + 1 := ⟨rounds - 1, by simp at hrounds; omega⟩
      refine ⟨labels.set pair.1 pair.2, ?_, hset⟩
      rw [List.map_singleton, joined, labelLoop_label hpair _ _ (by rintro b ⟨⟩; decide)]
      simp [skipComma, ok_bind, labelLoop, hset]
    | cons next attributes =>
      have hnext : joined ((next :: attributes).map label) ++ '\x7d' :: rest ≠ [] ∧
          (joined ((next :: attributes).map label) ++ '\x7d' :: rest).head? ≠ some '\x7d' := by
        obtain ⟨b, tail, hkey, hb, -⟩ :=
          (hvalid next (List.mem_cons_of_mem _ List.mem_cons_self)).key
        obtain ⟨rest', hstart⟩ := exists_joined_cons (label next) (attributes.map label)
        rw [List.map_cons, hstart, label, hkey]
        refine ⟨List.cons_ne_nil _ _, ?_⟩
        rw [List.cons_append, List.cons_append, List.cons_append, List.head?_cons, ne_eq,
          Option.some.injEq]
        exact ne_of_isNameChar (isNameChar_of_isNameStart hb) (by decide)
      have hkeys : ((labels.set pair.1 pair.2).keys ++
          (next :: attributes).map Prod.fst).Nodup := by
        rw [GoMap.keys, hset, List.map_append, List.append_assoc]
        exact hnodup
      obtain ⟨read, hread, hentries⟩ := ih rounds (labels.set pair.1 pair.2)
        (List.cons_ne_nil _ _) (by simp at hrounds ⊢; omega)
        (fun a ha => hvalid a (List.mem_cons_of_mem _ ha)) hkeys
      refine ⟨read, ?_, by rw [hentries, hset, List.append_assoc]; rfl⟩
      rw [List.map_cons, List.map_cons, joined_cons, ← List.map_cons, List.append_assoc,
        List.cons_append, labelLoop_label hpair _ _ (by rintro b ⟨⟩; decide), skipComma,
        if_neg (not_or.mpr hnext), ok_bind]
      exact hread

theorem sortedAttributes_perm (attributes : GoMap Text Text) :
    sortedAttributes attributes ~ attributes.entries := by
  have hsorted := (List.perm_insertionSort (· ≤ ·) attributes.keys).map
    fun key => (key, attributes.get [] key)
  rwa [attributes.map_get_keys] at hsorted

theorem length_le_joined (pairs : List (Text × Text)) :
    pairs.length ≤ (joined (pairs.map label)).length := by
  induction pairs with
  | nil => exact Nat.le_refl 0
  | cons pair pairs ih =>
    cases pairs with
    | nil =>
      rw [List.map_singleton, joined, label, List.length_append, List.length_cons]
      exact Nat.le_add_left 1 _
    | cons next pairs =>
      rw [List.map_cons, List.map_cons, joined_cons, ← List.map_cons]
      simp only [List.length_append, List.length_cons] at ih ⊢
      omega

theorem parseAttributes_format {attributes : GoMap Text Text}
    (hvalid : ∀ pair ∈ attributes.entries, IsAttribute pair) (rest : Text) :
    ∃ read, parseAttributes (formatAttributes attributes ++ '=' :: rest) =
      .ok (read, '=' :: rest) ∧ read.entries ~ attributes.entries := by
  have hperm := sortedAttributes_perm attributes
  by_cases hlength : attributes.entries.length > 0
  · have hne : sortedAttributes attributes ≠ [] := by
      intro hnil
      rw [hnil] at hperm
      rw [← hperm.length_eq] at hlength
      exact absurd hlength (by simp)
    have hlabels : (noLabels.keys ++ (sortedAttributes attributes).map Prod.fst).Nodup :=
      (hperm.map Prod.fst).nodup_iff.mpr attributes.unique
    obtain ⟨read, hread, hentries⟩ := labelLoop_joined ('=' :: rest) _
      ((joined ((sortedAttributes attributes).map label) ++ '\x7d' :: '=' :: rest).length + 1)
      noLabels hne (by have := length_le_joined (sortedAttributes attributes); simp; omega)
      (fun pair hpair => hvalid pair (hperm.subset hpair)) hlabels
    refine ⟨read, ?_, by rw [hentries]; exact hperm⟩
    rw [formatAttributes, if_pos hlength, List.cons_append, List.cons_append, List.append_assoc,
      List.singleton_append, parseAttributes,
      if_pos List.head?_cons, parseLabels, hread]
    exact fun hnil => absurd hnil (by simp)
  · have hnil : attributes.entries = [] := List.length_eq_zero_iff.mp (by omega)
    refine ⟨noLabels, ?_, by rw [hnil]; exact List.Perm.refl []⟩
    rw [formatAttributes, if_neg hlength, List.nil_append, parseAttributes, if_neg (by simp)]

/-! ### Reading numbers -/

theorem digitLoop_digits {digits : Text} (hdigits : ∀ b ∈ digits, '0' ≤ b ∧ b ≤ '9')
    (seenDot : Bool) (rest : Text) :
    digitLoop false seenDot (digits ++ rest) = digitLoop false seenDot rest := by
  induction digits with
  | nil => rfl
  | cons b digits ih =>
    have hb := hdigits b List.mem_cons_self
    have hdot : b ≠ '.' := ne_of_isNameChar (isNameChar_of_digit hb) (by decide)
    rw [List.cons_append, digitLoop, if_neg hdot, if_pos hb]
    exact ih fun c hc => hdigits c (List.mem_cons_of_mem b hc)

theorem digitLoop_start {digits : Text} (h : IsDigits digits) (rest : Text) :
    digitLoop true false (digits ++ rest) = digitLoop false false rest := by
  obtain ⟨hne, hdigits⟩ := h
  cases digits with
  | nil => exact absurd rfl hne
  | cons b digits =>
    have hb := hdigits b List.mem_cons_self
    have hdot : b ≠ '.' := ne_of_isNameChar (isNameChar_of_digit hb) (by decide)
    rw [List.cons_append, digitLoop, if_neg hdot, if_pos hb]
    exact digitLoop_digits (fun c hc => hdigits c (List.mem_cons_of_mem b hc)) false rest

theorem validateNumber_decimal {number : Text} (h : IsDecimal number) :
    validateNumber number = .ok () := by
  obtain hdigits | ⟨whole, fraction, hwhole, hfraction, rfl⟩ := h
  · have hloop := digitLoop_start hdigits []
    rw [List.append_nil] at hloop
    rw [validateNumber, if_neg hdigits.1, hloop, digitLoop]
  · have hrest : fraction.isEmpty = false := by simpa using hfraction.1
    have hloop := digitLoop_digits hfraction.2 true []
    rw [List.append_nil] at hloop
    rw [validateNumber, if_neg (by simp), digitLoop_start hwhole, digitLoop, if_pos rfl, hrest]
    simpa [digitLoop] using hloop

theorem exists_last_digit {number : Text} (h : IsDecimal number) :
    ∃ front digit, number = front ++ [digit] ∧ '0' ≤ digit ∧ digit ≤ '9' := by
  have hlast : ∀ {digits : Text}, IsDigits digits →
      ∃ front digit, digits = front ++ [digit] ∧ '0' ≤ digit ∧ digit ≤ '9' := by
    intro digits ⟨hne, hdigits⟩
    refine ⟨digits.dropLast, digits.getLast hne, (List.dropLast_append_getLast hne).symm, ?_⟩
    exact hdigits _ (List.getLast_mem hne)
  obtain hdigits | ⟨whole, fraction, -, hfraction, rfl⟩ := h
  · exact hlast hdigits
  · obtain ⟨front, digit, rfl, hdigit⟩ := hlast hfraction
    exact ⟨whole ++ '.' :: front, digit, by simp, hdigit⟩

theorem splitValueUnit_append {number suffix : Text} {unit : Int} (h : IsDecimal number)
    (hunit : (suffix, unit) ∈ units) : splitValueUnit (number ++ suffix) = .ok (unit, number) := by
  obtain ⟨front, digit, rfl, hdigit⟩ := exists_last_digit h
  have hletter : ∀ c, ¬ c ≤ '9' → (c == digit) = false := by
    intro c hc
    refine beq_false_of_ne ?_
    rintro rfl
    exact hc hdigit.2
  have hfind : units.find? (fun candidate => candidate.1.isSuffixOf (front ++ [digit] ++ suffix)) =
      some (suffix, unit) := by
    simp only [units, List.mem_cons, List.not_mem_nil, or_false, Prod.mk.injEq] at hunit
    obtain ⟨rfl, rfl⟩ | ⟨rfl, rfl⟩ | ⟨rfl, rfl⟩ | ⟨rfl, rfl⟩ := hunit
    all_goals simp [units, List.isSuffixOf, List.find?, List.isPrefixOf, hletter 'm' (by decide),
      hletter 'u' (by decide), hletter 'n' (by decide)]
  rw [splitValueUnit, hfind]
  simp only [List.length_append, Nat.add_sub_cancel]
  rw [← List.length_append, List.take_left, if_neg (by simp)]

variable {S}

theorem exists_formatDuration (duration : Int) :
    ∃ unit suffix, (suffix, unit) ∈ units ∧ 0 < unit ∧
      formatDuration S duration = formatDurationUnit S duration unit suffix := by
  unfold formatDuration
  split
  · exact ⟨second, ['s'], by decide, by decide, rfl⟩
  · split
    · exact ⟨millisecond, ['m', 's'], by decide, by decide, rfl⟩
    · split
      · exact ⟨microsecond, ['u', 's'], by decide, by decide, rfl⟩
      · exact ⟨nanosecond, ['n', 's'], by decide, by decide, rfl⟩

theorem parseDuration_format {duration : Int} (h : 0 ≤ duration) :
    ∃ back, parseDuration S (formatDuration S duration) = .ok back := by
  obtain ⟨unit, suffix, hunit, hpos, hformat⟩ := exists_formatDuration (S := S) duration
  have hvalue := S.quotient_nonNegative h hpos
  have hdecimal := S.format_decimal hvalue
  obtain ⟨back, hback⟩ := S.parse_format hvalue
  obtain ⟨front, digit, hnumber, -⟩ := exists_last_digit hdecimal
  have hne : S.formatFloat (S.quotient duration unit) ++ suffix ≠ [] := by simp [hnumber]
  refine ⟨S.scaled back unit, ?_⟩
  rw [hformat, parseDuration, formatDurationUnit, List.isEmpty_eq_false_iff.mpr hne,
    splitValueUnit_append hdecimal hunit]
  simp only [reject, ok_bind, validateNumber_decimal hdecimal, hback, Except.mapError]
  rfl

theorem of_mem_formatDuration {duration : Int} (h : 0 ≤ duration) {b : Char}
    (hb : b ∈ formatDuration S duration) : Plain b ∧ b ≠ ',' := by
  obtain ⟨unit, suffix, hunit, hpos, hformat⟩ := exists_formatDuration (S := S) duration
  rw [hformat, formatDurationUnit, List.mem_append] at hb
  have hdigit : ∀ {digits : Text}, IsDigits digits → b ∈ digits → Plain b ∧ b ≠ ',' :=
    fun hdigits hb => plain_of_isNameChar (isNameChar_of_digit (hdigits.2 b hb))
  obtain hb | hb := hb
  · obtain hdigits | ⟨whole, fraction, hwhole, hfraction, heq⟩ :=
      S.format_decimal (S.quotient_nonNegative h hpos)
    · exact hdigit hdigits hb
    · rw [heq, List.mem_append, List.mem_cons] at hb
      obtain hb | rfl | hb := hb
      · exact hdigit hwhole hb
      · decide
      · exact hdigit hfraction hb
  · have hletters : (units.all fun candidate => candidate.1.all fun b => Plain b ∧ b ≠ ',') = true :=
      by decide
    exact of_decide_eq_true (List.all_eq_true.mp (List.all_eq_true.mp hletters _ hunit) b hb)

/-! ### Reading entries -/

structure IsEntry (e : Entry) : Prop where
  name : IsName e.name
  duration : 0 ≤ e.duration
  attributes : ∀ pair ∈ e.attributes.entries, IsAttribute pair

theorem isEntry_of_validate {e : Entry} (h : validate e = .ok ()) : IsEntry e := by
  obtain ⟨_, hname, h⟩ := bind_eq_ok h
  obtain ⟨_, hduration, h⟩ := bind_eq_ok h
  refine ⟨isName_of_checkName hname, ?_, fun pair hpair =>
    isAttribute_of_checkAttribute (forM_eq_ok h pair hpair)⟩
  by_contra hnegative
  rw [reject, decide_eq_true (Int.not_le.mp hnegative)] at hduration
  cases hduration

theorem plain_of_mem_labels {attributes : GoMap Text Text}
    (hvalid : ∀ pair ∈ attributes.entries, IsAttribute pair) {b : Char}
    (hb : b ∈ joined ((sortedAttributes attributes).map label)) : Plain b := by
  obtain rfl | ⟨part, hpart, hb⟩ := mem_joined hb
  · decide
  · obtain ⟨pair, hpair, rfl⟩ := List.mem_map.mp hpart
    exact plain_of_mem_label (hvalid pair ((sortedAttributes_perm attributes).subset hpair)) hb

theorem hasWhitespace_format {e : Entry} (h : IsEntry e) : hasWhitespace (format S e) = false := by
  refine List.any_eq_false.mpr fun b hb => Bool.not_eq_true _ ▸ ?_
  rw [format, List.mem_append, List.mem_append, List.mem_cons] at hb
  obtain hb | hb | rfl | hb := hb
  · exact (plain_of_isNameChar (isNameChar_of_mem h.name hb)).1.1
  · unfold formatAttributes at hb
    split at hb
    · rw [List.cons_append, List.mem_cons, List.mem_append, List.mem_singleton] at hb
      obtain rfl | hb | rfl := hb
      · decide
      · exact (plain_of_mem_labels h.attributes hb).1
      · decide
    · cases hb
  · decide
  · exact (of_mem_formatDuration h.duration hb).1.1

theorem exists_format_eq_cons {e : Entry} (h : IsEntry e) :
    ∃ b rest, format S e = b :: rest ∧ isNameStart b = true := by
  obtain ⟨b, tail, hname, hb, -⟩ := h.name
  exact ⟨b, _, by rw [format, hname, List.cons_append], hb⟩

/-- The entry that was read agrees with the one that was written. -/
def Agrees (e read : Entry) : Prop :=
  read.name = e.name ∧ read.attributes.entries ~ e.attributes.entries

theorem parseEntry_format {e : Entry} (h : IsEntry e) :
    ∃ read, parseEntry S (format S e) = .ok read ∧ Agrees e read := by
  obtain ⟨b, rest, hcons, -⟩ := exists_format_eq_cons (S := S) h
  have hne : format S e ≠ [] := by simp [hcons]
  obtain ⟨attributes, hattributes, hperm⟩ :=
    parseAttributes_format h.attributes (formatDuration S e.duration)
  obtain ⟨back, hback⟩ := parseDuration_format (S := S) h.duration
  have hdurationNe : formatDuration S e.duration ≠ [] := by
    intro hnil
    rw [hnil] at hback
    cases hback
  have hname : parseName (format S e) =
      .ok (e.name, formatAttributes e.attributes ++ '=' :: formatDuration S e.duration) := by
    refine parseName_append h.name ?_
    unfold formatAttributes
    split
    · rintro b ⟨⟩; decide
    · rintro b ⟨⟩; decide
  refine ⟨⟨e.name, attributes, back⟩, ?_, rfl, hperm⟩
  rw [parseEntry, List.isEmpty_eq_false_iff.mpr hne, hasWhitespace_format h, hname]
  simp only [reject, ok_bind, hattributes, expectEquals,
    List.isEmpty_eq_false_iff.mpr hdurationNe, hback]
  rfl

theorem splitLoop_plain {text : Text} (hplain : ∀ b ∈ text, Plain b) {braceDepth : Nat}
    (hcomma : braceDepth = 0 → ',' ∉ text) (part rest : Text) :
    splitLoop part braceDepth (text ++ rest) = splitLoop (part ++ text) braceDepth rest := by
  induction text generalizing part with
  | nil => rw [List.nil_append, List.append_nil]
  | cons b text ih =>
    have hb := hplain b List.mem_cons_self
    have hseparator : ¬ (b = ',' ∧ braceDepth = 0) := by
      rintro ⟨rfl, hzero⟩
      exact hcomma hzero List.mem_cons_self
    rw [List.cons_append, splitLoop, if_neg hb.2.1, if_neg hb.2.2, if_neg hseparator,
      ih (fun c hc => hplain c (List.mem_cons_of_mem b hc))
        (fun hzero hmem => hcomma hzero (List.mem_cons_of_mem b hmem)),
      List.append_assoc, List.singleton_append]

theorem splitLoop_attributes {attributes : GoMap Text Text}
    (hvalid : ∀ pair ∈ attributes.entries, IsAttribute pair) (part rest : Text) :
    splitLoop part 0 (formatAttributes attributes ++ rest) =
      splitLoop (part ++ formatAttributes attributes) 0 rest := by
  unfold formatAttributes
  split
  · rw [List.cons_append, List.cons_append, splitLoop, if_pos rfl, List.append_assoc,
      splitLoop_plain (fun b hb => plain_of_mem_labels hvalid hb)
        (fun hzero => absurd hzero (by decide)), List.singleton_append, splitLoop,
      if_neg (by decide), if_pos rfl, if_neg (by decide)]
    simp
  · rw [List.nil_append, List.append_nil]

theorem splitLoop_format {e : Entry} (h : IsEntry e) (rest : Text) :
    splitLoop [] 0 (format S e ++ rest) = splitLoop (format S e) 0 rest := by
  have hname := fun b hb => plain_of_isNameChar (isNameChar_of_mem h.name (b := b) hb)
  have hduration := fun b hb => of_mem_formatDuration (S := S) h.duration (b := b) hb
  have htail : ∀ b ∈ '=' :: formatDuration S e.duration, Plain b ∧ b ≠ ',' := by
    intro b hb
    obtain rfl | hb := List.mem_cons.mp hb
    · decide
    · exact hduration b hb
  rw [format, List.append_assoc, List.append_assoc,
    splitLoop_plain (fun b hb => (hname b hb).1) (fun _ hmem => (hname _ hmem).2 rfl),
    splitLoop_attributes h.attributes,
    splitLoop_plain (fun b hb => (htail b hb).1) (fun _ hmem => (htail _ hmem).2 rfl)]
  simp

theorem splitEntries_joined {entries : List Entry} (hne : entries ≠ [])
    (hvalid : ∀ e ∈ entries, IsEntry e) :
    splitEntries (joined (entries.map (format S))) = .ok (entries.map (format S)) := by
  unfold splitEntries
  induction entries with
  | nil => exact absurd rfl hne
  | cons e entries ih =>
    have he := hvalid e List.mem_cons_self
    have hsplit := splitLoop_format (S := S) he
    obtain ⟨b, rest, hcons, -⟩ := exists_format_eq_cons (S := S) he
    have hpart : format S e ≠ [] := by simp [hcons]
    cases entries with
    | nil =>
      have hend := hsplit []
      rw [List.append_nil, splitLoop, if_neg (by simp), if_neg hpart] at hend
      exact hend
    | cons next entries =>
      have htail := ih (List.cons_ne_nil _ _) fun e he => hvalid e (List.mem_cons_of_mem _ he)
      rw [List.map_cons, List.map_cons, joined_cons, ← List.map_cons, hsplit, splitLoop,
        if_neg (by decide), if_neg (by decide), if_pos ⟨rfl, rfl⟩, if_neg hpart, htail]
      rfl

theorem mapM_parseEntry {entries : List Entry} (hvalid : ∀ e ∈ entries, IsEntry e) :
    ∃ read, (entries.map (format S)).mapM (parseEntry S) = .ok read ∧
      List.Forall₂ Agrees entries read := by
  induction entries with
  | nil => exact ⟨[], rfl, .nil⟩
  | cons e entries ih =>
    obtain ⟨first, hfirst, hagrees⟩ := parseEntry_format (S := S) (hvalid e List.mem_cons_self)
    obtain ⟨read, hread, hall⟩ := ih fun e he => hvalid e (List.mem_cons_of_mem _ he)
    refine ⟨first :: read, ?_, .cons hagrees hall⟩
    rw [List.map_cons, List.mapM_cons, hfirst, hread]
    rfl

/-- Valid entries, written and joined by commas, are read back with the same names and the same
attributes, in the same order. -/
theorem parseEntries_format (S : Strconv F) {entries : List Entry} (hne : entries ≠ [])
    (hvalid : ∀ e ∈ entries, validate e = .ok ()) :
    ∃ read, parseEntries S (joined (entries.map (format S))) = .ok read ∧
      List.Forall₂ Agrees entries read := by
  have hentries : ∀ e ∈ entries, IsEntry e := fun e he => isEntry_of_validate (hvalid e he)
  have hwhitespace : hasWhitespace (joined (entries.map (format S))) = false := by
    refine List.any_eq_false.mpr fun b hb => ?_
    obtain rfl | ⟨part, hpart, hb⟩ := mem_joined hb
    · decide
    · obtain ⟨e, he, rfl⟩ := List.mem_map.mp hpart
      exact List.any_eq_false.mp (hasWhitespace_format (hentries e he)) b hb
  have hblank : (joined (entries.map (format S))).all isSpaceRune = false := by
    obtain ⟨e, rest, rfl⟩ := List.exists_cons_of_ne_nil hne
    obtain ⟨b, tail, hcons, hb⟩ := exists_format_eq_cons (S := S) (hentries e List.mem_cons_self)
    obtain ⟨tail', htail'⟩ := exists_joined_cons (format S e) (rest.map (format S))
    rw [List.map_cons, htail', hcons, List.cons_append, List.all_cons, isSpaceRune_of_isNameStart hb]
    rfl
  obtain ⟨read, hread, hagrees⟩ := mapM_parseEntry (S := S) hentries
  refine ⟨read, ?_, hagrees⟩
  rw [parseEntries, hblank, hwhitespace, splitEntries_joined hne hentries]
  exact hread

/-- Numbers in thousandths, of which 1.5 is written as it is and all others as the digit one. -/
def sampleStrconv : Strconv Int where
  quotient duration unit := duration * 1000 / unit
  scaled value unit := value * unit / 1000
  formatFloat value := if value = 1500 then ['1', '.', '5'] else ['1']
  parseFloat text := .ok (if text = ['1', '.', '5'] then 1500 else 1000)
  NonNegative _ := True
  quotient_nonNegative _ _ := trivial
  format_decimal _ := by
    have hdigit (c : Char) (hc : '0' ≤ c ∧ c ≤ '9') : IsDigits [c] :=
      ⟨by simp, List.forall_mem_singleton.mpr hc⟩
    split
    · exact .inr ⟨['1'], ['5'], hdigit _ (by decide), hdigit _ (by decide), rfl⟩
    · exact .inl (hdigit _ (by decide))
  parse_format _ := ⟨_, rfl⟩

def cacheGet : Entry :=
  ⟨"cache_get".toList, ⟨[("b".toList, "\"x:y\"".toList), ("a".toList, "1".toList)], by decide⟩, 1500⟩

theorem parseEntries_format_two :
    ∃ read, parseEntries sampleStrconv (joined ([cacheGet, cacheGet].map (format sampleStrconv))) =
      .ok read ∧ List.Forall₂ Agrees [cacheGet, cacheGet] read :=
  parseEntries_format sampleStrconv (by decide) (by decide)

end Unkey.Timing
