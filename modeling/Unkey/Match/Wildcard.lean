import Unkey.Base.Fallible
import Unkey.Base.Regex

/-!
# Wildcards of rate limit overrides

`Wildcard` of `pkg/match` turns a pattern into a regular expression, byte by byte.
-/

namespace Unkey.Match

open Unkey.Base

def latin1 (text : String) : List Char :=
  (text.toList.flatMap String.utf8EncodeChar).map fun ch => Char.ofNat ch.toNat

def special : List Char := ['.', '^', '$', '+', '?', '{', '}', '[', ']', '(', ')', '|', '\\']

def translate (ch : Char) : List Char :=
  if ch = '*' then ['.', '*']
  else if ch ∈ special then ['\\', ch]
  else [ch]

def regexPattern (pattern : String) : List Char :=
  ['^'] ++ (latin1 pattern).flatMap translate ++ ['$']

def wildcard (s pattern : String) : Except Regex.ParseError Bool :=
  if '*' ∉ pattern.toList then .ok (s = pattern)
  else Regex.matchString (regexPattern pattern) s.toList

/-! ### What a pattern stands for -/

/-- The text is the pattern with each star replaced by a text of allowed characters. -/
inductive Fills (allowed : Char → Prop) : (pattern text : List Char) → Prop
  | nil : Fills allowed [] []
  | char {c : Char} {pattern text : List Char} (hc : c ≠ '*') (h : Fills allowed pattern text) :
      Fills allowed (c :: pattern) (c :: text)
  | star {pattern text : List Char} (part : List Char) (hpart : ∀ c ∈ part, allowed c)
      (h : Fills allowed pattern text) : Fills allowed ('*' :: pattern) (part ++ text)

/-! ### The expression of a pattern -/

def tokens (ch : Char) : List Regex.Token :=
  if ch = '*' then [.atom .any, .star] else [.atom (.char ch)]

def piece (ch : Char) : Regex.Piece := if ch = '*' then ⟨.any, true⟩ else ⟨.char ch, false⟩

theorem lex_translate (ch : Char) {text : List Char} {ts : List Regex.Token}
    (h : Regex.lex text = .ok ts) : Regex.lex (translate ch ++ text) = .ok (tokens ch ++ ts) := by
  rw [translate, tokens]
  split
  · exact Regex.lex_cons (by decide) rfl (Regex.lex_cons (by decide) rfl h)
  rename_i hstar
  split
  · rename_i hspecial
    refine Regex.lex_escaped ?_ h
    have hpunct : ∀ c ∈ special, decide (Regex.escaped c = .ok (.atom (.char c))) = true :=
      List.all_eq_true.mp (by decide)
    exact of_decide_eq_true (hpunct ch hspecial)
  · rename_i hplain
    -- whatever means something in an expression is escaped
    have hne : ∀ c ∈ special, ch ≠ c := fun c hc heq => hplain (heq ▸ hc)
    have hoperator : ch ∉ Regex.operators := by
      have hsub : ∀ c ∈ Regex.operators, decide (c ∈ special) = true :=
        List.all_eq_true.mp (by decide)
      exact fun hmem => hplain (of_decide_eq_true (hsub ch hmem))
    refine Regex.lex_cons (hne _ (by decide)) ?_ h
    rw [Regex.token, if_neg (hne _ (by decide)), if_neg (hne _ (by decide)),
      if_neg (hne _ (by decide)), if_neg hstar, if_neg hoperator]

theorem lex_pattern (cs : List Char) : Regex.lex (cs.flatMap translate ++ ['$']) =
    .ok (cs.flatMap tokens ++ [.atom .endText]) := by
  induction cs with
  | nil => rfl
  | cons c cs ih => grind [List.append_assoc, lex_translate]

theorem tokens_pattern (cs : List Char) :
    ∃ a ts, cs.flatMap tokens ++ [.atom .endText] = .atom a :: ts := by
  cases cs with
  | nil => exact ⟨_, _, rfl⟩
  | cons c cs =>
    rw [List.flatMap_cons, tokens]
    split <;> exact ⟨_, _, rfl⟩

theorem group_pattern (cs : List Char) : Regex.group (cs.flatMap tokens ++ [.atom .endText]) =
    .ok (cs.map piece ++ [⟨.endText, false⟩]) := by
  induction cs with
  | nil => rfl
  | cons c cs ih =>
    obtain ⟨b, ts, hts⟩ := tokens_pattern cs
    rw [hts] at ih
    rw [List.flatMap_cons, List.append_assoc, hts, List.map_cons, tokens, piece]
    split
    · exact Regex.group_star ih
    · exact Regex.group_atom ih

theorem parse_regexPattern (pattern : String) : Regex.parse (regexPattern pattern) =
    .ok (Regex.anchored ((latin1 pattern).map piece)) := by
  have hlex : Regex.lex (regexPattern pattern) =
      .ok (.atom .beginText :: ((latin1 pattern).flatMap tokens ++ [.atom .endText])) := by
    rw [regexPattern, List.append_assoc]
    exact Regex.lex_cons (by decide) rfl (lex_pattern _)
  have hgroup := group_pattern (latin1 pattern)
  obtain ⟨b, ts, hts⟩ := tokens_pattern (latin1 pattern)
  rw [hts] at hgroup hlex
  rw [Regex.parse, hlex]
  exact Regex.group_atom hgroup

def inLine (c : Char) : Prop := c ≠ '\n'

theorem matches_pattern_iff {cs before text after : List Char} :
    Regex.Matches (cs.map piece) before text after ↔ Fills inLine cs text := by
  induction cs generalizing before text with
  | nil =>
    rw [List.map_nil, Regex.matches_nil_iff]
    constructor
    · rintro rfl
      exact .nil
    · intro h
      cases h
      rfl
  | cons c cs ih =>
    rw [List.map_cons, Regex.matches_cons_iff]
    simp only [ih]
    by_cases hstar : c = '*'
    · subst hstar
      have haccepts : ∀ d, Regex.Atom.any.accepts d = true ↔ inLine d := by
        simp [Regex.Atom.accepts, inLine]
      simp only [piece, if_true, Regex.star_matches_iff, haccepts]
      constructor
      · rintro ⟨part, tail, rfl, hpart, h⟩
        exact .star part hpart h
      · intro h
        cases h with
        | char hc => exact absurd rfl hc
        | star part hpart h => exact ⟨part, _, rfl, hpart, h⟩
    · simp only [piece, if_neg hstar, Regex.once_matches_iff, Regex.Atom.Matches]
      constructor
      · rintro ⟨_, tail, rfl, rfl, h⟩
        exact .char hstar h
      · intro h
        cases h with
        | char hc h => exact ⟨[c], _, rfl, rfl, h⟩
        | star => exact absurd rfl hstar

theorem wildcard_eq (s pattern : String) : ∃ b, wildcard s pattern = .ok b ∧ (b = true ↔
    if '*' ∈ pattern.toList then Fills inLine (latin1 pattern) s.toList else s = pattern) := by
  by_cases hstar : '*' ∈ pattern.toList
  · refine ⟨Regex.search (Regex.anchored ((latin1 pattern).map piece)) s.toList, ?_, ?_⟩
    · rw [wildcard, if_neg (not_not.mpr hstar), Regex.matchString, parse_regexPattern]
      rfl
    · rw [if_pos hstar, Regex.search_anchored_iff, matches_pattern_iff]
  · exact ⟨decide (s = pattern), if_pos hstar, by rw [if_neg hstar, decide_eq_true_iff]⟩

/-! ### Characters beyond ASCII -/

def IsAscii (text : String) : Prop := ∀ c ∈ text.toList, c.toNat < 128

instance (text : String) : Decidable (IsAscii text) :=
  List.decidableBAll (fun c : Char => c.toNat < 128) text.toList

def bytesOf (c : Char) : List Char :=
  (String.utf8EncodeChar c).map fun ch => Char.ofNat ch.toNat

theorem latin1_eq (text : String) : latin1 text = text.toList.flatMap bytesOf := by
  rw [latin1, List.map_flatMap]
  rfl

theorem bytesOf_of_lt {c : Char} (h : c.toNat < 128) : bytesOf c = [c] := by
  have hle : c.val.toNat ≤ 127 := Nat.le_of_lt_succ h
  have hbyte : (UInt8.ofNat c.val.toNat).toNat = c.toNat := by
    rw [UInt8.toNat_ofNat']
    exact Nat.mod_eq_of_lt (by omega)
  rw [bytesOf, String.utf8EncodeChar, if_pos hle, List.map_singleton, hbyte, Char.ofNat_toNat]

theorem latin1_of_isAscii {text : String} (h : IsAscii text) : latin1 text = text.toList := by
  have hall : ∀ cs : List Char, (∀ c ∈ cs, c.toNat < 128) → cs.flatMap bytesOf = cs := by
    intro cs hcs
    induction cs with
    | nil => rfl
    | cons c cs ih =>
      rw [List.flatMap_cons, bytesOf_of_lt (hcs c List.mem_cons_self),
        ih fun d hd => hcs d (List.mem_cons_of_mem _ hd)]
      rfl
  rw [latin1_eq, hall _ h]

theorem utf8EncodeChar_of_ge {c : Char} (h : ¬ c.toNat < 128) :
    2 ≤ (String.utf8EncodeChar c).length ∧ ∀ b ∈ String.utf8EncodeChar c, 128 ≤ b.toNat := by
  have hgt : ¬ c.val.toNat ≤ 127 := fun hle => h (Nat.lt_succ_of_le hle)
  rw [String.utf8EncodeChar, if_neg hgt]
  split
  · refine ⟨by simp, ?_⟩
    simp only [List.forall_mem_cons, UInt8.toNat_ofNat', List.not_mem_nil, false_imp_iff,
      implies_true, and_true]
    omega
  split
  · refine ⟨by simp, ?_⟩
    simp only [List.forall_mem_cons, UInt8.toNat_ofNat', List.not_mem_nil, false_imp_iff,
      implies_true, and_true]
    omega
  · refine ⟨by simp, ?_⟩
    simp only [List.forall_mem_cons, UInt8.toNat_ofNat', List.not_mem_nil, false_imp_iff,
      implies_true, and_true]
    omega

def literals (cs : List Char) : Nat := cs.countP (· ≠ '*')

theorem literals_bytesOf_of_ge {c : Char} (h : ¬ c.toNat < 128) : 2 ≤ literals (bytesOf c) := by
  obtain ⟨hlen, hbytes⟩ := utf8EncodeChar_of_ge h
  have hall : ∀ d ∈ bytesOf c, decide (d ≠ '*') = true := by
    intro d hd
    obtain ⟨b, hb, rfl⟩ := List.mem_map.mp hd
    have hge := hbytes b hb
    have hlt := b.toNat_lt
    rw [decide_eq_true_iff]
    intro heq
    have hvalid : b.toNat.isValidChar := .inl (by omega)
    have hval : (Char.ofNat b.toNat).toNat = b.toNat := by
      rw [Char.ofNat, dif_pos hvalid]
      rfl
    rw [heq] at hval
    have hstar : '*'.toNat = 42 := rfl
    omega
  rw [literals, List.countP_eq_length.mpr hall, bytesOf, List.length_map]
  exact hlen

theorem literals_append (cs ds : List Char) : literals (cs ++ ds) = literals cs + literals ds :=
  List.countP_append

theorem literals_singleton_le (c : Char) : literals [c] ≤ 1 := List.countP_le_length

theorem literals_flatMap (cs : List Char) : literals cs ≤ literals (cs.flatMap bytesOf) ∧
    ((∃ c ∈ cs, ¬ c.toNat < 128) → literals cs < literals (cs.flatMap bytesOf)) := by
  induction cs with
  | nil => simp
  | cons c cs ih =>
    rw [List.flatMap_cons, literals_append, ← List.singleton_append, literals_append]
    have hone := literals_singleton_le c
    by_cases hc : c.toNat < 128
    · rw [bytesOf_of_lt hc]
      refine ⟨by omega, ?_⟩
      rintro ⟨d, hd, hge⟩
      rcases List.mem_cons.mp hd with rfl | hd
      · exact absurd hc hge
      · have := ih.2 ⟨d, hd, hge⟩
        omega
    · have := literals_bytesOf_of_ge hc
      exact ⟨by omega, fun _ => by omega⟩

/-! ### Newlines and lengths of what a pattern stands for -/

variable {allowed : Char → Prop} {pattern text : List Char}

theorem Fills.literals_le (h : Fills allowed pattern text) : literals pattern ≤ text.length := by
  induction h with
  | nil => exact Nat.le_refl 0
  | char hc _ ih => simpa [literals, hc] using ih
  | star part _ _ ih =>
    rw [List.length_append]
    exact Nat.le_trans ih (Nat.le_add_left _ _)

theorem Fills.mono {allowed' : Char → Prop} (hallowed : ∀ c, allowed c → allowed' c)
    (h : Fills allowed pattern text) : Fills allowed' pattern text := by
  induction h with
  | nil => exact .nil
  | char hc _ ih => exact .char hc ih
  | star part hpart _ ih => exact .star part (fun c hc => hallowed c (hpart c hc)) ih

theorem fills_filter (allowed : Char → Prop) (pattern : List Char) :
    Fills allowed pattern (pattern.filter (· ≠ '*')) := by
  induction pattern with
  | nil => exact .nil
  | cons c pattern ih =>
    by_cases hc : c = '*'
    · subst hc
      exact .star [] (by simp) ih
    · rw [List.filter_cons_of_pos (by simpa using hc)]
      exact .char hc ih

theorem fills_iff_of_not_mem (h : '*' ∉ pattern) : Fills allowed pattern text ↔ text = pattern := by
  constructor
  · intro hfills
    induction hfills with
    | nil => rfl
    | char _ _ ih => rw [ih fun hmem => h (List.mem_cons_of_mem _ hmem)]
    | star => exact absurd List.mem_cons_self h
  · rintro rfl
    have hfilter : text.filter (· ≠ '*') = text :=
      List.filter_eq_self.mpr fun c hc => by simpa using fun heq : c = '*' => h (heq ▸ hc)
    have hfills := fills_filter allowed text
    rwa [hfilter] at hfills

theorem Fills.count_le (h : Fills allowed pattern text) :
    pattern.count '\n' ≤ text.count '\n' := by
  induction h with
  | nil => exact Nat.le_refl 0
  | char _ _ ih =>
    rw [List.count_cons, List.count_cons]
    exact Nat.add_le_add_right ih _
  | star part _ _ ih => grind

theorem fills_inLine_iff : Fills inLine pattern text ↔
    Fills (fun _ => True) pattern text ∧ text.count '\n' ≤ pattern.count '\n' := by
  constructor
  · intro h
    refine ⟨h.mono fun _ _ => trivial, ?_⟩
    induction h with
    | nil => exact Nat.le_refl 0
    | char _ _ ih =>
      rw [List.count_cons, List.count_cons]
      exact Nat.add_le_add_right ih _
    | star part hpart _ ih =>
      have hnone : part.count '\n' = 0 :=
        List.count_eq_zero.mpr fun hmem => hpart _ hmem rfl
      rw [List.count_cons_of_ne (by decide), List.count_append, hnone, Nat.zero_add]
      exact ih
  · rintro ⟨h, hcount⟩
    induction h with
    | nil => exact .nil
    | char hc _ ih =>
      rw [List.count_cons, List.count_cons] at hcount
      exact .char hc (ih (Nat.le_of_add_le_add_right hcount))
    | star part hpart h ih =>
      rw [List.count_cons_of_ne (by decide), List.count_append] at hcount
      have hle := h.count_le
      have hnone : part.count '\n' = 0 := by omega
      refine .star part (fun c hc heq => ?_) (ih (by omega))
      exact List.count_eq_zero.mp hnone (heq ▸ hc)

/-! ### Agreement -/

/-- `Wildcard` says that the text matches exactly if it can be obtained from the pattern. -/
def Agrees (s pattern : String) : Prop :=
  wildcard s pattern = .ok true ↔ Fills (fun _ => True) pattern.toList s.toList

theorem wildcard_eq_true_iff (s pattern : String) : wildcard s pattern = .ok true ↔
    if '*' ∈ pattern.toList then Fills inLine (latin1 pattern) s.toList else s = pattern := by
  obtain ⟨b, hb, hiff⟩ := wildcard_eq s pattern
  rw [← hiff, hb, Except.ok.injEq]

theorem agrees_of_not_mem {pattern : String} (h : '*' ∉ pattern.toList) (s : String) :
    Agrees s pattern := by
  rw [Agrees, wildcard_eq_true_iff, if_neg h, fills_iff_of_not_mem h, String.toList_inj]

theorem agrees_iff_of_isAscii {pattern : String} (hstar : '*' ∈ pattern.toList)
    (hascii : IsAscii pattern) (s : String) : Agrees s pattern ↔
      (Fills (fun _ => True) pattern.toList s.toList →
        s.toList.count '\n' ≤ pattern.toList.count '\n') := by
  rw [Agrees, wildcard_eq_true_iff, if_pos hstar, latin1_of_isAscii hascii, fills_inLine_iff]
  exact and_iff_left_iff_imp

theorem not_agrees_filter {pattern : String} (hstar : '*' ∈ pattern.toList)
    (hascii : ¬ IsAscii pattern) :
    ¬ Agrees (String.ofList (pattern.toList.filter (· ≠ '*'))) pattern := by
  intro hagrees
  rw [Agrees, wildcard_eq_true_iff, if_pos hstar, String.toList_ofList] at hagrees
  have hle := (hagrees.mpr (fills_filter _ _)).literals_le
  have hbeyond : ∃ c ∈ pattern.toList, ¬ c.toNat < 128 := by
    simpa [IsAscii] using hascii
  have hlt := (literals_flatMap pattern.toList).2 hbeyond
  rw [← List.countP_eq_length_filter] at hle
  rw [latin1_eq] at hle
  exact absurd hle (Nat.not_le.mpr hlt)

/-- `Wildcard` never fails. On texts with no more newlines than the pattern it agrees with the
pattern exactly if this has no star or only ASCII characters; without a star it agrees on every
text, and an ASCII pattern with a star exactly if no star has to stand for a newline. -/
theorem wildcard_agrees (pattern : String) :
    (∀ s, ∃ b, wildcard s pattern = .ok b) ∧
    ((∀ s : String, s.toList.count '\n' ≤ pattern.toList.count '\n' → Agrees s pattern) ↔
      '*' ∉ pattern.toList ∨ IsAscii pattern) ∧
    ('*' ∈ pattern.toList → IsAscii pattern → ∀ s, Agrees s pattern ↔
      (Fills (fun _ => True) pattern.toList s.toList →
        s.toList.count '\n' ≤ pattern.toList.count '\n')) ∧
    ('*' ∉ pattern.toList → ∀ s, Agrees s pattern) := by
  refine ⟨fun s => (wildcard_eq s pattern).imp fun b h => h.1, ⟨?_, ?_⟩, ?_, agrees_of_not_mem⟩
  · intro hall
    by_contra hnot
    rw [not_or, not_not] at hnot
    refine not_agrees_filter hnot.1 hnot.2 (hall _ ?_)
    rw [String.toList_ofList]
    exact List.Sublist.count_le _ List.filter_sublist
  · grind [agrees_of_not_mem, agrees_iff_of_isAscii]
  · exact fun hstar hascii s => agrees_iff_of_isAscii hstar hascii s

/-- The pattern of an example of the documentation, with a text it matches and one it does not. -/
theorem wildcard_agrees_gmail :
    IsAscii "*@gmail.com" ∧ Agrees "test@gmail.com" "*@gmail.com" ∧
      wildcard "test@gmail.com" "*@gmail.com" = .ok true ∧
      wildcard "test@yahoo.com" "*@gmail.com" = .ok false := by
  have hascii : IsAscii "*@gmail.com" := by decide +kernel
  have hagrees := (wildcard_agrees "*@gmail.com").2.1.mpr (.inr hascii) "test@gmail.com"
    (by decide +kernel)
  exact ⟨hascii, hagrees, by decide +kernel, by decide +kernel⟩

/-- A newline is not matched by a star, a character beyond ASCII does not match itself, and other
characters match in its place. -/
theorem wildcard_disagrees :
    (wildcard "a\nb" "a*" = .ok false ∧ Fills (fun _ => True) "a*".toList "a\nb".toList) ∧
      (wildcard "é" "é*" = .ok false ∧ Fills (fun _ => True) "é*".toList "é".toList) ∧
      wildcard "Ã©" "é*" = .ok true ∧ ¬ Fills (fun _ => True) "é*".toList "Ã©".toList := by
  refine ⟨⟨by decide +kernel, ?_⟩, ⟨by decide +kernel, ?_⟩, by decide +kernel, ?_⟩
  · exact .char (by decide) (.star ['\n', 'b'] (by simp) .nil)
  · exact .char (by decide) (.star [] (by simp) .nil)
  · intro h
    cases h

end Unkey.Match
