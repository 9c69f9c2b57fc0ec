import Mathlib.Tactic.Common

/-!
# Regular expressions

The part of RE2 without flags that consists of characters, escaped punctuation, `.`, the two anchors
and `*` behind one of these: its syntax as `regexp` parses it, what it matches, and a matcher that
decides it.
-/

namespace Unkey.Base.Regex

inductive Atom where
  | char (c : Char)
  | any
  | beginText
  | endText
  deriving DecidableEq

structure Piece where
  atom : Atom
  star : Bool
  deriving DecidableEq

/-! ### Syntax -/

inductive ParseError where
  | missingRepeatArgument
  | nestedRepeat
  | trailingBackslash
  | beyond (c : Char)
  deriving DecidableEq

inductive Token where
  | atom (a : Atom)
  | star
  deriving DecidableEq

def operators : List Char := ['+', '?', '{', '}', '[', ']', '(', ')', '|']

def token (c : Char) : Except ParseError Token :=
  if c = '.' then .ok (.atom .any)
  else if c = '^' then .ok (.atom .beginText)
  else if c = '$' then .ok (.atom .endText)
  else if c = '*' then .ok .star
  else if c ∈ operators then .error (.beyond c)
  else .ok (.atom (.char c))

def escaped (c : Char) : Except ParseError Token :=
  if c.toNat < 128 && !c.isAlphanum then .ok (.atom (.char c)) else .error (.beyond c)

def lex : List Char → Except ParseError (List Token)
  | [] => .ok []
  | ['\\'] => .error .trailingBackslash
  | '\\' :: c :: cs => do
    let t ← escaped c
    let ts ← lex cs
    pure (t :: ts)
  | c :: cs => do
    let t ← token c
    let ts ← lex cs
    pure (t :: ts)

def group : List Token → Except ParseError (List Piece)
  | [] => .ok []
  | .star :: _ => .error .missingRepeatArgument
  | .atom _ :: .star :: .star :: _ => .error .nestedRepeat
  | .atom a :: .star :: ts => do
    let ps ← group ts
    pure (⟨a, true⟩ :: ps)
  | .atom a :: ts => do
    let ps ← group ts
    pure (⟨a, false⟩ :: ps)

def parse (text : List Char) : Except ParseError (List Piece) := do
  let ts ← lex text
  group ts

theorem lex_escaped {c : Char} {cs : List Char} {t : Token} {ts : List Token}
    (hc : escaped c = .ok t) (hcs : lex cs = .ok ts) : lex ('\\' :: c :: cs) = .ok (t :: ts) := by
  rw [lex, hc, hcs]
  rfl

theorem lex_cons {c : Char} {cs : List Char} {t : Token} {ts : List Token} (hne : c ≠ '\\')
    (hc : token c = .ok t) (hcs : lex cs = .ok ts) : lex (c :: cs) = .ok (t :: ts) := by
  rw [lex, hc, hcs]
  · rfl
  · simp [hne]
  · simp [hne]

theorem group_atom {a b : Atom} {ts : List Token} {ps : List Piece}
    (h : group (.atom b :: ts) = .ok ps) :
    group (.atom a :: .atom b :: ts) = .ok (⟨a, false⟩ :: ps) := by
  rw [group, h]
  · rfl
  · simp
  · simp

theorem group_star {a b : Atom} {ts : List Token} {ps : List Piece}
    (h : group (.atom b :: ts) = .ok ps) :
    group (.atom a :: .star :: .atom b :: ts) = .ok (⟨a, true⟩ :: ps) := by
  rw [group, h]
  · rfl
  · simp

/-! ### Matching -/

def Atom.accepts : Atom → Char → Bool
  | .char d, c => c = d
  | .any, c => c ≠ '\n'
  | .beginText, _ => false
  | .endText, _ => false

/-- An atom, and then the rest; `start` says whether this is the beginning of the text. -/
def Atom.onceThen (k : List Char → Bool → Bool) : Atom → List Char → (start : Bool) → Bool
  | .beginText, rest, start => start && k rest start
  | .endText, rest, start => rest.isEmpty && k rest start
  | .char _, [], _ => false
  | .char d, c :: cs, _ => (Atom.char d).accepts c && k cs false
  | .any, [], _ => false
  | .any, c :: cs, _ => Atom.any.accepts c && k cs false

def skipThen (accepts : Char → Bool) (k : List Char → Bool → Bool) : List Char → Bool → Bool
  | [], start => k [] start
  | c :: cs, start => k (c :: cs) start || (accepts c && skipThen accepts k cs false)

def matchHere : List Piece → (rest : List Char) → (start : Bool) → Bool
  | [], _, _ => true
  | ⟨a, true⟩ :: ps, rest, start => skipThen a.accepts (matchHere ps) rest start
  | ⟨a, false⟩ :: ps, rest, start => a.onceThen (matchHere ps) rest start

def search (ps : List Piece) (text : List Char) : Bool :=
  skipThen (fun _ => true) (matchHere ps) text true

def matchString (pattern text : List Char) : Except ParseError Bool := do
  let ps ← parse pattern
  pure (search ps text)

/-! ### What is matched -/

def Atom.Matches (before text after : List Char) : Atom → Prop
  | .char c => text = [c]
  | .any => ∃ c, c ≠ '\n' ∧ text = [c]
  | .beginText => before = [] ∧ text = []
  | .endText => text = [] ∧ after = []

inductive Piece.Matches : Piece → (before text after : List Char) → Prop
  | once {a : Atom} {before text after : List Char} (h : a.Matches before text after) :
      Matches ⟨a, false⟩ before text after
  | stop (a : Atom) (before after : List Char) : Matches ⟨a, true⟩ before [] after
  | again {a : Atom} {before text more after : List Char}
      (h : a.Matches before text (more ++ after))
      (hmore : Matches ⟨a, true⟩ (before ++ text) more after) :
      Matches ⟨a, true⟩ before (text ++ more) after

inductive Matches : List Piece → (before text after : List Char) → Prop
  | nil (before after : List Char) : Matches [] before [] after
  | cons {p : Piece} {ps : List Piece} {before text more after : List Char}
      (h : p.Matches before text (more ++ after)) (hmore : Matches ps (before ++ text) more after) :
      Matches (p :: ps) before (text ++ more) after

/-! ### The matcher decides what is matched -/

variable {a : Atom} {ps : List Piece} {before text after rest : List Char}

theorem Atom.Matches.accepts (h : a.Matches before text after) : ∀ c ∈ text, a.accepts c = true := by
  cases a with
  | char c =>
    cases h
    simp [Atom.accepts]
  | any =>
    obtain ⟨c, hc, rfl⟩ := h
    simpa [Atom.accepts] using hc
  | beginText =>
    cases h.2
    simp
  | endText =>
    cases h.1
    simp

theorem Atom.matches_singleton {c : Char} (h : a.accepts c = true) : a.Matches before [c] after := by
  cases a with
  | char d =>
    obtain rfl : c = d := by simpa [Atom.accepts] using h
    rfl
  | any => exact ⟨c, by simpa [Atom.accepts] using h, rfl⟩
  | beginText | endText => cases h

theorem star_matches_iff :
    Piece.Matches ⟨a, true⟩ before text after ↔ ∀ c ∈ text, a.accepts c = true := by
  constructor
  · intro h
    generalize hp : (⟨a, true⟩ : Piece) = p at h
    induction h with
    | once => cases hp
    | stop => simp
    | again hone _ ih =>
      cases hp
      intro c hc
      rcases List.mem_append.mp hc with hc | hc
      · exact hone.accepts c hc
      · exact ih rfl c hc
  · intro h
    induction text generalizing before with
    | nil => exact .stop a before after
    | cons c cs ih =>
      exact .again (Atom.matches_singleton (h c List.mem_cons_self))
        (ih fun d hd => h d (List.mem_cons_of_mem _ hd))

theorem once_matches_iff :
    Piece.Matches ⟨a, false⟩ before text after ↔ a.Matches before text after := by
  constructor
  · intro h
    cases h with
    | once h => exact h
  · exact .once

theorem matches_nil_iff : Matches [] before text after ↔ text = [] := by
  constructor
  · intro h
    cases h
    rfl
  · rintro rfl
    exact .nil before after

theorem matches_cons_iff {p : Piece} : Matches (p :: ps) before text after ↔
    ∃ head tail, text = head ++ tail ∧ p.Matches before head (tail ++ after) ∧
      Matches ps (before ++ head) tail after := by
  constructor
  · intro h
    cases h with
    | cons h hmore => exact ⟨_, _, rfl, h, hmore⟩
  · rintro ⟨head, tail, rfl, h, hmore⟩
    exact .cons h hmore

theorem isEmpty_concat (before : List Char) (c : Char) : (before ++ [c]).isEmpty = false := by simp

theorem accepts_then_iff {c : Char} {cs : List Char} {k : List Char → Bool → Bool}
    (hone : ∀ rest' text, a.Matches before text rest' ↔ ∃ d, a.accepts d = true ∧ text = [d]) :
    (a.accepts c && k cs false) = true ↔ ∃ text rest', c :: cs = text ++ rest' ∧
      a.Matches before text rest' ∧ k rest' (before ++ text).isEmpty = true := by
  rw [Bool.and_eq_true]
  constructor
  · rintro ⟨hc, hk⟩
    exact ⟨[c], cs, rfl, (hone _ _).mpr ⟨c, hc, rfl⟩, by rwa [isEmpty_concat]⟩
  · rintro ⟨text, rest', heq, hmatches, hk⟩
    obtain ⟨d, hd, rfl⟩ := (hone _ _).mp hmatches
    cases heq
    rw [isEmpty_concat] at hk
    exact ⟨hd, hk⟩

theorem onceThen_iff {k : List Char → Bool → Bool} :
    a.onceThen k rest before.isEmpty = true ↔ ∃ text rest', rest = text ++ rest' ∧
      a.Matches before text rest' ∧ k rest' (before ++ text).isEmpty = true := by
  cases a with
  | char d =>
    cases rest with
    | nil => simp [Atom.onceThen, Atom.Matches]
    | cons c cs => exact accepts_then_iff (by simp [Atom.Matches, Atom.accepts])
  | any =>
    cases rest with
    | nil => simp [Atom.onceThen, Atom.Matches]
    | cons c cs => exact accepts_then_iff (by simp [Atom.Matches, Atom.accepts])
  | beginText =>
    rw [Atom.onceThen, Bool.and_eq_true, List.isEmpty_iff]
    constructor
    · rintro ⟨rfl, hk⟩
      exact ⟨[], rest, rfl, ⟨rfl, rfl⟩, by simpa using hk⟩
    · rintro ⟨text, rest', rfl, ⟨rfl, rfl⟩, hk⟩
      exact ⟨rfl, by simpa using hk⟩
  | endText =>
    rw [Atom.onceThen, Bool.and_eq_true, List.isEmpty_iff]
    constructor
    · rintro ⟨rfl, hk⟩
      exact ⟨[], [], rfl, ⟨rfl, rfl⟩, by simpa using hk⟩
    · rintro ⟨text, rest', rfl, ⟨rfl, rfl⟩, hk⟩
      exact ⟨rfl, by simpa using hk⟩

theorem skipThen_iff {accepts : Char → Bool} {k : List Char → Bool → Bool} :
    skipThen accepts k rest before.isEmpty = true ↔
      ∃ text rest', rest = text ++ rest' ∧ (∀ c ∈ text, accepts c = true) ∧
        k rest' (before ++ text).isEmpty = true := by
  induction rest generalizing before with
  | nil => simp [skipThen]
  | cons c cs ih =>
    rw [skipThen, Bool.or_eq_true, Bool.and_eq_true, ← isEmpty_concat before c, ih]
    constructor
    · rintro (h | ⟨hc, text, rest', rfl, htext, h⟩)
      · exact ⟨[], c :: cs, rfl, by simp, by simpa using h⟩
      · exact ⟨c :: text, rest', rfl, by simpa [hc] using htext, by simpa using h⟩
    · rintro ⟨text, rest', heq, htext, h⟩
      cases text with
      | nil =>
        cases heq
        exact .inl (by simpa using h)
      | cons d text =>
        cases heq
        exact .inr ⟨htext _ List.mem_cons_self, text, rest', rfl,
          fun d hd => htext d (List.mem_cons_of_mem _ hd), by simpa using h⟩

theorem matchHere_iff : matchHere ps rest before.isEmpty = true ↔
    ∃ text after, rest = text ++ after ∧ Matches ps before text after := by
  induction ps generalizing rest before with
  | nil => simp [matchHere, matches_nil_iff]
  | cons p ps ih =>
    -- both kinds of pieces match a first part, and the rest goes on behind it
    have hpiece : matchHere (p :: ps) rest before.isEmpty = true ↔
        ∃ text rest', rest = text ++ rest' ∧ p.Matches before text rest' ∧
          matchHere ps rest' (before ++ text).isEmpty = true := by
      obtain ⟨a, star⟩ := p
      cases star with
      | true =>
        simp only [star_matches_iff]
        exact skipThen_iff
      | false =>
        simp only [once_matches_iff]
        exact onceThen_iff
    rw [hpiece]
    simp only [ih, matches_cons_iff]
    constructor
    · rintro ⟨head, _, rfl, hp, tail, after, rfl, hmore⟩
      exact ⟨head ++ tail, after, by simp, head, tail, rfl, hp, hmore⟩
    · rintro ⟨_, after, rfl, head, tail, rfl, hp, hmore⟩
      exact ⟨head, tail ++ after, by simp, hp, tail, after, rfl, hmore⟩

theorem search_iff : search ps text = true ↔
    ∃ before mid after, text = before ++ mid ++ after ∧ Matches ps before mid after := by
  have hskip : search ps text = true ↔ _ := @skipThen_iff [] text (fun _ => true) (matchHere ps)
  rw [hskip]
  simp only [List.nil_append, matchHere_iff]
  constructor
  · rintro ⟨before, _, rfl, -, mid, after, rfl, hmatches⟩
    exact ⟨before, mid, after, by simp, hmatches⟩
  · rintro ⟨before, mid, after, rfl, hmatches⟩
    exact ⟨before, mid ++ after, by simp, by simp, mid, after, rfl, hmatches⟩

/-! ### Anchored expressions -/

theorem matches_append_iff {qs : List Piece} : Matches (ps ++ qs) before text after ↔
    ∃ head tail, text = head ++ tail ∧ Matches ps before head (tail ++ after) ∧
      Matches qs (before ++ head) tail after := by
  induction ps generalizing before text with
  | nil => simp [matches_nil_iff]
  | cons p ps ih => grind [matches_cons_iff]

def anchored (ps : List Piece) : List Piece :=
  ⟨.beginText, false⟩ :: (ps ++ [⟨.endText, false⟩])

theorem search_anchored_iff : search (anchored ps) text = true ↔ Matches ps [] text [] := by
  simp only [search_iff, anchored, matches_cons_iff, matches_append_iff, once_matches_iff,
    matches_nil_iff, Atom.Matches]
  constructor
  · grind
  · grind

end Unkey.Base.Regex
