import Mathlib.Data.List.TakeWhile
import Mathlib.Tactic.Tauto

/-!
# The lexer of permission queries

`lexer` of `pkg/rbac` with its position and its current character, which is NUL at the end of the
input.
-/

namespace Unkey.Rbac

inductive TokenType where
  | permission
  | and
  | or
  | lparen
  | rparen
  | eof
  | errorToken
  deriving DecidableEq

structure Token where
  typ : TokenType
  value : String
  pos : Nat
  deriving DecidableEq

structure Lexer where
  input : List Char
  pos : Nat
  ch : Char
  deriving DecidableEq

def nul : Char := '\x00'

def isLetter (ch : Char) : Bool :=
  ch.isAlpha || ch.toNat = 0xAA || ch.toNat = 0xB5 || ch.toNat = 0xBA ||
    (0xC0 ≤ ch.toNat && ch.toNat ≤ 0xFF && ch.toNat ≠ 0xD7 && ch.toNat ≠ 0xF7)

def isValidPermissionChar (ch : Char) : Bool :=
  isLetter ch || ch.isDigit || ch = '.' || ch = '_' || ch = '-' || ch = '*' || ch = ':' || ch = '/'

def isBlank (ch : Char) : Bool := ch = ' ' || ch = '\t' || ch = '\n' || ch = '\r'

namespace Lexer

def readChar (l : Lexer) : Lexer := { l with ch := l.input.getD l.pos nul, pos := l.pos + 1 }

def new (input : List Char) : Lexer := readChar ⟨input, 0, nul⟩

/-- `for p(l.ch) { l.readChar() }`, with what lies behind the current character. -/
def readWhile (p : Char → Bool) : (rest : List Char) → Lexer → Lexer
  | [], l => if p l.ch then l.readChar else l
  | _ :: rest, l => if p l.ch then readWhile p rest l.readChar else l

def skipWhitespace (l : Lexer) : Lexer := readWhile isBlank (l.input.drop l.pos) l

def readIdentifier (l : Lexer) : List Char × Lexer :=
  let position := l.pos - 1
  let l := readWhile isValidPermissionChar (l.input.drop l.pos) l
  ((l.input.drop position).take (l.pos - 1 - position), l)

def isCompleteWord (l : Lexer) (startPos : Nat) (identifier : List Char) : Bool :=
  let endPos := startPos + identifier.length
  if 0 < startPos ∧ (l.input[startPos - 1]?).any isValidPermissionChar then false
  else if endPos < l.input.length ∧ (l.input[endPos]?).any isValidPermissionChar then false
  else true

def invalidCharacter (ch : Char) (pos : Nat) : String :=
  "invalid character '" ++ ch.toString ++ "' at position " ++ toString pos ++ " in query"

def identifierToken (l : Lexer) (pos : Nat) (identifier : List Char) : Token :=
  let upperIdent := identifier.map Char.toUpper
  if upperIdent = ['A', 'N', 'D'] ∧ l.isCompleteWord pos identifier then
    ⟨.and, String.ofList identifier, pos⟩
  else if upperIdent = ['O', 'R'] ∧ l.isCompleteWord pos identifier then
    ⟨.or, String.ofList identifier, pos⟩
  else ⟨.permission, String.ofList identifier, pos⟩

def scan (l : Lexer) : Token × Lexer :=
  if l.ch = '(' then (⟨.lparen, l.ch.toString, l.pos - 1⟩, l.readChar)
  else if l.ch = ')' then (⟨.rparen, l.ch.toString, l.pos - 1⟩, l.readChar)
  else if l.ch = nul then (⟨.eof, "", l.pos - 1⟩, l)
  else if isValidPermissionChar l.ch then
    (l.readIdentifier.2.identifierToken (l.pos - 1) l.readIdentifier.1, l.readIdentifier.2)
  else (⟨.errorToken, invalidCharacter l.ch (l.pos - 1), l.pos - 1⟩, l.readChar)

def nextToken (l : Lexer) : Token × Lexer := l.skipWhitespace.scan

end Lexer

/-! ### Lexemes -/

inductive Lexeme where
  | permission (value : String)
  | and
  | or
  | lparen
  | rparen
  | other (ch : Char)
  deriving DecidableEq

def isWordChar (ch : Char) : Bool := ch.isAlphanum || ch ∈ ['_', ':', '.', '*', '/', '-']

def Lexeme.ofRun (run : List Char) : Lexeme :=
  if run.map Char.toUpper = ['A', 'N', 'D'] then .and
  else if run.map Char.toUpper = ['O', 'R'] then .or
  else .permission (String.ofList run)

/-- The lexemes of a text: maximal runs and parentheses, with blanks between them. -/
inductive Splits : List Char → List Lexeme → Prop
  | nil : Splits [] []
  | blank {c : Char} {cs : List Char} {ls : List Lexeme} (hc : isBlank c = true)
      (hcs : Splits cs ls) : Splits (c :: cs) ls
  | lparen {cs : List Char} {ls : List Lexeme} (hcs : Splits cs ls) :
      Splits ('(' :: cs) (.lparen :: ls)
  | rparen {cs : List Char} {ls : List Lexeme} (hcs : Splits cs ls) :
      Splits (')' :: cs) (.rparen :: ls)
  | run {run cs : List Char} {ls : List Lexeme} (hne : run ≠ [])
      (hrun : ∀ c ∈ run, isWordChar c = true) (hmax : ∀ c ∈ cs.head?, isWordChar c = false)
      (hcs : Splits cs ls) : Splits (run ++ cs) (Lexeme.ofRun run :: ls)
  | other {c : Char} {cs : List Char} {ls : List Lexeme} (hblank : isBlank c = false)
      (hparen : c ≠ '(' ∧ c ≠ ')') (hword : isWordChar c = false) (hcs : Splits cs ls) :
      Splits (c :: cs) (.other c :: ls)

def Ascii (cs : List Char) : Prop := ∀ c ∈ cs, c.toNat < 128 ∧ c ≠ nul

instance (cs : List Char) : Decidable (Ascii cs) :=
  List.decidableBAll (fun c : Char => c.toNat < 128 ∧ c ≠ nul) cs

theorem isLetter_eq {c : Char} (hc : c.toNat < 128) : isLetter c = c.isAlpha := by
  rw [Bool.eq_iff_iff]
  simp only [isLetter, Bool.or_eq_true, Bool.and_eq_true, decide_eq_true_eq]
  constructor
  · rintro ((((h | h) | h) | h) | h)
    · exact h
    all_goals omega
  · exact fun h => .inl (.inl (.inl (.inl h)))

theorem isValidPermissionChar_eq {c : Char} (hc : c.toNat < 128) :
    isValidPermissionChar c = isWordChar c := by
  rw [isValidPermissionChar, isLetter_eq hc, Bool.eq_iff_iff]
  simp only [isWordChar, Char.isAlphanum, Bool.or_eq_true, decide_eq_true_eq, List.mem_cons,
    List.not_mem_nil, or_false]
  tauto

/-! ### The lexemes of a text -/

theorem head_dropWhile (p : Char → Bool) (cs : List Char) :
    ∀ c ∈ (cs.dropWhile p).head?, p c = false := by
  intro c hc
  have h := List.head?_dropWhile_not p cs
  rw [Option.mem_def.mp hc] at h
  simpa using h

theorem isWordChar_of_isBlank {c : Char} (h : isBlank c = true) :
    isWordChar c = false ∧ c ≠ '(' ∧ c ≠ ')' := by
  simp only [isBlank, Bool.or_eq_true, decide_eq_true_eq] at h
  rcases h with ((rfl | rfl) | rfl) | rfl <;> decide

namespace Splits

variable {c : Char} {cs : List Char} {ls : List Lexeme}

theorem run_while (hc : isWordChar c = true)
    (hls : Splits ((c :: cs).dropWhile isWordChar) ls) :
    Splits (c :: cs) (Lexeme.ofRun ((c :: cs).takeWhile isWordChar) :: ls) := by
  have hne : (c :: cs).takeWhile isWordChar ≠ [] := by simp [hc]
  have hrun := Splits.run hne (fun _ h => List.mem_takeWhile_imp h)
    (head_dropWhile isWordChar (c :: cs)) hls
  rwa [List.takeWhile_append_dropWhile] at hrun

theorem total (cs : List Char) : ∃ ls, Splits cs ls := by
  induction hn : cs.length using Nat.strong_induction_on generalizing cs with
  | _ n ih =>
    cases cs with
    | nil => exact ⟨[], .nil⟩
    | cons c cs =>
      rw [List.length_cons] at hn
      obtain ⟨ls, hls⟩ := ih cs.length (by omega) cs rfl
      cases hblank : isBlank c with
      | true => exact ⟨ls, .blank hblank hls⟩
      | false =>
        cases hword : isWordChar c with
        | true =>
          have hlen : ((c :: cs).dropWhile isWordChar).length < n := by
            grind [List.length_dropWhile_le, isWordChar, List.dropWhile_cons_of_pos]
          obtain ⟨ls, hls⟩ := ih _ hlen _ rfl
          exact ⟨_, run_while hword hls⟩
        | false =>
          by_cases hl : c = '('
          · subst hl
            exact ⟨_, .lparen hls⟩
          · by_cases hr : c = ')'
            · subst hr
              exact ⟨_, .rparen hls⟩
            · exact ⟨_, .other hblank ⟨hl, hr⟩ hword hls⟩

theorem of_nil (h : Splits [] ls) : ls = [] := by
  generalize htext : ([] : List Char) = text at h
  cases h with
  | nil => rfl
  | run hne =>
    rename_i run cs ls _ _ _
    exact absurd (List.append_eq_nil_iff.mp htext.symm).1 hne
  | _ => cases htext

theorem takeWhile_run {run : List Char} (hrun : ∀ c ∈ run, isWordChar c = true)
    (hmax : ∀ c ∈ cs.head?, isWordChar c = false) :
    (run ++ cs).takeWhile isWordChar = run ∧ (run ++ cs).dropWhile isWordChar = cs := by
  rw [List.takeWhile_append_of_pos hrun, List.dropWhile_append_of_pos hrun]
  cases cs with
  | nil => simp
  | cons c cs => simp_all

theorem cons_cases (h : Splits (c :: cs) ls) :
    (isBlank c = true ∧ Splits cs ls) ∨
    (c = '(' ∧ ∃ ls', ls = .lparen :: ls' ∧ Splits cs ls') ∨
    (c = ')' ∧ ∃ ls', ls = .rparen :: ls' ∧ Splits cs ls') ∨
    (isWordChar c = true ∧ ∃ ls', ls = Lexeme.ofRun ((c :: cs).takeWhile isWordChar) :: ls' ∧
      Splits ((c :: cs).dropWhile isWordChar) ls') ∨
    (isBlank c = false ∧ (c ≠ '(' ∧ c ≠ ')') ∧ isWordChar c = false ∧
      ∃ ls', ls = .other c :: ls' ∧ Splits cs ls') := by
  generalize htext : c :: cs = text at h
  cases h with
  | nil => cases htext
  | blank hc hcs =>
    cases htext
    exact .inl ⟨hc, hcs⟩
  | lparen hcs =>
    cases htext
    exact .inr (.inl ⟨rfl, _, rfl, hcs⟩)
  | rparen hcs =>
    cases htext
    exact .inr (.inr (.inl ⟨rfl, _, rfl, hcs⟩))
  | @run run cs' ls' hne hrun hmax hcs =>
    obtain ⟨htake, hdrop⟩ := takeWhile_run hrun hmax
    rw [htake, hdrop]
    cases run with
    | nil => exact absurd rfl hne
    | cons d run =>
      cases htext
      exact .inr (.inr (.inr (.inl ⟨hrun _ List.mem_cons_self, _, rfl, hcs⟩)))
  | other hblank hparen hword hcs =>
    cases htext
    exact .inr (.inr (.inr (.inr ⟨hblank, hparen, hword, _, rfl, hcs⟩)))

theorem dropWhile_isBlank (h : Splits cs ls) : Splits (cs.dropWhile isBlank) ls := by
  induction cs with
  | nil => exact h
  | cons c cs ih =>
    cases hblank : isBlank c with
    | false =>
      rw [List.dropWhile_cons_of_neg (by simp [hblank])]
      exact h
    | true =>
      rw [List.dropWhile_cons_of_pos hblank]
      obtain ⟨hword, hl, hr⟩ := isWordChar_of_isBlank hblank
      rcases h.cons_cases with ⟨-, hcs⟩ | ⟨hc, -⟩ | ⟨hc, -⟩ | ⟨hc, -⟩ | ⟨hc, -⟩
      · exact ih hcs
      · exact absurd hc hl
      · exact absurd hc hr
      · exact absurd hc (by simp [hword])
      · exact absurd hc (by simp [hblank])

end Splits

/-! ### What the lexer reads -/

namespace Lexer

variable {l : Lexer} {pre cs : List Char} {c : Char} {ls : List Lexeme}

structure At (l : Lexer) (pre cs : List Char) : Prop where
  input : l.input = pre ++ cs
  pos : l.pos = pre.length + 1
  ch : l.ch = cs.headD nul

theorem At.readChar (h : l.At pre (c :: cs)) : l.readChar.At (pre ++ [c]) cs := by
  refine ⟨?_, ?_, ?_⟩
  · simp [Lexer.readChar, h.input]
  · simp [Lexer.readChar, h.pos]
  · simp only [Lexer.readChar, h.input, h.pos]
    rw [List.getD_eq_getElem?_getD, List.getElem?_append_right (by omega)]
    cases cs with
    | nil => simp
    | cons d cs => simp

theorem at_new (input : List Char) : (new input).At [] input := by
  refine ⟨rfl, rfl, ?_⟩
  cases input with
  | nil => rfl
  | cons c cs => rfl

theorem At.drop_pos (h : l.At pre cs) : l.input.drop l.pos = cs.tail := by
  rw [h.input, h.pos, ← List.drop_drop, List.drop_left, List.drop_one]

theorem At.readWhile {p : Char → Bool} (hp : p nul = false) (h : l.At pre cs) :
    (readWhile p (l.input.drop l.pos) l).At (pre ++ cs.takeWhile p) (cs.dropWhile p) := by
  rw [h.drop_pos]
  induction cs generalizing l pre with
  | nil =>
    have hch : p l.ch = false := by rw [h.ch]; exact hp
    simpa [Lexer.readWhile, hch] using h
  | cons c cs ih =>
    have hch : l.ch = c := h.ch
    cases hc : p c with
    | false =>
      have hstay : Lexer.readWhile p cs l = l := by
        cases cs with
        | nil => simp [Lexer.readWhile, hch, hc]
        | cons d cs => simp [Lexer.readWhile, hch, hc]
      rw [List.takeWhile_cons_of_neg (by simp [hc]), List.dropWhile_cons_of_neg (by simp [hc]),
        List.append_nil, List.tail_cons, hstay]
      exact h
    | true =>
      have hgo : Lexer.readWhile p cs l = Lexer.readWhile p cs.tail l.readChar := by
        cases cs with
        | nil =>
          have hend : l.readChar.ch = nul := h.readChar.ch
          simp [Lexer.readWhile, hch, hc, hend, hp]
        | cons d cs => simp [Lexer.readWhile, hch, hc]
      rw [List.takeWhile_cons_of_pos hc, List.dropWhile_cons_of_pos hc]
      have hrest := ih h.readChar
      rw [← hgo, List.append_assoc] at hrest
      exact hrest

def Boundary (pre cs : List Char) : Prop :=
  ∀ c ∈ pre.getLast?, isValidPermissionChar c = true →
    ∀ d ∈ cs.head?, isValidPermissionChar d = false

theorem boundary_concat (h : isValidPermissionChar c = false) (pre cs : List Char) :
    Boundary (pre ++ [c]) cs := by
  intro d hd hvalid
  rw [List.getLast?_concat] at hd
  cases hd
  rw [h] at hvalid
  cases hvalid

theorem At.skipWhitespace (h : l.At pre cs) :
    l.skipWhitespace.At (pre ++ cs.takeWhile isBlank) (cs.dropWhile isBlank) :=
  h.readWhile (by decide)

theorem isValidPermissionChar_of_isBlank (h : isBlank c = true) :
    isValidPermissionChar c = false := by
  simp only [isBlank, Bool.or_eq_true, decide_eq_true_eq] at h
  rcases h with ((rfl | rfl) | rfl) | rfl <;> decide

theorem Boundary.skip (h : Boundary pre cs) :
    Boundary (pre ++ cs.takeWhile isBlank) (cs.dropWhile isBlank) := by
  cases cs with
  | nil => simpa using h
  | cons c cs =>
    cases hc : isBlank c with
    | false => simp_all
    | true =>
      -- the last character that was skipped is a blank
      intro d hd hvalid
      have hne : (c :: cs).takeWhile isBlank ≠ [] := by simp [hc]
      have hlast := List.getLast?_eq_some_getLast hne
      rw [List.getLast?_append, hlast] at hd
      cases hd
      have hblank := List.mem_takeWhile_imp (List.getLast_mem hne)
      rw [isValidPermissionChar_of_isBlank hblank] at hvalid
      cases hvalid

theorem At.readIdentifier (h : l.At pre cs) :
    l.readIdentifier.1 = cs.takeWhile isValidPermissionChar ∧
      l.readIdentifier.2.At (pre ++ cs.takeWhile isValidPermissionChar)
        (cs.dropWhile isValidPermissionChar) := by
  have hend := h.readWhile (p := isValidPermissionChar) (by decide)
  refine ⟨?_, hend⟩
  simp only [Lexer.readIdentifier]
  rw [hend.input, hend.pos, h.pos]
  simp only [Nat.add_sub_cancel, List.append_assoc, List.drop_left, List.length_append]
  rw [Nat.add_sub_cancel_left, List.take_left]

theorem At.isCompleteWord {word : List Char} (h : l.At (pre ++ word) cs)
    (hne : word ≠ []) (hword : ∀ c ∈ word, isValidPermissionChar c = true)
    (hbefore : Boundary pre (word ++ cs)) (hafter : ∀ c ∈ cs.head?, isValidPermissionChar c = false) :
    l.isCompleteWord pre.length word = true := by
  have hbefore' : ¬ (0 < pre.length ∧ (l.input[pre.length - 1]?).any isValidPermissionChar) := by
    rintro ⟨hpos, hany⟩
    rw [h.input, List.append_assoc, List.getElem?_append_left (by omega),
      ← List.getLast?_eq_getElem?] at hany
    obtain ⟨c, hc, hvalid⟩ := (Option.any_eq_true _ _).mp hany
    cases word with
    | nil => exact hne rfl
    | cons d word =>
      have hd := hbefore c hc hvalid d rfl
      rw [hword d List.mem_cons_self] at hd
      cases hd
  have hafter' : ¬ (pre.length + word.length < l.input.length ∧
      (l.input[pre.length + word.length]?).any isValidPermissionChar) := by
    rintro ⟨-, hany⟩
    rw [h.input, ← List.length_append, List.getElem?_append_right (Nat.le_refl _), Nat.sub_self,
      ← List.head?_eq_getElem?] at hany
    obtain ⟨c, hc, hvalid⟩ := (Option.any_eq_true _ _).mp hany
    rw [hafter c hc] at hvalid
    cases hvalid
  simp only [Lexer.isCompleteWord]
  rw [if_neg hbefore', if_neg hafter']

end Lexer

def Token.Is (t : Token) : Option Lexeme → Prop
  | none => t.typ = .eof
  | some (.permission value) => t.typ = .permission ∧ t.value = value
  | some .and => t.typ = .and
  | some .or => t.typ = .or
  | some .lparen => t.typ = .lparen
  | some .rparen => t.typ = .rparen
  | some (.other _) => t.typ = .errorToken

def Lexer.Reads (l : Lexer) (ls : List Lexeme) : Prop :=
  ∃ pre cs, l.At pre cs ∧ Ascii (pre ++ cs) ∧ Lexer.Boundary pre cs ∧ Splits cs ls

theorem Lexer.reads_new {input : List Char} (hinput : Ascii input) {ls : List Lexeme}
    (hls : Splits input ls) : (Lexer.new input).Reads ls :=
  ⟨[], input, Lexer.at_new input, hinput, nofun, hls⟩

theorem takeWhile_isValidPermissionChar {cs : List Char} (h : Ascii cs) :
    cs.takeWhile isValidPermissionChar = cs.takeWhile isWordChar ∧
      cs.dropWhile isValidPermissionChar = cs.dropWhile isWordChar := by
  induction cs with
  | nil => exact ⟨rfl, rfl⟩
  | cons c cs ih =>
    obtain ⟨htake, hdrop⟩ := ih fun d hd => h d (List.mem_cons_of_mem _ hd)
    have hc := isValidPermissionChar_eq (h c List.mem_cons_self).1
    simp only [List.takeWhile_cons, List.dropWhile_cons, hc, htake, hdrop, and_self]

theorem Lexer.identifierToken_is {l : Lexer} {pos : Nat} {run : List Char}
    (hcomplete : l.isCompleteWord pos run = true) :
    (l.identifierToken pos run).Is (some (Lexeme.ofRun run)) := by
  unfold Lexer.identifierToken Lexeme.ofRun
  dsimp only
  by_cases hand : run.map Char.toUpper = ['A', 'N', 'D']
  · rw [if_pos ⟨hand, hcomplete⟩, if_pos hand]
    rfl
  rw [if_neg fun h => hand h.1, if_neg hand]
  by_cases hor : run.map Char.toUpper = ['O', 'R']
  · rw [if_pos ⟨hor, hcomplete⟩, if_pos hor]
    rfl
  · rw [if_neg fun h => hor h.1, if_neg hor]
    exact ⟨rfl, rfl⟩

theorem Lexer.scan_reads {l : Lexer} {pre cs : List Char} {ls : List Lexeme} (hat : l.At pre cs)
    (hascii : Ascii (pre ++ cs)) (hboundary : Lexer.Boundary pre cs) (hsplits : Splits cs ls)
    (hhead : ∀ c ∈ cs.head?, isBlank c = false) :
    l.scan.1.Is ls.head? ∧ l.scan.2.Reads ls.tail := by
  cases cs with
  | nil =>
    have hch : l.ch = nul := hat.ch
    have hscan : l.scan = (⟨.eof, "", l.pos - 1⟩, l) := by
      rw [Lexer.scan, hch, if_neg (by decide), if_neg (by decide), if_pos rfl]
    rw [hscan, hsplits.of_nil]
    exact ⟨rfl, pre, [], hat, hascii, hboundary, .nil⟩
  | cons c cs =>
    have hch : l.ch = c := hat.ch
    obtain ⟨hc, hnul⟩ := hascii c (by simp)
    have hvalid := isValidPermissionChar_eq hc
    -- after one character the lexer stands at a boundary, unless it was part of a run
    have hone : ∀ {ls}, isWordChar c = false → Splits cs ls → l.readChar.Reads ls := by
      intro ls hword hcs
      refine ⟨pre ++ [c], cs, hat.readChar, ?_, Lexer.boundary_concat (hvalid.trans hword) _ _, hcs⟩
      rwa [List.append_assoc]
    rcases hsplits.cons_cases with ⟨hblank, -⟩ | ⟨rfl, ls, rfl, hcs⟩ | ⟨rfl, ls, rfl, hcs⟩ |
      ⟨hword, ls, rfl, hcs⟩ | ⟨-, ⟨hl, hr⟩, hword, ls, rfl, hcs⟩
    · rw [hhead c rfl] at hblank
      cases hblank
    · rw [Lexer.scan, if_pos hch]
      exact ⟨rfl, hone (by decide) hcs⟩
    · rw [Lexer.scan, hch, if_neg (by decide), if_pos rfl]
      exact ⟨rfl, hone (by decide) hcs⟩
    · have hascii' : Ascii (c :: cs) := fun d hd => hascii d (List.mem_append_right _ hd)
      obtain ⟨htake, hdrop⟩ := takeWhile_isValidPermissionChar hascii'
      obtain ⟨hident, hend⟩ := hat.readIdentifier
      have hafter := head_dropWhile isValidPermissionChar (c :: cs)
      have hrun : ∀ d ∈ (c :: cs).takeWhile isWordChar, isValidPermissionChar d = true := by
        rw [← htake]
        exact fun d hd => List.mem_takeWhile_imp hd
      rw [htake] at hident hend
      rw [hdrop] at hend hafter
      have hcomplete := hend.isCompleteWord (by simp [hword]) hrun
        (by rwa [List.takeWhile_append_dropWhile]) hafter
      have hl : c ≠ '(' := fun h => absurd hword (by rw [h]; decide)
      have hr : c ≠ ')' := fun h => absurd hword (by rw [h]; decide)
      rw [Lexer.scan, hch, if_neg hl, if_neg hr, if_neg hnul, if_pos (hvalid.trans hword), hat.pos,
        Nat.add_sub_cancel, hident]
      refine ⟨Lexer.identifierToken_is hcomplete, _, _, hend, ?_, ?_, hcs⟩
      · rwa [List.append_assoc, List.takeWhile_append_dropWhile]
      · exact fun _ _ _ => hafter
    · rw [Lexer.scan, hch, if_neg hl, if_neg hr, if_neg hnul, if_neg (by simp [hvalid, hword])]
      exact ⟨rfl, hone hword hcs⟩

theorem Lexer.Reads.nextToken {l : Lexer} {ls : List Lexeme} (h : l.Reads ls) :
    l.nextToken.1.Is ls.head? ∧ l.nextToken.2.Reads ls.tail := by
  obtain ⟨pre, cs, hat, hascii, hboundary, hsplits⟩ := h
  refine Lexer.scan_reads hat.skipWhitespace ?_ hboundary.skip hsplits.dropWhile_isBlank
    (head_dropWhile isBlank cs)
  rwa [List.append_assoc, List.takeWhile_append_dropWhile]

end Unkey.Rbac
