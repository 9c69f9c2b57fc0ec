import Unkey.Rbac.Parser

/-!
# The grammar of permission queries

    expression → and (OR and)*
    and        → primary (AND primary)*
    primary    → PERMISSION | ( expression )

The parser accepts exactly what derives from it, and what it returns is evaluated as
the formula of the derivation.
-/

namespace Unkey.Rbac

inductive Symbol where
  | expression
  | and
  | primary
  deriving DecidableEq

inductive Formula where
  | atom (permission : String)
  | conj (left right : Formula)
  | disj (left right : Formula)
  deriving DecidableEq

def Formula.eval (permissions : List String) : Formula → Bool
  | .atom permission => decide (permission ∈ permissions)
  | .conj left right => left.eval permissions && right.eval permissions
  | .disj left right => left.eval permissions || right.eval permissions

/-- The lexemes derive from the symbol, with the formula that the derivation denotes. -/
inductive Derives : Symbol → List Lexeme → Formula → Prop
  | permission {value : String} : Derives .primary [.permission value] (.atom value)
  | group {ls : List Lexeme} {f : Formula} (h : Derives .expression ls f) :
      Derives .primary (.lparen :: ls ++ [.rparen]) f
  | primary {ls : List Lexeme} {f : Formula} (h : Derives .primary ls f) : Derives .and ls f
  | conj {ls ls' : List Lexeme} {f g : Formula} (hl : Derives .and ls f)
      (hr : Derives .primary ls' g) : Derives .and (ls ++ .and :: ls') (.conj f g)
  | and {ls : List Lexeme} {f : Formula} (h : Derives .and ls f) : Derives .expression ls f
  | disj {ls ls' : List Lexeme} {f g : Formula} (hl : Derives .expression ls f)
      (hr : Derives .and ls' g) : Derives .expression (ls ++ .or :: ls') (.disj f g)

def Formula.query : Formula → PermissionQuery
  | .atom permission => .S permission
  | .conj left right => .and [left.query, right.query]
  | .disj left right => .or [left.query, right.query]

/-! ### The tokens of a parser -/

def Lexeme.typ : Lexeme → TokenType
  | .permission _ => .permission
  | .and => .and
  | .or => .or
  | .lparen => .lparen
  | .rparen => .rparen
  | .other _ => .errorToken

theorem Token.Is.typ {t : Token} {x : Option Lexeme} (h : t.Is x) :
    t.typ = x.elim .eof Lexeme.typ := by
  rcases x with _ | x
  · exact h
  · cases x with
    | permission value => exact h.1
    | and | or | lparen | rparen | other => exact h

structure Parser.At (p : Parser) (ls : List Lexeme) : Prop where
  current : p.currentToken.Is ls.head?
  next : p.nextToken.Is ls.tail.head?
  lexer : p.lexer.Reads ls.tail.tail

namespace Parser.At

variable {p : Parser} {ls : List Lexeme}

theorem readToken (h : p.At ls) : p.readToken.At ls.tail :=
  ⟨h.next, h.lexer.nextToken.1, h.lexer.nextToken.2⟩

theorem typ (h : p.At ls) : p.currentToken.typ = ls.head?.elim .eof Lexeme.typ := h.current.typ

theorem new {input : List Char} (hinput : Ascii input) (hls : Splits input ls) :
    (Parser.new input).At ls := by
  have hreads := Lexer.reads_new hinput hls
  exact ⟨hreads.nextToken.1, hreads.nextToken.2.nextToken.1, hreads.nextToken.2.nextToken.2⟩

theorem typ_eq_iff {x : Lexeme} (h : p.At (x :: ls)) (t : TokenType) :
    p.currentToken.typ = t ↔ x.typ = t := by
  rw [h.typ]
  rfl

theorem eq_nil (h : p.At ls) (heof : p.currentToken.typ = .eof) : ls = [] := by
  cases ls with
  | nil => rfl
  | cons x ls =>
    rw [h.typ_eq_iff] at heof
    cases x <;> cases heof

theorem eq_cons (h : p.At ls) {x : Lexeme} (hx : x ∈ [Lexeme.and, .or, .lparen, .rparen])
    (htyp : p.currentToken.typ = x.typ) : ls = x :: ls.tail := by
  simp only [List.mem_cons, List.not_mem_nil, or_false] at hx
  cases ls with
  | nil =>
    rw [h.typ] at htyp
    rcases hx with rfl | rfl | rfl | rfl <;> cases htyp
  | cons y ls =>
    rw [h.typ_eq_iff] at htyp
    rcases hx with rfl | rfl | rfl | rfl <;> cases y <;> first | rfl | cases htyp

end Parser.At

/-! ### What the parser consumes derives -/

/-- An error, or a formula whose derivation covers `before` and what was consumed of `ls`. -/
def Parsed (sym : Symbol) (before ls : List Lexeme) (x : Outcome PermissionQuery) : Prop :=
  (∃ err, x = some (.error err)) ∨
    ∃ p used rest f, x = some (.ok (f.query, p)) ∧ ls = used ++ rest ∧ p.At rest ∧
      Derives sym (before ++ used) f

variable {sym : Symbol}

theorem Parsed.andThen {sym' : Symbol} {before before' ls ls' : List Lexeme}
    {x : Outcome PermissionQuery} {k : PermissionQuery → Parser → Outcome PermissionQuery}
    (h : Parsed sym before ls x)
    (hk : ∀ p used rest f, ls = used ++ rest → p.At rest → Derives sym (before ++ used) f →
      Parsed sym' before' ls' (k f.query p)) : Parsed sym' before' ls' (x.andThen k) := by
  rcases h with ⟨err, rfl⟩ | ⟨p, used, rest, f, rfl, hls, hat, hf⟩
  · exact .inl ⟨err, rfl⟩
  · exact hk p used rest f hls hat hf

theorem Parsed.shift {before used ls rest : List Lexeme}
    {x : Outcome PermissionQuery} (hls : ls = used ++ rest)
    (h : Parsed sym (before ++ used) rest x) : Parsed sym before ls x := by
  rcases h with herr | ⟨p, used', rest', f, hx, hrest, hat, hf⟩
  · exact .inl herr
  · refine .inr ⟨p, used ++ used', rest', f, hx, ?_, hat, ?_⟩
    · rw [hls, hrest, List.append_assoc]
    · rwa [← List.append_assoc]

theorem parsed_of_fuel (n : Nat) :
    (∀ p ls, p.At ls → 3 * ls.length + 3 ≤ n → Parsed .expression [] ls (parseExpression n p)) ∧
    (∀ p ls before f, p.At ls → 3 * ls.length + 1 ≤ n → Derives .expression before f →
      Parsed .expression before ls (orLoop n f.query p)) ∧
    (∀ p ls, p.At ls → 3 * ls.length + 2 ≤ n → Parsed .and [] ls (parseAndExpression n p)) ∧
    (∀ p ls before f, p.At ls → 3 * ls.length + 1 ≤ n → Derives .and before f →
      Parsed .and before ls (andLoop n f.query p)) ∧
    ∀ p ls, p.At ls → 3 * ls.length + 1 ≤ n → Parsed .primary [] ls (parsePrimary n p) := by
  induction n with
  | zero =>
    refine ⟨?_, ?_, ?_, ?_, ?_⟩
    all_goals
      intros
      omega
  | succ n ih =>
    obtain ⟨hexpr, hor, hand, hloop, hprim⟩ := ih
    refine ⟨?_, ?_, ?_, ?_, ?_⟩
    · intro p ls hat hn
      refine (hand p ls hat (by omega)).andThen fun p used rest f hls hat hf => .shift hls ?_
      exact hor p rest _ f hat (by rw [hls, List.length_append] at hn; omega) (.and hf)
    · intro p ls before f hat hn hf
      rw [orLoop]
      split
      · rename_i htyp
        obtain ⟨ls, rfl⟩ : ∃ ls', ls = .or :: ls' := ⟨_, hat.eq_cons (by decide) htyp⟩
        rw [List.length_cons] at hn
        refine (hand _ ls hat.readToken (by omega)).andThen fun p used rest g hls hat hg => ?_
        have hcons : Lexeme.or :: ls = (.or :: used) ++ rest := by rw [hls, List.cons_append]
        refine .shift hcons ?_
        exact hor p rest _ (.disj f g) hat (by rw [hls, List.length_append] at hn; omega)
          (.disj hf hg)
      · refine .inr ⟨p, [], ls, f, rfl, rfl, hat, ?_⟩
        rwa [List.append_nil]
    · intro p ls hat hn
      refine (hprim p ls hat (by omega)).andThen fun p used rest f hls hat hf => .shift hls ?_
      exact hloop p rest _ f hat (by rw [hls, List.length_append] at hn; omega) (.primary hf)
    · intro p ls before f hat hn hf
      rw [andLoop]
      split
      · rename_i htyp
        obtain ⟨ls, rfl⟩ : ∃ ls', ls = .and :: ls' := ⟨_, hat.eq_cons (by decide) htyp⟩
        rw [List.length_cons] at hn
        refine (hprim _ ls hat.readToken (by omega)).andThen fun p used rest g hls hat hg => ?_
        have hcons : Lexeme.and :: ls = (.and :: used) ++ rest := by rw [hls, List.cons_append]
        refine .shift hcons ?_
        exact hloop p rest _ (.conj f g) hat (by rw [hls, List.length_append] at hn; omega)
          (.conj hf hg)
      · refine .inr ⟨p, [], ls, f, rfl, rfl, hat, ?_⟩
        rwa [List.append_nil]
    · intro p ls hat hn
      rw [parsePrimary]
      cases ls with
      | nil =>
        rw [show p.currentToken.typ = .eof from hat.typ]
        exact .inl ⟨_, rfl⟩
      | cons x ls =>
        rw [List.length_cons] at hn
        have htyp : p.currentToken.typ = x.typ := hat.typ
        rw [htyp]
        cases x with
        | permission value =>
          refine .inr ⟨p.readToken, [.permission value], ls, .atom value, ?_, rfl,
            hat.readToken, .permission⟩
          rw [← hat.current.2]
          rfl
        | lparen =>
          show Parsed _ _ _ (if _ then _ else _)
          split
          · exact .inl ⟨_, rfl⟩
          refine (hexpr _ ls hat.readToken (by omega)).andThen fun p used rest f hls hat hf => ?_
          split
          · exact .inl ⟨_, rfl⟩
          rename_i hclose
          obtain ⟨rest, rfl⟩ : ∃ rest', rest = .rparen :: rest' :=
            ⟨_, hat.eq_cons (by decide) (not_not.mp hclose)⟩
          refine .inr ⟨p.readToken, .lparen :: used ++ [.rparen], rest, f, rfl, ?_, hat.readToken,
            .group hf⟩
          rw [hls]
          simp
        | and | or | rparen | other => exact .inl ⟨_, rfl⟩

/-! ### What derives is consumed -/

def Yields (x : Nat → Outcome PermissionQuery) (r : Except SyntaxError (PermissionQuery × Parser)) :
    Prop := ∃ b, ∀ n, b ≤ n → x n = some r

namespace Yields

variable {x y : Nat → Outcome PermissionQuery}
  {r : Except SyntaxError (PermissionQuery × Parser)} {q : PermissionQuery} {p : Parser}

theorem succ (hx : ∀ n, x (n + 1) = y n) (h : Yields y r) : Yields x r := by
  obtain ⟨b, hb⟩ := h
  refine ⟨b + 1, ?_⟩
  rintro (_ | n) hn
  · omega
  · rw [hx]
    exact hb n (by omega)

theorem andThen {k : Nat → PermissionQuery → Parser → Outcome PermissionQuery}
    (h : Yields x (.ok (q, p))) (hk : Yields (fun n => k n q p) r) :
    Yields (fun n => (x n).andThen (k n)) r := by
  obtain ⟨b, hb⟩ := h
  obtain ⟨b', hb'⟩ := hk
  refine ⟨max b b', fun n hn => ?_⟩
  show (x n).andThen (k n) = some r
  rw [hb n (by omega)]
  exact hb' n (by omega)

end Yields

variable {p : Parser} {rest : List Lexeme} {f : Formula}

theorem Parser.At.yields_andLoop (hat : p.At rest) (hrest : rest.head? ≠ some .and)
    (q : PermissionQuery) : Yields (fun n => andLoop n q p) (.ok (q, p)) := by
  have htyp : p.currentToken.typ ≠ .and := by
    intro htyp
    rw [hat.eq_cons (x := .and) (by decide) htyp] at hrest
    exact hrest rfl
  exact Yields.succ (y := fun _ => some (.ok (q, p))) (fun n => if_neg htyp) ⟨0, fun _ _ => rfl⟩

theorem Parser.At.yields_orLoop (hat : p.At rest) (hrest : rest.head? ≠ some .or)
    (q : PermissionQuery) : Yields (fun n => orLoop n q p) (.ok (q, p)) := by
  have htyp : p.currentToken.typ ≠ .or := by
    intro htyp
    rw [hat.eq_cons (x := .or) (by decide) htyp] at hrest
    exact hrest rfl
  exact Yields.succ (y := fun _ => some (.ok (q, p))) (fun n => if_neg htyp) ⟨0, fun _ _ => rfl⟩

/-- The parser comes from `p` to `p'` with the formula in hand: a primary is done, the others are
at their loop. -/
def Arrives (sym : Symbol) (f : Formula) (p p' : Parser) : Prop :=
  match sym with
  | .primary => Yields (fun n => parsePrimary n p) (.ok (f.query, p'))
  | .and => ∀ r, Yields (fun n => andLoop n f.query p') r →
    Yields (fun n => parseAndExpression n p) r
  | .expression => ∀ r, Yields (fun n => orLoop n f.query p') r →
    Yields (fun n => parseExpression n p) r

theorem Derives.head_ne {ls : List Lexeme} (h : Derives sym ls f) :
    ∃ x ls', ls = x :: ls' ∧ x ≠ .rparen := by
  induction h with
  | permission => exact ⟨_, _, rfl, by simp⟩
  | group => exact ⟨_, _, rfl, by simp⟩
  | primary _ ih => exact ih
  | conj _ _ ih =>
    obtain ⟨x, ls', rfl, hx⟩ := ih
    exact ⟨x, _, rfl, hx⟩
  | and _ ih => exact ih
  | disj _ _ ih =>
    obtain ⟨x, ls', rfl, hx⟩ := ih
    exact ⟨x, _, rfl, hx⟩

theorem Derives.arrives {ls : List Lexeme} (h : Derives sym ls f) :
    ∀ {p : Parser} {rest : List Lexeme}, p.At (ls ++ rest) →
      (sym = .expression → rest.head? ≠ some .and) → ∃ p', p'.At rest ∧ Arrives sym f p p' := by
  induction h with
  | permission =>
    rename_i value
    intro p rest hat _
    refine ⟨p.readToken, hat.readToken, ?_⟩
    refine Yields.succ (y := fun _ => some (.ok (.S value, p.readToken))) (fun n => ?_)
      ⟨0, fun _ _ => rfl⟩
    rw [parsePrimary, show p.currentToken.typ = .permission from hat.typ]
    show some (Except.ok (PermissionQuery.S p.currentToken.value, p.readToken)) = _
    rw [hat.current.2]
  | @group ls f hexpr ih =>
    intro p rest hat _
    have hat' : p.readToken.At (ls ++ .rparen :: rest) := by
      have := hat.readToken
      simpa using this
    obtain ⟨p', hat'', harrives⟩ := ih hat' fun _ => by simp
    refine ⟨p'.readToken, hat''.readToken, ?_⟩
    have hclose : p'.currentToken.typ = .rparen := hat''.typ
    have hopen : p.readToken.currentToken.typ ≠ .rparen := by
      obtain ⟨x, ls', rfl, hx⟩ := hexpr.head_ne
      rw [show p.readToken.currentToken.typ = x.typ from hat'.typ]
      cases x <;> simp_all [Lexeme.typ]
    have hinner := harrives _ (hat''.yields_orLoop (by simp) f.query)
    refine Yields.succ (fun n => ?_) (hinner.andThen (k := fun _ expr p =>
      if p.currentToken.typ ≠ .rparen then
        some (.error (missingClosingParenthesis p.currentToken))
      else some (.ok (expr, p.readToken))) ⟨0, fun _ _ => by simp [hclose]⟩)
    rw [parsePrimary, show p.currentToken.typ = .lparen from hat.typ]
    exact if_neg hopen
  | primary _ ih =>
    intro p rest hat _
    obtain ⟨p', hat', hprim⟩ := ih hat (by simp)
    exact ⟨p', hat', fun r hr => Yields.succ (fun _ => rfl) (Yields.andThen hprim hr)⟩
  | @conj ls ls' f g _ _ ihl ihr =>
    intro p rest hat _
    rw [List.append_assoc] at hat
    obtain ⟨p₁, hat₁, harrives⟩ := ihl hat (by simp)
    obtain ⟨p₂, hat₂, hprim⟩ := ihr hat₁.readToken (by simp)
    refine ⟨p₂, hat₂, fun r hr => harrives r ?_⟩
    refine Yields.succ (fun n => ?_) (Yields.andThen
      (k := fun n right p => andLoop n (.and [f.query, right]) p) hprim hr)
    exact if_pos hat₁.typ
  | and _ ih =>
    intro p rest hat hrest
    obtain ⟨p', hat', harrives⟩ := ih hat (by simp)
    refine ⟨p', hat', fun r hr => ?_⟩
    exact Yields.succ (fun _ => rfl)
      (Yields.andThen (harrives _ (hat'.yields_andLoop (hrest rfl) _)) hr)
  | @disj ls ls' f g _ _ ihl ihr =>
    intro p rest hat hrest
    rw [List.append_assoc] at hat
    obtain ⟨p₁, hat₁, harrives⟩ := ihl hat (fun _ => by simp)
    obtain ⟨p₂, hat₂, hand⟩ := ihr hat₁.readToken (by simp)
    refine ⟨p₂, hat₂, fun r hr => harrives r ?_⟩
    refine Yields.succ (fun n => ?_) (Yields.andThen
      (k := fun n right p => orLoop n (.or [f.query, right]) p)
      (hand _ (hat₂.yields_andLoop (hrest rfl) _)) hr)
    exact if_pos hat₁.typ

/-! ### Parsing and evaluation -/

theorem parse_error_or_derives {n : Nat} {ls : List Lexeme} (hat : p.At ls)
    (hn : 3 * ls.length + 3 ≤ n) : (∃ err, parse n p = some (.error err)) ∨
      ∃ f, Derives .expression ls f ∧ parse n p = some (.ok f.query) := by
  unfold parse
  split
  · exact .inl ⟨_, rfl⟩
  rcases (parsed_of_fuel n).1 p ls hat hn with ⟨err, herr⟩ | ⟨p', used, rest, f, hok, hls, hat', hf⟩
  · rw [herr]
    exact .inl ⟨err, rfl⟩
  rw [hok]
  dsimp only
  split
  · exact .inl ⟨_, rfl⟩
  · rename_i heof
    obtain rfl := hat'.eq_nil (not_not.mp heof)
    rw [List.append_nil] at hls
    subst hls
    exact .inr ⟨f, hf, rfl⟩

theorem Derives.parse_eq {n : Nat} {ls : List Lexeme} (hf : Derives .expression ls f)
    (hat : p.At ls) (hn : 3 * ls.length + 3 ≤ n) : parse n p = some (.ok f.query) := by
  have hat' : p.At (ls ++ []) := by rwa [List.append_nil]
  obtain ⟨p', hend, harrives⟩ := hf.arrives hat' (fun _ => by simp)
  obtain ⟨b, hb⟩ := harrives _ (hend.yields_orLoop (by simp) f.query)
  -- what the fuel at hand settles is what more fuel settles
  have hexpr : parseExpression n p = some (.ok (f.query, p')) := by
    have hsome : ∃ r, parseExpression n p = some r := by
      rcases (parsed_of_fuel n).1 p ls hat hn with ⟨err, h⟩ | ⟨_, _, _, _, h, -⟩
      · exact ⟨_, h⟩
      · exact ⟨_, h⟩
    obtain ⟨r, hr⟩ := hsome
    have hmore := parseExpression_mono (Nat.le_max_left n b) hr
    rw [hr, ← hmore]
    exact hb _ (Nat.le_max_right n b)
  have hstart : p.currentToken.typ ≠ .eof := by
    obtain ⟨x, ls', rfl, -⟩ := hf.head_ne
    intro heof
    cases hat.eq_nil heof
  have heof : p'.currentToken.typ = .eof := hend.typ
  unfold parse
  rw [if_neg hstart, hexpr]
  dsimp only
  rw [if_neg (not_not.mpr heof)]

theorem Splits.length_le {cs : List Char} {ls : List Lexeme} (h : Splits cs ls) :
    ls.length ≤ cs.length := by
  induction h with
  | nil => exact Nat.le_refl 0
  | blank _ _ ih => exact Nat.le_succ_of_le ih
  | lparen _ ih => exact Nat.succ_le_succ ih
  | rparen _ ih => exact Nat.succ_le_succ ih
  | run hne _ _ _ ih =>
    have hpos := List.length_pos_iff.mpr hne
    rw [List.length_cons, List.length_append]
    omega
  | other _ _ _ _ ih => exact Nat.succ_le_succ ih

theorem Lexeme.value_eq {run : List Char} {value : String}
    (h : Lexeme.ofRun run = .permission value) : value.toList = run := by
  unfold Lexeme.ofRun at h
  split at h
  · cases h
  split at h
  · cases h
  · cases h
    rw [String.toList_ofList]

theorem Lexeme.value_ne {run : List Char} {value : String} (hne : run ≠ [])
    (h : Lexeme.ofRun run = .permission value) : value ≠ "" := by
  rintro rfl
  exact hne (Lexeme.value_eq h).symm

theorem Splits.permission_ne {cs : List Char} {ls : List Lexeme} (h : Splits cs ls) {value : String}
    (hmem : .permission value ∈ ls) : value ≠ "" := by
  induction h with
  | nil => cases hmem
  | blank _ _ ih => exact ih hmem
  | lparen _ ih => exact ih (by simpa using hmem)
  | rparen _ ih => exact ih (by simpa using hmem)
  | @run run cs ls hne _ _ _ ih => grind [Lexeme.value_ne]
  | other _ _ _ _ ih => exact ih (by simpa using hmem)

theorem Derives.granted_iff {ls : List Lexeme} (h : Derives sym ls f)
    (hne : ∀ value, .permission value ∈ ls → value ≠ "") (P : List String) :
    f.query.WellFormed ∧ f.query.holds (PermissionQuery.granting P) = f.eval P := by
  induction h with
  | permission =>
    rename_i value
    have hvalue := hne value (by simp)
    refine ⟨.leaf hvalue, (PermissionQuery.holds_leaf hvalue).trans ?_⟩
    rw [Bool.eq_iff_iff, PermissionQuery.granting, evaluateLeafPermission_eq_true, Formula.eval]
    simp
  | group _ ih => exact ih fun value hvalue => hne value (by simp [hvalue])
  | primary _ ih => exact ih hne
  | and _ ih => exact ih hne
  | conj _ _ ihl ihr =>
    obtain ⟨hwl, hl⟩ := ihl fun value hvalue => hne value (by simp [hvalue])
    obtain ⟨hwr, hr⟩ := ihr fun value hvalue => hne value (by simp [hvalue])
    refine ⟨.inner (.inl rfl) (by simpa using ⟨hwl, hwr⟩), ?_⟩
    rw [Formula.eval, ← hl, ← hr, Formula.query, PermissionQuery.and, PermissionQuery.holds_and]
    simp [PermissionQuery.allHold]
  | disj _ _ ihl ihr =>
    obtain ⟨hwl, hl⟩ := ihl fun value hvalue => hne value (by simp [hvalue])
    obtain ⟨hwr, hr⟩ := ihr fun value hvalue => hne value (by simp [hvalue])
    refine ⟨.inner (.inr rfl) (by simpa using ⟨hwl, hwr⟩), ?_⟩
    rw [Formula.eval, ← hl, ← hr, Formula.query, PermissionQuery.or, PermissionQuery.holds_or]
    simp [PermissionQuery.anyHolds]

/-- Over all texts of ASCII without NUL: the parser returns; it succeeds exactly when the lexemes
of the text derive from the grammar; and the evaluation of its result under any permissions is the
truth of the formula that any derivation of them denotes. -/
theorem parseQuery_ok_iff {s : String} (hs : Ascii s.toList) :
    (∃ r, parseQuery s = some r) ∧
    ((∃ q, parseQuery s = some (.ok q)) ↔
      ∃ ls f, Splits s.toList ls ∧ Derives .expression ls f) ∧
    ∀ q, parseQuery s = some (.ok q) → ∀ ls f, Splits s.toList ls → Derives .expression ls f →
      ∀ P, Granted q P ↔ f.eval P = true := by
  have hparse : ∀ {ls f}, Splits s.toList ls → Derives .expression ls f →
      parseQuery s = some (.ok f.query) := by
    intro ls f hls hf
    have := hls.length_le
    exact hf.parse_eq (.new hs hls) (by omega)
  obtain ⟨ls, hls⟩ := Splits.total s.toList
  have hlen := hls.length_le
  have hresult := parse_error_or_derives (.new hs hls)
    (show 3 * ls.length + 3 ≤ 3 * s.toList.length + 3 by omega)
  refine ⟨?_, ⟨?_, ?_⟩, ?_⟩
  · rcases hresult with ⟨err, h⟩ | ⟨f, -, h⟩
    · exact ⟨_, h⟩
    · exact ⟨_, h⟩
  · grind [parseQuery]
  · rintro ⟨ls, f, hls, hf⟩
    exact ⟨_, hparse hls hf⟩
  · intro q hq ls f hls hf P
    rw [hparse hls hf] at hq
    cases hq
    obtain ⟨hwell, hholds⟩ := hf.granted_iff (fun _ => hls.permission_ne) P
    rw [PermissionQuery.granted_iff hwell, hholds]

theorem parseQuery_ok_iff_precedence : ∃ q, parseQuery "(a) or b AND c" = some (.ok q) ∧
    Granted q ["a"] ∧ ¬ Granted q ["b"] := by
  have htext : "(a) or b AND c".toList = '(' :: (['a'] ++ ')' :: ' ' :: (['o', 'r'] ++ ' ' ::
      (['b'] ++ ' ' :: (['A', 'N', 'D'] ++ ' ' :: (['c'] ++ []))))) := by decide
  have hls : Splits "(a) or b AND c".toList
      [.lparen, .permission "a", .rparen, .or, .permission "b", .and, .permission "c"] := by
    rw [htext]
    have hend : ∀ c ∈ ([] : List Char).head?, isWordChar c = false := fun c hc => by cases hc
    have hnext : ∀ {d : Char} {cs : List Char}, isWordChar d = false →
        ∀ c ∈ (d :: cs).head?, isWordChar c = false := fun hd c hc => by cases hc; exact hd
    refine .lparen (.run (by decide) (List.all_eq_true.mp (by decide)) (hnext (by decide))
      (.rparen (.blank (by decide) ?_)))
    refine .run (by decide) (List.all_eq_true.mp (by decide)) (hnext (by decide))
      (.blank (by decide) ?_)
    refine .run (by decide) (List.all_eq_true.mp (by decide)) (hnext (by decide))
      (.blank (by decide) ?_)
    refine .run (by decide) (List.all_eq_true.mp (by decide)) (hnext (by decide))
      (.blank (by decide) ?_)
    exact .run (by decide) (List.all_eq_true.mp (by decide)) hend .nil
  have hf : Derives .expression
      [.lparen, .permission "a", .rparen, .or, .permission "b", .and, .permission "c"]
      (.disj (.atom "a") (.conj (.atom "b") (.atom "c"))) :=
    .disj (.and (.primary (.group (.and (.primary .permission)))))
      (.conj (.primary .permission) .permission)
  have hs : Ascii "(a) or b AND c".toList := by decide
  obtain ⟨q, hq⟩ := (parseQuery_ok_iff hs).2.1.mpr ⟨_, _, hls, hf⟩
  have hgranted := (parseQuery_ok_iff hs).2.2 q hq _ _ hls hf
  refine ⟨q, hq, (hgranted _).mpr (by decide), fun h => ?_⟩
  exact absurd ((hgranted _).mp h) (by decide)

end Unkey.Rbac
