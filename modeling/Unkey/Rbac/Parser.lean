import Unkey.Rbac.Lexer
import Unkey.Rbac.Query

/-!
# The parser of permission queries

The recursive descent of `pkg/rbac` with the current token and one token of lookahead.
-/

namespace Unkey.Rbac

structure SyntaxError where
  message : String
  publicMessage : Option String
  deriving DecidableEq

structure Parser where
  lexer : Lexer
  currentToken : Token
  nextToken : Token
  deriving DecidableEq

namespace Parser

def readToken (p : Parser) : Parser where
  lexer := p.lexer.nextToken.2
  currentToken := p.nextToken
  nextToken := p.lexer.nextToken.1

def new (input : List Char) : Parser :=
  let l := Lexer.new input
  readToken ⟨l.nextToken.2, ⟨.permission, "", 0⟩, l.nextToken.1⟩

end Parser

abbrev Outcome (α : Type) := Option (Except SyntaxError (α × Parser))

def Outcome.andThen {α β : Type} (x : Outcome α) (k : α → Parser → Outcome β) : Outcome β :=
  match x with
  | none => none
  | some (.error err) => some (.error err)
  | some (.ok (a, p)) => k a p

/-! ### Errors -/

def emptyParentheses (t : Token) : SyntaxError where
  message := "empty parentheses at position " ++ toString t.pos ++ " in query"
  publicMessage := some ("Empty parentheses found at position " ++ toString t.pos ++
    ". Parentheses must contain at least one permission or expression.")

def missingClosingParenthesis (t : Token) : SyntaxError where
  message := "missing closing parenthesis at position " ++ toString t.pos ++ ", found '" ++
    t.value ++ "'"
  publicMessage := some ("Missing closing parenthesis ')' at position " ++ toString t.pos ++
    ". Every opening parenthesis must have a matching closing parenthesis.")

def endOfInput : SyntaxError where
  message := "reached end of input while expecting a permission or opening parenthesis"
  publicMessage := some
    "Unexpected end of query. Expected a permission identifier or opening parenthesis."

def lexerError (t : Token) : SyntaxError where
  message := t.value
  publicMessage := none

def unexpectedToken (t : Token) : SyntaxError where
  message := "unexpected token '" ++ t.value ++ "' at position " ++ toString t.pos ++
    ", expected permission or opening parenthesis"
  publicMessage := some ("Unexpected token '" ++ t.value ++ "' at position " ++ toString t.pos ++
    ". Expected a permission identifier or opening parenthesis.")

def noTokens : SyntaxError where
  message := "query contains no tokens besides EOF"
  publicMessage := some "Unexpected end of input. Please provide a valid permission query."

def extraContent (t : Token) : SyntaxError where
  message := "unexpected token '" ++ t.value ++ "' at position " ++ toString t.pos ++
    " after parsing completed"
  publicMessage := some ("Unexpected token '" ++ t.value ++ "' at position " ++ toString t.pos ++
    ". The query appears to have extra content after a valid expression.")

/-! ### The descent -/

mutual

def parseExpression : (fuel : Nat) → Parser → Outcome PermissionQuery
  | 0, _ => none
  | fuel + 1, p => Outcome.andThen (parseAndExpression fuel p) fun left p => orLoop fuel left p

def orLoop : (fuel : Nat) → PermissionQuery → Parser → Outcome PermissionQuery
  | 0, _, _ => none
  | fuel + 1, left, p =>
    if p.currentToken.typ = .or then
      Outcome.andThen (parseAndExpression fuel p.readToken) fun right p =>
        orLoop fuel (.or [left, right]) p
    else some (.ok (left, p))

def parseAndExpression : (fuel : Nat) → Parser → Outcome PermissionQuery
  | 0, _ => none
  | fuel + 1, p => Outcome.andThen (parsePrimary fuel p) fun left p => andLoop fuel left p

def andLoop : (fuel : Nat) → PermissionQuery → Parser → Outcome PermissionQuery
  | 0, _, _ => none
  | fuel + 1, left, p =>
    if p.currentToken.typ = .and then
      Outcome.andThen (parsePrimary fuel p.readToken) fun right p =>
        andLoop fuel (.and [left, right]) p
    else some (.ok (left, p))

def parsePrimary : (fuel : Nat) → Parser → Outcome PermissionQuery
  | 0, _ => none
  | fuel + 1, p =>
    match p.currentToken.typ with
    | .permission => some (.ok (.S p.currentToken.value, p.readToken))
    | .lparen =>
      if p.readToken.currentToken.typ = .rparen then
        some (.error (emptyParentheses p.readToken.currentToken))
      else
        Outcome.andThen (parseExpression fuel p.readToken) fun expr p =>
          if p.currentToken.typ ≠ .rparen then
            some (.error (missingClosingParenthesis p.currentToken))
          else some (.ok (expr, p.readToken))
    | .eof => some (.error endOfInput)
    | .errorToken => some (.error (lexerError p.currentToken))
    | .and | .or | .rparen => some (.error (unexpectedToken p.currentToken))

end

def parse (fuel : Nat) (p : Parser) : Option (Except SyntaxError PermissionQuery) :=
  if p.currentToken.typ = .eof then some (.error noTokens)
  else match parseExpression fuel p with
    | none => none
    | some (.error err) => some (.error err)
    | some (.ok (expr, p)) =>
      if p.currentToken.typ ≠ .eof then some (.error (extraContent p.currentToken))
      else some (.ok expr)

def parseQuery (query : String) : Option (Except SyntaxError PermissionQuery) :=
  parse (3 * query.toList.length + 3) (Parser.new query.toList)

/-! ### Fuel -/

theorem Outcome.andThen_mono {α β : Type} {x x' : Outcome α} {k k' : α → Parser → Outcome β}
    (hx : ∀ r, x = some r → x' = some r) (hk : ∀ a p r, k a p = some r → k' a p = some r)
    {r : Except SyntaxError (β × Parser)} (h : x.andThen k = some r) : x'.andThen k' = some r := by
  rcases x with _ | err | ⟨a, p⟩
  · cases h
  · rw [hx _ rfl]
    exact h
  · rw [hx _ rfl]
    exact hk a p r h

theorem more_fuel (n : Nat) :
    (∀ p r, parseExpression n p = some r → parseExpression (n + 1) p = some r) ∧
    (∀ q p r, orLoop n q p = some r → orLoop (n + 1) q p = some r) ∧
    (∀ p r, parseAndExpression n p = some r → parseAndExpression (n + 1) p = some r) ∧
    (∀ q p r, andLoop n q p = some r → andLoop (n + 1) q p = some r) ∧
    ∀ p r, parsePrimary n p = some r → parsePrimary (n + 1) p = some r := by
  induction n with
  | zero =>
    refine ⟨?_, ?_, ?_, ?_, ?_⟩
    all_goals
      intros
      rename_i h
      cases h
  | succ n ih =>
    obtain ⟨hexpr, hor, hand, hloop, hprim⟩ := ih
    refine ⟨?_, ?_, ?_, ?_, ?_⟩
    · intro p r h
      exact Outcome.andThen_mono (hand p) (fun q p => hor q p) h
    · grind [orLoop, Outcome.andThen_mono]
    · intro p r h
      exact Outcome.andThen_mono (hprim p) (fun q p => hloop q p) h
    · grind [andLoop, Outcome.andThen_mono]
    · grind [parsePrimary, Outcome.andThen_mono]

theorem parseExpression_mono {m n : Nat} (hmn : m ≤ n) {p : Parser}
    {r : Except SyntaxError (PermissionQuery × Parser)} (h : parseExpression m p = some r) :
    parseExpression n p = some r := by
  induction hmn with
  | refl => exact h
  | step _ ih => exact (more_fuel _).1 p r ih

end Unkey.Rbac
