import MiniLisp.Expr.Read

/-!
# Reading expressions by recursive descent

The other way to read tokens: a cursor goes through them, and each kind of form has a function that
reads it and calls those of the forms inside it. A form that cannot be read is reported where the
cursor stands, and the cursor goes on past the next semicolon.

Nothing in these functions says that they end, or that the cursor stays among the tokens, so both
can fail to be: a function gets a number of turns, which bounds its loops and how deep it nests, and
a look at a token that is not there has an outcome of its own.

* `Cursor` : a place among the tokens, with those where the cursor was before;
* `Parser` : what reads tokens from a cursor on;
* `Parser.expression`, `Parser.program` : an expression, or all of them;
* `Expr.descend` : the expressions of a list of tokens, and the errors.
-/

namespace MiniLisp

/-- A place among the tokens, and the places where the cursor was before, last first. -/
structure Cursor where
  current : Nat
  trail : List Nat

def Cursor.next (c : Cursor) : Cursor := ⟨c.current + 1, c.current :: c.trail⟩

inductive Descent (α : Type) where
  | done (result : α) (cursor : Cursor)
  | failed (error : SyntaxError) (cursor : Cursor)
  /-- There is no token where the cursor stands. -/
  | outOfBounds
  /-- There are no turns left. -/
  | exhausted

abbrev Parser (α : Type) := List Token → Cursor → Descent α

def Descent.bind {α β : Type} (d : Descent α) (f : α → Cursor → Descent β) : Descent β :=
  match d with
  | done a c => f a c
  | failed e c => failed e c
  | outOfBounds => outOfBounds
  | exhausted => exhausted

instance : Monad Parser where
  pure a := fun _ c => .done a c
  bind x f := fun tokens c => (x tokens c).bind fun a => f a tokens

namespace Parser

/-! ## The cursor -/

def peek : Parser Token := fun tokens c =>
  match tokens[c.current]? with
  | some t => .done t c
  | none => .outOfBounds

def fail {α : Type} (error : SyntaxError) : Parser α := fun _ c => .failed error c

def exhaust {α : Type} : Parser α := fun _ _ => .exhausted

def move : Parser Unit := fun _ c => .done () c.next

def isAtEnd : Parser Bool := do return (← peek).kind == .endOfText

/-- The token at the cursor, which moves on unless this is the end of the text. -/
def advance : Parser Token := do
  let t ← peek
  if ← isAtEnd then return t
  move
  return t

/-- Is the token at the cursor of a kind? The end of the text never is. -/
def check (kind : Kind) : Parser Bool := do
  if ← isAtEnd then return false
  return (← peek).kind == kind

def matchKind (kind : Kind) : Parser Bool := do
  if ← check kind then
    let _ ← advance
    return true
  else return false

def consume (kind : Kind) (what : Expected) : Parser Token := do
  if ← check kind then advance
  else fail (.atToken (← peek) (.expected what))

/-! ## Forms -/

/-- One token that is an expression. That a literal has no value is noticed only after it. -/
def atom : Parser Expr := do
  let t ← peek
  match t.kind with
  | .keyword _ =>
    let _ ← advance
    return .keyword t []
  | .mark (.operator _) =>
    let _ ← advance
    return .operator t []
  | .number | .string =>
    let _ ← advance
    match t.literal? with
    | some value => return .atom value t
    | none => fail (.atToken t .literalWithoutValue)
  | .symbol =>
    let _ ← advance
    return .symbol t
  | _ => fail (.atToken t (.expected .expression))

/-- The names of parameters, and the parenthesis that closes their list. -/
def parameters : Nat → Parser (List Token)
  | 0 => exhaust
  | turns + 1 => do
    if ← matchKind (.mark .rightParen) then return []
    else
      let p ← consume .symbol .parameter
      return p :: (← parameters turns)

section Forms

variable (expression : Parser Expr)

def untilRightParen : Nat → Parser (List Expr)
  | 0 => exhaust
  | turns + 1 => do
    if ← check (.mark .rightParen) then return []
    else if ← isAtEnd then return []
    else
      let e ← expression
      return e :: (← untilRightParen turns)

def functionCall (turns : Nat) (name : Token) : Parser Expr := do
  let args ← untilRightParen expression turns
  let _ ← consume (.mark .rightParen) .callEnd
  return .call (.symbol name) name args

/-- The name and the parameters of a function, in either way in which they can be written. -/
def header (turns : Nat) : Parser (Token × List Token) := do
  if ← matchKind (.mark .leftParen) then
    let name ← consume .symbol .functionName
    return (name, ← parameters turns)
  else
    let name ← consume .symbol .functionName
    let _ ← consume (.mark .leftParen) .parameterList
    return (name, ← parameters turns)

def functionDefinition (turns : Nat) : Parser Expr := do
  let (name, params) ← header turns
  let body ← expression
  let _ ← consume (.mark .rightParen) .definitionEnd
  return .define 0 name params body

def plainList (turns : Nat) (head : Expr) : Parser Expr := do
  let tail ← untilRightParen expression turns
  let _ ← consume (.mark .rightParen) .listEnd
  return .list head tail

def list (turns : Nat) : Parser Expr := do
  match ← expression with
  | .symbol name => functionCall expression turns name
  | .keyword t args =>
    if t.kind = .keyword .define then functionDefinition expression turns
    else plainList expression turns (.keyword t args)
  | head => plainList expression turns head

end Forms

def expression : Nat → Parser Expr
  | 0 => exhaust
  | turns + 1 => do
    if ← matchKind (.mark .leftParen) then list (expression turns) turns
    else atom

/-! ## Programs -/

/-- Skips tokens until after a semicolon or to the end of the text. -/
def synchronize : Nat → Parser Unit
  | 0 => exhaust
  | turns + 1 => do
    if ← isAtEnd then return ()
    else
      let t ← advance
      if t.kind = .mark .semicolon then return ()
      else synchronize turns

def attempt {α : Type} (x : Parser α) : Parser (Except SyntaxError α) := fun tokens c =>
  match x tokens c with
  | .done a c => .done (.ok a) c
  | .failed e c => .done (.error e) c
  | .outOfBounds => .outOfBounds
  | .exhausted => .exhausted

/-- All expressions, and the errors; `expression` reads one of them, and `skip` the tokens after an
error. -/
def program (expression : Parser Expr) (skip : Parser Unit) : Nat → Parser Parse
  | 0 => exhaust
  | turns + 1 => do
    if ← isAtEnd then return ⟨[], []⟩
    else if ← matchKind (.mark .semicolon) then program expression skip turns
    else
      match ← attempt expression with
      | .ok e =>
        let p ← program expression skip turns
        return { p with expressions := e :: p.expressions }
      | .error error =>
        skip
        let p ← program expression skip turns
        return { p with errors := error :: p.errors }

end Parser

namespace Expr

/-- Tokens that end with the end of the text; one that is missing stands on the line of the last
token. -/
def ended (tokens : List Token) : List Token :=
  if tokens.getLast?.map (·.kind) = some .endOfText then tokens
  else tokens ++ [.endOfText ((tokens.getLast?.map (·.line)).getD 1)]

/-- The expressions that tokens form up to the end of the text, and the errors, read by recursive
descent. -/
def descend (turns : Nat) (tokens : List Token) : Descent Parse :=
  Parser.program (Parser.expression turns) (Parser.synchronize turns) turns (ended tokens) ⟨0, []⟩

end Expr

end MiniLisp
