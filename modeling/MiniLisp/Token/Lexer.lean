import MiniLisp.Token.Piece

/-!
# The lexer

A text is read from its start by rules. A rule reads some characters at a place of the text, or it
does not apply there. Rules are built from others; alternatives are tried in order, and repetitions
go as far as they can.

* `Rule` : what is read at a place, and the furthest place where something else was looked for;
* `Rule.lexer` : gaps and lexemes up to the end of the text;
* `lex` : the lexemes of a text, or where they end too early.
-/

namespace MiniLisp

open Text

inductive Lexeme where
  | token (kind : Kind)
  | number (n : Binary64)
  | string (s : String)
  | invalidNumber
  | unterminatedString
  | unexpected (c : Char)
  deriving DecidableEq

/-- A lexeme and the bytes it takes, `start` included and `stop` not. -/
structure Span where
  start : Nat
  stop : Nat
  lexeme : Lexeme
  deriving DecidableEq

/-- How many bytes stand before a place in a text, and the characters after it. -/
structure Place where
  offset : Nat
  rest : List Char

namespace Place

/-- The place after `text`, where `rest` follows. -/
def after (p : Place) (text rest : List Char) : Place :=
  ⟨p.offset + (String.ofList text).utf8ByteSize, rest⟩

def further : Option Place → Option Place → Option Place
  | some p, some q => if p.offset < q.offset then some q else some p
  | none, q? => q?
  | p?, none => p?

end Place

/-- What a rule comes to: a result and the place after it, if the rule applies; and the furthest
place where something else was looked for. -/
structure Rule.Outcome (α : Type) where
  result? : Option (α × Place)
  missed? : Option Place

abbrev Rule (α : Type) := Place → Rule.Outcome α

namespace Rule

section Combinators

variable {α β : Type}

def andThen (x : Rule α) (f : α → Rule β) : Rule β := fun p =>
  match x p with
  | ⟨none, missed?⟩ => ⟨none, missed?⟩
  | ⟨some (a, q), missed?⟩ => ⟨(f a q).result?, Place.further missed? (f a q).missed?⟩

instance : Monad Rule where
  pure a := fun p => ⟨some (a, p), none⟩
  bind := andThen

def satisfy (test : Char → Bool) : Rule Char := fun p =>
  match p.rest with
  | [] => ⟨none, some p⟩
  | c :: rest => if test c then ⟨some (c, p.after [c] rest), none⟩ else ⟨none, some p⟩

def run (test : Char → Bool) : Rule (List Char) := fun p =>
  let text := p.rest.takeWhile test
  let q := p.after text (p.rest.dropWhile test)
  ⟨some (text, q), some q⟩

def atEnd : Rule Unit := fun p => if p.rest.isEmpty then ⟨some ((), p), none⟩ else ⟨none, some p⟩

/-- Reads by the first rule, or where it does not apply by the second. -/
def orElse (x y : Rule α) : Rule α := fun p =>
  match x p with
  | ⟨some result, missed?⟩ => ⟨some result, missed?⟩
  | ⟨none, missed?⟩ => ⟨(y p).result?, Place.further missed? (y p).missed?⟩

def choice (rules : List (Rule α)) : Rule α := rules.foldr orElse fun _ => ⟨none, none⟩

def optional (x : Rule α) : Rule (Option α) := orElse (do return some (← x)) (pure none)

/-- Reads by a rule as often as it applies and takes characters. -/
def many (x : Rule α) (p : Place) : Outcome (List α) :=
  match x p with
  | ⟨none, missed?⟩ => ⟨some ([], p), missed?⟩
  | ⟨some (a, q), missed?⟩ =>
    if q.rest.length < p.rest.length then
      let more := many x q
      ⟨more.result?.map fun (as, r) => (a :: as, r), Place.further missed? more.missed?⟩
    else ⟨some ([], p), missed?⟩
termination_by p.rest.length

def spanned (x : Rule Lexeme) : Rule Span := fun p =>
  match x p with
  | ⟨none, missed?⟩ => ⟨none, missed?⟩
  | ⟨some (lexeme, q), missed?⟩ => ⟨some (⟨p.offset, q.offset, lexeme⟩, q), missed?⟩

end Combinators

def number : Rule Lexeme := do
  let c ← satisfy Char.isDigit
  let cs ← run isNumberChar
  return match Piece.numberValue? (c :: cs) with
    | some n => .number n
    | none => .invalidNumber

/-- Characters between two quotes, or from a quote to the end of the text. -/
def string : Rule Lexeme := do
  let _ ← satisfy (· == '"')
  let body ← run (· != '"')
  let close ← optional (satisfy (· == '"'))
  return if close.isSome then .string (String.ofList body) else .unterminatedString

/-- A letter or underscore, and the characters of a word after it. -/
def word : Rule Lexeme := do
  let c ← satisfy isWordStart
  let cs ← run isWordChar
  return .token (Kind.ofWord (String.ofList (c :: cs)))

def mark (m : Mark) : Rule Lexeme := do
  let _ ← satisfy (· == m.char)
  return .token (.mark m)

def anyMark : Rule Lexeme :=
  choice ([.leftParen, .rightParen, .dot, .semicolon, .operator .plus, .operator .minus,
    .operator .star, .operator .slash, .operator .equal, .operator .less,
    .operator .greater].map mark)

/-- Any character. -/
def unexpected : Rule Lexeme := do return .unexpected (← satisfy fun _ => true)

def comment : Rule Unit := do
  let _ ← satisfy (· == '/')
  let _ ← satisfy (· == '/')
  let _ ← run (· != '\n')

def whitespace : Rule Unit := do
  let _ ← satisfy isBlank
  let _ ← run isBlank

def skip : Rule Unit := do let _ ← many (choice [comment, whitespace])

def lexeme : Rule Lexeme := choice [number, string, word, anyMark, unexpected]

/-- Lexemes up to the end of the text, with gaps around them. -/
def lexer : Rule (List Span) := do
  skip
  let spans ← many do
    let span ← spanned lexeme
    skip
    return span
  atEnd
  return spans

end Rule

/-- A place where no lexeme stands: how many bytes are before it, and the character there unless it
is the end of the text. -/
structure LexFailure where
  start : Nat
  found? : Option Char
  deriving DecidableEq

/-- What the lexer gives: the lexemes, unless it fails, and its failures. -/
structure Lexing where
  lexemes? : Option (List Span)
  failures : List LexFailure
  deriving DecidableEq

/-- What the lexer gives on a text. -/
@[irreducible] def lex (source : String) : Lexing :=
  match Rule.lexer ⟨0, source.toList⟩ with
  | ⟨some (spans, _), _⟩ => ⟨some spans, []⟩
  | ⟨none, missed?⟩ => ⟨none, missed?.toList.map fun p => ⟨p.offset, p.rest.head?⟩⟩

end MiniLisp
