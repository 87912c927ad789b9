import MiniLisp.SyntaxError
import MiniLisp.Token.Lexer

/-!
# Tokens of a text

`scan` turns the lexemes of a text into tokens, those that are malformed into errors, and ends with
the token for the end of the text. Every token and error has the line on which it starts. Should the
lexer fail, its failures are errors too.
-/

namespace MiniLisp

namespace Text

/-- The first characters of a text, as many as `n` bytes hold. -/
def takeBytes : Nat → List Char → List Char
  | _, [] => []
  | n, c :: text => if c.utf8Size ≤ n then c :: takeBytes (n - c.utf8Size) text else []

/-- A text without its first characters, as many as `n` bytes hold. -/
def dropBytes : Nat → List Char → List Char
  | _, [] => []
  | n, c :: text => if c.utf8Size ≤ n then dropBytes (n - c.utf8Size) text else c :: text

end Text

def slice (source : String) (start stop : Nat) : String :=
  String.ofList (Text.takeBytes (stop - start) (Text.dropBytes start source.toList))

/-- The line of the character before which a text has `offset` bytes. -/
def lineAt (source : String) (offset : Nat) : Nat :=
  1 + (Text.takeBytes offset source.toList).count '\n'

def lexemes (source : String) : List Span := (lex source).lexemes?.getD []

/-- The token of a lexeme with its text and line, or the error that it is. -/
def Lexeme.toToken (lexeme : Lexeme) (text : String) (line : Nat) : Except SyntaxError Token :=
  match lexeme with
  | token kind => .ok ⟨kind, text, none, line⟩
  | number n => .ok ⟨.number, text, some (.number n), line⟩
  | string s => .ok ⟨.string, text, some (.string s), line⟩
  | invalidNumber => .error ⟨line, .unknown, .invalidNumber text⟩
  | unterminatedString => .error ⟨line, .unknown, .unterminatedString⟩
  | unexpected c => .error ⟨line, .unknown, .unexpectedCharacter c⟩

def Span.toToken (source : String) (s : Span) : Except SyntaxError Token :=
  s.lexeme.toToken (slice source s.start s.stop) (lineAt source s.start)

def LexFailure.toError (source : String) (f : LexFailure) : SyntaxError :=
  match f.found? with
  | some c => ⟨lineAt source f.start, .unknown, .unexpectedCharacter c⟩
  | none => ⟨lineAt source f.start, .unknown, .unexpectedEnd⟩

def SyntaxError.ofResult? : Except SyntaxError Token → Option SyntaxError
  | .ok _ => none
  | .error e => some e

/-- What scanning a text gives: the tokens, and what had to be left out. -/
structure Scan where
  tokens : List Token
  errors : List SyntaxError
  deriving DecidableEq

def scan (source : String) : Scan :=
  let results := (lexemes source).map (Span.toToken source)
  ⟨results.filterMap Except.toOption ++ [.endOfText (lineAt source source.utf8ByteSize)],
    results.filterMap SyntaxError.ofResult? ++
      (lex source).failures.map (LexFailure.toError source)⟩

end MiniLisp
