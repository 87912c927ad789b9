import MiniLisp.Token.Basic

/-!
# Errors in a text

A text can fail to be cut into tokens, or its tokens to form expressions. Each failure is a cause, a
line, and the place on that line; `SyntaxError.text` is its one-line form.
-/

namespace MiniLisp

inductive Location where
  | unknown
  | atEnd
  | at (lexeme : String)
  deriving DecidableEq

/-- A place in a list of tokens: at a token, or after the last one. -/
def Location.ofToken (token : Token) : Location :=
  if token.kind = .endOfText then .atEnd else .at token.lexeme

def Location.text : Location → String
  | unknown => ""
  | atEnd => " at end"
  | .at lexeme => " at '" ++ lexeme ++ "'"

/-- What the reader of expressions waits for when something else stands there. -/
inductive Expected where
  | expression
  | listEnd
  | callEnd
  | functionName
  | parameterList
  | parameter
  | definitionEnd
  deriving DecidableEq, Repr

def Expected.message : Expected → String
  | expression => "Expect expression."
  | listEnd => "Expect ')' after expression."
  | callEnd => "Expect ')' after function call."
  | functionName => "Expect function name."
  | parameterList => "Expect '(' after function name."
  | parameter => "Expect parameter name."
  | definitionEnd => "Expect ')' after function definition."

inductive SyntaxError.Cause where
  | invalidNumber (text : String)
  | unterminatedString
  | unexpectedCharacter (c : Char)
  | unexpectedEnd
  | expected (what : Expected)
  | literalWithoutValue
  deriving DecidableEq

def SyntaxError.Cause.message : SyntaxError.Cause → String
  | invalidNumber text => "Invalid number '" ++ text ++ "'."
  | unterminatedString => "Unterminated string."
  | unexpectedCharacter c => "Unexpected character '" ++ String.singleton c ++ "'."
  | unexpectedEnd => "Unexpected end of input."
  | expected what => what.message
  | literalWithoutValue => "Literal token without a value."

structure SyntaxError where
  line : Nat
  location : Location
  cause : SyntaxError.Cause
  deriving DecidableEq

namespace SyntaxError

def message (e : SyntaxError) : String := e.cause.message

def text (e : SyntaxError) : String :=
  "[line " ++ toString e.line ++ "] Error" ++ e.location.text ++ ": " ++ e.message

def atToken (token : Token) (cause : Cause) : SyntaxError :=
  ⟨token.line, .ofToken token, cause⟩

end SyntaxError

end MiniLisp
