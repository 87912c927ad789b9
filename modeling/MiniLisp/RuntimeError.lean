import MiniLisp.Token.Basic

/-!
# Errors of evaluation

An error is a cause and the token that is blamed for it. `RuntimeError.text` is the one-line form;
some causes come with a note that says more.
-/

namespace MiniLisp

def Keyword.operands? : Keyword → Option Nat
  | cons | set | and | or => some 2
  | car | cdr | not | isNumber | isSymbol | isList | isNil => some 1
  | define | cond | nilConst | trueConst | falseConst => none

inductive RuntimeError.Cause where
  | undefinedVariable (name : String)
  | badHead
  | notAFunction
  | wrongArity (name : String) (params : List String) (given : Nat)
  | notTwoOperands
  | notAddable
  | notNumbers
  | invalidOperator
  | operandCount (form : Keyword)
  | notAList
  | functionInList
  | noTrueCondition
  | notASymbol
  | strayDefine
  | unknownKeyword
  deriving DecidableEq

namespace RuntimeError.Cause

def countText (form : Keyword) : String :=
  match form.operands?.getD 0 with
  | 1 => "1 operand"
  | n => toString n ++ " operands"

def message : Cause → String
  | undefinedVariable name => "Undefined variable '" ++ name ++ "'."
  | badHead => "Cannot evaluate a list with this head."
  | notAFunction => "Can only call functions."
  | wrongArity _ params given =>
    "Expected " ++ toString params.length ++ " arguments but got " ++ toString given ++ "."
  | notTwoOperands => "Binary operation must only have two operands"
  | notAddable => "Operands must be two numbers or two strings."
  | notNumbers => "Operators must be numbers"
  | invalidOperator => "Invalid operator"
  | operandCount form => form.spelling.toUpper ++ " operation must have " ++ countText form
  | notAList => "CDR operation must have a list as the first operand"
  | functionInList => "Cannot store a function in a list."
  | noTrueCondition => "Lack of true condition"
  | notASymbol => "SET operation must have a symbol as the first operand"
  | strayDefine => "Unexpected 'define' outside a function definition."
  | unknownKeyword => "Unknown keyword."

def note? : Cause → Option String
  | wrongArity name params _ =>
    some ("'" ++ name ++ "' is declared as (" ++ " ".intercalate (name :: params) ++ ")")
  | _ => none

end RuntimeError.Cause

structure RuntimeError where
  token : Token
  cause : RuntimeError.Cause
  deriving DecidableEq

namespace RuntimeError

def message (e : RuntimeError) : String := e.cause.message

def note? (e : RuntimeError) : Option String := e.cause.note?

def text (e : RuntimeError) : String :=
  "[line " ++ toString e.token.line ++ "] Runtime Error: " ++ e.message

end RuntimeError

end MiniLisp
