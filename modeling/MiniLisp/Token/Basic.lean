import MiniLisp.Binary64.Decimal
import MiniLisp.Token.Kind

/-!
# Tokens

A token is a piece of the source with its kind, its text, its value if it is a number or a string,
and its line, counted from 1.
-/

namespace MiniLisp

inductive Literal where
  | number (n : Binary64)
  | string (s : String)
  deriving DecidableEq

structure Token where
  kind : Kind
  lexeme : String
  literal? : Option Literal
  line : Nat
  deriving DecidableEq

namespace Literal

/-- The printed form: a string stands between quotes, as it was written. -/
def text : Literal → String
  | number n => n.text
  | string s => "\"" ++ s ++ "\""

/-- Equality of literals: numbers by their place on the line, strings by their characters. -/
def eqv : Literal → Literal → Bool
  | number a, number b => a.eqv b
  | string a, string b => a == b
  | _, _ => false

end Literal

def Token.endOfText (line : Nat) : Token := ⟨.endOfText, "", none, line⟩

end MiniLisp
