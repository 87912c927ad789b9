import MiniLisp.Token.Basic

/-!
# Expressions

Code and list data have one type. The same form can be written in two ways only for definitions, and
both give one tree.

* `Expr.token` : the token that locates an expression in the source;
* `Expr.text` : its printed form.
-/

namespace MiniLisp

/-- An expression. The labels tell apart lists and definitions that look alike: a definition keeps
its label wherever it is copied to, and so does list data. -/
inductive Expr where
  /-- A number or a string. -/
  | atom (value : Literal) (token : Token)
  /-- A name. -/
  | symbol (name : Token)
  /-- An operator; read from a text it has no operands of its own. -/
  | operator (op : Token) (operands : List Expr)
  /-- A keyword; read from a text it has no arguments of its own. -/
  | keyword (token : Token) (args : List Expr)
  /-- A parenthesized form whose head is neither a symbol nor the keyword of a definition. -/
  | list (head : Expr) (tail : List Expr)
  /-- List data as an element of a list; it stands for itself. -/
  | data (label : Nat) (head : Expr) (tail : List Expr)
  /-- A function definition. -/
  | define (label : Nat) (name : Token) (params : List Token) (body : Expr)
  /-- A call; `token` is where it is blamed if it fails. -/
  | call (callee : Expr) (token : Token) (args : List Expr)

namespace Expr

def token : Expr → Token
  | atom _ token => token
  | symbol name => name
  | operator op _ => op
  | keyword token _ => token
  | list head _ => head.token
  | data _ head _ => head.token
  | define _ name _ _ => name
  | call _ token _ => token

/-- A name and parameter names in parentheses, as a definition lists them. -/
def paramsText (params : List Token) : String :=
  "(" ++ " ".intercalate (params.map (·.lexeme)) ++ ")"

mutual

def text : Expr → String
  | atom value _ => value.text
  | symbol name => name.lexeme
  | operator op [] => op.lexeme
  | operator op (x :: xs) => "(" ++ op.lexeme ++ spacedText (x :: xs) ++ ")"
  | keyword token [] => token.lexeme
  | keyword token (x :: xs) => "(" ++ token.lexeme ++ spacedText (x :: xs) ++ ")"
  | list head tail => "(" ++ head.text ++ spacedText tail ++ ")"
  | data _ head tail => "(" ++ head.text ++ spacedText tail ++ ")"
  | define _ name params body =>
    "(define " ++ name.lexeme ++ " " ++ paramsText params ++ " " ++ body.text ++ ")"
  | call callee _ args => "(" ++ callee.text ++ spacedText args ++ ")"

def spacedText : List Expr → String
  | [] => ""
  | x :: xs => " " ++ x.text ++ spacedText xs

end

end Expr

end MiniLisp
