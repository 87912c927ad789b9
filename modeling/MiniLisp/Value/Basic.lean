import MiniLisp.Expr.Basic

/-!
# Values

What expressions evaluate to. A list keeps its elements as expressions that are not evaluated until
one of them is taken out; a function keeps its definition and the scope it was defined in.

* `Value.text` : the printed form of a value;
* `Value.isTruthy` : which values count as true in a condition.
-/

namespace MiniLisp

abbrev ScopeId := Nat

/-- A list: it has a first element, and an identity. -/
structure ListValue where
  label : Nat
  head : Expr
  tail : List Expr

/-- A function: a definition and the scope around its body. Two functions are the same only if they
have the same label. -/
structure Closure where
  label : Nat
  name : Token
  params : List Token
  body : Expr
  scope : ScopeId

inductive Value where
  | nil
  | bool (b : Bool)
  | number (n : Binary64)
  | string (s : String)
  | list (l : ListValue)
  | function (f : Closure)

namespace ListValue

def elements (l : ListValue) : List Expr := l.head :: l.tail

def text (l : ListValue) : String := "(" ++ l.head.text ++ Expr.spacedText l.tail ++ ")"

end ListValue

namespace Closure

def arity (f : Closure) : Nat := f.params.length

def text (f : Closure) : String := "<fn " ++ f.name.lexeme ++ ">"

def detail (f : Closure) : String := "<fn " ++ f.name.lexeme ++ "/" ++ toString f.arity ++ ">"

def declaration (f : Closure) : Expr := .define 0 f.name f.params f.body

end Closure

namespace Value

def text : Value → String
  | nil => "nil"
  | bool true => "true"
  | bool false => "false"
  | number n => n.text
  | string s => s
  | list l => l.text
  | function f => f.text

def isNil : Value → Bool
  | nil => true
  | _ => false

/-- Does a value count as true? All do but nil, false and zero. -/
def isTruthy : Value → Bool
  | nil => false
  | bool b => b
  | number n => !n.isZero
  | _ => true

end Value

def Literal.value : Literal → Value
  | number n => .number n
  | string s => .string s

end MiniLisp
