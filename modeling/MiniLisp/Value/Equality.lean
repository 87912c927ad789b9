import MiniLisp.Value.Basic

/-!
# Equality of values

Values of different kinds differ. Lists are equal if they are one list or have equal elements;
functions are equal only if they are one function.

* `Expr.same` : equality of list elements, which looks neither at lines nor at how a number was
  written;
* `Value.same` : equality of values.
-/

namespace MiniLisp

namespace Expr

mutual

/-- Are two list elements equal? Definitions are if they are one definition. -/
def same : Expr → Expr → Bool
  | atom a _, atom b _ => a.eqv b
  | symbol a, symbol b => a.lexeme == b.lexeme
  | operator a xs, operator b ys => a.kind == b.kind && sameAll xs ys
  | keyword a xs, keyword b ys => a.kind == b.kind && sameAll xs ys
  | list a xs, list b ys => same a b && sameAll xs ys
  | data i a xs, data j b ys => i == j || (same a b && sameAll xs ys)
  | define i _ _ _, define j _ _ _ => i == j
  | call a _ xs, call b _ ys => same a b && sameAll xs ys
  | _, _ => false

/-- Are two lists of elements as long as each other, and equal place by place? -/
def sameAll : List Expr → List Expr → Bool
  | [], [] => true
  | x :: xs, y :: ys => same x y && sameAll xs ys
  | _, _ => false

end

end Expr

/-- Are two values equal? -/
def Value.same : Value → Value → Bool
  | nil, nil => true
  | bool a, bool b => a == b
  | number a, number b => a.eqv b
  | string a, string b => a == b
  | list a, list b => a.label == b.label || (a.head.same b.head && Expr.sameAll a.tail b.tail)
  | function a, function b => a.label == b.label
  | _, _ => false

end MiniLisp
