import MiniLisp.RuntimeError
import MiniLisp.Value.Basic

/-!
# Values as list elements

A list holds expressions, so a value is stored as the expression that evaluates to it, whatever the
scope: a literal, a keyword, or list data. A function has no such expression.
-/

namespace MiniLisp

/-- The expression that stands for a value in a list; its token says that it is on line `line`. -/
def Value.datum (line : Nat) : Value → Except RuntimeError.Cause Expr
  | nil => .ok (.keyword ⟨.keyword .nilConst, "nil", none, line⟩ [])
  | bool true => .ok (.keyword ⟨.keyword .trueConst, "true", none, line⟩ [])
  | bool false => .ok (.keyword ⟨.keyword .falseConst, "false", none, line⟩ [])
  | number n => .ok (.atom (.number n) ⟨.number, n.text, some (.number n), line⟩)
  | string s => .ok (.atom (.string s) ⟨.string, "\"" ++ s ++ "\"", some (.string s), line⟩)
  | list l => .ok (.data l.label l.head l.tail)
  | function _ => .error .functionInList

end MiniLisp
